import Dispatcher.Hub.Registry

namespace Dispatcher
open Tables

namespace Hub

variable {hub : Hub}

def roster (hub : Hub) : List (WorkerId × SocketId) :=
  hub.workers.rows.filterMap fun p => (hub.states[p.2]?).map fun state => (p.1, state.ws)

theorem roster_entry {p : WorkerId × StateRef} (h : p ∈ hub.workers.rows) :
    ∃ state, hub.states[p.2]? = some state ∧ state.workerId = p.1 :=
  Option.map_eq_some_iff.mp (hub.named p h)

theorem roster_keys (hub : Hub) : hub.roster.map Prod.fst = hub.workers.rows.map Prod.fst := by
  rw [roster, List.map_filterMap, ← List.filterMap_eq_map]
  apply List.filterMap_congr
  intro p hp
  obtain ⟨state, found, _⟩ := roster_entry hp
  simp [found]

theorem roster_nodup (hub : Hub) : (hub.roster.map Prod.fst).Nodup :=
  roster_keys hub ▸ hub.workers.unique

theorem mem_roster {workerId : WorkerId} {ws : SocketId} :
    (workerId, ws) ∈ hub.roster ↔ hub.socketOf workerId = some ws := by
  rw [roster, List.mem_filterMap]
  constructor
  · rintro ⟨p, hp, here⟩
    obtain ⟨state, found, same⟩ := Option.map_eq_some_iff.mp here
    cases same
    simp [socketOf, get_of_mem hp, found]
  · intro socket
    obtain ⟨state, found, rfl⟩ := Option.map_eq_some_iff.mp socket
    obtain ⟨r, hr, found⟩ := Option.bind_eq_some_iff.mp found
    exact ⟨(workerId, r), get_mem hr, by simp [found]⟩

theorem find_roster (hub : Hub) (workerId : WorkerId) :
    (hub.roster.find? fun p => p.1 = workerId).map Prod.snd = hub.socketOf workerId := by
  cases found : hub.roster.find? fun p => p.1 = workerId with
  | some p =>
    have named : p.1 = workerId := by simpa using List.find?_some found
    subst named
    exact (mem_roster.mp (List.mem_of_find?_eq_some found)).symm
  | none =>
    cases socket : hub.socketOf workerId with
    | none => rfl
    | some ws =>
      have absent := List.find?_eq_none.mp found _ (mem_roster.mpr socket)
      exact absurd (decide_eq_true rfl) absent

/-- The worker whose handler a message on this socket gets. -/
theorem stateByWs_roster (hub : Hub) (ws : SocketId) :
    ((hub.stateByWs ws).bind (hub.states[·]?)).map WorkerState.workerId =
      (hub.roster.find? fun p => p.2 = ws).map Prod.fst := by
  rw [roster, List.find?_filterMap, stateByWs]
  have same : (fun p : WorkerId × StateRef => ((hub.states[p.2]?).map fun state =>
      (p.1, state.ws)).any fun p => decide (p.2 = ws)) =
        fun p => (hub.states[p.2]?).any fun state => decide (state.ws = ws) := by
    funext p
    cases hub.states[p.2]? <;> rfl
  rw [same]
  cases found : hub.workers.rows.find? fun p =>
      (hub.states[p.2]?).any fun state => decide (state.ws = ws) with
  | none => rfl
  | some p =>
    obtain ⟨state, here, named⟩ := roster_entry (List.mem_of_find?_eq_some found)
    simp [here, named]

theorem roster_modify (hub : Hub) (r : StateRef) {f : WorkerState → WorkerState}
    (hf : ∀ state, (f state).workerId = state.workerId) (hw : ∀ state, (f state).ws = state.ws) :
    (hub.modify r f hf).roster = hub.roster := by
  unfold roster
  apply List.filterMap_congr
  intro p _
  exact map_modify hub r p.2 hf fun state => by rw [hw]

theorem roster_remove (hub : Hub) (workerId : WorkerId) :
    (hub.remove workerId).roster = hub.roster.filter fun p => p.1 ≠ workerId := by
  simp only [roster, remove, Table.delete, List.filterMap_filter, List.filter_filterMap]
  congr 1
  funext p
  by_cases own : p.1 = workerId <;> cases hub.states[p.2]? <;> simp [own, Option.filter]

theorem roster_deregister (hub : Hub) (workerId : WorkerId) (ws : SocketId) :
    (hub.deregister workerId ws).roster = hub.roster.filter fun p => p ≠ (workerId, ws) := by
  unfold deregister
  split
  case h_1 none =>
    have gone : hub.socketOf workerId = Option.none := by simp [socketOf, none]
    rw [eq_comm, List.filter_eq_self]
    rintro p hp
    rw [decide_eq_true_iff]
    rintro rfl
    cases (mem_roster.mp hp).symm.trans gone
  case h_2 state found =>
    have socket : hub.socketOf workerId = some state.ws := by simp [socketOf, found]
    split
    case isTrue own =>
      subst own
      rw [roster_remove]
      apply List.filter_congr
      rintro ⟨w, ws⟩ hp
      rw [decide_eq_decide]
      constructor
      · rintro other same
        exact other (Prod.mk.inj same).1
      · rintro other rfl
        have same := (mem_roster.mp hp).symm.trans socket
        cases same
        exact other rfl
    case isFalse other =>
      rw [eq_comm, List.filter_eq_self]
      rintro p hp
      rw [decide_eq_true_iff]
      rintro rfl
      exact other (Option.some.inj (socket.symm.trans (mem_roster.mp hp)))

/-- After a registration the map has the new entry, and those of the other workers. -/
theorem mem_roster_set {state : WorkerState} {p : WorkerId × SocketId}
    (h : p ∈ (hub.set state).roster) : p = (state.workerId, state.ws) ∨ p ∈ hub.roster := by
  obtain ⟨w, ws⟩ := p
  have socket := mem_roster.mp h
  rw [socketOf_set] at socket
  split at socket
  case isTrue same =>
    cases socket
    exact .inl (by rw [same])
  case isFalse other => exact .inr (mem_roster.mpr socket)

theorem roster_set_keys {state : WorkerState} {p : WorkerId × SocketId}
    (h : p = (state.workerId, state.ws) ∨ p ∈ hub.roster) :
    p.1 ∈ (hub.set state).roster.map Prod.fst := by
  have registered : ∃ ws, (hub.set state).socketOf p.1 = some ws := by
    rw [socketOf_set]
    split
    · exact ⟨_, rfl⟩
    case isFalse other =>
      rcases h with rfl | h
      · exact absurd rfl other
      · exact ⟨_, mem_roster.mp h⟩
  obtain ⟨ws, socket⟩ := registered
  exact List.mem_map.mpr ⟨(p.1, ws), mem_roster.mpr socket, rfl⟩

end Hub

end Dispatcher
