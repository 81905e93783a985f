import Dispatcher.Hub.Control
import Dispatcher.Lib.Overwrites

namespace Dispatcher
open Tables Runs Overwrites

namespace Handler

def write (workerId : WorkerId) : Handler → Option (Write Int)
  | .onHello _ w limit false => if w = workerId then some (.put limit) else none
  | .setConcurrency w limit false => if w = workerId then some (.update limit) else none
  | .onHello _ _ _ true | .setConcurrency _ _ true | .onMessage .. => none

/-- The entry that a suspended hello of the worker is to make. -/
def greeting (workerId : WorkerId) : Handler → Option (Write Int)
  | .onHello _ w limit _ => if w = workerId then some (.put limit) else none
  | .setConcurrency .. | .onMessage .. => none

end Handler

namespace HubProcess

def pending (workerId : WorkerId) (handlers : List Handler) : List (Write Int) :=
  handlers.filterMap (Handler.write workerId)

def greetings (workerId : WorkerId) (handlers : List Handler) : List (Write Int) :=
  handlers.filterMap (Handler.greeting workerId)

def regLimit (s : HubProcess) (workerId : WorkerId) : Option Int :=
  (s.workerReg.lookup workerId).map WorkerReg.concurrencyLimit

def hubLimit (s : HubProcess) (workerId : WorkerId) : Option Int :=
  ((s.hub.get workerId).bind (s.hub.states[·]?)).map WorkerState.concurrencyLimit

/-- The last write that a worker's handlers have begun takes effect, and after the
others; so do their registrations; no call changes the limit while a hello is suspended. -/
def Ordered (workerId : WorkerId) : Event HubProcess HubAction → Prop
  | ⟨s, .write i, _⟩ => ((s.handlers[i]?).bind (Handler.write workerId)).isSome →
    pending workerId (s.handlers.drop (i + 1)) ≠ [] ∨ pending workerId (s.handlers.take i) = []
  | ⟨s, .writeFails i, _⟩ => ((s.handlers[i]?).bind (Handler.write workerId)).isSome →
    pending workerId (s.handlers.drop (i + 1)) ≠ []
  | ⟨s, .resume i _, _⟩ => ((s.handlers[i]?).bind (Handler.greeting workerId)).isSome →
    greetings workerId (s.handlers.drop (i + 1)) ≠ [] ∨ greetings workerId (s.handlers.take i) = []
  | ⟨s, .setConcurrency w limit, _⟩ => w = workerId →
    (s.hub.setConcurrency s.isOpen w limit).isSome → greetings workerId s.handlers = []
  | _ => True

instance (workerId : WorkerId) (e : Event HubProcess HubAction) : Decidable (Ordered workerId e) :=
  match e with
  | ⟨_, .write _, _⟩ | ⟨_, .writeFails _, _⟩ | ⟨_, .resume .., _⟩ | ⟨_, .setConcurrency .., _⟩ =>
    inferInstanceAs (Decidable (_ → _))
  | ⟨_, .connection _, _⟩ | ⟨_, .message .., _⟩ | ⟨_, .closing _, _⟩ | ⟨_, .closed _, _⟩
  | ⟨_, .pingAll, _⟩ | ⟨_, .sendJob .., _⟩ | ⟨_, .fail .., _⟩ | ⟨_, .others _, _⟩ =>
    inferInstanceAs (Decidable True)

/-- The row is to end with the limit that the worker's entry is to end with. -/
structure Agreeing (workerId : WorkerId) (s : HubProcess) : Prop where
  agree : ∀ limit, settle (s.hubLimit workerId) (greetings workerId s.handlers) = some limit →
    settle (s.regLimit workerId) (pending workerId s.handlers) = some limit
  /-- No call is waiting behind a hello. -/
  order : (pending workerId s.handlers).Pairwise fun w w' => w.puts = true → w'.puts = true

variable {workerId : WorkerId} {s s' : HubProcess}

theorem pending_control (handlers : List Handler) :
    pending workerId (handlers.filter Handler.control) = pending workerId handlers := by
  rw [pending, List.filterMap_filter]
  congr 1
  funext handler
  cases handler <;> rfl

theorem greetings_control (handlers : List Handler) :
    greetings workerId (handlers.filter Handler.control) = greetings workerId handlers := by
  rw [greetings, List.filterMap_filter]
  congr 1
  funext handler
  cases handler <;> rfl

/-- A put that is pending belongs to a suspended hello. -/
theorem puts_of_pending {handlers : List Handler} (none : greetings workerId handlers = []) :
    ∀ w ∈ pending workerId handlers, w.puts = false := by
  intro w hw
  obtain ⟨handler, hh, hp⟩ := List.mem_filterMap.mp hw
  have quiet : handler.greeting workerId = Option.none :=
    List.filterMap_eq_nil_iff.mp none handler hh
  cases handler with
  | onMessage => cases hp
  | onHello ws w' limit returned =>
    cases returned with
    | true => cases hp
    | false =>
      obtain ⟨named, _⟩ := Option.ite_none_right_eq_some.mp hp
      simp [Handler.greeting, named] at quiet
  | setConcurrency w' limit returned =>
    cases returned with
    | true => cases hp
    | false =>
      obtain ⟨_, hp⟩ := Option.ite_none_right_eq_some.mp hp
      cases hp
      rfl

theorem Agreeing.quiet (h : s.Agreeing workerId) (quiet : Quiet s s') : s'.Agreeing workerId := by
  have pending : pending workerId s'.handlers = pending workerId s.handlers := by
    rw [← pending_control, quiet.handlers, pending_control]
  have greetings : greetings workerId s'.handlers = greetings workerId s.handlers := by
    rw [← greetings_control, quiet.handlers, greetings_control]
  have limits : s'.hubLimit workerId = s.hubLimit workerId ∨ s'.hubLimit workerId = none := by
    have states : ∀ r : StateRef, (s'.hub.states[r]?).map WorkerState.concurrencyLimit =
        (s.hub.states[r]?).map WorkerState.concurrencyLimit := by
      intro r
      have same := congrArg (fun l => (l[r]?).map fun p => p.2.2) quiet.registrations
      simpa [List.getElem?_map, Option.map_map, Function.comp_def, WorkerState.registration]
        using same
    rcases quiet.entries workerId with same | gone
    · left
      rw [hubLimit, hubLimit, same]
      cases s.hub.get workerId with
      | none => rfl
      | some r => exact states r
    · exact .inr (by rw [hubLimit, gone]; rfl)
  refine ⟨?_, pending ▸ h.order⟩
  intro limit hl
  rw [pending, regLimit, quiet.workerReg]
  rw [greetings] at hl
  rcases limits with same | gone
  · exact h.agree limit (same ▸ hl)
  · rw [gone] at hl
    exact h.agree limit (settle_of_empty hl)

theorem Agreeing.hello (h : s.Agreeing workerId) {ws : SocketId} {w : WorkerId} {limit : Int}
    (hub : s'.hub = s.hub) (workerReg : s'.workerReg = s.workerReg)
    (after : s'.handlers = s.handlers ++ [.onHello ws w limit false]) : s'.Agreeing workerId := by
  have limits : s'.hubLimit workerId = s.hubLimit workerId := by rw [hubLimit, hubLimit, hub]
  have rows : s'.regLimit workerId = s.regLimit workerId := by
    rw [regLimit, regLimit, workerReg]
  by_cases named : w = workerId
  · have pending : pending workerId s'.handlers = pending workerId s.handlers ++ [.put limit] := by
      simp [HubProcess.pending, after, Handler.write, named]
    have greetings : greetings workerId s'.handlers =
        greetings workerId s.handlers ++ [.put limit] := by
      simp [HubProcess.greetings, after, Handler.greeting, named]
    constructor
    · intro limit' hl
      rw [greetings, settle_snoc] at hl
      rw [pending, settle_snoc]
      exact hl
    · rw [pending, List.pairwise_append]
      refine ⟨h.order, List.pairwise_singleton _ _, ?_⟩
      intro _ _ put hp _
      cases List.mem_singleton.mp hp
      rfl
  · have pending : pending workerId s'.handlers = pending workerId s.handlers := by
      simp [HubProcess.pending, after, Handler.write, named]
    have greetings : greetings workerId s'.handlers = greetings workerId s.handlers := by
      simp [HubProcess.greetings, after, Handler.greeting, named]
    refine ⟨?_, pending ▸ h.order⟩
    rw [limits, rows, pending, greetings]
    exact h.agree

theorem hubLimit_modify (workerId : WorkerId) {r : StateRef} {state : WorkerState} {w : WorkerId}
    {limit : Int}
    (found : s.hub.get w = some r) (hs : s.hub.states[r]? = some state)
    (hub : s'.hub = s.hub.modify r (fun state => { state with concurrencyLimit := limit })
      fun _ => rfl) :
    s'.hubLimit workerId = if w = workerId then some limit else s.hubLimit workerId := by
  rw [hubLimit, hubLimit, hub, Hub.get_modify]
  split
  next named =>
    subst named
    simp [found, Hub.states_modify, hs]
  next other =>
    cases hr : s.hub.get workerId with
    | none => rfl
    | some r' =>
      have apart : r ≠ r' := fun same => other (Hub.get_inj found (same ▸ hr))
      simp [Hub.states_modify, apart]

theorem Agreeing.called (h : s.Agreeing workerId) {r : StateRef} {state : WorkerState}
    {w : WorkerId} {limit : Int} (found : s.hub.get w = some r)
    (hs : s.hub.states[r]? = some state)
    (hub : s'.hub = s.hub.modify r (fun state => { state with concurrencyLimit := limit })
      fun _ => rfl)
    (workerReg : s'.workerReg = s.workerReg)
    (after : s'.handlers = s.handlers ++ [.setConcurrency w limit false])
    (called : w = workerId → greetings workerId s.handlers = []) : s'.Agreeing workerId := by
  have greetings : greetings workerId s'.handlers = greetings workerId s.handlers := by
    simp [HubProcess.greetings, after, Handler.greeting]
  have limits := hubLimit_modify workerId found hs hub
  have rows : s'.regLimit workerId = s.regLimit workerId := by
    rw [regLimit, regLimit, workerReg]
  by_cases named : w = workerId
  · have none := called named
    have pending : pending workerId s'.handlers =
        pending workerId s.handlers ++ [.update limit] := by
      simp [HubProcess.pending, after, Handler.write, named]
    have before : settle (s.regLimit workerId) (HubProcess.pending workerId s.handlers) =
        some state.concurrencyLimit := by
      apply h.agree
      rw [none, hubLimit, ← named, found]
      simp [settle, hs]
    constructor
    · intro limit' hl
      rw [greetings, none, limits, if_pos named] at hl
      rw [pending, settle_snoc, rows, before]
      exact hl
    · rw [pending, List.pairwise_append]
      refine ⟨h.order, List.pairwise_singleton _ _, ?_⟩
      intro w' hw _ _ puts
      rw [puts_of_pending none w' hw] at puts
      cases puts
  · have pending : pending workerId s'.handlers = pending workerId s.handlers := by
      simp [HubProcess.pending, after, Handler.write, named]
    refine ⟨?_, pending ▸ h.order⟩
    rw [limits, if_neg named, rows, pending, greetings]
    exact h.agree

/-- A write of the worker takes effect. -/
theorem Agreeing.written (h : s.Agreeing workerId) {i : Nat} {old new : Handler}
    {w : Write Int} (hi : s.handlers[i]? = some old) (writes : old.write workerId = some w)
    (ended : new.write workerId = none) (greets : new.greeting workerId = old.greeting workerId)
    (hub : s'.hub = s.hub) (rows : s'.regLimit workerId = w.apply (s.regLimit workerId))
    (after : s'.handlers = s.handlers.set i new)
    (last : pending workerId (s.handlers.drop (i + 1)) ≠ [] ∨
      pending workerId (s.handlers.take i) = []) : s'.Agreeing workerId := by
  have limits : s'.hubLimit workerId = s.hubLimit workerId := by rw [hubLimit, hubLimit, hub]
  have greetings : greetings workerId s'.handlers = greetings workerId s.handlers := by
    rw [HubProcess.greetings, after, filterMap_set_same _ hi greets, HubProcess.greetings]
  have whole : pending workerId s.handlers = pending workerId (s.handlers.take i) ++
      (w :: pending workerId (s.handlers.drop (i + 1))) := by
    rw [pending, filterMap_at _ hi, writes]
    rfl
  have left : pending workerId s'.handlers = pending workerId (s.handlers.take i) ++
      pending workerId (s.handlers.drop (i + 1)) := by
    rw [pending, after, filterMap_set _ hi, ended]
    rfl
  constructor
  · intro limit hl
    rw [limits, greetings] at hl
    rw [rows, left, settle_performed last, ← whole]
    exact h.agree limit hl
  · have order := h.order
    rw [whole] at order
    rw [left]
    exact order.sublist ((List.sublist_cons_self _ _).append_left _)

/-- A query fails, of the worker or of another. -/
theorem Agreeing.lost (h : s.Agreeing workerId) {i : Nat} {old new : Handler}
    (hi : s.handlers[i]? = some old) (ended : old.answered = some new)
    (hub : s'.hub = s.hub) (workerReg : s'.workerReg = s.workerReg)
    (after : s'.handlers = s.handlers.set i new)
    (later : (old.write workerId).isSome → pending workerId (s.handlers.drop (i + 1)) ≠ []) :
    s'.Agreeing workerId := by
  have limits : s'.hubLimit workerId = s.hubLimit workerId := by rw [hubLimit, hubLimit, hub]
  have rows : s'.regLimit workerId = s.regLimit workerId := by
    rw [regLimit, regLimit, workerReg]
  have greets : new.greeting workerId = old.greeting workerId ∧
      new.write workerId = none := by
    rcases Handler.answered_cases ended with ⟨_, _, _, rfl, rfl⟩ | ⟨_, _, rfl, rfl⟩ <;>
      exact ⟨rfl, rfl⟩
  have greetings : greetings workerId s'.handlers = greetings workerId s.handlers := by
    rw [HubProcess.greetings, after, filterMap_set_same _ hi greets.1, HubProcess.greetings]
  have left : pending workerId s'.handlers = pending workerId (s.handlers.take i) ++
      pending workerId (s.handlers.drop (i + 1)) := by
    rw [pending, after, filterMap_set _ hi, greets.2]
    rfl
  cases writes : old.write workerId with
  | none =>
    have same : pending workerId s'.handlers = pending workerId s.handlers := by
      rw [pending, after, filterMap_set_same _ hi (greets.2.trans writes.symm), pending]
    refine ⟨?_, same ▸ h.order⟩
    rw [limits, rows, same, greetings]
    exact h.agree
  | some w =>
    have whole : pending workerId s.handlers = pending workerId (s.handlers.take i) ++
        (w :: pending workerId (s.handlers.drop (i + 1))) := by
      rw [pending, filterMap_at _ hi, writes]
      rfl
    have order := h.order
    rw [whole] at order
    constructor
    · intro limit hl
      rw [limits, greetings] at hl
      have behind := (List.pairwise_cons.mp (List.pairwise_append.mp order).2.1).1
      rw [rows, left, settle_lost (later (by simp [writes])) fun put w' hw => behind w' hw put,
        ← whole]
      exact h.agree limit hl
    · rw [left]
      exact order.sublist ((List.sublist_cons_self _ _).append_left _)

theorem hubLimit_set (workerId : WorkerId) {state : WorkerState} (hub : s'.hub = s.hub.set state) :
    s'.hubLimit workerId =
      if state.workerId = workerId then some state.concurrencyLimit else s.hubLimit workerId := by
  rw [hubLimit, hubLimit, hub]
  split
  next named =>
    rw [← named, Hub.get_set]
    simp [Hub.set]
  next other =>
    rw [Hub.get_set_of_ne _ _ (Ne.symm other)]
    cases hr : s.hub.get workerId with
    | none => rfl
    | some r =>
      obtain ⟨_, hs, _⟩ := Hub.get_state hr
      rw [Option.bind_some, Option.bind_some,
        Hub.states_set _ _ (List.getElem?_eq_some_iff.mp hs).1]

/-- The handler of a hello ends. -/
theorem Agreeing.registered (h : s.Agreeing workerId) {i : Nat} {ws : SocketId} {w : WorkerId}
    {limit : Int} (hi : s.handlers[i]? = some (.onHello ws w limit true))
    (hub : s'.hub = s.hub.set ⟨ws, w, limit, 0⟩) (workerReg : s'.workerReg = s.workerReg)
    (after : s'.handlers = s.handlers.eraseIdx i)
    (last : w = workerId → greetings workerId (s.handlers.drop (i + 1)) ≠ [] ∨
      greetings workerId (s.handlers.take i) = []) : s'.Agreeing workerId := by
  have limits := hubLimit_set workerId hub
  have rows : s'.regLimit workerId = s.regLimit workerId := by
    rw [regLimit, regLimit, workerReg]
  have pending : pending workerId s'.handlers = pending workerId s.handlers := by
    rw [HubProcess.pending, after, filterMap_eraseIdx_none _ hi rfl, HubProcess.pending]
  refine ⟨?_, pending ▸ h.order⟩
  by_cases named : w = workerId
  · have greets : (Handler.onHello ws w limit true).greeting workerId = some (.put limit) :=
      if_pos named
    have whole : greetings workerId s.handlers = greetings workerId (s.handlers.take i) ++
        (.put limit :: greetings workerId (s.handlers.drop (i + 1))) := by
      rw [greetings, filterMap_at _ hi, greets]
      rfl
    have left : greetings workerId s'.handlers = greetings workerId (s.handlers.take i) ++
        greetings workerId (s.handlers.drop (i + 1)) := by
      rw [greetings, after, filterMap_eraseIdx _ hi]
      rfl
    have settled : settle ((Write.put limit).apply (s.hubLimit workerId))
        (greetings workerId (s.handlers.take i) ++ greetings workerId (s.handlers.drop (i + 1))) =
        settle (s.hubLimit workerId) (greetings workerId (s.handlers.take i) ++
          .put limit :: greetings workerId (s.handlers.drop (i + 1))) :=
      settle_performed (last named)
    intro limit' hl
    rw [rows, pending]
    apply h.agree
    rw [whole, ← settled, ← left, ← hl, limits, if_pos named]
    rfl
  · have greetings : greetings workerId s'.handlers = greetings workerId s.handlers := by
      rw [HubProcess.greetings, after, filterMap_eraseIdx_none _ hi (if_neg named),
        HubProcess.greetings]
    rw [limits, if_neg named, rows, pending, greetings]
    exact h.agree

theorem Agreeing.returned (h : s.Agreeing workerId) {i : Nat} {w : WorkerId} {limit : Int}
    (hi : s.handlers[i]? = some (.setConcurrency w limit true)) (hub : s'.hub = s.hub)
    (workerReg : s'.workerReg = s.workerReg) (after : s'.handlers = s.handlers.eraseIdx i) :
    s'.Agreeing workerId := by
  have pending : pending workerId s'.handlers = pending workerId s.handlers := by
    rw [HubProcess.pending, after, filterMap_eraseIdx_none _ hi rfl, HubProcess.pending]
  have greetings : greetings workerId s'.handlers = greetings workerId s.handlers := by
    rw [HubProcess.greetings, after, filterMap_eraseIdx_none _ hi rfl, HubProcess.greetings]
  refine ⟨?_, pending ▸ h.order⟩
  rw [hubLimit, hub, regLimit, workerReg, pending, greetings]
  exact h.agree

/-- A handler of another worker has its query answered. -/
theorem Agreeing.elsewhere (h : s.Agreeing workerId) {i : Nat} {old new : Handler}
    (hi : s.handlers[i]? = some old) (same : new.write workerId = old.write workerId)
    (greets : new.greeting workerId = old.greeting workerId) (hub : s'.hub = s.hub)
    (rows : s'.regLimit workerId = s.regLimit workerId)
    (after : s'.handlers = s.handlers.set i new) : s'.Agreeing workerId := by
  have pending : pending workerId s'.handlers = pending workerId s.handlers := by
    rw [HubProcess.pending, after, filterMap_set_same _ hi same, HubProcess.pending]
  have greetings : greetings workerId s'.handlers = greetings workerId s.handlers := by
    rw [HubProcess.greetings, after, filterMap_set_same _ hi greets, HubProcess.greetings]
  refine ⟨?_, pending ▸ h.order⟩
  rw [hubLimit, hub, rows, pending, greetings]
  exact h.agree

theorem regLimit_upsert (s : HubProcess) (w : WorkerId) (limit : Int) :
    (s.upsert w limit).regLimit workerId =
      if w = workerId then some limit else s.regLimit workerId := by
  simp only [regLimit, upsert, Table.lookup_update, Table.lookup_insert, Option.map_map]
  split
  next named =>
    cases hr : s.workerReg.lookup workerId with
    | none => simp [named]
    | some row => simp [named, Table.lookup_key hr]
  next other =>
    cases hr : s.workerReg.lookup workerId with
    | none => rfl
    | some row =>
      have apart : row.workerId ≠ w := fun same => other (same.symm.trans (Table.lookup_key hr))
      simp [apart]

theorem regLimit_update (s : HubProcess) (w : WorkerId) (limit : Int) :
    (s.update w limit).regLimit workerId =
      if w = workerId then (s.regLimit workerId).map fun _ => limit else s.regLimit workerId := by
  simp only [regLimit, update, Table.lookup_update, Option.map_map]
  split
  next named =>
    cases hr : s.workerReg.lookup workerId with
    | none => rfl
    | some row => simp [named, Table.lookup_key hr]
  next other =>
    cases hr : s.workerReg.lookup workerId with
    | none => rfl
    | some row =>
      have apart : row.workerId ≠ w := fun same => other (same.symm.trans (Table.lookup_key hr))
      simp [apart]

/-- In order, the row and the entry stay on the way to one limit. -/
theorem Agreeing.step {a : HubAction} (h : s.Agreeing workerId)
    (hstep : HubProcess.step s a = some s') (ordered : Ordered workerId ⟨s, a, s'⟩) :
    s'.Agreeing workerId := by
  cases step_control hstep with
  | quiet quiet => exact h.quiet quiet
  | hello => exact h.hello rfl rfl rfl
  | @called w r state limit found =>
    obtain ⟨hr, hs, _⟩ := Hub.openState_eq_some.mp found
    refine h.called hr hs rfl rfl rfl fun named => ?_
    exact ordered named (by simp [Hub.setConcurrency, found])
  | @upserted i ws w limit hi =>
    have ended : (Handler.onHello ws w limit true).write workerId = none := rfl
    by_cases named : w = workerId
    · have writes : (Handler.onHello ws w limit false).write workerId = some (.put limit) :=
        if_pos named
      refine h.written hi writes ended rfl rfl ?_ rfl (ordered ?_)
      · exact (regLimit_upsert s w limit).trans (if_pos named)
      · simp [hi, writes]
    · refine h.elsewhere hi (ended.trans (if_neg named).symm) rfl rfl ?_ rfl
      exact (regLimit_upsert s w limit).trans (if_neg named)
  | @updated i w limit hi =>
    have ended : (Handler.setConcurrency w limit true).write workerId = none := rfl
    by_cases named : w = workerId
    · have writes : (Handler.setConcurrency w limit false).write workerId =
          some (.update limit) := if_pos named
      refine h.written hi writes ended rfl rfl ?_ rfl (ordered ?_)
      · exact (regLimit_update s w limit).trans (if_pos named)
      · simp [hi, writes]
    · refine h.elsewhere hi (ended.trans (if_neg named).symm) rfl rfl ?_ rfl
      exact (regLimit_update s w limit).trans (if_neg named)
  | @lost i old new hi ended =>
    refine h.lost hi ended rfl rfl rfl fun writes => ordered ?_
    simpa [hi] using writes
  | @registered i ws w limit ctx hi =>
    obtain ⟨hub, workerReg, handlers, _, _⟩ :=
      register_fields { s with handlers := s.handlers.eraseIdx i } ws w limit
    refine h.registered hi hub workerReg handlers fun named => ordered ?_
    simp [hi, Handler.greeting, named]
  | returned hi => exact h.returned hi rfl rfl rfl

end HubProcess

end Dispatcher
