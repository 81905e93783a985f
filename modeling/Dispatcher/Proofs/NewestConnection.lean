import Dispatcher.Hub.Registry

namespace Dispatcher
open Runs

namespace RegistryView

/-- The hello of `ws'` for the worker was received after that of `ws`. -/
def Later (v : RegistryView) (workerId : WorkerId) (ws ws' : SocketId) : Prop :=
  (ws', workerId) ∈ v.hellos ∧ v.hellos.idxOf (ws, workerId) < v.hellos.idxOf (ws', workerId)

/-- The entry of a worker is newer than all but suspended hellos. `shut` are the sockets
whose close event has been handled, and `left` holds of the entries that went with their
sockets. -/
structure Newest (shut : List SocketId) (left : WorkerId → SocketId → Prop) (v : RegistryView) :
    Prop where
  heard : v.suspended ⊆ v.hellos
  once : v.suspended.Nodup
  known : ∀ w ws, v.entry w = some ws → (ws, w) ∈ v.hellos ∧ (ws, w) ∉ v.suspended
  unshut : ∀ w ws, v.entry w = some ws → ws ∉ shut
  newer : ∀ w ws, v.entry w = some ws → ∀ ws', v.Later w ws ws' → (ws', w) ∈ v.suspended
  /-- The hello that is to be followed by suspended ones only has made the entry. -/
  last : ∀ w ws, (ws, w) ∈ v.hellos → (ws, w) ∉ v.suspended →
    (∀ ws', v.Later w ws ws' → (ws', w) ∈ v.suspended) → v.entry w = some ws ∨ left w ws

variable {v v' : RegistryView} {w : WorkerId} {ws ws' : SocketId} {shut shut' : List SocketId}
  {left left' : WorkerId → SocketId → Prop}

theorem Later.ne (h : v.Later w ws ws') : ws ≠ ws' := by
  rintro rfl
  exact Nat.lt_irrefl _ h.2

theorem later_or (known : (ws, w) ∈ v.hellos) (known' : (ws', w) ∈ v.hellos) (ne : ws ≠ ws') :
    v.Later w ws ws' ∨ v.Later w ws' ws := by
  rcases Nat.lt_trichotomy (v.hellos.idxOf (ws, w)) (v.hellos.idxOf (ws', w)) with first | same | second
  · exact .inl ⟨known', first⟩
  · exact absurd (congrArg Prod.fst ((List.idxOf_inj known).mp same)) ne
  · exact .inr ⟨known, second⟩

section

variable {p : SocketId × WorkerId} {suspended : List (SocketId × WorkerId)}

theorem Later.snoc (h : v.Later w ws ws') :
    Later { v with suspended, hellos := v.hellos ++ [p] } w ws ws' := by
  obtain ⟨known, first⟩ := h
  have earlier : (ws, w) ∈ v.hellos :=
    List.idxOf_lt_length_iff.mp (Nat.lt_trans first (List.idxOf_lt_length_iff.mpr known))
  refine ⟨List.mem_append_left _ known, ?_⟩
  simpa [List.idxOf_append, known, earlier] using first

theorem Later.of_snoc (h : Later { v with suspended, hellos := v.hellos ++ [p] } w ws ws') :
    v.Later w ws ws' ∨ (ws', w) = p := by
  obtain ⟨known, first⟩ := h
  rcases List.mem_append.mp known with known | new
  · have bound := List.idxOf_lt_length_iff.mpr known
    by_cases earlier : (ws, w) ∈ v.hellos
    · exact .inl ⟨known, by simpa [List.idxOf_append, known, earlier] using first⟩
    · simp only [List.idxOf_append, known, earlier, ↓reduceIte] at first
      omega
  · exact .inr (List.mem_singleton.mp new)

end

/-- Entries may go, each with its socket. -/
theorem Newest.fewer (h : Newest shut left v) {entry : WorkerId → Option SocketId}
    (gone : ∀ w, entry w = v.entry w ∨ ∃ ws, v.entry w = some ws ∧ entry w = none ∧ left' w ws)
    (unshut : ∀ w ws, entry w = some ws → ws ∉ shut')
    (more : ∀ w ws, left w ws → left' w ws) : Newest shut' left' { v with entry } := by
  have same : ∀ w ws, entry w = some ws → v.entry w = some ws := by
    intro w ws present
    rcases gone w with same | ⟨_, _, none, _⟩
    · exact same ▸ present
    · cases none.symm.trans present
  constructor
  case heard => exact h.heard
  case once => exact h.once
  case known => exact fun w ws present => h.known w ws (same w ws present)
  case unshut => exact unshut
  case newer => exact fun w ws present => h.newer w ws (same w ws present)
  case last =>
    intro w ws known finished later
    rcases h.last w ws known finished later with present | away
    · rcases gone w with same | ⟨ws', before, none, away⟩
      · exact .inl (same.trans present)
      · cases Option.some.inj (before.symm.trans present)
        exact .inr away
    · exact .inr (more w ws away)

theorem Newest.hello (h : Newest shut left v) {ws₀ : SocketId} {w₀ : WorkerId}
    (new : (ws₀, w₀) ∉ v.hellos) (more : ∀ w ws, left w ws → left' w ws) :
    Newest shut left' { v with
      suspended := v.suspended ++ [(ws₀, w₀)]
      hellos := v.hellos ++ [(ws₀, w₀)] } := by
  have last : (ws₀, w₀) ∈ v.suspended ++ [(ws₀, w₀)] :=
    List.mem_append_right _ (List.mem_singleton_self _)
  constructor
  case heard =>
    intro p hp
    rcases List.mem_append.mp hp with hp | hp
    · exact List.mem_append_left _ (h.heard hp)
    · exact List.mem_append_right _ hp
  case once =>
    refine List.nodup_append.mpr ⟨h.once, List.nodup_singleton _, ?_⟩
    intro p hp q hq same
    rw [List.mem_singleton.mp hq] at same
    exact new (same ▸ h.heard hp)
  case known =>
    intro w ws present
    obtain ⟨known, finished⟩ := h.known w ws present
    refine ⟨List.mem_append_left _ known, ?_⟩
    rw [List.mem_append, List.mem_singleton, not_or]
    refine ⟨finished, ?_⟩
    intro same
    exact new (same ▸ known)
  case unshut => exact h.unshut
  case newer =>
    intro w ws present ws' later
    rcases later.of_snoc with later | same
    · exact List.mem_append_left _ (h.newer w ws present ws' later)
    · exact same ▸ last
  case last =>
    intro w ws known finished later
    rw [List.mem_append, not_or] at finished
    have earlier : (ws, w) ∈ v.hellos := by
      rcases List.mem_append.mp known with known | same
      · exact known
      · exact absurd same finished.2
    have before : ∀ ws', v.Later w ws ws' → (ws', w) ∈ v.suspended := by
      intro ws' first
      rcases List.mem_append.mp (later ws' first.snoc) with found | same
      · exact found
      · exact absurd (List.mem_singleton.mp same ▸ first.1) new
    rcases h.last w ws earlier finished.1 before with present | away
    · exact .inl present
    · exact .inr (more w ws away)

/-- An entry is the new one, or another worker's of before. -/
theorem entry_set {entry : WorkerId → Option SocketId} {w₀ : WorkerId} {ws₀ : SocketId}
    (present : (if w = w₀ then some ws₀ else entry w) = some ws) :
    w = w₀ ∧ ws = ws₀ ∨ w ≠ w₀ ∧ entry w = some ws := by
  by_cases own : w = w₀
  · rw [if_pos own] at present
    exact .inl ⟨own, (Option.some.inj present).symm⟩
  · rw [if_neg own] at present
    exact .inr ⟨own, present⟩

/-- A socket that has said one hello is known by the worker that it named. -/
theorem find_hello {hellos : List (SocketId × WorkerId)} (one : (hellos.map Prod.fst).Nodup)
    (known : (ws, w) ∈ hellos) :
    (hellos.reverse.find? fun p => p.1 = ws).map Prod.snd = some w := by
  obtain ⟨p, hp⟩ : ∃ p, hellos.reverse.find? (fun p => p.1 = ws) = some p := by
    rw [← Option.isSome_iff_exists, List.find?_isSome]
    exact ⟨_, List.mem_reverse.mpr known, by simp⟩
  have socket : p.1 = ws := by simpa using List.find?_some hp
  have heard := List.mem_reverse.mp (List.mem_of_find?_eq_some hp)
  have same := List.inj_on_of_nodup_map one heard known socket
  rw [hp, same]
  rfl

/-- A hello goes on while all later ones of its worker are suspended. -/
theorem Newest.register (h : Newest shut left v) {ws₀ : SocketId} {w₀ : WorkerId}
    {before after : List (SocketId × WorkerId)}
    (split : v.suspended = before ++ (ws₀, w₀) :: after)
    (order : ∀ ws, v.Later w₀ ws₀ ws → (ws, w₀) ∈ v.suspended) (open' : ws₀ ∉ shut)
    (more : ∀ w ws, left w ws → left' w ws) : Newest shut left' { v with
      entry := fun w => if w = w₀ then some ws₀ else v.entry w
      suspended := before ++ after } := by
  have once := split ▸ h.once
  have sublist : (before ++ after).Sublist v.suspended := by
    rw [split]
    exact List.Sublist.append_left (List.sublist_cons_self _ _) _
  have finished : (ws₀, w₀) ∉ before ++ after := (List.nodup_middle.mp once).notMem
  have known : (ws₀, w₀) ∈ v.hellos :=
    h.heard (split ▸ List.mem_append_right _ List.mem_cons_self)
  have others : ∀ {p}, p ∈ v.suspended → p ≠ (ws₀, w₀) → p ∈ before ++ after := by
    intro p hp other
    rw [split] at hp
    rcases List.mem_append.mp hp with hp | hp
    · exact List.mem_append_left _ hp
    · exact List.mem_append_right _ ((List.mem_cons.mp hp).resolve_left other)
  constructor
  case heard => exact fun p hp => h.heard (sublist.subset hp)
  case once => exact h.once.sublist sublist
  case known =>
    intro w ws present
    rcases entry_set present with ⟨rfl, rfl⟩ | ⟨own, present⟩
    · exact ⟨known, finished⟩
    · obtain ⟨heard, gone⟩ := h.known w ws present
      exact ⟨heard, fun hp => gone (sublist.subset hp)⟩
  case unshut =>
    intro w ws present
    rcases entry_set present with ⟨rfl, rfl⟩ | ⟨own, present⟩
    · exact open'
    · exact h.unshut w ws present
  case newer =>
    intro w ws present ws' later
    rcases entry_set present with ⟨rfl, rfl⟩ | ⟨own, present⟩
    · refine others (order ws' later) ?_
      intro same
      exact later.ne (congrArg Prod.fst same).symm
    · refine others (h.newer w ws present ws' later) ?_
      intro same
      exact own (congrArg Prod.snd same)
  case last =>
    intro w ws heard gone later
    by_cases own : w = w₀
    · subst own
      by_cases same : ws = ws₀
      · exact .inl (by simp [same])
      · -- of two hellos that are not suspended, the earlier is followed by the other
        rcases later_or heard known same with first | second
        · exact absurd (later ws₀ first) finished
        · refine absurd (others (order ws second) ?_) gone
          intro equal
          exact same (congrArg Prod.fst equal)
    · have other : (ws, w) ≠ (ws₀, w₀) := fun same => own (congrArg Prod.snd same)
      rcases h.last w ws heard (fun hp => gone (others hp other))
        (fun ws' first => sublist.subset (later ws' first)) with present | away
      · exact .inl (by simpa [own] using present)
      · exact .inr (more w ws away)

/-- The registry stays with the newest hellos where they go on in their order. -/
theorem Newest.step (h : Newest shut left v) {opened : List SocketId}
    {registers : Option (SocketId × WorkerId)} {a : HubAction}
    (step : RegistryStep opened registers v a v') (one : (v'.hellos.map Prod.fst).Nodup)
    (order : ∀ ws w, registers = some (ws, w) →
      (∀ ws', v.Later w ws ws' → (ws', w) ∈ v.suspended) ∧ ws ∉ shut)
    (shuts : ∀ ws ∈ shut', ws ∈ shut ∨ a = .closed ws) (more : ∀ w ws, left w ws → left' w ws)
    (away : ∀ w ws, v.entry w = some ws → v'.entry w = none → ws ∉ opened → left' w ws) :
    Newest shut' left' v' := by
  have narrow : (∀ ws, a ≠ .closed ws) → Newest shut left' v' → Newest shut' left' v' := by
    intro other new
    refine { new with unshut := fun w ws present hw => ?_ }
    rcases shuts ws hw with before | closed
    · exact new.unshut w ws present before
    · exact other ws closed
  cases step with
  | quiet none other =>
    exact narrow other (h.fewer (fun w => .inl rfl) h.unshut more)
  | @hello ws w limit ctx none =>
    refine narrow (fun _ => HubAction.noConfusion) (h.hello ?_ more)
    rw [List.map_append] at one
    intro known
    exact (List.nodup_append.mp one).2.2 ws (List.mem_map_of_mem known) ws
      (List.mem_singleton_self _) rfl
  | @closed ws₀ entry none shut₀ gone =>
    refine h.fewer ?_ ?_ more
    · intro w
      rw [gone w]
      split
      next own =>
        refine .inr ⟨ws₀, own.1, rfl, away w ws₀ own.1 ?_ shut₀⟩
        exact (gone w).trans (if_pos own)
      · exact .inl rfl
    · intro w ws present hw
      rw [gone w] at present
      split at present
      · cases present
      next other =>
        rcases shuts ws hw with before | closed
        · exact h.unshut w ws present before
        · cases closed
          refine other ⟨present, ?_⟩
          exact find_hello one (h.known w ws₀ present).1
  | @pinged entry none kept =>
    refine narrow (fun _ => HubAction.noConfusion) (h.fewer ?_ ?_ more)
    · intro w
      rcases kept w with same | ⟨ws, before, after, shut⟩
      · exact .inl same
      · exact .inr ⟨ws, before, after, away w ws before after shut⟩
    · intro w ws present
      rcases kept w with same | ⟨_, _, after, _⟩
      · exact h.unshut w ws (same ▸ present)
      · cases after.symm.trans present
  | registered goes other split =>
    obtain ⟨later, open'⟩ := order _ _ goes
    exact narrow other (h.register split later open' more)

end RegistryView

theorem RegistryStep.hellos {opened : List SocketId} {registers : Option (SocketId × WorkerId)}
    {v v' : RegistryView} {a : HubAction} (step : RegistryStep opened registers v a v') :
    v.hellos <+: v'.hellos := by
  cases step with
  | hello => exact List.prefix_append _ _
  | quiet | closed | pinged | registered => exact List.prefix_refl _

/-- The end of one socket takes no entry of another. -/
theorem RegistryStep.closed_others {opened : List SocketId}
    {registers : Option (SocketId × WorkerId)} {v v' : RegistryView} {ws ws' : SocketId}
    {workerId : WorkerId} (step : RegistryStep opened registers v (.closed ws) v') (other : ws' ≠ ws)
    (present : v.entry workerId = some ws') : v'.entry workerId = some ws' := by
  cases step with
  | quiet _ idle => exact absurd rfl (idle ws)
  | closed _ _ gone =>
    refine (gone workerId).trans ?_
    rw [if_neg, present]
    rintro ⟨own, _⟩
    exact other (Option.some.inj (present.symm.trans own))
  | registered _ idle => exact absurd rfl (idle ws)

/-- An `error` event runs the code of a `close` event. -/
inductive SocketEvent where
  | hub (a : HubAction)
  | error (ws : SocketId)

def SocketEvent.action : SocketEvent → HubAction
  | .hub a => a
  | .error ws => .closed ws

/-- The socket whose `close` event is handled. -/
def SocketEvent.shut : SocketEvent → Option SocketId
  | .hub (.closed ws) => some ws
  | _ => none

namespace HubProcess

def handle : Step HubProcess SocketEvent := fun s e => step s e.action

def Suspended (s : HubProcess) (ws : SocketId) (workerId : WorkerId) : Prop :=
  ∃ limit returned, .onHello ws workerId limit returned ∈ s.handlers

/-- The hello of `ws'` for the worker was received after that of `ws`. -/
def Later (s : HubProcess) (workerId : WorkerId) (ws ws' : SocketId) : Prop :=
  (ws', workerId) ∈ s.ids ∧ s.ids.idxOf (ws, workerId) < s.ids.idxOf (ws', workerId)

def shut (es : List (Event HubProcess SocketEvent)) : List SocketId :=
  es.filterMap fun e => e.action.shut

/-- The entry of the worker went when its socket `ws` was no longer OPEN. -/
def Left (es : List (Event HubProcess SocketEvent)) (workerId : WorkerId) (ws : SocketId) : Prop :=
  ∃ e ∈ es, e.before.hub.socketOf workerId = some ws ∧ e.after.hub.socketOf workerId = none ∧
    ws ∉ e.after.opened

/-- The registry keeps the newest connection of every worker. -/
structure KeepsNewest (es : List (Event HubProcess SocketEvent)) : Prop where
  /-- A hello neither replaces a later one nor closes its socket. -/
  replaces : ∀ e ∈ es, ∀ ws workerId, e.before.registers e.action.action = some (ws, workerId) →
    ∀ ws', e.before.Later workerId ws ws' → e.before.hub.socketOf workerId = some ws' →
      e.after.hub.socketOf workerId = some ws' ∧ (ws' ∈ e.before.opened → ws' ∈ e.after.opened)
  dead : ∀ pre e post, es = pre ++ e :: post → ∀ ws ∈ shut (pre ++ [e]), ∀ workerId,
    e.after.hub.socketOf workerId ≠ some ws
  others : ∀ e ∈ es, ∀ ws ws' workerId, e.action.action = .closed ws → ws' ≠ ws →
    e.before.hub.socketOf workerId = some ws' → e.after.hub.socketOf workerId = some ws'
  rest : ∀ pre e post, es = pre ++ e :: post → ∀ workerId,
    (∀ ws, ¬ e.after.Suspended ws workerId) →
      ((∀ ws, (ws, workerId) ∉ e.after.ids) → e.after.hub.socketOf workerId = none) ∧
      ∀ ws, (ws, workerId) ∈ e.after.ids → (∀ ws', ¬ e.after.Later workerId ws ws') →
        e.after.hub.socketOf workerId = some ws ∨
        (e.after.hub.socketOf workerId = none ∧ Left (pre ++ [e]) workerId ws)

/-- A hello goes on after its await while all later hellos of its worker are still
suspended, and before the `close` event of its socket is handled. -/
def InOrder (pre : List (Event HubProcess SocketEvent)) (e : Event HubProcess SocketEvent) : Prop :=
  ∀ ws workerId, e.before.registers e.action.action = some (ws, workerId) →
    (∀ ws', e.before.Later workerId ws ws' → e.before.Suspended ws' workerId) ∧ ws ∉ shut pre

theorem suspended_iff {s : HubProcess} {ws : SocketId} {workerId : WorkerId} :
    s.Suspended ws workerId ↔ (ws, workerId) ∈ s.registryView.suspended := by
  simp only [Suspended, registryView, List.mem_filterMap]
  constructor
  · rintro ⟨limit, returned, hh⟩
    exact ⟨_, hh, rfl⟩
  · rintro ⟨handler, hh, hello⟩
    cases handler with
    | onHello ws' w limit returned =>
      cases hello
      exact ⟨limit, returned, hh⟩
    | setConcurrency | onMessage => cases hello

/-- The same, over the hellos received. -/
theorem inOrder_iff {pre : List (Event HubProcess SocketEvent)} {e : Event HubProcess SocketEvent} :
    InOrder pre e ↔ ∀ p ∈ (e.before.registers e.action.action).toList,
      (∀ q ∈ e.before.ids, q.2 = p.2 → e.before.ids.idxOf p < e.before.ids.idxOf q →
        q ∈ e.before.registryView.suspended) ∧ p.1 ∉ shut pre := by
  constructor
  · rintro ordered ⟨ws, workerId⟩ goes
    obtain ⟨later, open'⟩ := ordered ws workerId (Option.mem_toList.mp goes)
    refine ⟨?_, open'⟩
    rintro ⟨ws', w⟩ known rfl first
    exact suspended_iff.mp (later ws' ⟨known, first⟩)
  · intro ordered ws workerId goes
    obtain ⟨later, open'⟩ := ordered (ws, workerId) (Option.mem_toList.mpr goes)
    exact ⟨fun ws' first => suspended_iff.mpr (later _ first.1 rfl first.2), open'⟩

instance (pre : List (Event HubProcess SocketEvent)) (e : Event HubProcess SocketEvent) :
    Decidable (InOrder pre e) := decidable_of_iff _ inOrder_iff.symm

section

variable {db : Db} {s : HubProcess} {es : List (Event HubProcess SocketEvent)}
  {e : Event HubProcess SocketEvent}

theorem event_registry (taken : handle e.before e.action = some e.after) :
    RegistryStep e.after.opened (e.before.registers e.action.action) e.before.registryView
      e.action.action e.after.registryView := step_registry taken

theorem ids_grow (taken : handle e.before e.action = some e.after) :
    e.before.ids <+: e.after.ids := (event_registry taken).hellos

theorem shut_snoc {ws : SocketId} (h : ws ∈ shut (es ++ [e])) :
    ws ∈ shut es ∨ e.action.action = .closed ws := by
  rw [shut, List.filterMap_append] at h
  rcases List.mem_append.mp h with h | h
  · exact .inl h
  · obtain ⟨f, hf, hs⟩ := List.mem_filterMap.mp h
    cases List.mem_singleton.mp hf
    right
    cases ha : e.action with
    | error => rw [ha] at hs; cases hs
    | hub a =>
      rw [ha] at hs
      cases a with
      | closed ws' =>
        cases hs
        rfl
      | _ => cases hs

theorem Left.mono {workerId : WorkerId} {ws : SocketId} (h : Left es workerId ws) :
    Left (es ++ [e]) workerId ws := by
  obtain ⟨f, hf, gone⟩ := h
  exact ⟨f, List.mem_append_left _ hf, gone⟩

theorem newest_step (h : e.before.registryView.Newest (shut es) (Left es))
    (taken : handle e.before e.action = some e.after) (one : (e.after.ids.map Prod.fst).Nodup)
    (ordered : InOrder es e) :
    e.after.registryView.Newest (shut (es ++ [e])) (Left (es ++ [e])) := by
  refine h.step (event_registry taken) one ?_ (fun ws hw => shut_snoc hw)
    (fun w ws left => left.mono) ?_
  · intro ws w goes
    obtain ⟨later, open'⟩ := ordered ws w goes
    exact ⟨fun ws' first => suspended_iff.mp (later ws' first), open'⟩
  · intro w ws before after gone
    exact ⟨e, List.mem_append_right _ (List.mem_singleton_self _), before, after, gone⟩

/-- The registry is with the newest hellos in every run whose hellos go on in order. -/
theorem newest_run (run : Run handle (init db) es s) (one : (s.ids.map Prod.fst).Nodup)
    (ordered : ∀ pre e post, es = pre ++ e :: post → InOrder pre e) :
    s.registryView.Newest (shut es) (Left es) := by
  induction run with
  | nil =>
    have absent : ∀ w, (HubProcess.init db).hub.socketOf w = none := fun _ => rfl
    constructor
    case heard => exact fun p hp => hp
    case once => exact List.nodup_nil
    case known => exact fun w ws present => by cases (absent w).symm.trans present
    case unshut => exact fun w ws present => by cases (absent w).symm.trans present
    case newer => exact fun w ws present => by cases (absent w).symm.trans present
    case last => exact fun w ws known => by cases known
  | @snoc es s a s' run taken ih =>
    have before : (s.ids.map Prod.fst).Nodup :=
      one.sublist ((ids_grow (e := ⟨s, a, s'⟩) taken).sublist.map _)
    refine newest_step (e := ⟨s, a, s'⟩) (ih before ?_) taken one ?_
    · intro pre f post split
      exact ordered pre f (post ++ [⟨s, a, s'⟩]) (by simp [split])
    · exact ordered es _ [] rfl

theorem run_ids (run : Run handle s es s') : s.ids <+: s'.ids := by
  induction run with
  | nil => exact List.prefix_refl _
  | @snoc es t a u run taken ih => exact ih.trans (ids_grow (e := ⟨t, a, u⟩) taken)

/-- With one hello a socket, the registry keeps the newest connections in every run in
which no hello is registered after a later one of its worker or after its socket has
closed. -/
theorem keeps_newest (run : Run handle (init db) es s) (one : (s.ids.map Prod.fst).Nodup)
    (ordered : ∀ pre e post, es = pre ++ e :: post → InOrder pre e) : KeepsNewest es := by
  have at_split : ∀ {pre e post}, es = pre ++ e :: post →
      e.before.registryView.Newest (shut pre) (Left pre) ∧
      e.after.registryView.Newest (shut (pre ++ [e])) (Left (pre ++ [e])) ∧
      handle e.before e.action = some e.after := by
    intro pre e post split
    obtain ⟨before, taken, after⟩ := (split ▸ run).at_split
    have after_one : (e.after.ids.map Prod.fst).Nodup := one.sublist ((run_ids after).sublist.map _)
    have before_one : (e.before.ids.map Prod.fst).Nodup :=
      after_one.sublist ((ids_grow taken).sublist.map _)
    have newest := newest_run before before_one fun pre' f post' inner =>
      ordered pre' f (post' ++ e :: post) (by simp [split, inner])
    exact ⟨newest, newest_step newest taken after_one (ordered pre e post split), taken⟩
  constructor
  case replaces =>
    intro e he ws workerId goes ws' later present
    obtain ⟨pre, post, split⟩ := List.append_of_mem he
    have waiting := (ordered pre e post split ws workerId goes).1 ws' later
    exact absurd (suspended_iff.mp waiting) ((at_split split).1.known workerId ws' present).2
  case dead =>
    intro pre e post split ws hw workerId present
    exact (at_split split).2.1.unshut workerId ws present hw
  case others =>
    intro e he ws ws' workerId closes other present
    obtain ⟨pre, post, split⟩ := List.append_of_mem he
    have step := event_registry (at_split split).2.2
    rw [closes] at step
    exact step.closed_others other present
  case rest =>
    intro pre e post split workerId quiet
    have newest := (at_split split).2.1
    have finished : ∀ ws, (ws, workerId) ∉ e.after.registryView.suspended :=
      fun ws hs => quiet ws (suspended_iff.mpr hs)
    refine ⟨?_, ?_⟩
    · intro none
      by_contra present
      obtain ⟨ws, present⟩ := Option.ne_none_iff_exists'.mp present
      exact none ws (newest.known workerId ws present).1
    · intro ws known last
      rcases newest.last workerId ws known (finished ws) (fun ws' later => absurd later (last ws')) with
        present | left
      · exact .inl present
      · cases found : e.after.hub.socketOf workerId with
        | none => exact .inr ⟨rfl, left⟩
        | some ws' =>
          by_cases same : ws' = ws
          · exact .inl (congrArg some same)
          · rcases RegistryView.later_or (newest.known workerId ws' found).1 known same with
              first | second
            · exact absurd (newest.newer workerId ws' found ws first) (finished ws)
            · exact absurd second (last ws')

end

/-- A worker reconnects; the upserts of its two hellos are answered in the order
`answered`. -/
def reconnectRun (answered : List HubAction) : List SocketEvent :=
  [.hub (.connection 1), .hub (.message 1 (.workerHello "w1" 4) (.quiet "c1" 1)),
    .hub (.connection 2), .hub (.message 2 (.workerHello "w1" 4) (.quiet "c1" 2)),
    .hub (.write 0), .hub (.write 1)] ++ answered.map .hub

/-- The older hello goes on last. -/
def overtakenHello : List SocketEvent :=
  reconnectRun [.resume 1 (.quiet "c1" 3), .resume 0 (.quiet "c1" 4)]

theorem overtakenHello_stale : ∃ es s, Run handle (init .migrated) es s ∧
    (s.ids.map Prod.fst).Nodup ∧ ¬ KeepsNewest es := by
  let es := trace handle (init .migrated) overtakenHello
  obtain ⟨s, hs, one⟩ : ∃ s, exec handle (init .migrated) overtakenHello = some s ∧
      decide (s.ids.map Prod.fst).Nodup = true := exec_any (by decide)
  refine ⟨es, s, run_of_exec overtakenHello hs, of_decide_eq_true one, ?_⟩
  intro keeps
  obtain ⟨e, he, goes, later, before, after⟩ : ∃ e, es[7]? = some e ∧
      e.before.registers e.action.action = some (1, "w1") ∧ e.before.Later "w1" 1 2 ∧
      e.before.hub.socketOf "w1" = some 2 ∧ e.after.hub.socketOf "w1" = some 1 :=
    ⟨_, rfl, rfl, ⟨by decide, by decide⟩, rfl, rfl⟩
  have kept := (keeps.replaces e (List.mem_of_getElem? he) 1 "w1" goes 2 later before).1
  cases kept.symm.trans after

/-- The hellos go on as they came, and the old socket closes. -/
def orderlyHello : List SocketEvent :=
  reconnectRun [.resume 0 (.quiet "c1" 3), .resume 0 (.quiet "c1" 4), .closed 1]

theorem keeps_newest_orderlyHello : ∃ es s, Run handle (init .migrated) es s ∧
    s.hub.socketOf "w1" = some 2 ∧ KeepsNewest es := by
  let es := trace handle (init .migrated) orderlyHello
  obtain ⟨s, hs, hp⟩ : ∃ s, exec handle (init .migrated) orderlyHello = some s ∧
      decide ((s.ids.map Prod.fst).Nodup ∧ s.hub.socketOf "w1" = some 2) = true :=
    exec_any (by decide)
  obtain ⟨one, entry⟩ := of_decide_eq_true hp
  have run := run_of_exec orderlyHello hs
  have checked : checkSteps (fun pre e => decide (InOrder pre e)) [] es = true := by decide
  refine ⟨es, s, run, entry, keeps_newest run one ?_⟩
  intro pre e post split
  rw [split] at checked
  exact of_decide_eq_true (checkSteps_split checked)

end HubProcess

end Dispatcher
