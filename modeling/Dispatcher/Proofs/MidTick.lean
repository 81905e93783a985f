import Dispatcher.Model.DispatchLoop
import Dispatcher.Proofs.FairTick

namespace Dispatcher
open Runs

/-- The job that the transaction of `tryDispatchOne` would lease. -/
def Db.dispatchable (ctx : Ctx) (db : Db) : Option Job :=
  (headOfQueue ctx db).filter fun job => (db.leases.lookup job.jobId).isNone

theorem dispatchable_of_ok {ctx : Ctx} {w : WorkerId} {db db' : Db} {job : Dispatched}
    (h : tryDispatchOneTx ctx w db = .ok (some job, db')) : db.dispatchable ctx ≠ none := by
  rw [tryDispatchOneTx_eq] at h
  split at h
  · cases h
  case h_2 head found =>
    split at h
    · cases h
    case isFalse free =>
      have none := Option.not_isSome_iff_eq_none.mp free
      simp [Db.dispatchable, found, none]

theorem ok_of_dispatchable {ctx : Ctx} {db : Db} {job : Job}
    (h : db.dispatchable ctx = some job) (w : WorkerId) :
    ∃ dispatched db', tryDispatchOneTx ctx w db = .ok (some dispatched, db') := by
  obtain ⟨found, free⟩ := Option.filter_eq_some_iff.mp h
  have none := Option.isNone_iff_eq_none.mp free
  rw [tryDispatchOneTx_eq]
  simp [found, none]

/-- The lease that the transaction under way may still create for a worker. -/
def TickPoint.owed (w : WorkerId) : TickPoint → Nat
  | .transaction workerId => if workerId = w then 1 else 0
  | _ => 0

/-- The message that the tick may still send to a worker before it looks again. -/
def TickPoint.unsent (w : WorkerId) : TickPoint → Nat
  | .transaction workerId | .committed workerId (some _) => if workerId = w then 1 else 0
  | _ => 0

theorem TickPoint.owed_le (w : WorkerId) (point : TickPoint) : point.owed w ≤ 1 := by
  unfold owed
  split
  · split <;> omega
  · exact Nat.zero_le 1

theorem TickPoint.unsent_le (w : WorkerId) (point : TickPoint) : point.unsent w ≤ 1 := by
  unfold unsent
  split
  · split <;> omega
  · split <;> omega
  · exact Nat.zero_le 1

theorem TickPoint.owed_other {w : WorkerId} {point : TickPoint} (h : point ≠ .transaction w) :
    point.owed w = 0 := by
  unfold owed
  split
  case h_1 workerId =>
    refine if_neg ?_
    intro same
    exact h (congrArg transaction same)
  · rfl

namespace DispatchProcess

inductive Moves (s : DispatchProcess) : DispatchAction → DispatchProcess → Prop where
  | hub (hub : HubProcess) : Moves s (.hub a) { s with hub }
  | ends (own : ∀ b, a ≠ .hub b) : Moves s a { s with point := .ended }
  | finds (now : s.point = .transaction w) (db : Db) : Moves s (.commit ctx)
      { s with hub := { s.hub with db }, point := .committed w none }
  | leases (now : s.point = .transaction w) (found : s.hub.db.dispatchable ctx ≠ none) (db : Db)
      (job : Dispatched) : Moves s (.commit ctx)
      { s with
        hub := { s.hub with db }
        leases := s.leases ++ [(w, job)]
        point := .committed w (some job) }
  | returns (now : s.point = .committed w none) : Moves s .resume { s with point := .returned false }
  | sends (now : s.point = .committed w (some job)) : Moves s .resume (s.send w job)
  | turns (now : s.point = .returned true) :
      Moves s .turn { s with anyDispatched := true }.advance

theorem step_moves {s s' : DispatchProcess} (h : step s a = some s') : Moves s a s' := by
  unfold step at h
  split at h
  · cases h
  · obtain ⟨hub, _, rfl⟩ := Option.map_eq_some_iff.mp h
    exact .hub hub
  case h_3 now =>
    split at h
    · cases h
      exact .ends fun b hub => by cases hub
    · cases h
      exact .finds now _
    case h_3 done =>
      cases h
      exact .leases now (dispatchable_of_ok done) _ _
  · cases h
    exact .ends fun b hub => by cases hub
  case h_5 now =>
    cases h
    exact .returns now
  case h_6 now =>
    cases h
    exact .sends now
  · cases h
    exact .ends fun b hub => by cases hub
  case h_8 now =>
    cases h
    exact .turns now
  · cases h

/-- The worker that the loop turns to once it has dispatched a job. -/
def turnsTo (s : DispatchProcess) : Option WorkerId :=
  (next { s with anyDispatched := true }).map fun p => p.1.workerId

def leasesOf (s : DispatchProcess) (w : WorkerId) : Nat := s.leases.countP fun l => l.1 = w

def sendsTo (s : DispatchProcess) (w : WorkerId) : Nat := s.sends.countP fun m => m.1 = w

@[simp] theorem leasesOf_advance (s : DispatchProcess) (w : WorkerId) :
    s.advance.leasesOf w = s.leasesOf w := by
  unfold advance
  split <;> rfl

@[simp] theorem sendsTo_advance (s : DispatchProcess) (w : WorkerId) :
    s.advance.sendsTo w = s.sendsTo w := by
  unfold advance
  split <;> rfl

/-- Where the loop does not turn to a worker, nothing new is owed to it. -/
theorem point_advance {s : DispatchProcess} {w : WorkerId} (other : s.turnsTo ≠ some w) :
    { s with anyDispatched := true }.advance.point.owed w = 0 ∧
      { s with anyDispatched := true }.advance.point.unsent w = 0 := by
  unfold turnsTo at other
  unfold advance
  split
  case h_1 state rest anyDispatched found =>
    have different : state.workerId ≠ w := by
      intro same
      simp [found, same] at other
    simp [TickPoint.owed, TickPoint.unsent, different]
  · exact ⟨rfl, rfl⟩

theorem sendsTo_send (s : DispatchProcess) (workerId w : WorkerId) (job : Dispatched) :
    (s.send workerId job).sendsTo w = s.sendsTo w + if workerId = w then 1 else 0 := by
  simp only [sendsTo, send, List.countP_append, List.countP_singleton, decide_eq_true_eq]

/-- While the loop does not turn to a worker, a lease for it comes out of the
transaction under way only. -/
theorem Moves.leases_le {s s' : DispatchProcess} (h : Moves s a s')
    (other : a = .turn → s.point = .returned true → s.turnsTo ≠ some w) :
    s'.leasesOf w + s'.point.owed w ≤ s.leasesOf w + s.point.owed w := by
  cases h with
  | hub hub => exact Nat.le_refl _
  | ends | finds | returns | sends => exact Nat.add_le_add_left (Nat.zero_le _) _
  | leases now found db job =>
    simp [leasesOf, now, TickPoint.owed]
  | turns now =>
    obtain ⟨owed, _⟩ := point_advance (other rfl now)
    rw [leasesOf_advance, owed]
    exact Nat.add_le_add_left (Nat.zero_le _) _

theorem Moves.sends_le {s s' : DispatchProcess} (h : Moves s a s')
    (other : a = .turn → s.point = .returned true → s.turnsTo ≠ some w) :
    s'.sendsTo w + s'.point.unsent w ≤ s.sendsTo w + s.point.unsent w := by
  cases h with
  | hub hub => exact Nat.le_refl _
  | ends | finds | returns => exact Nat.add_le_add_left (Nat.zero_le _) _
  | leases now found db job =>
    simp [sendsTo, now, TickPoint.unsent]
  | sends now =>
    rw [sendsTo_send, now]
    exact Nat.le_refl _
  | turns now =>
    obtain ⟨_, unsent⟩ := point_advance (other rfl now)
    rw [sendsTo_advance, unsent]
    exact Nat.add_le_add_left (Nat.zero_le _) _

theorem Moves.leases_grow {s s' : DispatchProcess} (h : Moves s a s') (w : WorkerId) :
    s.leasesOf w ≤ s'.leasesOf w := by
  cases h with
  | hub | ends | finds | returns | sends => exact Nat.le_refl _
  | leases => exact List.Sublist.countP_le (List.sublist_append_left _ _)
  | turns => rw [leasesOf_advance]; exact Nat.le_refl _

def Turns (e : Event DispatchProcess DispatchAction) (w : WorkerId) : Prop :=
  e.action = .turn ∧ e.before.point = .returned true ∧ e.before.turnsTo = some w

/-- Between the loop's turn to a worker and the end of the transaction that it begins,
the worker is not ready at any time. -/
structure Stray (w : WorkerId) (e : Event DispatchProcess DispatchAction)
    (mid : List (Event DispatchProcess DispatchAction))
    (f : Event DispatchProcess DispatchAction) : Prop where
  turns : Turns e w
  under_way : ∀ g ∈ mid, ∃ a, g.action = .hub a
  unready : ∀ g ∈ e :: mid ++ [f], g.before.hub.ready w = false

/-- No transaction that the loop has begun for a worker that is not ready finds a job. -/
def StraysFindNothing (es : List (Event DispatchProcess DispatchAction)) : Prop :=
  ∀ w pre e mid f post, es = pre ++ (e :: mid ++ f :: post) → Stray w e mid f →
    ∀ ctx, f.action = .commit ctx → f.before.hub.db.dispatchable ctx = none

/-- For as long as a worker is not ready, the tick creates no lease for it but that of
the transaction under way, and sends it no message but one. -/
def HoldsBack (es : List (Event DispatchProcess DispatchAction)) : Prop :=
  ∀ w before during after, es = before ++ (during ++ after) →
    (∀ e ∈ during, e.before.hub.ready w = false) →
    ∀ e ∈ during.head?, ∀ f ∈ during.getLast?,
      f.after.leasesOf w ≤ e.before.leasesOf w + 1 ∧
      f.after.sendsTo w ≤ e.before.sendsTo w + 1 ∧
      (e.before.point ≠ .transaction w → f.after.leasesOf w = e.before.leasesOf w)

/-- What a window of a run from `s` to `t` has done for a worker. -/
inductive Window (w : WorkerId) (s : DispatchProcess)
    (es : List (Event DispatchProcess DispatchAction)) (t : DispatchProcess) : Prop where
  | kept (leases : t.leasesOf w + t.point.owed w ≤ s.leasesOf w + s.point.owed w)
      (sends : t.sendsTo w + t.point.unsent w ≤ s.sendsTo w + s.point.unsent w)
  | stray (leases : t.leasesOf w ≤ s.leasesOf w + s.point.owed w)
      (sends : t.sendsTo w ≤ s.sendsTo w + s.point.unsent w) (now : t.point = .transaction w)
      (split : es = pre ++ (e :: mid)) (turns : Turns e w)
      (under_way : ∀ g ∈ mid, ∃ a, g.action = .hub a)

theorem advance_point {s : DispatchProcess} {w : WorkerId} (next : s.turnsTo = some w) :
    { s with anyDispatched := true }.advance.point = .transaction w := by
  obtain ⟨p, found, rfl⟩ := Option.map_eq_some_iff.mp next
  simp only [advance, found]

/-- One step of a window makes a lease or sends a message for the worker only if it was
owed. -/
theorem Window.step {s t u : DispatchProcess} (h : Window w s es t) (taken : Moves t a u)
    (nothing : ∀ pre e mid, es = pre ++ (e :: mid) → Turns e w →
      (∀ g ∈ mid, ∃ a, g.action = .hub a) → ∀ ctx, a = .commit ctx →
      t.hub.db.dispatchable ctx = none) :
    Window w s (es ++ [⟨t, a, u⟩]) u := by
  cases h with
  | kept leases sends =>
    by_cases turns : Turns ⟨t, a, u⟩ w
    · obtain ⟨rfl, now, next⟩ : a = .turn ∧ t.point = .returned true ∧ t.turnsTo = some w := turns
      have leases' : t.leasesOf w ≤ _ := (Nat.le_add_right _ _).trans leases
      have sends' : t.sendsTo w ≤ _ := (Nat.le_add_right _ _).trans sends
      cases taken with
      | ends => exact .kept leases' sends'
      | turns =>
        refine .stray ?_ ?_ (advance_point next) rfl ⟨rfl, now, next⟩ fun g hg => ?_
        · rwa [leasesOf_advance]
        · rwa [sendsTo_advance]
        · cases hg
    · have other : a = .turn → t.point = .returned true → t.turnsTo ≠ some w :=
        fun turn now next => turns ⟨turn, now, next⟩
      exact .kept ((taken.leases_le other).trans leases) ((taken.sends_le other).trans sends)
  | @stray pre e mid leases sends now split turns under_way =>
    cases taken with
    | hub hub =>
      have longer (f) : es ++ [f] = pre ++ (e :: (mid ++ [f])) := by
        rw [split, List.append_assoc]
        rfl
      refine .stray leases sends now (longer _) turns ?_
      intro g hg
      rcases List.mem_append.mp hg with hg | hg
      · exact under_way g hg
      · cases List.mem_singleton.mp hg
        exact ⟨_, rfl⟩
    | ends | finds => exact .kept leases sends
    | leases _ found => exact absurd (nothing pre e mid split turns under_way _ rfl) found
    | returns done | sends done | turns done => cases now.symm.trans done

/-- A run over which the worker is never ready is a window for it. -/
theorem window_run {s t : DispatchProcess} (run : Run DispatchProcess.step s es t)
    (unready : ∀ e ∈ es, e.before.hub.ready w = false)
    (nothing : ∀ pre e mid f post, es = pre ++ (e :: mid ++ f :: post) → Stray w e mid f →
      ∀ ctx, f.action = .commit ctx → f.before.hub.db.dispatchable ctx = none) :
    Window w s es t := by
  induction run with
  | nil => exact .kept (Nat.le_refl _) (Nat.le_refl _)
  | @snoc es t a u run taken ih =>
    have earlier := ih (fun e he => unready e (List.mem_append_left _ he)) ?_
    · refine earlier.step (step_moves taken) ?_
      intro pre e mid split turns under_way
      refine nothing pre e mid ⟨t, a, u⟩ [] (by simp [split]) ⟨turns, under_way, ?_⟩
      intro g hg
      refine unready g ?_
      rw [split, List.append_assoc]
      exact List.mem_append_right _ hg
    · intro pre e mid f post split
      exact nothing pre e mid f (post ++ [⟨t, a, u⟩]) (by simp [split])

/-- What a window has done for a worker is what was owed to it. -/
theorem Window.bounds {s t : DispatchProcess} (h : Window w s es t) :
    t.leasesOf w ≤ s.leasesOf w + s.point.owed w ∧ t.sendsTo w ≤ s.sendsTo w + s.point.unsent w := by
  cases h with
  | kept leases sends =>
    exact ⟨(Nat.le_add_right _ _).trans leases, (Nat.le_add_right _ _).trans sends⟩
  | stray leases sends => exact ⟨leases, sends⟩

theorem run_leases {s t : DispatchProcess} (run : Run DispatchProcess.step s es t) (w : WorkerId) :
    s.leasesOf w ≤ t.leasesOf w := by
  induction run with
  | nil => exact Nat.le_refl _
  | snoc run taken ih => exact ih.trans ((step_moves taken).leases_grow w)

theorem run_under_way {s t : DispatchProcess} (run : Run DispatchProcess.step s es t)
    (hub : ∀ e ∈ es, ∃ a, e.action = .hub a) : t.point = s.point := by
  induction run with
  | nil => rfl
  | snoc run taken ih =>
    obtain ⟨b, rfl⟩ := hub _ (List.mem_append_right _ List.mem_cons_self)
    refine Eq.trans ?_ (ih fun e he => hub e (List.mem_append_left _ he))
    cases step_moves taken with
    | hub hub => rfl
    | ends own => exact absurd rfl (own b)

theorem turned_point {e : Event DispatchProcess DispatchAction} {w : WorkerId}
    (taken : step e.before e.action = some e.after) (turns : Turns e w) :
    e.after.point = .transaction w := by
  obtain ⟨turn, now, next⟩ := turns
  simp only [step, turn, now, Option.some.injEq] at taken
  rw [← taken]
  exact advance_point next

theorem committed_leases {s s' : DispatchProcess} {ctx : Ctx} {job : Job}
    (taken : step s (.commit ctx) = some s') (now : s.point = .transaction w)
    (found : s.hub.db.dispatchable ctx = some job) : s'.leasesOf w = s.leasesOf w + 1 := by
  obtain ⟨dispatched, db, done⟩ := ok_of_dispatchable found w
  simp only [step, now, done, Option.some.injEq] at taken
  rw [← taken]
  simp [leasesOf]

/-- A tick holds back in exactly those of its runs in which no transaction that it
begins for a worker that is not ready, and that stays so, finds a job. -/
theorem holds_back_iff {isDispatchPaused isDbPartitioned : Bool} {hub : HubProcess}
    {es : List (Event DispatchProcess DispatchAction)} {s : DispatchProcess}
    (run : Run step (tick isDispatchPaused isDbPartitioned hub) es s) :
    HoldsBack es ↔ StraysFindNothing es := by
  constructor
  · intro holds w pre e mid f post split stray ctx commits
    by_contra found
    obtain ⟨job, found⟩ := Option.ne_none_iff_exists'.mp found
    obtain ⟨_, turned, run'⟩ := (split ▸ run).at_split
    obtain ⟨under_way, committed, _⟩ := run'.at_split
    have now : f.before.point = .transaction w :=
      (run_under_way under_way stray.under_way).trans (turned_point turned stray.turns)
    have leased := committed_leases (commits ▸ committed) now found
    have earlier : e.before.leasesOf w ≤ f.before.leasesOf w :=
      ((step_moves turned).leases_grow w).trans (run_leases under_way w)
    have kept := (holds w pre (e :: mid ++ [f]) post (by simp [split]) stray.unready e rfl f
      List.getLast?_concat).2.2 (by simp [stray.turns.2.1])
    omega
  · intro nothing w before during after split unready e he f hf
    obtain ⟨u, _, run'⟩ := Run.split (split ▸ run)
    obtain ⟨v, window, _⟩ := run'.split
    have bounds := (window_run window unready ?_).bounds
    · cases window.head_before he
      cases window.last_after hf
      have owed : e.before.point.owed w ≤ 1 := e.before.point.owed_le w
      have unsent : e.before.point.unsent w ≤ 1 := e.before.point.unsent_le w
      refine ⟨by omega, by omega, ?_⟩
      intro other
      have none : e.before.point.owed w = 0 := TickPoint.owed_other other
      have grow := run_leases window w
      omega
    · intro pre e mid f post inner
      exact nothing w (before ++ pre) e mid f (post ++ after) (by simp [split, inner])

/-- A coordinator with three pending jobs to which `w1` has said hello. -/
def greeted : Option HubProcess :=
  (exec Cluster.step .init threeJobs).bind fun c =>
    exec HubProcess.step (.init c.db) [.connection 1,
      .message 1 (.workerHello "w1" 4) (.quiet "c1" 4), .write 0, .resume 0 (.quiet "c1" 4)]

theorem greeted_any {p : HubProcess → Bool} (h : greeted.any p = true) :
    ∃ c hub, Reachable Cluster.step .init c ∧ Reachable HubProcess.step (.init c.db) hub ∧
      p hub = true := by
  obtain ⟨hub, started, checked⟩ := (Option.any_eq_true _ _).mp h
  obtain ⟨c, submitted, said⟩ := Option.bind_eq_some_iff.mp started
  exact ⟨c, hub, reachable_of_exec _ submitted, reachable_of_exec _ said, checked⟩

def round : List DispatchAction := [.commit (.quiet "c1" 5), .resume, .turn]

/-- The worker disconnects while the tick is in its first transaction. -/
def disconnectRun : List DispatchAction :=
  .hub (.closed 1) :: (round ++ round ++ round ++ round)

theorem disconnectRun_pours : ∃ c hub es s, Reachable Cluster.step .init c ∧
    Reachable HubProcess.step (.init c.db) hub ∧ Run step (tick false false hub) es s ∧
    ¬ HoldsBack es := by
  obtain ⟨c, hub, submitted, said, checked⟩ := greeted_any (p := fun hub =>
    let es := trace step (tick false false hub) disconnectRun
    (exec step (tick false false hub) disconnectRun).isSome &&
      ((es.drop 1).all fun e => !e.before.hub.ready "w1") &&
      ((es.drop 1).head?.any fun e => e.before.leasesOf "w1" = 0) &&
      (es.drop 1).getLast?.any fun f => f.after.leasesOf "w1" = 3) (by decide)
  simp only [Bool.and_eq_true] at checked
  obtain ⟨⟨⟨ran, unready⟩, first⟩, last⟩ := checked
  obtain ⟨s, hs⟩ := Option.isSome_iff_exists.mp ran
  obtain ⟨e, he, none⟩ := (Option.any_eq_true _ _).mp first
  obtain ⟨f, hf, three⟩ := (Option.any_eq_true _ _).mp last
  refine ⟨c, hub, _, s, submitted, said, run_of_exec disconnectRun hs, ?_⟩
  intro holds
  have parts (es : List (Event DispatchProcess DispatchAction)) :
      es = es.take 1 ++ (es.drop 1 ++ []) := by rw [List.append_nil, List.take_append_drop]
  have one := (holds "w1" _ _ [] (parts _) (fun e he => by
    simpa only [Bool.not_eq_true'] using List.all_eq_true.mp unready e he) e he f hf).1
  rw [of_decide_eq_true none, of_decide_eq_true three] at one
  omega

def lowerLimitRun : List DispatchAction := .hub (.setConcurrency "w1" 1) :: round

theorem holds_back_lowerLimitRun : ∃ c hub es s, Reachable Cluster.step .init c ∧
    Reachable HubProcess.step (.init c.db) hub ∧ Run step (tick false false hub) es s ∧
    s.sends = [("w1", true)] ∧ HoldsBack es := by
  obtain ⟨c, hub, submitted, said, checked⟩ := greeted_any (p := fun hub =>
    ((exec step (tick false false hub) lowerLimitRun).any fun s => s.sends = [("w1", true)]) &&
      (trace step (tick false false hub) lowerLimitRun).all fun e =>
        e.before.turnsTo.all e.before.hub.ready) (by decide)
  obtain ⟨ran, ready⟩ := Bool.and_eq_true_iff.mp checked
  obtain ⟨s, hs, sent⟩ := exec_any ran
  have run := run_of_exec lowerLimitRun hs
  refine ⟨c, hub, _, s, submitted, said, run, of_decide_eq_true sent, (holds_back_iff run).mpr ?_⟩
  intro w pre e mid f post split stray
  have turned := List.all_eq_true.mp ready e (by simp [split])
  rw [stray.turns.2.2, Option.all_some, stray.unready e List.mem_cons_self] at turned
  cases turned

end DispatchProcess

end Dispatcher
