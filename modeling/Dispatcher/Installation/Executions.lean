import Dispatcher.Cluster.Loads
import Dispatcher.Deployment.Tracking
import Dispatcher.Model.Installation
import Dispatcher.Worker.Executions

namespace Dispatcher
open Tables Runs

/-- An index of a list stands for its part under `g`, when the parts are distinct. -/
theorem filterMap_index {g : α → Option β} {l : List α} (distinct : (l.filterMap g).Nodup) {i k : Nat}
    (hi : (l[i]?).bind g = some b) (hk : (l[k]?).bind g = some b) : i = k := by
  induction l generalizing i k with
  | nil => cases hi
  | cons x rest ih =>
    have later : ∀ {n : Nat}, (rest[n]?).bind g = some b → b ∈ rest.filterMap g := by
      intro n hn
      obtain ⟨y, hy, hg⟩ := Option.bind_eq_some_iff.mp hn
      exact List.mem_filterMap.mpr ⟨y, List.mem_of_getElem? hy, hg⟩
    have tail : (rest.filterMap g).Nodup :=
      distinct.sublist ((List.sublist_cons_self x rest).filterMap g)
    have first (hx : g x = some b) : b ∉ rest.filterMap g := by
      rw [List.filterMap_cons_some hx] at distinct
      exact (List.nodup_cons.mp distinct).1
    cases i <;> cases k
    · rfl
    · exact absurd (later hk) (first hi)
    · exact absurd (later hi) (first hk)
    · rw [ih tail hi hk]

def Execution.load (run : Execution) : Dispatched := ⟨run.jobId, run.token, run.payload⟩

namespace Installation

/-- One case for each way that an installation goes on; in a reaction, with what the worker does. -/
inductive Moves (s : Installation) : Action → Installation → Prop where
  | deployment {a : Deployment.Action} {deployment : Deployment}
      (taken : Deployment.step s.deployment a = some deployment) :
      Moves s (.deployment a) { s with deployment }
  | worker {i : Nat} {e : WorkerEvent} {w w' : WorkerService} {sends : List WorkerToCoordMsg}
      (own : ∀ msg, e ≠ .message msg) (hi : s.workers[i]? = some w)
      (taken : w.handle e = some (w', sends)) :
      Moves s (.worker i e)
        ⟨s.deployment.hears (Fleet.emitted w' sends), s.workers.set i w'⟩
  | delivered {i k : Nat} {ws : SocketId} {msg : CoordToWorkerMsg} {w w' : WorkerService}
      {sends : List WorkerToCoordMsg} (hk : s.deployment.base.sent[k]? = some (ws, msg))
      (hi : s.workers[i]? = some w) (taken : w.handle (.message msg) = some (w', sends)) :
      Moves s (.deliver i k)
        ⟨s.deployment.hears (Fleet.emitted w' sends), s.workers.set i w'⟩

theorem react_eq {s s' : Installation} {i : Nat} {e : WorkerEvent} (h : s.react i e = some s') :
    ∃ w w' sends, s.workers[i]? = some w ∧ w.handle e = some (w', sends) ∧
      s' = ⟨s.deployment.hears (Fleet.emitted w' sends), s.workers.set i w'⟩ := by
  obtain ⟨⟨w', sends⟩, handled, rfl⟩ := Option.map_eq_some_iff.mp h
  obtain ⟨w, hi, taken⟩ := Option.bind_eq_some_iff.mp handled
  exact ⟨w, w', sends, hi, taken, rfl⟩

theorem step_moves {s s' : Installation} {a : Action} (h : step s a = some s') : Moves s a s' := by
  cases a with
  | deployment a =>
    obtain ⟨deployment, taken, rfl⟩ := Option.map_eq_some_iff.mp h
    exact .deployment taken
  | deliver i k =>
    obtain ⟨⟨ws, msg⟩, hk, hr⟩ := Option.bind_eq_some_iff.mp h
    obtain ⟨w, w', sends, hi, taken, rfl⟩ := react_eq hr
    exact .delivered hk hi taken
  | worker i e =>
    have own : ∀ msg, e ≠ .message msg := by
      rintro msg rfl
      cases h
    have reacts : s.react i e = some s' := by
      cases e with
      | message msg => exact absurd rfl (own msg)
      | _ => exact h
    obtain ⟨w, w', sends, hi, taken, rfl⟩ := react_eq reacts
    exact .worker own hi taken

theorem emitted_mem {w : WorkerService} {sends : List WorkerToCoordMsg}
    {m : SocketId × WorkerToCoordMsg} (hm : m ∈ Fleet.emitted w sends) : m.2 ∈ sends := by
  unfold Fleet.emitted at hm
  split at hm
  · split at hm
    · obtain ⟨msg, hs, rfl⟩ := List.mem_map.mp hm
      exact hs
    · cases hm
  · cases hm

theorem mem_set {l : List α} {i : Nat} {x y : α} (h : x ∈ l.set i y) : x = y ∨ x ∈ l :=
  (List.mem_or_eq_of_mem_set h).symm

/-- The handles of every worker are in order. -/
theorem named_reachable {configs : List (WorkerId × Int)} {s : Installation}
    (h : Reachable step (init configs) s) : ∀ w ∈ s.workers, w.TimersNamed := by
  apply h.invariant
  · intro w hw
    obtain ⟨p, _, rfl⟩ := List.mem_map.mp hw
    exact ⟨List.nodup_nil, fun t ht => by cases ht⟩
  intro s a s' hf hs w hw
  cases step_moves hs with
  | deployment => exact hf w hw
  | worker own hi taken | delivered hk hi taken =>
    rcases mem_set hw with rfl | hw
    · exact (WorkerService.handle_step (hf _ (List.mem_of_getElem? hi)) taken).1
    · exact hf w hw

def running (s : Installation) : List Execution := s.workers.flatMap WorkerService.executions

def started (e : Event Installation Action) : List Execution :=
  match e.action with
  | .deliver i _ => (e.after.workers[i]?).toList.flatMap fun w' =>
      w'.executions.drop ((e.before.workers[i]?).elim 0 fun w => w.executions.length)
  | _ => []

def finished (e : Event Installation Action) : Option (Execution × Except String Json) :=
  match e.action with
  | .worker i a => (e.before.workers[i]?).bind (·.finishes a)
  | _ => none

def startedIn (es : List (Event Installation Action)) : List Execution := es.flatMap started

def finishedIn (es : List (Event Installation Action)) : List (Execution × Except String Json) :=
  es.filterMap finished

/-- The messages of the coordinators that reach a worker, by their place among all sent. -/
def delivery (e : Event Installation Action) : Option Nat :=
  match e.action with
  | .deliver _ k => some k
  | _ => none

def deliveredIn (es : List (Event Installation Action)) : List Nat := es.filterMap delivery

theorem running_set {s : Installation} {i : Nat} {w : WorkerService} (w' : WorkerService)
    (hi : s.workers[i]? = some w) :
    ∃ others, s.running.Perm (w.executions ++ others) ∧
      ((s.workers.set i w').flatMap WorkerService.executions).Perm (w'.executions ++ others) := by
  obtain ⟨hlt, rfl⟩ := List.getElem?_eq_some_iff.mp hi
  refine ⟨(s.workers.eraseIdx i).flatMap WorkerService.executions, ?_, ?_⟩
  · exact (List.getElem_cons_eraseIdx_perm hlt).symm.flatMap_right _
  · exact (List.set_perm_cons_eraseIdx hlt w').flatMap_right _

inductive Begins (s : Installation) (k : Nat) : List Execution → Prop where
  | nothing : Begins s k []
  | one {ws : SocketId} {msg : JobDispatch} (hk : s.deployment.base.sent[k]? = some (ws, .jobDispatch msg)) :
      Begins s k [msg.execution]

/-- One step: what it starts and what it ends are accounted for among what runs. -/
theorem step_running {s s' : Installation} {a : Action} (named : ∀ w ∈ s.workers, w.TimersNamed)
    (hs : step s a = some s') :
    (s'.running ++ (finished ⟨s, a, s'⟩).toList.map Prod.fst).Perm
      (s.running ++ started ⟨s, a, s'⟩) ∧
    ∀ i k, a = .deliver i k → Begins s k (started ⟨s, a, s'⟩) := by
  cases step_moves hs with
  | deployment taken => exact ⟨List.Perm.refl _, fun i k h => by cases h⟩
  | @worker i e w w' sends own hi taken =>
    refine ⟨?_, fun i k h => by cases h⟩
    obtain ⟨others, before, after⟩ := running_set w' hi
    have ended (g : Installation) : finished ⟨s, .worker i e, g⟩ = w.finishes e := by simp [finished, hi]
    rw [ended]
    simp only [started, List.append_nil]
    cases WorkerService.handle_runs (named _ (List.mem_of_getElem? hi)) taken with
    | same unended kept =>
      rw [unended, Option.toList_none, List.map_nil, List.append_nil]
      rw [kept] at after
      exact after.trans before.symm
    | started brought => exact absurd brought (own _)
    | @ended n run outcome hn finish left =>
      rw [finish, Option.toList_some, List.map_singleton]
      obtain ⟨hlt, rfl⟩ := List.getElem?_eq_some_iff.mp hn
      have taken := List.getElem_cons_eraseIdx_perm hlt
      rw [left] at after
      refine (List.perm_append_singleton _ _).trans ?_
      exact ((after.cons _).trans (taken.append_right others)).trans before.symm
  | @delivered i k ws msg w w' sends hk hi taken =>
    obtain ⟨others, before, after⟩ := running_set w' hi
    have hlt := (List.getElem?_eq_some_iff.mp hi).1
    have new (deployment : Deployment) : started ⟨s, .deliver i k, ⟨deployment, s.workers.set i w'⟩⟩ =
        w'.executions.drop w.executions.length := by
      have after : (s.workers.set i w')[i]? = some w' := by simp [hlt]
      simp only [started, hi, after]
      simp
    rw [new]
    simp only [finished, Option.toList_none, List.map_nil, List.append_nil]
    cases WorkerService.handle_runs (named _ (List.mem_of_getElem? hi)) taken with
    | same unended kept =>
      rw [kept, List.drop_length, List.append_nil]
      rw [kept] at after
      exact ⟨after.trans before.symm, fun _ _ _ => .nothing⟩
    | @started msg' brought new =>
      cases brought
      rw [new, List.drop_left]
      rw [new] at after
      refine ⟨after.trans ?_, fun i' k' same => by cases same; exact .one hk⟩
      rw [List.append_assoc]
      refine (List.perm_append_comm.append_left _).trans ?_
      rw [← List.append_assoc]
      exact before.symm.append_right _
    | ended _ finish => cases finish

variable {configs : List (WorkerId × Int)} {es : List (Event Installation Action)} {s : Installation}

theorem startedIn_snoc (es : List (Event Installation Action)) (e : Event Installation Action) :
    startedIn (es ++ [e]) = startedIn es ++ started e := by
  simp [startedIn]

theorem finishedIn_snoc (es : List (Event Installation Action)) (e : Event Installation Action) :
    finishedIn (es ++ [e]) = finishedIn es ++ (finished e).toList := by
  cases h : finished e <;> simp [finishedIn, h]

theorem deliveredIn_snoc (es : List (Event Installation Action)) (e : Event Installation Action) :
    deliveredIn (es ++ [e]) = deliveredIn es ++ (delivery e).toList := by
  cases h : delivery e <;> simp [deliveredIn, h]

/-- Whatever was started is under way or has ended. -/
theorem run_running (run : Run step (init configs) es s) :
    (s.running ++ (finishedIn es).map Prod.fst).Perm (startedIn es) := by
  induction run with
  | nil =>
    have idle : (init configs).running = [] := by
      simp only [running, init, List.flatMap_map]
      exact List.flatMap_eq_nil_iff.mpr fun _ _ => rfl
    rw [idle]
    exact List.Perm.refl _
  | @snoc es s a s' run taken ih =>
    have now := (step_running (named_reachable ⟨es, run⟩) taken).1
    rw [startedIn_snoc, finishedIn_snoc, List.map_append]
    calc (s'.running ++ ((finishedIn es).map Prod.fst ++ (finished ⟨s, a, s'⟩).toList.map Prod.fst))
        |>.Perm (s'.running ++ (finished ⟨s, a, s'⟩).toList.map Prod.fst ++
          (finishedIn es).map Prod.fst) := by
          rw [List.append_assoc]
          exact List.perm_append_comm.append_left _
      _ |>.Perm (s.running ++ started ⟨s, a, s'⟩ ++ (finishedIn es).map Prod.fst) :=
          now.append_right _
      _ |>.Perm (s.running ++ (finishedIn es).map Prod.fst ++ started ⟨s, a, s'⟩) := by
          rw [List.append_assoc, List.append_assoc]
          exact List.perm_append_comm.append_left _
      _ |>.Perm (startedIn es ++ started ⟨s, a, s'⟩) := ih.append_right _

theorem step_sent {s s' : Installation} {a : Action} (h : step s a = some s') :
    s.deployment.base.sent <+: s'.deployment.base.sent := by
  cases step_moves h with
  | deployment taken => exact Deployment.step_sent taken
  | worker | delivered => exact List.prefix_rfl

/-- The dispatch at this place among everything sent. -/
def sentLoad (s : Installation) (k : Nat) : Option Dispatched :=
  (s.deployment.base.sent[k]?).bind fun m => m.2.load

/-- A message keeps its place among all sent. -/
theorem sentLoad_step {s s' : Installation} {a : Action} (h : step s a = some s') {k : Nat} {d : Dispatched}
    (hk : s.sentLoad k = some d) : s'.sentLoad k = some d := by
  obtain ⟨m, hm, hd⟩ := Option.bind_eq_some_iff.mp hk
  obtain ⟨more, same⟩ := step_sent h
  refine Option.bind_eq_some_iff.mpr ⟨m, ?_, hd⟩
  rw [← same]
  exact List.getElem?_append_left (List.getElem?_eq_some_iff.mp hm).1 |>.trans hm

/-- Every run was brought by a dispatch that was sent. -/
theorem run_started (run : Run step (init configs) es s) : ∀ x ∈ startedIn es,
    ∃ k ∈ deliveredIn es, s.sentLoad k = some x.load := by
  induction run with
  | nil =>
    intro x hx
    cases hx
  | @snoc es s a s' run taken ih =>
    intro x hx
    rw [startedIn_snoc] at hx
    rw [deliveredIn_snoc]
    rcases List.mem_append.mp hx with hx | hx
    · obtain ⟨k, hk, load⟩ := ih x hx
      exact ⟨k, List.mem_append_left _ hk, sentLoad_step taken load⟩
    · cases a with
      | deployment | worker => cases hx
      | deliver i k =>
        have begins := (step_running (named_reachable ⟨es, run⟩) taken).2 i k rfl
        refine ⟨k, List.mem_append_right _ (List.mem_singleton_self _), ?_⟩
        generalize started ⟨s, .deliver i k, s'⟩ = new at hx begins
        cases begins with
        | nothing => cases hx
        | one hk =>
          cases List.mem_singleton.mp hx
          exact sentLoad_step taken (Option.bind_eq_some_iff.mpr ⟨_, hk, rfl⟩)


end Installation

end Dispatcher
