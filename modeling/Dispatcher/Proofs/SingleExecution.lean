import Dispatcher.Installation.Tracking
import Dispatcher.Proofs.CommitSafety

namespace Dispatcher
open Tables Runs

namespace Installation

/-- No lease is executed twice, by whatever worker, so a job is executed at most
as often as it was leased. -/
structure ExecutedOnce (es : List (Event Installation Action)) (s : Installation) : Prop where
  distinct : ((startedIn es).map Execution.token).Nodup
  leased : ∀ run ∈ startedIn es, ∃ h ∈ s.deployment.base.db.historyOf run.jobId, h.fence = run.token
  bounded : ∀ j, ((startedIn es).filter fun run => run.jobId = j).length ≤
    (s.deployment.base.db.historyOf j).length

/-- What the workers have said under one token: the same result every time, or a failure. -/
structure OneOutcome (s : Installation) : Prop where
  results : ∀ ws ws' msg msg', (ws, .jobResult msg) ∈ s.deployment.base.wire →
    (ws', .jobResult msg') ∈ s.deployment.base.wire → msg.token = msg'.token → msg = msg'
  failures : ∀ ws ws' msg msg', (ws, .jobResult msg) ∈ s.deployment.base.wire →
    (ws', .jobFailed msg') ∈ s.deployment.base.wire → msg'.temporary = false → msg.token ≠ msg'.token

/-- Nobody but the workers writes to the coordinators. -/
def WorkersOnly (es : List (Event Installation Action)) : Prop :=
  ∀ e ∈ es, ∀ ws msg, e.action ≠ .deployment (.base (.workerSend ws msg))

variable {configs : List (WorkerId × Int)} {es : List (Event Installation Action)} {s : Installation}

/-- What holds of the dispatches of a cluster holds of those of an installation. -/
theorem loaded (run : Run step (init configs) es s) :
    ∃ u : Cluster, s.deployment.Tracks u ∧ u.Loaded := by
  obtain ⟨fs, u, reached, _, tracks⟩ := tracked run
  exact ⟨u, tracks, Cluster.loaded_reachable ⟨fs, reached⟩⟩

/-- When no message is delivered twice, no token is executed twice. -/
theorem started_nodup (run : Run step (init configs) es s) (once : (deliveredIn es).Nodup) :
    ((startedIn es).map Execution.token).Nodup := by
  induction run with
  | nil => exact List.nodup_nil
  | @snoc es s a s' run taken ih =>
    rw [deliveredIn_snoc] at once
    obtain ⟨earlier, _, apart⟩ := List.nodup_append.mp once
    have before := ih earlier
    rw [startedIn_snoc, List.map_append]
    cases a with
    | deployment | worker => simpa [started] using before
    | deliver i k =>
      have begins := (step_running (named_reachable ⟨es, run⟩) taken).2 i k rfl
      generalize started ⟨s, .deliver i k, s'⟩ = new at begins
      cases begins with
      | nothing => simpa using before
      | @one ws msg hk =>
        refine List.nodup_append.mpr ⟨before, List.nodup_singleton _, ?_⟩
        intro t ht t' ht' same
        obtain ⟨x, hx, rfl⟩ := List.mem_map.mp ht
        rw [List.mem_singleton.mp ht'] at same
        obtain ⟨k', hk', load⟩ := run_started run x hx
        have here : s.sentLoad k = some msg.execution.load := by
          simp [sentLoad, hk, CoordToWorkerMsg.load, Execution.load, JobDispatch.execution]
        obtain ⟨u, tracks, loaded⟩ := loaded run
        have place : k' = k := sentLoad_inj tracks loaded load here same
        exact apart k' hk' k (by simp [delivery]) place

/-- Nothing is executed without a lease. -/
theorem started_leased (run : Run step (init configs) es s) : ∀ x ∈ startedIn es,
    ∃ h ∈ s.deployment.base.db.historyOf x.jobId, h.fence = x.token := by
  intro x hx
  obtain ⟨k, _, load⟩ := run_started run x hx
  obtain ⟨u, tracks, loaded⟩ := loaded run
  obtain ⟨workerId, granted⟩ := loaded.issued _ (sentLoad_loads tracks load)
  rw [tracks.db] at granted
  obtain ⟨h, hh, same⟩ := List.mem_map.mp granted
  exact ⟨h, hh, congrArg Prod.snd same⟩

/-- Where nothing is delivered twice, each lease is executed once at most. -/
theorem executed_once (run : Run step (init configs) es s) (once : (deliveredIn es).Nodup) :
    ExecutedOnce es s := by
  have distinct := started_nodup run once
  have leased := started_leased run
  refine ⟨distinct, leased, fun j => ?_⟩
  have tokens : (((startedIn es).filter fun run => run.jobId = j).map Execution.token).Nodup :=
    distinct.sublist (List.filter_sublist.map _)
  have fences : ((startedIn es).filter fun run => run.jobId = j).map Execution.token ⊆
      (s.deployment.base.db.historyOf j).map LeaseHistory.fence := by
    intro t ht
    obtain ⟨x, hx, rfl⟩ := List.mem_map.mp ht
    obtain ⟨mem, named⟩ := List.mem_filter.mp hx
    have ofJob : x.jobId = j := of_decide_eq_true named
    obtain ⟨h, hh, same⟩ := leased x mem
    exact List.mem_map.mpr ⟨h, ofJob ▸ hh, same⟩
  have bound := (List.subperm_of_subset tokens fences).length_le
  rwa [List.length_map, List.length_map] at bound

/-- Two workers register. The first one runs the job past its lease, and the second one
gets it from the reaper. -/
def reissuedRun : List Action :=
  [.deployment (.base (.post "c1" (some (.str "k")) (some (.obj [])))),
    .deployment (.base (.resume 0 (.quiet "c1" 1))), .deployment (.base (.resume 0 (.quiet "c1" 1))),
    .worker 0 (.start 1), .deployment (.process "c1" (.hub (.connection 1))), .worker 0 (.opened 1),
    .deployment (.receive "c1" 0 (.quiet "c1" 2)), .deployment (.process "c1" (.hub (.write 0))),
    .deployment (.process "c1" (.hub (.resume 0 (.quiet "c1" 2)))),
    .worker 1 (.start 2), .deployment (.process "c1" (.hub (.connection 2))), .worker 1 (.opened 2),
    .deployment (.receive "c1" 1 (.quiet "c1" 2)), .deployment (.process "c1" (.hub (.write 0))),
    .deployment (.process "c1" (.hub (.resume 0 (.quiet "c1" 2)))),
    .deployment (.tick "c1" false false), .deployment (.process "c1" (.commit (.quiet "c1" 3))),
    .deployment (.process "c1" .resume), .deployment (.process "c1" .turn),
    .deployment (.process "c1" (.commit (.quiet "c1" 3))), .deployment (.process "c1" .resume),
    .deployment (.process "c1" .turn), .deliver 0 0,
    .deployment (.base (.reaperTick "c1" (.quiet "c1" 60004))),
    .deployment (.base (.resume 0 (.quiet "c1" 60004))), .deployment (.tick "c1" false false),
    .deployment (.process "c1" (.commit (.quiet "c1" 60005))), .deployment (.process "c1" .resume),
    .deliver 1 1]

theorem executed_once_reissuedRun : ∃ s, exec step (init [("w1", 1), ("w2", 1)]) reissuedRun = some s ∧
    (startedIn (trace step (init [("w1", 1), ("w2", 1)]) reissuedRun)).map
      (fun run => (run.jobId, run.token)) = [(1, 1), (1, 2)] ∧
    ExecutedOnce (trace step (init [("w1", 1), ("w2", 1)]) reissuedRun) s := by
  obtain ⟨s, hf, hp⟩ : ∃ s, exec step (init [("w1", 1), ("w2", 1)]) reissuedRun = some s ∧
      (decide (deliveredIn (trace step (init [("w1", 1), ("w2", 1)]) reissuedRun)).Nodup &&
        decide ((startedIn (trace step (init [("w1", 1), ("w2", 1)]) reissuedRun)).map
          (fun run => (run.jobId, run.token)) = [(1, 1), (1, 2)])) = true := exec_any (by decide)
  obtain ⟨once, twice⟩ := Bool.and_eq_true_iff.mp hp
  exact ⟨s, hf, of_decide_eq_true twice,
    executed_once (run_of_exec reissuedRun hf) (of_decide_eq_true once)⟩

/-- Every result and every final failure comes from a run that ended so. -/
structure Spoken (ends : List (Execution × Except String Json)) (s : Installation) : Prop where
  kept : ∀ w ∈ s.workers, ∀ j token result, w.Answers j token result →
    ∃ run, (run, .ok result) ∈ ends ∧ run.jobId = j ∧ run.token = token
  results : ∀ ws msg, (ws, .jobResult msg) ∈ s.deployment.base.wire →
    ∃ run, (run, .ok msg.result) ∈ ends ∧ run.jobId = msg.jobId ∧ run.token = msg.token
  failures : ∀ ws msg, (ws, .jobFailed msg) ∈ s.deployment.base.wire → msg.temporary = false →
    ∃ run, (run, .error msg.error) ∈ ends ∧ run.jobId = msg.jobId ∧ run.token = msg.token

section

variable {ends : List (Execution × Except String Json)}

theorem Spoken.more {deployment : Deployment} (h : Spoken ends s)
    (wire : deployment.base.wire = s.deployment.base.wire) : Spoken ends { s with deployment } where
  kept := h.kept
  results ws msg hm := h.results ws msg (wire ▸ hm)
  failures ws msg hm := h.failures ws msg (wire ▸ hm)

/-- A worker says what its runs have ended with, or says it again. -/
theorem Spoken.react {i : Nat} {e : WorkerEvent} {w w' : WorkerService}
    {sends : List WorkerToCoordMsg} (named : ∀ w ∈ s.workers, w.TimersNamed) (h : Spoken ends s)
    (hi : s.workers[i]? = some w) (taken : w.handle e = some (w', sends)) :
    Spoken (ends ++ (w.finishes e).toList)
      ⟨s.deployment.hears (Fleet.emitted w' sends), s.workers.set i w'⟩ := by
  have mem := List.mem_of_getElem? hi
  have tidy := named w mem
  have earlier {x} (hx : x ∈ ends) : x ∈ ends ++ (w.finishes e).toList := List.mem_append_left _ hx
  have now {x} (hx : w.finishes e = some x) : x ∈ ends ++ (w.finishes e).toList :=
    List.mem_append_right _ (Option.mem_toList.mpr hx)
  have stored : ∀ w₀ ∈ s.workers, ∀ j token result, w₀.Answers j token result →
      ∃ run, (run, .ok result) ∈ ends ++ (w.finishes e).toList ∧ run.jobId = j ∧
        run.token = token := by
    intro w₀ hw j token result answers
    obtain ⟨run, hr, rest⟩ := h.kept w₀ hw j token result answers
    exact ⟨run, earlier hr, rest⟩
  constructor
  · intro u hu j token result answers
    rcases mem_set hu with rfl | hu
    · rcases WorkerService.handle_answers tidy taken answers with before | ⟨run, hr, rest⟩
      · exact stored w mem j token result before
      · exact ⟨run, now hr, rest⟩
    · exact stored u hu j token result answers
  · intro ws msg hm
    rcases List.mem_append.mp hm with hm | hm
    · obtain ⟨run, hr, rest⟩ := h.results ws msg hm
      exact ⟨run, earlier hr, rest⟩
    · rcases WorkerService.handle_results tidy taken (emitted_mem hm) with before | ⟨run, hr, rest⟩
      · exact stored w mem _ _ _ before
      · exact ⟨run, now hr, rest⟩
  · intro ws msg hm final
    rcases List.mem_append.mp hm with hm | hm
    · obtain ⟨run, hr, rest⟩ := h.failures ws msg hm final
      exact ⟨run, earlier hr, rest⟩
    · obtain ⟨run, hr, rest⟩ := WorkerService.handle_failures tidy taken (emitted_mem hm) final
      exact ⟨run, now hr, rest⟩

end

/-- The workers say nothing that no run of theirs has come to. -/
theorem run_spoken (run : Run step (init configs) es s) (workers : WorkersOnly es) :
    Spoken (finishedIn es) s := by
  induction run with
  | nil =>
    constructor
    · rintro w hw j token result ⟨job, present, _⟩
      obtain ⟨p, _, rfl⟩ := List.mem_map.mp hw
      cases present
    · intro ws msg hm
      cases hm
    · intro ws msg hm
      cases hm
  | @snoc es s a s' run taken ih =>
    have h := ih fun e he => workers e (List.mem_append_left _ he)
    have named := named_reachable ⟨es, run⟩
    rw [finishedIn_snoc]
    cases step_moves taken with
    | deployment moved =>
      have own := workers _ (List.mem_append_right _ (List.mem_singleton_self _))
      have wire := Deployment.step_wire moved fun ws msg same => own ws msg (congrArg _ same)
      rw [show finished _ = none from rfl, Option.toList_none, List.append_nil]
      exact h.more wire
    | @worker i e w w' sends own hi moved =>
      rw [show finished _ = w.finishes e by simp [finished, hi]]
      exact h.react named hi moved
    | @delivered i k ws msg w w' sends hk hi moved => exact h.react named hi moved

/-- The runs that have ended have distinct tokens. -/
theorem finished_nodup (run : Run step (init configs) es s) (once : (deliveredIn es).Nodup) :
    ((finishedIn es).map fun x => x.1.token).Nodup := by
  have all := ((run_running run).map Execution.token).nodup_iff.mpr (started_nodup run once)
  rw [List.map_append, List.map_map] at all
  exact (List.nodup_append.mp all).2.1

/-- No token has two outcomes, however often a result is repeated. -/
theorem one_outcome (run : Run step (init configs) es s) (once : (deliveredIn es).Nodup)
    (workers : WorkersOnly es) : OneOutcome s := by
  have spoken := run_spoken run workers
  have distinct := finished_nodup run once
  constructor
  · intro ws ws' msg msg' hm hm' same
    obtain ⟨x, hx, job, token⟩ := spoken.results ws msg hm
    obtain ⟨x', hx', job', token'⟩ := spoken.results ws' msg' hm'
    have tokens : x.token = x'.token := token.trans (same.trans token'.symm)
    have pair := List.inj_on_of_nodup_map distinct hx hx' tokens
    simp only [Prod.mk.injEq, Except.ok.injEq] at pair
    obtain ⟨rfl, results⟩ := pair
    obtain ⟨j, t, r⟩ := msg
    obtain ⟨j', t', r'⟩ := msg'
    simp only [JobResult.mk.injEq]
    exact ⟨job.symm.trans job', same, results⟩
  · intro ws ws' msg msg' hm hm' final same
    obtain ⟨x, hx, _, token⟩ := spoken.results ws msg hm
    obtain ⟨x', hx', _, token'⟩ := spoken.failures ws' msg' hm' final
    have tokens : x.token = x'.token := token.trans (same.trans token'.symm)
    have pair := List.inj_on_of_nodup_map distinct hx hx' tokens
    cases congrArg Prod.snd pair

def workersOnlyCheck (e : Event Installation Action) : Bool :=
  match e.action with
  | .deployment (.base (.workerSend ..)) => false
  | _ => true

theorem workersOnly_of_check (h : es.all workersOnlyCheck = true) : WorkersOnly es := by
  intro e he ws msg sends
  have checked := List.all_eq_true.mp h e he
  rw [workersOnlyCheck, sends] at checked
  cases checked

/-- A worker registers and gets a job and a new limit. -/
def dispatchedRun : List Action :=
  [.deployment (.base (.post "c1" (some (.str "k")) (some (.obj [])))),
    .deployment (.base (.resume 0 (.quiet "c1" 1))), .deployment (.base (.resume 0 (.quiet "c1" 1))),
    .worker 0 (.start 1), .deployment (.process "c1" (.hub (.connection 1))), .worker 0 (.opened 1),
    .deployment (.receive "c1" 0 (.quiet "c1" 2)), .deployment (.process "c1" (.hub (.write 0))),
    .deployment (.process "c1" (.hub (.resume 0 (.quiet "c1" 2)))),
    .deployment (.tick "c1" false false), .deployment (.process "c1" (.commit (.quiet "c1" 3))),
    .deployment (.process "c1" .resume), .deployment (.process "c1" (.hub (.setConcurrency "w1" 2))),
    .deployment (.process "c1" (.hub (.write 0))),
    .deployment (.process "c1" (.hub (.resume 0 (.quiet "c1" 3)))), .deliver 0 0, .deliver 0 1]

/-- Its result comes in twice, the first time with its ack dropped. -/
def ackRun : List Action := dispatchedRun ++
  [.worker 0 (.completed 0 (.obj [])), .deployment (.receive "c1" 1 (.quiet "c1" 4)),
    .deployment (.process "c1" (.hub (.resume 0 (.quiet "c1" 4)))),
    .deployment (.process "c1" (.hub (.resume 0 { Ctx.quiet "c1" 5 with dropAck := true }))),
    .worker 0 (.fire 1), .deployment (.receive "c1" 2 (.quiet "c1" 6)),
    .deployment (.process "c1" (.hub (.resume 0 (.quiet "c1" 6)))),
    .deployment (.process "c1" (.hub (.resume 0 (.quiet "c1" 6))))]

theorem one_outcome_ackRun : ∃ s, exec step (init [("w1", 4)]) ackRun = some s ∧
    1 < (s.deployment.base.wire.filter fun m => m.2.claim = some (1, 1)).length ∧ OneOutcome s := by
  obtain ⟨s, hf, hp⟩ : ∃ s, exec step (init [("w1", 4)]) ackRun = some s ∧
      (decide (deliveredIn (trace step (init [("w1", 4)]) ackRun)).Nodup &&
        (trace step (init [("w1", 4)]) ackRun).all workersOnlyCheck &&
        decide (1 < (s.deployment.base.wire.filter fun m => m.2.claim = some (1, 1)).length)) = true :=
    exec_any (by decide)
  obtain ⟨checks, repeated⟩ := Bool.and_eq_true_iff.mp hp
  obtain ⟨once, workers⟩ := Bool.and_eq_true_iff.mp checks
  exact ⟨s, hf, of_decide_eq_true repeated, one_outcome (run_of_exec ackRun hf)
    (of_decide_eq_true once) (workersOnly_of_check workers)⟩

end Installation

end Dispatcher
