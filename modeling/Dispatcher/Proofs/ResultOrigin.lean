import Dispatcher.Proofs.SingleExecution

namespace Dispatcher
open Tables Runs

namespace Cluster

/-- A client has posted this payload under this key. -/
def Posted (es : List (Event Cluster Action)) (x : String × Json) : Prop :=
  ∃ c, .post c (some (.str x.1)) (some x.2) ∈ visible input es

/-- A submission is at work with what was posted. -/
theorem started_submission {s : Cluster} {a : Action} {t : Task} {x : String × Json}
    (ht : t ∈ s.started a) (hx : t.submission = some x) :
    (∃ p ∈ s.tasks, p.2.submission = some x) ∨
      ∃ c, a = .post c (some (.str x.1)) (some x.2) := by
  cases started_starts ht with
  | submitted valid =>
    cases hx
    obtain ⟨rfl, rfl⟩ := validateSubmit_ok valid
    exact .inr ⟨_, rfl⟩
  | received hk ht =>
    rw [onMessage_submission ht] at hx
    cases hx
  | resumed hi ht => exact .inl ⟨_, List.mem_of_getElem? hi, resume_submission ht hx⟩
  | failed hi ht => exact .inl ⟨_, List.mem_of_getElem? hi, fail_submission ht hx⟩
  | deleted | dispatched | reaped => cases hx

/-- Every row, and every submission at work, was posted. -/
structure AllPosted (es : List (Event Cluster Action)) (s : Cluster) : Prop where
  tasks : ∀ p ∈ s.tasks, ∀ x, p.2.submission = some x → Posted es x
  rows : ∀ j x, s.db.submissionOf j = some x → Posted es x

/-- No row was made up by a coordinator. -/
theorem run_posted {es : List (Event Cluster Action)} {s : Cluster} (run : Run step init es s) :
    AllPosted es s := by
  induction run with
  | nil => exact ⟨fun p hp => (by cases hp), fun j x hx => (by cases hx)⟩
  | @snoc es s a s' run taken ih =>
    have later {x : String × Json} (h : Posted es x) : Posted (es ++ [⟨s, a, s'⟩]) x := by
      obtain ⟨c, seen⟩ := h
      exact ⟨c, by rw [visible_append]; exact List.mem_append_left _ seen⟩
    constructor
    · intro p hp x hx
      rcases step_tasks taken hp with hp | hp
      · exact later (ih.tasks p hp x hx)
      · rcases started_submission hp hx with ⟨q, hq, same⟩ | ⟨c, rfl⟩
        · exact later (ih.tasks q hq x same)
        · refine ⟨c, ?_⟩
          rw [visible_append, visible_singleton]
          exact List.mem_append_right _ (List.mem_singleton_self _)
    · intro j x hx
      rcases step_submission taken j with same | ⟨_, p, hp, y, hy, new⟩
      · exact later (ih.rows j x (same.symm.trans hx))
      · cases Option.some.inj (new.symm.trans hx)
        exact later (ih.tasks p hp _ hy)

end Cluster

namespace Installation

/-- A client has posted this payload under this key. -/
def Posted (es : List (Event Installation Action)) (x : String × Json) : Prop :=
  ∃ e ∈ es, ∃ c, e.action = .deployment (.base (.post c (some (.str x.1)) (some x.2)))

/-- What the workers run is `executeJob`; `text` is how an id is written. -/
def Executes (text : JobId → String) (es : List (Event Installation Action)) : Prop :=
  ∀ run result, (run, .ok result) ∈ finishedIn es →
    ∃ processedAt, result = executeJob (text run.jobId) run.payload processedAt

/-- The stored result of `j` is what `executeJob` made of the payload that a client
posted for `j`, in the run that the committed lease was executed by. -/
def Origin (text : JobId → String) (es : List (Event Installation Action)) (s : Installation) (j : JobId)
    (result : Json) : Prop :=
  ∃ key payload, s.deployment.base.db.submissionOf j = some (key, payload) ∧ Posted es (key, payload) ∧
    (∃ processedAt, result = executeJob (text j) payload processedAt) ∧
    ∃ c ∈ s.deployment.base.db.acceptedCommits j, (⟨j, c.fence, payload⟩, .ok result) ∈ finishedIn es

variable {configs : List (WorkerId × Int)} {es : List (Event Installation Action)} {s : Installation}

/-- The posts that the cluster sees are the clients'. -/
theorem posted_of_visible {fs : List (Event Cluster Dispatcher.Action)}
    (same : visible Cluster.input fs = visible input es) {x : String × Json}
    (h : Cluster.Posted fs x) : Posted es x := by
  obtain ⟨c, seen⟩ := h
  rw [same] at seen
  obtain ⟨e, he, here⟩ := mem_visible.mp seen
  refine ⟨e, he, c, ?_⟩
  unfold input at here
  split at here
  case h_1 a action =>
    rw [action]
    cases a with
    | base a => cases a with
      | post => cases List.mem_singleton.mp here; rfl
      | delete | workerSend => cases List.mem_singleton.mp here
      | _ => cases here
    | _ => cases here
  · obtain ⟨_, _, other⟩ := List.mem_map.mp here
    cases other
  · obtain ⟨_, _, other⟩ := List.mem_map.mp here
    cases other

/-- What ran is what was submitted. -/
theorem finished_payload (run : Run step (init configs) es s) {x : Execution}
    {outcome : Except String Json} (hx : (x, outcome) ∈ finishedIn es) :
    ∃ key, s.deployment.base.db.submissionOf x.jobId = some (key, x.payload) := by
  have ended : x ∈ (finishedIn es).map Prod.fst := List.mem_map_of_mem hx
  have begun : x ∈ startedIn es := (run_running run).subset (List.mem_append_right _ ended)
  obtain ⟨k, _, load⟩ := run_started run x begun
  obtain ⟨u, tracks, loaded⟩ := loaded run
  rw [← tracks.db]
  exact loaded.payload _ (sentLoad_loads tracks load)

/-- From the client's request to the row: the stored result is what the executor makes of
the posted payload, through every loss, copy and crash on the way. -/
theorem result_origin {text : JobId → String} (run : Run step (init configs) es s)
    (workers : WorkersOnly es) (executes : Executes text es) {j : JobId} {result : Json}
    (stored : s.deployment.base.db.resultOf j = some result) : Origin text es s j result := by
  obtain ⟨fs, u, reached, same, tracks⟩ := tracked run
  have known : Reachable Cluster.step Cluster.init u := ⟨fs, reached⟩
  have consistent := Cluster.consistent_reachable known j
  rw [← tracks.db] at stored
  have committed : (u.db.view j).commits ≠ [] :=
    consistent.result.mp (Option.isSome_iff_exists.mpr ⟨result, stored⟩)
  obtain ⟨c, hc⟩ := List.exists_mem_of_ne_nil _ committed
  obtain ⟨ws, msg, sent, rfl, token, rfl⟩ := Cluster.carried_reachable known j result stored c hc
  rw [tracks.wire] at sent
  obtain ⟨x, hx, ofJob, own⟩ := (run_spoken run workers).results ws msg sent
  obtain ⟨key, row⟩ := finished_payload run hx
  obtain ⟨processedAt, echo⟩ := executes x msg.result hx
  rw [ofJob] at row echo
  have whole : x = ⟨msg.jobId, c.fence, x.payload⟩ := by
    rw [← ofJob, ← token, ← own]
  have posted := (Cluster.run_posted reached).rows msg.jobId (key, x.payload) (tracks.db ▸ row)
  refine ⟨key, x.payload, row, posted_of_visible same posted, ⟨processedAt, echo⟩, c, ?_, whole ▸ hx⟩
  rw [← tracks.db, acceptedCommits_view consistent]
  exact hc

def echoRun : List Action := dispatchedRun ++
  [.worker 0 (.completed 0 (executeJob "1" (.obj []) "1970-01-01T00:00:00.004Z")),
    .deployment (.receive "c1" 1 (.quiet "c1" 4)),
    .deployment (.process "c1" (.hub (.resume 0 (.quiet "c1" 4)))),
    .deployment (.process "c1" (.hub (.resume 0 (.quiet "c1" 5))))]

theorem result_origin_echoRun : ∃ s result, exec step (init [("w1", 4)]) echoRun = some s ∧
    s.deployment.base.db.resultOf 1 = some result ∧
    Origin (fun j => toString j) (trace step (init [("w1", 4)]) echoRun) s 1 result := by
  obtain ⟨s, hf, hp⟩ : ∃ s, exec step (init [("w1", 4)]) echoRun = some s ∧
      ((trace step (init [("w1", 4)]) echoRun).all workersOnlyCheck &&
        (s.deployment.base.db.resultOf 1).isSome) = true := exec_any (by decide)
  obtain ⟨workers, stored⟩ := Bool.and_eq_true_iff.mp hp
  obtain ⟨result, stored⟩ := Option.isSome_iff_exists.mp stored
  have ended : finishedIn (trace step (init [("w1", 4)]) echoRun) = [(⟨1, 1, .obj []⟩,
      .ok (executeJob "1" (.obj []) "1970-01-01T00:00:00.004Z"))] := rfl
  refine ⟨s, result, hf, stored, ?_⟩
  refine result_origin (run_of_exec echoRun hf) (workersOnly_of_check workers) ?_ stored
  intro run result hr
  rw [ended] at hr
  cases List.mem_singleton.mp hr
  exact ⟨"1970-01-01T00:00:00.004Z", rfl⟩

end Installation

end Dispatcher
