import Dispatcher.Proofs.CommitSafety

namespace Dispatcher
open Tables Runs

def Answer.key (x : Answer) : Option String :=
  match x.request with
  | .post (some (.str key)) _ => some key
  | _ => none

/-- One row at most for the key, and every success names the job of that row. -/
structure Idempotent (s : Cluster) (key : String) : Prop where
  once : (s.db.jobs.rows.filter fun r => r.idempotencyKey = key).length ≤ 1
  answers : ∀ x ∈ s.answers, x.key = some key → x.response.status = 200 ∨ x.response.status = 201 →
    ∃ r ∈ s.db.jobs.rows, r.idempotencyKey = key ∧ x.response.body = .submitted (some r.jobId)

/-- `gen_random_uuid()` gives the row of a submission an id that no row has. -/
def FreshId (e : Event Cluster Action) : Prop :=
  ∀ ctx key payload, e.before.resumed e.action = some (ctx, .submitTx key payload) →
    e.before.db.jobs.lookup ctx.freshId = none

/-- The lookup of the winner after a lost race fails. -/
def LosesWinner (e : Event Cluster Action) : Prop :=
  ∃ i error c key payload, e.action = .fail i error ∧
    e.before.tasks[i]? = some (c, .submitWinner key payload)

def JobView.key (v : JobView) : Option String := v.job.map Job.idempotencyKey

/-- A row keeps its key. -/
theorem after_key {v : JobView} {k : String} (h : v.key = some k) {n : Nat} {j : JobId}
    {e : JobEvent} (he : e.Enabled n v) : (e.apply j v).key = some k := by
  obtain ⟨r, hr, rfl⟩ := Option.map_eq_some_iff.mp h
  have patched : ∀ patch : Db.JobPatch,
      (v.patchDispatched patch).map Job.idempotencyKey = some r.idempotencyKey := by
    intro patch
    simp only [JobView.patchDispatched, hr, Option.map_some, Option.some.injEq]
    split <;> rfl
  cases e with
  | submitted ctx key payload =>
    have hn : v.job = none := he
    rw [hn] at hr
    cases hr
  | dispatched | cancelled => simp [JobEvent.apply, JobView.key, hr, Db.JobPatch.on]
  | accepted | requeued | failed | reaped => exact patched _
  | discarded | extended => exact h

/-- A new key comes with a new row. -/
theorem submitted_of_key {v : JobView} {k : String} {n : Nat} {j : JobId} {e : JobEvent}
    (he : e.Enabled n v) (h : (e.apply j v).key = some k) :
    v.key = some k ∨ ∃ ctx payload, e = .submitted ctx k payload := by
  by_cases hs : ∃ ctx key payload, e = .submitted ctx key payload
  · obtain ⟨ctx, key, payload, rfl⟩ := hs
    cases h
    exact .inr ⟨ctx, payload, rfl⟩
  cases hv : v.key with
  | some k' =>
    have hk := after_key (j := j) hv he
    exact .inl (hk.symm.trans h)
  | none =>
    have hn : v.job = none := Option.map_eq_none_iff.mp hv
    cases e with
    | submitted ctx key payload => exact absurd ⟨ctx, key, payload, rfl⟩ hs
    | _ => simp [JobEvent.apply, JobView.key, JobView.patchDispatched, hn] at h

theorem key_of_mem {db : Db} {r : Job} (h : r ∈ db.jobs.rows) :
    (db.view r.jobId).key = some r.idempotencyKey := by
  have hl : (db.view r.jobId).job = some r := Table.lookup_of_mem h
  simp [JobView.key, hl]

theorem mem_of_key {db : Db} {j : JobId} {k : String} (h : (db.view j).key = some k) :
    ∃ r ∈ db.jobs.rows, r.jobId = j ∧ r.idempotencyKey = k := by
  obtain ⟨r, hr, hk⟩ := Option.map_eq_some_iff.mp h
  obtain ⟨hm, hj⟩ := Table.lookup_eq_some.mp hr
  exact ⟨r, hm, hj, hk⟩

theorem length_le_one {α : Type} {l : List α} (hn : l.Nodup) (h : ∀ a ∈ l, ∀ b ∈ l, a = b) :
    l.length ≤ 1 := by
  cases l with
  | nil => simp
  | cons a rest =>
    cases rest with
    | nil => simp
    | cons b rest =>
      have hab : a = b := h a List.mem_cons_self b (by simp)
      simp [hab] at hn

theorem jobByKey_key {db : Db} {key : String} {r : Job} (h : jobByKey db key = some r) :
    (db.view r.jobId).key = some key := by
  have hk : r.idempotencyKey = key := by simpa using List.find?_some h
  rw [key_of_mem (List.mem_of_find?_eq_some h), hk]

theorem submitTx_key {ctx : Ctx} {key : String} {payload : Json} {db db' : Db} {j : JobId}
    (h : submitTx ctx key payload db = .ok (j, db')) : (db'.view j).key = some key := by
  have hv := submitTx_view h ctx.freshId
  unfold submitTx Db.insertJob at h
  by_cases hi : (db.jobs.lookup ctx.freshId).isSome
  · simp [hi] at h
  by_cases hu : db.jobs.rows.any fun r => r.idempotencyKey = key
  · simp [hi, hu] at h
  simp only [hi, hu, Bool.false_eq_true, ↓reduceIte, Except.ok.injEq, Prod.mk.injEq] at h
  obtain ⟨rfl, rfl⟩ := h
  rw [hv]
  simp [submitEvent, hi, hu, JobView.after, JobEvent.apply, JobView.key]

/-- A unique violation under a fresh id is one of the key. -/
theorem submitTx_violation {ctx : Ctx} {key : String} {payload : Json} {db : Db}
    (hf : db.jobs.lookup ctx.freshId = none)
    (h : submitTx ctx key payload db = .error .uniqueViolation) :
    ∃ j, (db.view j).key = some key := by
  unfold submitTx Db.insertJob at h
  by_cases hu : db.jobs.rows.any fun r => r.idempotencyKey = key
  · obtain ⟨r, hm, hk⟩ := List.any_eq_true.mp hu
    exact ⟨r.jobId, by simpa [key_of_mem hm] using hk⟩
  · simp [hf, hu] at h

theorem resume_winner {t : Task} {ctx : Ctx} {wsOf : WorkerId → Option SocketId} {db : Db}
    {key : String} {payload : Json} (h : .submitWinner key payload ∈ (t.resume ctx wsOf db).next) :
    t = .submitTx key payload ∧ submitTx ctx key payload db = .error .uniqueViolation := by
  cases t with
  | submitTx key' payload' =>
    simp only [Task.resume] at h
    split at h
    · cases h
    · rename_i he
      cases List.mem_singleton.mp h
      exact ⟨rfl, he⟩
    · cases h
  | resultLookup | resultTx | resultReAck | dispatchTx | dispatchSend | submitLookup
  | cancelLookup =>
    simp only [Task.resume] at h
    repeat' split at h
    all_goals first
      | cases h; done
      | cases List.mem_singleton.mp h
  | helloUpsert | failedTx | heartbeatUpdate | reaperTx | submitWinner | cancelTx => cases h

theorem fail_winner {t : Task} {error : String} {db : Db} {key : String} {payload : Json} :
    .submitWinner key payload ∉ (t.fail db error).next := by
  intro h
  cases t with
  | resultLookup | submitLookup => cases List.mem_singleton.mp h
  | _ => cases h

theorem onMessage_winner {ctx : Ctx} {state : Option WorkerId} {ws : SocketId}
    {msg : WorkerToCoordMsg} {key : String} {payload : Json} :
    .submitWinner key payload ∉ onMessage ctx state ws msg := by
  intro h
  cases msg with
  | jobResult | jobHeartbeat =>
    obtain ⟨w, _, ht⟩ := List.mem_map.mp h
    cases ht
  | jobFailed | workerHello => cases List.mem_singleton.mp h
  | pong => cases h

theorem validateSubmit_error {idempotencyKey payload : Option Json} {r : Response}
    (h : validateSubmit idempotencyKey payload = .error r) : r.status = 400 := by
  unfold validateSubmit at h
  repeat' split at h
  all_goals
    cases h
    try rfl

/-- A success of a submission names a row with its key, but for a winner that is not found. -/
theorem resume_named {t : Task} {ctx : Ctx} {wsOf : WorkerId → Option SocketId} {db : Db}
    {x : Answer} {key : String} (hx : x ∈ (t.resume ctx wsOf db).answers)
    (hk : x.key = some key) (ok : x.response.status = 200 ∨ x.response.status = 201) :
    (∃ j, ((t.resume ctx wsOf db).db.view j).key = some key ∧
      x.response.body = .submitted (some j)) ∨
    ∃ payload, t = .submitWinner key payload ∧ jobByKey db key = none := by
  cases t with
  | submitLookup key' payload =>
    simp only [Task.resume] at hx ⊢
    cases hj : jobByKey db key' with
    | none => simp [hj] at hx
    | some r =>
      simp only [hj, List.mem_singleton] at hx
      subst hx
      cases hk
      exact .inl ⟨r.jobId, jobByKey_key hj, rfl⟩
  | submitTx key' payload =>
    simp only [Task.resume] at hx ⊢
    cases hs : submitTx ctx key' payload db with
    | ok p =>
      simp only [hs, List.mem_singleton] at hx
      subst hx
      cases hk
      exact .inl ⟨p.1, submitTx_key hs, rfl⟩
    | error e =>
      cases e with
      | uniqueViolation => simp [hs] at hx
      | foreignKeyViolation =>
        simp only [hs, List.mem_singleton] at hx
        subst hx
        simp [internalError, makeResponse] at ok
  | submitWinner key' payload =>
    cases List.mem_singleton.mp hx
    cases hk
    cases hj : jobByKey db key with
    | none => exact .inr ⟨payload, rfl, rfl⟩
    | some r => exact .inl ⟨r.jobId, jobByKey_key hj, rfl⟩
  | cancelTx | cancelLookup =>
    simp only [Task.resume] at hx
    repeat' split at hx
    all_goals first
      | cases hx; done
      | cases List.mem_singleton.mp hx; cases hk
  | resultLookup | resultTx | resultReAck | dispatchTx | dispatchSend =>
    simp only [Task.resume] at hx
    repeat' split at hx
    all_goals cases hx
  | helloUpsert | failedTx | heartbeatUpdate | reaperTx => cases hx

theorem fail_named {t : Task} {error : String} {db : Db} {x : Answer} {key : String}
    (hx : x ∈ (t.fail db error).answers) (hk : x.key = some key)
    (ok : x.response.status = 200 ∨ x.response.status = 201) :
    ∃ payload, t = .submitWinner key payload := by
  cases t with
  | submitWinner key' payload =>
    cases List.mem_singleton.mp hx
    cases hk
    exact ⟨payload, rfl⟩
  | submitTx key' payload =>
    cases List.mem_singleton.mp hx
    rcases ok with ok | ok <;> cases ok
  | cancelLookup | cancelTx =>
    cases List.mem_singleton.mp hx
    cases hk
  | _ => cases hx

namespace Cluster

/-- A row is made by a submission whose key no row has. -/
theorem event_submitted {s : Cluster} {a : Action} {j : JobId} {ctx : Ctx} {key : String}
    {payload : Json} (h : s.event a j = some (.submitted ctx key payload)) :
    s.resumed a = some (ctx, .submitTx key payload) ∧ j = ctx.freshId ∧
      ∀ r ∈ s.db.jobs.rows, r.idempotencyKey ≠ key := by
  obtain ⟨⟨c, t⟩, hr, he⟩ := Option.bind_eq_some_iff.mp h
  cases event_cases he with
  | submitted fresh _ unique =>
    refine ⟨hr, fresh, ?_⟩
    simpa using unique

/-- Where the key of a job comes from: it was there, or this step inserted it. -/
theorem step_key {s s' : Cluster} {a : Action} {j : JobId} {k : String} (h : step s a = some s')
    (hk : (s'.db.view j).key = some k) : (s.db.view j).key = some k ∨
      ∃ ctx payload, s.resumed a = some (ctx, .submitTx k payload) ∧ j = ctx.freshId ∧
        ∀ r ∈ s.db.jobs.rows, r.idempotencyKey ≠ k := by
  rw [step_view h j] at hk
  cases he : s.event a j with
  | none =>
    rw [he] at hk
    exact .inl hk
  | some e =>
    rw [he] at hk
    rcases submitted_of_key (step_enabled he) hk with hk | ⟨ctx, payload, rfl⟩
    · exact .inl hk
    · exact .inr ⟨ctx, payload, event_submitted he⟩

theorem key_kept {s s' : Cluster} {a : Action} {j : JobId} {k : String} (h : step s a = some s')
    (hk : (s.db.view j).key = some k) : (s'.db.view j).key = some k := by
  rw [step_view h j]
  cases he : s.event a j with
  | none => exact hk
  | some e => exact after_key hk (step_enabled he)

def KeysUnique (s : Cluster) : Prop :=
  ∀ j j' k, (s.db.view j).key = some k → (s.db.view j').key = some k → j = j'

/-- `UQ_Jobs_IdempotencyKey` holds. -/
theorem keysUnique_step {s s' : Cluster} {a : Action} (hs : s.KeysUnique)
    (h : step s a = some s') : s'.KeysUnique := by
  intro j j' k hj hj'
  have fresh : ∀ i, (s.db.view i).key = some k → ¬ ∀ r ∈ s.db.jobs.rows, r.idempotencyKey ≠ k := by
    intro i hi none
    obtain ⟨r, hm, _, hk⟩ := mem_of_key hi
    exact none r hm hk
  rcases step_key h hj with hj | ⟨ctx, payload, hr, rfl, new⟩
  · rcases step_key h hj' with hj' | ⟨_, _, _, _, new⟩
    · exact hs j j' k hj hj'
    · exact absurd new (fresh j hj)
  · rcases step_key h hj' with hj' | ⟨ctx', payload', hr', rfl, _⟩
    · exact absurd new (fresh j' hj')
    · rw [hr] at hr'
      cases hr'
      rfl

theorem keysUnique_reachable {s : Cluster} (h : Reachable step init s) : s.KeysUnique :=
  h.invariant (fun _ _ _ hk => by cases hk) fun _ _ _ => keysUnique_step

theorem rows_of_key {s : Cluster} (hs : s.KeysUnique) (key : String) :
    (s.db.jobs.rows.filter fun r => r.idempotencyKey = key).length ≤ 1 := by
  have nodup : s.db.jobs.rows.Nodup := List.Nodup.of_map _ s.db.jobs.unique
  apply length_le_one (nodup.filter _)
  intro r hr q hq
  obtain ⟨hr, hrk⟩ := List.mem_filter.mp hr
  obtain ⟨hq, hqk⟩ := List.mem_filter.mp hq
  have hj : r.jobId = q.jobId := by
    apply hs _ _ key
    · rw [key_of_mem hr, of_decide_eq_true hrk]
    · rw [key_of_mem hq, of_decide_eq_true hqk]
  have hl := Table.lookup_of_mem (t := s.db.jobs) hr
  rw [hj, Table.lookup_of_mem hq] at hl
  exact (Option.some.inj hl).symm

/-- Every success names the row of its key, and a lost race has a winner. -/
structure Answered (s : Cluster) : Prop where
  named : ∀ x ∈ s.answers, ∀ key, x.key = some key →
    x.response.status = 200 ∨ x.response.status = 201 →
    ∃ j, (s.db.view j).key = some key ∧ x.response.body = .submitted (some j)
  winner : ∀ p ∈ s.tasks, ∀ key payload, p.2 = .submitWinner key payload →
    ∃ j, (s.db.view j).key = some key

theorem started_winner {s s' : Cluster} {a : Action} (fresh : FreshId ⟨s, a, s'⟩)
    (ht : .submitWinner key payload ∈ s.started a) : ∃ j, (s.db.view j).key = some key := by
  cases started_starts ht with
  | @resumed i ctx c t _ hi ht =>
    obtain ⟨rfl, he⟩ := resume_winner ht
    have hr : s.resumed (.resume i ctx) =
        some ({ ctx with coordinatorId := c }, .submitTx key payload) := by
      simp [resumed, hi]
    exact submitTx_violation (fresh _ _ _ hr) he
  | failed _ ht => exact absurd ht fail_winner
  | received _ ht => exact absurd ht onMessage_winner

theorem jobByKey_isSome {db : Db} {j : JobId} {key : String} (h : (db.view j).key = some key) :
    jobByKey db key ≠ none := by
  obtain ⟨r, hm, _, hk⟩ := mem_of_key h
  intro hn
  have hr := List.find?_eq_none.mp hn r hm
  simp [hk] at hr

theorem answered_named {s s' : Cluster} {a : Action} (hs : s.Answered) (h : step s a = some s')
    (found : ¬ LosesWinner ⟨s, a, s'⟩) {x : Answer} (hx : x ∈ s.answered a)
    (hk : x.key = some key) (ok : x.response.status = 200 ∨ x.response.status = 201) :
    ∃ j, (s'.db.view j).key = some key ∧ x.response.body = .submitted (some j) := by
  cases step_moves h with
  | @resumed i ctx c t hi =>
    simp only [answered, hi] at hx
    rcases resume_named hx hk ok with hj | ⟨payload, hq, hn⟩
    · exact hj
    · obtain ⟨j, hj⟩ := hs.winner _ (List.mem_of_getElem? hi) key payload hq
      exact absurd hn (jobByKey_isSome hj)
  | @failed i error c t hi =>
    simp only [answered, hi] at hx
    obtain ⟨payload, rfl⟩ := fail_named hx hk ok
    exact absurd ⟨i, error, c, key, payload, rfl, hi⟩ found
  | submitted valid => simp [answered, valid] at hx
  | refused invalid =>
    simp only [answered, invalid] at hx
    cases List.mem_singleton.mp hx
    simp [validateSubmit_error invalid] at ok
  | _ => cases hx

/-- Every answer names the row of its key, unless the lookup of the winner fails. -/
theorem answered_step {s s' : Cluster} {a : Action} (hs : s.Answered) (h : step s a = some s')
    (fresh : FreshId ⟨s, a, s'⟩) (found : ¬ LosesWinner ⟨s, a, s'⟩) : s'.Answered := by
  constructor
  · intro x hx key hk ok
    rw [step_answers h] at hx
    rcases List.mem_append.mp hx with hx | hx
    · obtain ⟨j, hj, hb⟩ := hs.named x hx key hk ok
      exact ⟨j, key_kept h hj, hb⟩
    · exact answered_named hs h found hx hk ok
  · intro p hp key payload ht
    have before : ∃ j, (s.db.view j).key = some key := by
      rcases step_tasks h hp with hp | hp
      · exact hs.winner p hp key payload ht
      · exact started_winner fresh (ht ▸ hp)
    obtain ⟨j, hj⟩ := before
    exact ⟨j, key_kept h hj⟩

/-- Unique keys and true answers make a submission idempotent. -/
theorem idempotent_of_answered {s : Cluster} (hk : s.KeysUnique) (hs : s.Answered)
    (key : String) : Idempotent s key := by
  refine ⟨rows_of_key hk key, ?_⟩
  intro x hx hxk ok
  obtain ⟨j, hj, hb⟩ := hs.named x hx key hxk ok
  obtain ⟨r, hm, rfl, hr⟩ := mem_of_key hj
  exact ⟨r, hm, hr, hb⟩

/-- Submission is idempotent in exactly the runs in which no lookup of a lost
race's winner fails. -/
theorem idempotent_iff {es : List (Event Cluster Action)} {s : Cluster} (h : Run step init es s)
    (fresh : ∀ e ∈ es, FreshId e) :
    (∀ e ∈ es, ∀ key, Idempotent e.after key) ↔ ∀ e ∈ es, ¬ LosesWinner e := by
  constructor
  · rintro hi ⟨s, a, s'⟩ he ⟨i, error, c, key, payload, rfl, ht⟩
    have taken := (h.event he).2
    simp only [step, ht, Option.some.injEq] at taken
    have answer : (⟨submitRequest key payload, jobAlreadySubmitted none⟩ : Answer) ∈ s'.answers := by
      rw [← taken]
      exact List.mem_append_right _ List.mem_cons_self
    obtain ⟨r, _, _, hb⟩ := (hi _ he key).answers _ answer rfl (.inl rfl)
    simp [jobAlreadySubmitted, makeResponse] at hb
  · intro found e he key
    have ok : ∀ f ∈ es, FreshId f ∧ ¬ LosesWinner f := fun f hf => ⟨fresh f hf, found f hf⟩
    have kept : ∀ s a t, s.Answered → step s a = some t →
        (FreshId ⟨s, a, t⟩ ∧ ¬ LosesWinner ⟨s, a, t⟩) → t.Answered :=
      fun s a t hs taken ok => answered_step hs taken ok.1 ok.2
    have start : init.Answered := by
      constructor
      · intro x hx
        cases hx
      · intro p hp
        cases hp
    exact idempotent_of_answered (keysUnique_reachable (h.event_after he))
      (h.guarded_events ok start kept e he).2 key

def freshCheck (e : Event Cluster Action) : Bool :=
  (e.before.resumed e.action).all fun p => match p.2 with
    | .submitTx _ _ => (e.before.db.jobs.lookup p.1.freshId).isNone
    | _ => true

theorem freshId_of_check {e : Event Cluster Action} (h : freshCheck e = true) : FreshId e := by
  intro ctx key payload hr
  simpa [freshCheck, hr] using h

/-- Two submissions of one key race; the loser's lookup of the winner fails. -/
def lostWinnerRun : List Action :=
  [.post "c1" (some (.str "k")) (some (.obj [])), .post "c2" (some (.str "k")) (some (.obj [])),
    .resume 0 (.quiet "c1" 1), .resume 0 (.quiet "c2" 1), .resume 0 (.quiet "c1" 2),
    .resume 0 (.quiet "c2" 3), .fail 0 "timeout exceeded when trying to connect"]

theorem lostWinnerRun_null : ∃ s, Run step init (trace step init lostWinnerRun) s ∧
    (∀ e ∈ trace step init lostWinnerRun, FreshId e) ∧ ¬ Idempotent s "k" := by
  obtain ⟨s, hs, hp⟩ : ∃ s, exec step init lostWinnerRun = some s ∧
      (s.answers.any fun x => x.key = some "k" && x.response.status = 200 &&
        x.response.body = .submitted none) = true := exec_any (by decide)
  have fresh : (trace step init lostWinnerRun).all freshCheck = true := by decide
  refine ⟨s, run_of_exec lostWinnerRun hs,
    fun e he => freshId_of_check (List.all_eq_true.mp fresh e he), ?_⟩
  intro hi
  obtain ⟨x, hx, hn⟩ := List.any_eq_true.mp hp
  simp only [Bool.and_eq_true, decide_eq_true_eq] at hn
  obtain ⟨r, _, _, hb⟩ := hi.answers x hx hn.1.1 (.inl hn.1.2)
  rw [hn.2] at hb
  cases hb

def winnerRun : List Action :=
  [.post "c1" (some (.str "k")) (some (.obj [])), .post "c2" (some (.str "k")) (some (.obj [])),
    .resume 0 (.quiet "c1" 1), .resume 0 (.quiet "c2" 1), .resume 0 (.quiet "c1" 2),
    .resume 0 (.quiet "c2" 3), .resume 0 (.quiet "c2" 4)]

theorem idempotent_winnerRun : ∃ s, Run step init (trace step init winnerRun) s ∧
    s.answers.length = 2 ∧ ∀ e ∈ trace step init winnerRun, ∀ key, Idempotent e.after key := by
  obtain ⟨s, hs, hp⟩ : ∃ s, exec step init winnerRun = some s ∧
      decide (s.answers.length = 2) = true := exec_any (by decide)
  have run := run_of_exec winnerRun hs
  have fresh : (trace step init winnerRun).all freshCheck = true := by decide
  have resumed : (trace step init winnerRun).all (fun e => match e.action with
      | .fail _ _ => false
      | _ => true) = true := by decide
  refine ⟨s, run, of_decide_eq_true hp, (idempotent_iff run fun e he =>
    freshId_of_check (List.all_eq_true.mp fresh e he)).mpr ?_⟩
  rintro e he ⟨i, error, _, _, _, ha, _⟩
  have hr := List.all_eq_true.mp resumed e he
  simp [ha] at hr

end Cluster

end Dispatcher
