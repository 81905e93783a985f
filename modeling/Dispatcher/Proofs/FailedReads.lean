import Dispatcher.Proofs.TransitionLog
import Dispatcher.Proofs.WellFormedStream

namespace Dispatcher
open Tables Runs

/-- The answer to a request for a job that does not exist. -/
def NotFound (answer : RouteAnswer α) : Prop := answer.response.status = 404

def EmptyTrail (answer : RouteAnswer AuditTrail) : Prop :=
  answer.response.status = 200 ∧ answer.data = some ⟨[], [], []⟩

/-- The job is not taken for an absent one, and a failed query leads to an error. -/
structure Reported (absent : RouteAnswer α → Prop) (answer : RouteAnswer α) : Prop where
  present : ¬ absent answer
  failed : answer.thrown ≠ [] → 500 ≤ answer.response.status

/-- Short of an error, nothing may have failed. -/
theorem Reported.thrown {absent : RouteAnswer α → Prop} {answer : RouteAnswer α}
    (h : Reported absent answer) (low : answer.response.status < 500) : answer.thrown = [] := by
  by_contra failed
  have server := h.failed failed
  omega

theorem getJob_present {db : Db} {j : JobId} {job : Job} (present : db.jobs.lookup j = some job)
    (lookup : Option String) :
    (getJob db j lookup).response.status = (if lookup.isSome then 404 else 200) ∧
      (getJob db j lookup).thrown = lookup.toList := by
  cases lookup with
  | none => simp [getJob, query, BaseRepo.get, caught, present, makeResponse]
  | some message => simp [getJob, query, BaseRepo.get, caught, jobNotFound, makeResponse]

/-- `GET /jobs/:id` takes a failed lookup for no row. -/
theorem getJob_reported_iff {db : Db} {j : JobId} {job : Job}
    (present : db.jobs.lookup j = some job) (lookup : Option String) :
    Reported NotFound (getJob db j lookup) ↔ lookup = none := by
  obtain ⟨status, thrown⟩ := getJob_present present lookup
  constructor
  · intro reported
    have none := reported.thrown (by rw [status]; split <;> decide)
    simpa [thrown] using none
  · intro succeeded
    subst succeeded
    exact ⟨by simp [NotFound, status], by simp [thrown]⟩

theorem deleteJob_failed (ctx : Ctx) (db db' : Db) (j : JobId) (message : String)
    (tx : Option String) :
    (deleteJob ctx db db' j (some message) tx).1.response.status = 404 ∧
      (deleteJob ctx db db' j (some message) tx).1.thrown = [message] := by
  simp [deleteJob, query, BaseRepo.get, makeResponse]

/-- Past its lookup, a failure of the handler is an error of the transaction. -/
theorem deleteJob_found {db db' : Db} {ctx : Ctx} {j : JobId} {job : Job}
    (present : db.jobs.lookup j = some job) (tx : Option String) :
    Reported NotFound (deleteJob ctx db db' j none tx).1 := by
  by_cases pending : job.status = .pending
  · cases tx with
    | none =>
      constructor <;>
        simp [NotFound, deleteJob, query, BaseRepo.get, present, pending, caught, jobCancelled,
          makeResponse, Except.map]
    | some message =>
      constructor <;>
        simp [NotFound, deleteJob, query, BaseRepo.get, present, pending, caught, driverError,
          makeResponse, Except.map]
  · constructor <;>
      simp [NotFound, deleteJob, query, BaseRepo.get, present, pending, makeResponse]

/-- `DELETE /jobs/:id` reports a failed transaction; a failed lookup it takes for no row. -/
theorem deleteJob_reported_iff {db db' : Db} {ctx : Ctx} {j : JobId} {job : Job}
    (present : db.jobs.lookup j = some job) (lookup tx : Option String) :
    Reported NotFound (deleteJob ctx db db' j lookup tx).1 ↔ lookup = none := by
  constructor
  · intro reported
    by_contra failed
    obtain ⟨message, rfl⟩ := Option.ne_none_iff_exists'.mp failed
    obtain ⟨status, thrown⟩ := deleteJob_failed ctx db db' j message tx
    have none := reported.thrown (by rw [status]; decide)
    cases thrown.symm.trans none
  · intro succeeded
    subst succeeded
    exact deleteJob_found present tx

/-- The handler is its two awaits, one after the other. -/
theorem deleteJob_tasks (ctx : Ctx) (wsOf : WorkerId → Option SocketId) (db db' : Db) (j : JobId)
    (lookup tx : Option String) :
    let first := match lookup with
      | some message => (Task.cancelLookup j).fail db message
      | none => (Task.cancelLookup j).resume ctx wsOf db
    let second := first.next.map fun task => match tx with
      | some message => task.fail db' message
      | none => task.resume ctx wsOf db'
    first.answers ++ second.flatMap Outcome.answers =
        [⟨.delete j, (deleteJob ctx db db' j lookup tx).1.response⟩] ∧
      ∀ o ∈ second, o.db = (deleteJob ctx db db' j lookup tx).2 := by
  cases lookup with
  | some message => simp [Task.fail, deleteJob, query, BaseRepo.get]
  | none =>
    cases found : db.jobs.lookup j with
    | none => simp [Task.resume, deleteJob, query, BaseRepo.get, found]
    | some job =>
      have named : job.jobId = j := Table.lookup_key found
      by_cases pending : job.status = .pending
      · cases tx with
        | none =>
          simp [Task.resume, deleteJob, query, BaseRepo.get, found, pending, caught, named,
            Except.map, Except.toOption]
        | some message =>
          simp [Task.resume, Task.fail, deleteJob, query, BaseRepo.get, found, pending, caught,
            driverError, internalError, Except.map, Except.toOption]
      · simp [Task.resume, deleteJob, query, BaseRepo.get, found, pending]

/-- A job has been submitted, and its first transition says so. -/
def JobView.Submitted (v : JobView) : Prop := v.job.isSome → v.transitions ≠ []

theorem apply_submitted {v : JobView} (h : v.Submitted) (j : JobId) (e : JobEvent) :
    (e.apply j v).Submitted := by
  intro job
  rw [apply_transitions]
  cases e with
  | discarded | extended expiresAt => simpa [JobEvent.row] using h job
  | requeued ctx =>
    have before : v.job.isSome := by simpa [JobEvent.apply, JobView.patchDispatched] using job
    simpa [JobEvent.row] using h before
  | _ => simp [JobEvent.row]

theorem submitted_init (j : JobId) : (Cluster.init.db.view j).Submitted := by
  intro job
  cases job

theorem step_submitted {s s' : Cluster} {a : Action} (taken : Cluster.step s a = some s')
    {j : JobId} (h : (s.db.view j).Submitted) : (s'.db.view j).Submitted := by
  rw [Cluster.step_view taken j]
  cases s.event a j with
  | none => exact h
  | some e => exact apply_submitted h j e

theorem submitted_reachable {c : Cluster} (reached : Reachable Cluster.step .init c) (j : JobId) :
    (c.db.view j).Submitted :=
  reached.invariant (submitted_init j) fun _ _ _ submitted taken => step_submitted taken submitted

theorem orderBy_ne_nil [LinearOrder κ] (key : α → κ) {rows : List α} (h : rows ≠ []) :
    orderBy key rows ≠ [] := by
  intro none
  have same := List.perm_insertionSort (fun a b => key a ≤ key b) rows
  rw [orderBy] at none
  rw [none] at same
  exact h same.symm.eq_nil

theorem audit_status (db : Db) (j : JobId) (transitions commits leases : Option String) :
    (audit db (some j) transitions commits leases).response.status = 200 ∧
      (audit db (some j) transitions commits leases).thrown =
        transitions.toList ++ commits.toList ++ leases.toList := ⟨rfl, rfl⟩

/-- `GET /audit` reports none of its failed queries. -/
theorem audit_reported_iff {c : Cluster} (reached : Reachable Cluster.step .init c) {j : JobId}
    {job : Job} (present : c.db.jobs.lookup j = some job)
    (transitions commits leases : Option String) :
    Reported EmptyTrail (audit c.db (some j) transitions commits leases) ↔
      transitions = none ∧ commits = none ∧ leases = none := by
  obtain ⟨status, thrown⟩ := audit_status c.db j transitions commits leases
  constructor
  · intro reported
    have none := reported.thrown (by rw [status]; decide)
    simpa [thrown] using none
  · intro succeeded
    obtain ⟨rfl, rfl, rfl⟩ := succeeded
    have some : (c.db.view j).job.isSome := by simp [Db.view, present]
    have submitted := orderBy_ne_nil JobTransition.atMs (submitted_reachable reached j some)
    refine ⟨fun absent => ?_, fun failed => absurd thrown failed⟩
    obtain ⟨_, trail⟩ := absent
    have empty := congrArg (fun trail => trail.map AuditTrail.transitions) trail
    simp [audit, query, BaseRepo.getAll] at empty
    exact submitted empty

namespace JobStream

def final : SseEvent → Bool
  | .error _ => true
  | event => event.terminal

/-- The handler goes on with the result of a failed query, and its answer is still open. -/
def failsOpen (e : Event JobStream StreamAction) : Bool :=
  match e.action with
  | .reply i =>
    match e.before.queries[i]? with
    | some (_, some found) => found.error.isSome && !e.before.ended && !e.before.handled
    | _ => false
  | _ => false

/-- The job is not taken for an absent one, no stream ends without a word, and a failed
query leads to an error. -/
structure ReportedStep (e : Event JobStream StreamAction) : Prop where
  present : ∀ answer ∈ e.after.answer, ¬ NotFound answer
  ended : e.after.ended = true → e.after.handled = true ∨ ∃ event ∈ e.after.events, final event = true
  failed : failsOpen e = true → (∃ answer ∈ e.after.answer, 500 ≤ answer.response.status) ∨
    ∃ message, e.after.events = e.before.events ++ [.error message]

def StaysPresent (e : Event JobStream StreamAction) : Prop :=
  ∀ row, e.action = .write row → row.isSome

/-- What a stream of a present job knows. -/
structure Knows (s : JobStream) : Prop where
  sound : s.Sound
  row : s.row.isSome
  found : ∀ q ∈ s.queries, ∀ r, q.2 = some r → (r.data = none ↔ r.error.isSome)
  answered : ∀ answer ∈ s.answer, answer.response.status < 500

theorem get_found {row : Option Job} (present : row.isSome) (thrown : Option String) :
    (BaseRepo.get "Job" false (query thrown row)).data = none ↔
      (BaseRepo.get "Job" false (query thrown row)).error.isSome := by
  obtain ⟨job, rfl⟩ := Option.isSome_iff_exists.mp present
  cases thrown <;> simp [query, BaseRepo.get]

theorem knows_start (job : Job) : (start (some job)).Knows := by
  refine ⟨sound_start _, rfl, ?_, fun answer h => by cases h⟩
  intro q hq r found
  rw [List.mem_singleton.mp hq] at found
  cases found

/-- A job that is there stays known to its stream. -/
theorem Knows.step {s s' : JobStream} (h : s.Knows) (taken : Moves s a s')
    (stays : StaysPresent ⟨s, a, s'⟩) : s'.Knows := by
  have erased (i : Nat) : ∀ q ∈ s.queries.eraseIdx i, ∀ r, q.2 = some r →
      (r.data = none ↔ r.error.isSome) := fun q hq => h.found q (List.mem_of_mem_eraseIdx hq)
  have sound := h.sound.step taken
  cases taken with
  | write row => exact ⟨sound, stays row rfl, h.found, h.answered⟩
  | @run i q thrown asked =>
    refine ⟨sound, h.row, ?_, h.answered⟩
    intro q' hq r found
    rcases List.mem_or_eq_of_mem_set hq with hq | rfl
    · exact h.found q' hq r found
    · cases found
      exact get_found h.row thrown
  | absent | complete =>
    refine ⟨sound, h.row, erased _, fun answer ha => ?_⟩
    cases ha
    simp [jobNotFound, makeResponse]
  | opens | lost | polls | finishes => exact ⟨sound, h.row, erased _, h.answered⟩
  | interval =>
    refine ⟨sound, h.row, ?_, h.answered⟩
    intro q hq r found
    rcases List.mem_append.mp hq with hq | hq
    · exact h.found q hq r found
    · cases List.mem_singleton.mp hq
      cases found
  | timeout | expires | closes | leaves => exact ⟨sound, h.row, h.found, h.answered⟩

theorem reported_failsOpen {s s' : JobStream} (known : s.Knows) (taken : Moves s a s')
    (reported : ReportedStep ⟨s, a, s'⟩) : failsOpen ⟨s, a, s'⟩ = false := by
  by_contra failing
  have fails := Bool.eq_true_of_not_eq_false failing
  have told := reported.failed fails
  have untold (kept : s'.events = s.events) : ∃ answer ∈ s'.answer, 500 ≤ answer.response.status := by
    rcases told with server | ⟨message, written⟩
    · exact server
    · change s'.events = s.events ++ [.error message] at written
      simp [kept] at written
  have silent (kept : s'.events = s.events) (same : s'.answer = s.answer) : False := by
    obtain ⟨answer, ha, server⟩ := untold kept
    have low := known.answered answer (same ▸ ha)
    omega
  cases taken with
  | write | run | interval | timeout | expires | closes | leaves => cases fails
  | absent found => exact reported.present _ rfl rfl
  | complete found terminal =>
    obtain ⟨answer, ha, server⟩ := untold rfl
    cases ha
    simp [makeResponse] at server
  | lost found => exact silent rfl rfl
  | opens found | polls found | finishes found =>
    have none := (known.found _ (List.mem_of_getElem? found) _ rfl).mpr
    simp [failsOpen, found] at fails
    cases none fails.1.1

/-- Where no query fails while the stream is open, it ends with a word or after the close. -/
structure Told (s : JobStream) : Prop where
  present : ∀ answer ∈ s.answer, ¬ NotFound answer
  ended : s.ended = true → s.handled = true ∨ ∃ event ∈ s.events, final event = true

/-- Without a failed poll, a stream ends with a terminal status, an error or the client's
close. -/
theorem Told.step {s s' : JobStream} (h : s.Told) (known : s.Knows) (taken : Moves s a s')
    (succeeds : failsOpen ⟨s, a, s'⟩ = false) : s'.Told := by
  cases taken with
  | write | run | interval => exact ⟨h.present, h.ended⟩
  | absent found =>
    have failed := (known.found _ (List.mem_of_getElem? found) _ rfl).mp rfl
    obtain ⟨_, unheard⟩ := known.sound.alone found
    obtain ⟨_, _, ended, handled, _⟩ := known.sound.unset unheard
    simp [failsOpen, found, ended, handled] at succeeds
    simp [succeeds] at failed
  | complete =>
    refine ⟨fun answer ha => ?_, h.ended⟩
    cases ha
    simp [NotFound, makeResponse]
  | opens | polls =>
    refine ⟨h.present, fun finished => ?_⟩
    rcases h.ended finished with handled | ⟨event, he, final⟩
    · exact .inl handled
    · exact .inr ⟨event, List.mem_append_left _ he, final⟩
  | @lost i error found =>
    refine ⟨h.present, fun _ => ?_⟩
    have failed : error.isSome = true := (known.found _ (List.mem_of_getElem? found) _ rfl).mp rfl
    by_cases handled : s.handled = true
    · exact .inl handled
    · refine h.ended ?_
      simpa [failsOpen, found, handled, failed] using succeeds
  | @finishes i current error found terminal =>
    refine ⟨h.present, fun _ => .inr ⟨_, List.mem_append_right _ List.mem_cons_self, ?_⟩⟩
    exact terminal
  | timeout | expires =>
    exact ⟨h.present, fun _ => .inr ⟨_, List.mem_append_right _ List.mem_cons_self, rfl⟩⟩
  | closes => exact ⟨h.present, fun _ => .inl rfl⟩
  | leaves => exact ⟨h.present, h.ended⟩

theorem told_start (row : Option Job) : (start row).Told := by
  constructor
  · intro answer h
    cases h
  · intro h
    cases h

/-- A stream of a job that stays there is told from one of an absent job exactly if no query
fails while its answer is open. -/
theorem stream_reported_iff {job : Job} {s : JobStream} {es : List (Event JobStream StreamAction)}
    (run : Run JobStream.step (start (some job)) es s) (stays : ∀ e ∈ es, StaysPresent e) :
    (∀ e ∈ es, ReportedStep e) ↔ ∀ e ∈ es, failsOpen e = false := by
  have known : ∀ s a s', s.Knows → JobStream.step s a = some s' → StaysPresent ⟨s, a, s'⟩ →
      s'.Knows := fun s a s' h taken stays => h.step (step_moves taken) stays
  constructor
  · intro reported e he
    have before := (run.guarded_events stays (knows_start job) known e he).1
    exact reported_failsOpen before (step_moves (run.event he).2) (reported e he)
  · intro succeed e he
    have kept : ∀ s a s', s.Knows ∧ s.Told → JobStream.step s a = some s' →
        StaysPresent ⟨s, a, s'⟩ ∧ failsOpen ⟨s, a, s'⟩ = false → s'.Knows ∧ s'.Told :=
      fun s a s' h taken ok =>
        ⟨known s a s' h.1 taken ok.1, h.2.step h.1 (step_moves taken) ok.2⟩
    have ok : ∀ e ∈ es, StaysPresent e ∧ failsOpen e = false :=
      fun e he => ⟨stays e he, succeed e he⟩
    have initial : (start (some job)).Knows ∧ (start (some job)).Told :=
      ⟨knows_start job, told_start _⟩
    have told := (run.guarded_events ok initial kept e he).2.2
    exact ⟨told.present, told.ended, fun fails =>
      absurd ((succeed e he).symm.trans fails) Bool.false_ne_true⟩

end JobStream

/-- Of a job that exists, a route reports neither its absence nor hides a failed query
exactly where no repository read of its handler fails; for the stream, while it is open. -/
theorem reads_reported_iff {c : Cluster} (reached : Reachable Cluster.step .init c) {j : JobId}
    {job : Job} (present : c.db.jobs.lookup j = some job) :
    (∀ lookup, Reported NotFound (getJob c.db j lookup) ↔ lookup = none) ∧
    (∀ ctx db' lookup tx,
      Reported NotFound (deleteJob ctx c.db db' j lookup tx).1 ↔ lookup = none) ∧
    (∀ transitions commits leases,
      Reported EmptyTrail (audit c.db (some j) transitions commits leases) ↔
        transitions = none ∧ commits = none ∧ leases = none) ∧
    ∀ es s, Run JobStream.step (.start (some job)) es s → (∀ e ∈ es, JobStream.StaysPresent e) →
      ((∀ e ∈ es, JobStream.ReportedStep e) ↔ ∀ e ∈ es, JobStream.failsOpen e = false) :=
  ⟨getJob_reported_iff present, fun _ _ => deleteJob_reported_iff present,
    audit_reported_iff reached present, fun _ _ run => JobStream.stream_reported_iff run⟩

def onePending : List Action :=
  [.post "c1" (some (.str "a")) (some (.obj [])), .resume 0 (.quiet "c1" 1), .resume 0 (.quiet "c1" 1)]

theorem onePending_pending : ∃ c job, Reachable Cluster.step .init c ∧
    c.db.jobs.lookup 1 = some job ∧ job.status = .pending ∧ c.db.commitAttempts = [] ∧
    c.db.leaseHistory = [] := by
  obtain ⟨c, hc, hp⟩ : ∃ c, exec Cluster.step .init onePending = some c ∧
      ((c.db.jobs.lookup 1).any (fun job => job.status = .pending) &&
        c.db.commitAttempts.isEmpty && c.db.leaseHistory.isEmpty) = true := exec_any (by decide)
  simp only [Bool.and_eq_true, List.isEmpty_iff] at hp
  obtain ⟨⟨pending, commits⟩, leases⟩ := hp
  obtain ⟨job, found, pending⟩ := (Option.any_eq_true _ _).mp pending
  exact ⟨c, job, reachable_of_exec onePending hc, found, of_decide_eq_true pending, commits, leases⟩

/-- The connection to the database breaks under the first poll. -/
def brokenPoll : List StreamAction :=
  [.run 0 none, .reply 0, .interval, .run 0 (some "connection terminated"), .reply 0]

theorem connection_lost_unreported : ∃ c job, Reachable Cluster.step .init c ∧
    c.db.jobs.lookup 1 = some job ∧
    NotFound (getJob c.db 1 (some "connection terminated")) ∧
    NotFound (deleteJob (.quiet "c1" 2) c.db c.db 1 (some "connection terminated") none).1 ∧
    EmptyTrail (audit c.db (some 1) (some "connection terminated") none none) ∧
    ∃ es s, Run JobStream.step (.start (some job)) es s ∧ (∀ e ∈ es, JobStream.StaysPresent e) ∧
      s.ended = true ∧ s.handled = false ∧ ∀ event ∈ s.events, JobStream.final event = false := by
  obtain ⟨c, job, reached, present, pending, commits, leases⟩ := onePending_pending
  refine ⟨c, job, reached, present, rfl, rfl, ⟨rfl, ?_⟩, ?_⟩
  · simp [audit, query, BaseRepo.getAll, orderBy, commits, leases]
  · have live : job.status.terminal = false := by rw [pending]; rfl
    obtain ⟨s, hs, ended, handled, events⟩ : ∃ s,
        exec JobStream.step (.start (some job)) brokenPoll = some s ∧ s.ended = true ∧
          s.handled = false ∧ s.events = [.opened job.status job.jobId] := by
      simp [brokenPoll, exec, JobStream.step, JobStream.start, JobStream.setup, JobStream.polled,
        JobStream.finish, JobStream.clear, query, BaseRepo.get, live]
    refine ⟨_, s, run_of_exec brokenPoll hs, ?_, ended, handled, ?_⟩
    · intro e he row written
      have named := trace_action_mem brokenPoll hs e he
      rw [written] at named
      simp [brokenPoll] at named
    · intro event he
      rw [events] at he
      cases List.mem_singleton.mp he
      exact live

theorem reads_reported_onePending : ∃ c job, Reachable Cluster.step .init c ∧
    c.db.jobs.lookup 1 = some job ∧ Reported NotFound (getJob c.db 1 none) ∧
    Reported EmptyTrail (audit c.db (some 1) none none none) := by
  obtain ⟨c, job, reached, present, _⟩ := onePending_pending
  obtain ⟨getJob, _, audit, _⟩ := reads_reported_iff reached present
  exact ⟨c, job, reached, present, (getJob none).mpr rfl, (audit none none none).mpr ⟨rfl, rfl, rfl⟩⟩

end Dispatcher
