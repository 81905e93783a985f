import Dispatcher.Proofs.CommitSafety
import Dispatcher.Proofs.WellFormedStream

namespace Dispatcher
open Tables Runs

namespace JobStream

variable {told told' : Job → Prop} {s s' : JobStream}

inductive Tells (told : Job → Prop) : SseEvent → Prop where
  | opened {row : Job} (known : told row) : Tells told (.opened row.status row.jobId)
  | polled {row : Job} (known : told row) : Tells told (.polled row.status row.jobId row.result)
  | error (message : String) : Tells told (.error message)

/-- What the stream has read is one of these rows, and so is what it has written of it. -/
structure Quotes (told : Job → Prop) (s : JobStream) : Prop where
  found : ∀ q error row, (q, some ⟨some row, error⟩) ∈ s.queries → told row
  events : ∀ e ∈ s.events, Tells told e
  answered : ∀ a row, s.answer = some a → a.data = some row → told row

theorem Quotes.mono (h : s.Quotes told) (more : ∀ row, told row → told' row) : s.Quotes told' := by
  constructor
  case found => exact fun q error row asked => more row (h.found q error row asked)
  case events =>
    intro e he
    cases h.events e he with
    | opened known => exact .opened (more _ known)
    | polled known => exact .polled (more _ known)
    | error message => exact .error message
  case answered => exact fun a row answered data => more row (h.answered a row answered data)

theorem get_data {thrown : Option String} {error : Option GenericError} {found : Option Job} {row : Job}
    (h : BaseRepo.get "Job" false (query thrown found) = ⟨some row, error⟩) : found = some row := by
  cases thrown with
  | some message => cases h
  | none =>
    cases found with
    | none => cases h
    | some r =>
      cases h
      rfl

theorem Quotes.taken (h : s.Quotes told) (i : Nat) :
    ∀ q error row, (q, some ⟨some row, error⟩) ∈ (s.taken i).queries → told row :=
  fun q error row asked => h.found q error row (List.mem_of_mem_eraseIdx asked)

/-- The row that a query has found. -/
theorem Quotes.replied {i : Nat} {q : JobQuery} {row : Job} {error : Option GenericError} (h : s.Quotes told)
    (found : s.queries[i]? = some (q, some ⟨some row, error⟩)) : told row :=
  h.found q error row (List.mem_of_getElem? found)

theorem tells_append {events : List SseEvent} {event : SseEvent} (h : ∀ e ∈ events, Tells told e)
    (last : Tells told event) : ∀ e ∈ events ++ [event], Tells told e := by
  intro e he
  rcases List.mem_append.mp he with he | he
  · exact h e he
  · exact List.mem_singleton.mp he ▸ last

/-- The stream writes what its query has read. -/
theorem Quotes.step {a : StreamAction} (h : s.Quotes told) (current : ∀ row, s.row = some row → told row)
    (moves : Moves s a s') : s'.Quotes told := by
  cases moves with
  | write | closes | leaves => exact ⟨h.found, h.events, h.answered⟩
  | run asked =>
    refine ⟨fun q error row known => ?_, h.events, h.answered⟩
    rcases List.mem_or_eq_of_mem_set known with known | same
    · exact h.found q error row known
    · exact current row (get_data (Option.some.inj (Prod.mk.inj same).2).symm)
  | absent =>
    refine ⟨h.taken _, h.events, fun a row answered data => ?_⟩
    cases answered
    cases data
  | complete found =>
    refine ⟨h.taken _, h.events, fun a row answered data => ?_⟩
    cases answered
    cases data
    exact h.replied found
  | opens found =>
    exact ⟨h.taken _, tells_append h.events (.opened (h.replied found)), h.answered⟩
  | lost => exact ⟨h.taken _, h.events, h.answered⟩
  | polls found | finishes found =>
    exact ⟨h.taken _, tells_append h.events (.polled (h.replied found)), h.answered⟩
  | interval =>
    refine ⟨fun q error row known => ?_, h.events, h.answered⟩
    rcases List.mem_append.mp known with known | known
    · exact h.found q error row known
    · cases List.mem_singleton.mp known
  | timeout | expires => exact ⟨h.found, tells_append h.events (.error _), h.answered⟩

end JobStream

namespace Watched

variable {j : JobId} {s₀ s s' u : Watched} {row : Job}

/-- The job had this row at some moment of the request. -/
def Shown (j : JobId) (s₀ s : Watched) (row : Job) : Prop :=
  ∃ u, Reachable (step j) s₀ u ∧ Reachable (step j) u s ∧ u.cluster.db.jobs.lookup j = some row

/-- What the client is told is what was in the database, and a result stays there. -/
structure Truthful (j : JobId) (s₀ s : Watched) : Prop where
  opened : ∀ status id, .opened status id ∈ s.stream.events →
    id = j ∧ ∃ row, Shown j s₀ s row ∧ row.status = status
  polled : ∀ status id result, .polled status id result ∈ s.stream.events →
    id = j ∧ ∃ row, Shown j s₀ s row ∧ row.status = status ∧ row.result = result
  answered : ∀ a row, s.stream.answer = some a → a.data = some row → Shown j s₀ s row
  succeeded : ∀ id result, .polled .succeeded id result ∈ s.stream.events → result.isSome
  result : ∀ status id r, .polled status id (some r) ∈ s.stream.events →
    (s.cluster.db.view j).result = some r

theorem Shown.later {a : WatchedAction} (h : Shown j s₀ s row) (taken : step j s a = some s') :
    Shown j s₀ s' row := by
  obtain ⟨u, before, after, here⟩ := h
  exact ⟨u, before, after.snoc taken, here⟩

theorem cluster_reachable (h : Reachable (step j) u s) :
    Reachable Cluster.step u.cluster s.cluster := by
  let Inv := fun v : Watched => Reachable Cluster.step u.cluster v.cluster
  have initial : Inv u := .refl
  refine h.invariant initial fun v a v' before taken => ?_
  cases a with
  | cluster a =>
    obtain ⟨cluster, moved, taken⟩ := Option.bind_eq_some_iff.mp taken
    obtain ⟨stream, _, rfl⟩ := Option.map_eq_some_iff.mp taken
    exact before.snoc moved
  | stream a =>
    cases a with
    | write row => cases taken
    | _ =>
      obtain ⟨stream, _, rfl⟩ := Option.map_eq_some_iff.mp taken
      exact before

/-- What a step is of its stream, whose row is the one in the database. -/
theorem step_stream {a : WatchedAction} (h : step j s a = some s')
    (sync : s.stream.row = s.cluster.db.jobs.lookup j) :
    ∃ b, JobStream.Moves s.stream b s'.stream ∧ s'.stream.row = s'.cluster.db.jobs.lookup j := by
  cases a with
  | cluster a =>
    obtain ⟨cluster, moved, taken⟩ := Option.bind_eq_some_iff.mp h
    obtain ⟨stream, written, rfl⟩ := Option.map_eq_some_iff.mp taken
    refine ⟨_, JobStream.step_moves written, ?_⟩
    cases written
    rfl
  | stream a =>
    cases a with
    | write row => cases h
    | _ =>
      obtain ⟨stream, taken, rfl⟩ := Option.map_eq_some_iff.mp h
      have moves := JobStream.step_moves taken
      refine ⟨_, moves, ?_⟩
      cases moves <;> exact sync

structure Reads (j : JobId) (s₀ s : Watched) : Prop where
  reached : Reachable (step j) s₀ s
  sync : s.stream.row = s.cluster.db.jobs.lookup j
  told : s.stream.Quotes (Shown j s₀ s)

theorem reads_start (c : Cluster) : Reads j (start c j) (start c j) := by
  refine ⟨.refl, rfl, fun q error row known => ?_, fun e he => ?_, fun a row answered => ?_⟩
  · cases List.mem_singleton.mp known
  · cases he
  · cases answered

/-- The row that a query reads is the one that the job has then. -/
theorem Reads.step {a : WatchedAction} (h : Reads j s₀ s) (taken : step j s a = some s') :
    Reads j s₀ s' := by
  obtain ⟨b, moves, sync⟩ := step_stream taken h.sync
  have current : ∀ row, s.stream.row = some row → Shown j s₀ s row :=
    fun row here => ⟨s, h.reached, .refl, h.sync ▸ here⟩
  exact ⟨h.reached.snoc taken, sync, (h.told.step current moves).mono fun row shown => shown.later taken⟩

theorem reads_reachable {c : Cluster} (h : Reachable (step j) (start c j) s) :
    Reads j (start c j) s :=
  h.invariant (reads_start c) fun _ _ _ reads taken => reads.step taken

/-- The moments of a request are moments of the cluster. -/
theorem shown_row {c : Cluster} (hc : Reachable Cluster.step Cluster.init c)
    (h : Shown j (start c j) s row) : ∃ u, Reachable Cluster.step Cluster.init u ∧
      Reachable Cluster.step u s.cluster ∧ (u.db.view j).job = some row := by
  obtain ⟨u, before, after, here⟩ := h
  exact ⟨u.cluster, hc.trans (cluster_reachable before), cluster_reachable after, here⟩

/-- The row of a job that has succeeded carries a result. -/
theorem succeeded_result {u : Cluster} (hu : Reachable Cluster.step Cluster.init u)
    (here : (u.db.view j).job = some row) (done : row.status = .succeeded) : row.result.isSome := by
  have consistent := Cluster.consistent_reachable hu j
  have status : (u.db.view j).status = some .succeeded := by
    rw [JobView.status, here, Option.map_some, done]
  have result := consistent.result.mpr (consistent.succeeded status)
  rwa [JobView.result, here, Option.bind_some] at result

/-- The result of a job is never replaced. -/
theorem result_later {u v : Cluster} (hu : Reachable Cluster.step Cluster.init u)
    (later : Reachable Cluster.step u v) {r : Json} (here : (u.db.view j).result = some r) :
    (v.db.view j).result = some r := by
  have consistent := Cluster.consistent_reachable hu j
  obtain ⟨c, accepted⟩ := List.exists_mem_of_ne_nil _ (consistent.result.mp (by simp [here]))
  have entry : ((c.workerId, c.fence), (u.db.view j).result) ∈ (u.db.view j).ledger.accepted :=
    List.mem_map_of_mem (f := fun c : CommitAttempt => _) accepted
  obtain ⟨_, _, same⟩ := List.mem_map.mp (Cluster.accepted_later hu later entry)
  exact (Prod.mk.inj same).2.trans here

/-- Whatever the cluster does meanwhile, the stream tells the truth. -/
theorem stream_truthful {c : Cluster} (hc : Reachable Cluster.step Cluster.init c)
    (h : Reachable (step j) (start c j) s) : Truthful j (start c j) s := by
  have reads := reads_reachable h
  have key {row : Job} (shown : Shown j (start c j) s row) : row.jobId = j := by
    obtain ⟨u, _, _, here⟩ := shown
    exact Table.lookup_key here
  constructor
  case opened =>
    intro status id told
    cases reads.told.events _ told with
    | opened shown => exact ⟨key shown, _, shown, rfl⟩
  case polled =>
    intro status id result told
    cases reads.told.events _ told with
    | polled shown => exact ⟨key shown, _, shown, rfl, rfl⟩
  case answered => exact reads.told.answered
  case succeeded =>
    intro id result told
    generalize done : JobStatus.succeeded = status at told
    cases reads.told.events _ told with
    | polled shown =>
      obtain ⟨u, hu, _, here⟩ := shown_row hc shown
      exact succeeded_result hu here done.symm
  case result =>
    intro status id r told
    generalize kept : some r = result at told
    cases reads.told.events _ told with
    | polled shown =>
      obtain ⟨u, hu, later, here⟩ := shown_row hc shown
      rw [← kept]
      exact result_later hu later (by rw [JobView.result, here, Option.bind_some, kept])

/-- The client asks for the stream while a worker holds the job, whose result then comes in. -/
def resultWatch : List WatchedAction :=
  [.stream (.run 0 none), .stream (.reply 0), .stream .interval, .stream (.run 0 none),
    .stream (.reply 0)] ++ (Cluster.resultRun.drop 9).map .cluster ++
  [.stream .interval, .stream (.run 0 none), .stream (.reply 0)]

theorem stream_truthful_resultWatch : ∃ c s,
    exec Cluster.step Cluster.init (Cluster.resultRun.take 9) = some c ∧
    exec (step 1) (start c 1) resultWatch = some s ∧
    s.stream.events.map SseEvent.status = [some .dispatched, some .dispatched, some .succeeded] ∧
    Truthful 1 (start c 1) s := by
  obtain ⟨c, hc, hw⟩ : ∃ c, exec Cluster.step Cluster.init (Cluster.resultRun.take 9) = some c ∧
      (exec (step 1) (start c 1) resultWatch).any (fun (s : Watched) =>
        decide (s.stream.events.map SseEvent.status =
          [some .dispatched, some .dispatched, some .succeeded])) = true := exec_any (by decide)
  obtain ⟨s, hs, hp⟩ := exec_any hw
  exact ⟨c, s, hc, hs, of_decide_eq_true hp,
    stream_truthful (reachable_of_exec _ hc) (reachable_of_exec resultWatch hs)⟩

end Watched

end Dispatcher
