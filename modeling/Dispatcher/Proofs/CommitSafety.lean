import Dispatcher.Cluster.Messages

namespace Dispatcher
open Tables Runs

def Db.acceptedCommits (db : Db) (j : JobId) : List CommitAttempt :=
  db.commitAttempts.filter fun c => c.jobId = j && c.accepted

def Db.historyOf (db : Db) (j : JobId) : List LeaseHistory :=
  db.leaseHistory.filter fun h => h.jobId = j

def Db.resultOf (db : Db) (j : JobId) : Option Json := (db.jobs.lookup j).bind Job.result

/-- The commit's fence is the greatest that `j` was ever leased under, and its
worker is the one that lease went to. -/
def Db.NewestFence (db : Db) (j : JobId) (c : CommitAttempt) : Prop :=
  ∃ h ∈ db.historyOf j, h.fence = c.fence ∧ h.workerId = c.workerId ∧
    ∀ q ∈ db.historyOf j, q.fence ≤ c.fence

/-- A worker has sent this result for `j` under this token. -/
def Cluster.Carried (s : Cluster) (j : JobId) (token : Token) (result : Json) : Prop :=
  ∃ ws msg, (ws, .jobResult msg) ∈ s.wire ∧ msg.jobId = j ∧ msg.token = token ∧ msg.result = result

/-- What `_verify` of the harness looks for in the end, for one job and in every state. -/
structure CommitSafe (s : Cluster) (j : JobId) : Prop where
  once : (s.db.acceptedCommits j).length ≤ 1
  succeeded : s.db.statusOf j = some .succeeded → (s.db.acceptedCommits j).length = 1
  newest : ∀ c ∈ s.db.acceptedCommits j, ∀ s', Reachable Cluster.step s s' → s'.db.NewestFence j c
  decided : (s.db.resultOf j).isSome ↔ s.db.acceptedCommits j ≠ []
  carried : ∀ r, s.db.resultOf j = some r → ∀ c ∈ s.db.acceptedCommits j, s.Carried j c.fence r
  kept : ∀ r, s.db.resultOf j = some r → ∀ s', Reachable Cluster.step s s' →
    s'.db.resultOf j = some r

theorem acceptedCommits_view {n : Nat} {db : Db} {j : JobId} (h : Consistent n (db.view j)) :
    db.acceptedCommits j = (db.view j).commits := by
  have he : db.acceptedCommits j = (db.view j).commits.filter CommitAttempt.accepted := by
    simp only [Db.acceptedCommits, Db.view, List.filter_filter]
    apply List.filter_congr
    intro c _
    rw [Bool.and_comm]
  rw [he]
  exact List.filter_eq_self.mpr h.accepted

/-- Only an accepted result touches the commits or the result of a job. -/
theorem apply_undecided {n : Nat} {v : JobView} {j : JobId} {e : JobEvent} (he : e.Enabled n v)
    (hn : ∀ ctx w t r, e ≠ .accepted ctx w t r) :
    (e.apply j v).commits = v.commits ∧ (e.apply j v).result = v.result := by
  have patched : ∀ status at_,
      (v.patchDispatched ⟨status, none, at_⟩).bind Job.result = v.job.bind Job.result := by
    intro status at_
    unfold JobView.patchDispatched
    cases v.job with
    | none => rfl
    | some r =>
      simp only [Option.map_some, Option.bind_some]
      split <;> rfl
  cases e with
  | submitted ctx key payload =>
    have hj : v.job = none := he
    simp [JobEvent.apply, JobView.result, hj]
  | dispatched | cancelled =>
    refine ⟨rfl, ?_⟩
    simp only [JobEvent.apply, JobView.result]
    cases v.job <;> rfl
  | accepted ctx w t r => exact absurd rfl (hn ctx w t r)
  | requeued | failed | reaped => exact ⟨rfl, patched _ _⟩
  | discarded | extended => exact ⟨rfl, rfl⟩

namespace Cluster

/-- A result is accepted because a worker has sent it. -/
theorem event_accepted {s : Cluster} {a : Action} {j : JobId} (hs : s.Heard)
    (h : s.event a j = some (.accepted ctx w t r)) : s.Carried j t r := by
  obtain ⟨⟨ctx', task⟩, hr, he⟩ := Option.bind_eq_some_iff.mp h
  obtain ⟨c, ht⟩ := resumed_task hr
  obtain ⟨ws, msg, rfl, hj, hm⟩ := event_origin he
  obtain ⟨ws', hw⟩ := hs _ ht _ rfl
  exact ⟨ws', msg, hw, hj, hm⟩

/-- What the ledger of a job has accepted stays accepted, with its result. -/
theorem accepted_later {s s' : Cluster} {j : JobId} (h : Reachable step init s)
    (later : Reachable step s s') (ha : x ∈ (s.db.view j).ledger.accepted) :
    x ∈ (s'.db.view j).ledger.accepted := by
  have known : ∀ u, Reachable step s u → Consistent u.db.fencingSeq (u.db.view j) :=
    fun u hu => consistent_reachable (h.trans hu) j
  apply later.invariant_with known
  · exact ha
  intro u a t known hu hstep
  rw [step_view hstep j]
  cases he : u.event a j with
  | none => exact hu
  | some e => exact (ledger_step known (step_enabled he)).keeps_accepted hu

theorem carried_mono {s s' : Cluster} {a : Action} (h : step s a = some s')
    (hc : s.Carried j t r) : s'.Carried j t r := by
  obtain ⟨ws, msg, hw, hm⟩ := hc
  exact ⟨ws, msg, wire_mono h hw, hm⟩

/-- The stored result was sent under the token that it was committed with. -/
theorem carried_reachable {s : Cluster} (h : Reachable step init s) (j : JobId) :
    ∀ r, (s.db.view j).result = some r → ∀ c ∈ (s.db.view j).commits, s.Carried j c.fence r := by
  have known : ∀ u, Reachable step init u →
      Consistent u.db.fencingSeq (u.db.view j) ∧ u.Heard :=
    fun u hu => ⟨consistent_reachable hu j, heard_reachable hu⟩
  apply h.invariant_with known
  · intro r hr
    cases hr
  intro u a t ⟨known, heard⟩ hu hstep r hr c hc
  rw [step_view hstep j] at hr hc
  cases he : u.event a j with
  | none =>
    rw [he] at hr hc
    exact carried_mono hstep (hu r hr c hc)
  | some e =>
    rw [he] at hr hc
    have enabled := step_enabled he
    by_cases hn : ∃ ctx w t r, e = .accepted ctx w t r
    · obtain ⟨ctx, w, token, result, rfl⟩ := hn
      obtain ⟨hd, l, hl, rfl, rfl⟩ := enabled
      obtain ⟨row, hj, hs⟩ := Option.map_eq_some_iff.mp hd
      have fresh := (known.undecided (live_of_status hd rfl)).1
      simp only [JobView.after, JobEvent.apply, fresh, List.nil_append, List.mem_singleton] at hc
      simp only [JobView.after, JobEvent.apply, JobView.result, JobView.patchDispatched, hj, hs,
        Option.map_some, ↓reduceIte, Option.bind_some, Db.JobPatch.on, Option.some_or,
        Option.some.injEq] at hr
      subst hc hr
      exact carried_mono hstep (event_accepted heard he)
    · have same := apply_undecided (j := j) enabled fun ctx w t r hx => hn ⟨ctx, w, t, r, hx⟩
      simp only [JobView.after] at hr hc
      rw [same.2] at hr
      rw [same.1] at hc
      exact carried_mono hstep (hu r hr c hc)

/-- An accepted grant is the last one of its ledger, so no later lease has a greater
fence. -/
theorem newest_of_ledger {db : Db} {n : Nat} {j : JobId} (h : Consistent n (db.view j))
    (ha : ((c.workerId, c.fence), r) ∈ (db.view j).ledger.accepted) : db.NewestFence j c := by
  obtain ⟨granted, newest⟩ := h.sound.decided _ ha
  obtain ⟨q, hq, he⟩ := List.mem_map.mp granted
  simp only [Prod.mk.injEq] at he
  refine ⟨q, hq, he.2, he.1, ?_⟩
  intro q' hq'
  exact newest (q'.workerId, q'.fence) (List.mem_map_of_mem hq')

/-- Commit safety: at most one accepted result for a job, under the newest fence,
with a result that a worker sent under it, for good. -/
theorem commit_safety {s : Cluster} (h : Reachable step init s) (j : JobId) : CommitSafe s j := by
  have hc := consistent_reachable h j
  have he := acceptedCommits_view hc
  have ledger : ∀ c ∈ (s.db.view j).commits,
      ((c.workerId, c.fence), (s.db.view j).result) ∈ (s.db.view j).ledger.accepted :=
    fun c hm => List.mem_map_of_mem (f := fun c : CommitAttempt => _) hm
  have once : (s.db.view j).commits.length ≤ 1 := by simpa [JobView.ledger] using hc.sound.once
  constructor
  · rw [he]
    exact once
  · intro hs
    rw [he]
    have hne := List.length_pos_iff.mpr (hc.succeeded hs)
    omega
  · intro c hm s' later
    rw [he] at hm
    exact newest_of_ledger (consistent_reachable (h.trans later) j)
      (accepted_later h later (ledger c hm))
  · rw [he]
    exact hc.result
  · intro r hr c hm
    rw [he] at hm
    exact carried_reachable h j r hr c hm
  · intro r hr s' later
    have hv : (s.db.view j).result = some r := hr
    obtain ⟨c, hm⟩ := List.exists_mem_of_ne_nil _ (hc.result.mp (by simp [hv]))
    have kept := accepted_later h later (ledger c hm)
    obtain ⟨c', _, hx⟩ := List.mem_map.mp kept
    simp only [Prod.mk.injEq, hv] at hx
    exact hx.2

/-- A submission, a dispatch to a registered worker, and its result. -/
def resultRun : List Action :=
  [.post "c1" (some (.str "k")) (some (.obj [])), .resume 0 (.quiet "c1" 1), .resume 0 (.quiet "c1" 1),
    .workerSend 1 (.workerHello "w1" 4), .receive "c1" 0 (.quiet "c1" 2), .resume 0 (.quiet "c1" 2),
    .dispatchTick "c1" "w1", .resume 0 (.quiet "c1" 3), .resume 0 (.quiet "c1" 3),
    .workerSend 1 (.jobResult ⟨1, 1, .obj []⟩), .receive "c1" 1 (.quiet "c1" 4),
    .resume 0 (.quiet "c1" 5), .resume 0 (.quiet "c1" 6)]

theorem commit_safety_resultRun : ∃ s, exec step init resultRun = some s ∧
    s.db.statusOf 1 = some .succeeded ∧ CommitSafe s 1 := by
  obtain ⟨s, hs, hp⟩ : ∃ s, exec step init resultRun = some s ∧
      decide (s.db.statusOf 1 = some .succeeded) = true := exec_any (by decide)
  exact ⟨s, hs, by simpa using hp, commit_safety (reachable_of_exec resultRun hs) 1⟩

end Cluster

end Dispatcher
