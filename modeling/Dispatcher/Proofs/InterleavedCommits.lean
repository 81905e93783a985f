import Dispatcher.Sql.Accounting

namespace Dispatcher
open Tables ReadCommitted Runs

/-- The results and the DELETEs that the transactions of a run were started for. -/
def inputs (es : List (Event SqlStore SqlLabel)) : Inputs where
  result workerId msg := ∃ e ∈ es, ∃ t ctx, e.action = .start t (.resultLease ctx workerId msg)
  cancel j := ∃ e ∈ es, ∃ t ctx, e.action = .start t (.cancelJob ctx j)

variable {clockUs : Int} {es : List (Event SqlStore SqlLabel)} {s : SqlStore}

theorem inputs_from {e : Event SqlStore SqlLabel} (he : e ∈ es) {t : Nat} {p : Prog}
    (ha : e.action = .start t p) (entry : p.entry = true) : p.From (inputs es) := by
  cases p with
  | resultLease ctx workerId msg => exact ⟨e, he, t, ctx, ha⟩
  | cancelJob ctx j => exact ⟨e, he, t, ctx, ha⟩
  | resultJob | resultCommit => cases entry
  | _ => trivial

theorem inputs_ok (run : Run sqlMachine.step (migratedStore clockUs) es s) :
    ∀ e ∈ es, (concludingOutline (inputs es)).Ok e := by
  intro e he
  refine ⟨?_, fun _ _ _ _ _ => trivial⟩
  intro t p ha
  have moved := Machine.moved_of_step (run.event he).2
  rw [ha] at moved
  generalize e.after = s' at moved
  cases moved with
  | start entry fresh => exact inputs_from he ha entry

theorem migrated_safe (src : Inputs) (j : JobId) : (Db.migrated.view j).Safe src j := by
  have silent : (Db.migrated.view j).commits = [] := rfl
  refine ⟨fun h => absurd silent h, Nat.zero_le 1, ?_, ?_, ?_, ?_⟩
  · intro h
    cases h
  · exact iff_of_false Bool.false_ne_true (not_not.mpr silent)
  · intro l hl
    cases hl
  · intro c hc
    cases hc

/-- The outline holds before and after every statement. -/
theorem run_concluding (run : Run sqlMachine.step (migratedStore clockUs) es s) :
    (concludingOutline (inputs es)).Inv s ∧
      ∀ e ∈ es, (concludingOutline (inputs es)).Inv e.before := by
  have start : (concludingOutline (inputs es)).I (migratedStore clockUs).db (migratedStore clockUs).env :=
    ⟨⟨.nil, fun g hg => by cases hg⟩, migrated_safe _⟩
  have ok := inputs_ok run
  refine ⟨(concludingOutline _).sound run (fun _ => rfl) start ok, ?_⟩
  intro e he
  obtain ⟨pre, before, within⟩ := run.prefix_of_event he
  exact (concludingOutline _).sound before (fun _ => rfl) start fun f hf => ok f (within hf)

/-- Every step settles every job: a commit by its writes, any other step by leaving the
tables as they are. -/
theorem run_settles (run : Run sqlMachine.step (migratedStore clockUs) es s) :
    ∀ e ∈ es, ∀ j, Settles (inputs es) j (e.before.db.view j) (e.after.db.view j) := by
  intro e he j
  obtain ⟨⟨_, safe⟩, open_⟩ := (run_concluding run).2 e he
  have same : Settles (inputs es) j (e.before.db.view j) (e.before.db.view j) :=
    (Calm.refl _).settles (safe j)
  have moved := Machine.moved_of_step (run.event he).2
  generalize e.after = s' at moved
  generalize e.action = a at moved
  cases moved with
  | commit opened cmd => exact (open_ _ _ opened).settles cmd safe j
  | _ => exact same

/-- What is committed once stays to the end of the run. -/
theorem kept_to_end {start : SqlStore} {src : Inputs} {j : JobId} (run : Run sqlMachine.step start es s)
    (settles : ∀ e ∈ es, Settles src j (e.before.db.view j) (e.after.db.view j)) :
    ∀ e ∈ es, (e.before.db.view j).commits ≠ [] →
      (s.db.view j).commits = (e.before.db.view j).commits ∧
        (s.db.view j).result = (e.before.db.view j).result := by
  induction run with
  | nil =>
    intro e he
    cases he
  | @snoc es s a t run taken ih =>
    have last := (settles ⟨s, a, t⟩ (List.mem_append_right _ (List.mem_singleton_self _))).kept
    intro e he committed
    rcases List.mem_append.mp he with he | he
    · obtain ⟨commits, result⟩ := ih (fun f hf => settles f (List.mem_append_left _ hf)) e he committed
      obtain ⟨commits', result'⟩ := last (commits ▸ committed)
      exact ⟨commits'.trans commits, result'.trans result⟩
    · cases List.mem_singleton.mp he
      exact last committed

/-- What is committed about a job stays, and is sound at the end. -/
structure CommittedOnce (es : List (Event SqlStore SqlLabel)) (s : SqlStore) (j : JobId) : Prop where
  safe : (s.db.view j).Safe (inputs es) j
  kept : ∀ e ∈ es, (e.before.db.view j).commits ≠ [] →
    (s.db.view j).commits = (e.before.db.view j).commits ∧
      (s.db.view j).result = (e.before.db.view j).result

/-- The transactions of all coordinators, interleaved statement by statement, commit
at most one result for a job, under its newest fencing token. -/
theorem interleaved_commits (run : Run sqlMachine.step (migratedStore clockUs) es s) (j : JobId) :
    CommittedOnce es s j :=
  ⟨(run_concluding run).1.1.2 j, kept_to_end run fun e he => run_settles run e he j⟩

def results (t : Nat) (ctx : Ctx) (workerId : WorkerId) (msg : JobResult) : List SqlLabel :=
  .start t (.resultLease ctx workerId msg) ::
    (Label.statement t [.lease msg.jobId msg.token] ++ Label.statement t [.job msg.jobId] ++
      Label.statement t [.new] ++ Label.statement t [.history msg.jobId msg.token] ++
      Label.statement t [.new] ++ [.commit t])

def cancels (t : Nat) (ctx : Ctx) (j : JobId) : List SqlLabel :=
  .start t (.cancelJob ctx j) :: (Label.statement t [.job j] ++ Label.statement t [.new] ++ [.commit t])

/-- A copy of the result finds the lease while it is locked, and waits in vain; then
the job is cancelled. -/
def copiedRun : List SqlLabel :=
  dispatchRun ++ [.start 2 (.resultLease (.quiet "c2" 3) "w1" ⟨1, 1, .obj []⟩), .scan 2 [.lease 1 1]] ++
    results 3 (.quiet "c1" 3) "w1" ⟨1, 1, .obj []⟩ ++ [.row 2 [], .close 2, .commit 2] ++
    cancels 4 (.quiet "c1" 4) 1

theorem interleaved_commits_copiedRun : ∃ s, exec sqlMachine.step (migratedStore 5) copiedRun = some s ∧
    s.db.statusOf 1 = some .cancelled ∧ (s.db.view 1).commits.length = 1 ∧
    CommittedOnce (trace sqlMachine.step (migratedStore 5) copiedRun) s 1 := by
  obtain ⟨s, hs, hp⟩ : ∃ s, exec sqlMachine.step (migratedStore 5) copiedRun = some s ∧
      (decide (s.db.statusOf 1 = some .cancelled) &&
        decide ((s.db.view 1).commits.length = 1)) = true := exec_any (by decide)
  simp only [Bool.and_eq_true, decide_eq_true_eq] at hp
  exact ⟨s, hs, hp.1, hp.2, interleaved_commits (run_of_exec copiedRun hs) 1⟩

/-- Each step changes the status of each job along an edge of the code, whatever the
interleaving; only a commit of its DELETE takes a job out of a final status. -/
theorem interleaved_edges (run : Run sqlMachine.step (migratedStore clockUs) es s) :
    ∀ e ∈ es, ∀ j, Edge (inputs es) j (e.before.db.statusOf j) (e.after.db.statusOf j) :=
  fun e he j => (run_settles run e he j).edge

theorem interleaved_edges_copiedRun : ∃ s, exec sqlMachine.step (migratedStore 5) copiedRun = some s ∧
    ∀ e ∈ trace sqlMachine.step (migratedStore 5) copiedRun,
      Edge (inputs (trace sqlMachine.step (migratedStore 5) copiedRun)) 1 (e.before.db.statusOf 1)
        (e.after.db.statusOf 1) := by
  obtain ⟨s, hs, _⟩ : ∃ s, exec sqlMachine.step (migratedStore 5) copiedRun = some s ∧
      decide (s.db.statusOf 1 = some .cancelled) = true := exec_any (by decide)
  exact ⟨s, hs, fun e he => interleaved_edges (run_of_exec copiedRun hs) e he 1⟩

/-- The audit tables of every job add up, whatever the interleaving. -/
theorem interleaved_audit (reached : Reachable sqlMachine.step (migratedStore clockUs) s) (j : JobId) :
    (s.db.view j).Audited := by
  obtain ⟨es, run⟩ := reached
  have start : accountingOutline.I (migratedStore clockUs).db (migratedStore clockUs).env :=
    fun _ => ⟨rfl, rfl, fun h => (by cases h), fun _ h => by cases h⟩
  exact (accountingOutline.sound run (fun _ => rfl) start fun _ _ =>
    ⟨fun _ _ _ => trivial, fun _ _ _ _ _ => trivial⟩).1 j

theorem interleaved_audit_copiedRun : ∃ s, exec sqlMachine.step (migratedStore 5) copiedRun = some s ∧
    (s.db.view 1).transitions.map JobTransition.toStatus =
      [.pending, .dispatched, .succeeded, .cancelled] ∧ (s.db.view 1).Audited := by
  obtain ⟨s, hs, hp⟩ : ∃ s, exec sqlMachine.step (migratedStore 5) copiedRun = some s ∧
      decide ((s.db.view 1).transitions.map JobTransition.toStatus =
        [.pending, .dispatched, .succeeded, .cancelled]) = true := exec_any (by decide)
  exact ⟨s, hs, of_decide_eq_true hp, interleaved_audit (reachable_of_exec copiedRun hs) 1⟩

end Dispatcher
