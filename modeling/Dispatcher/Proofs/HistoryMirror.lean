import Dispatcher.Proofs.OrphanLeases
import Dispatcher.Proofs.Recoverable

namespace Dispatcher
open Tables Runs

/-- The open rows of `LeaseHistory` are the rows of `Leases`. -/
structure Db.Mirrored (db : Db) : Prop where
  rows : ∀ j w f, (∃ h ∈ db.openHistoryOf j, h.workerId = w ∧ h.fence = f) ↔
    ∃ l ∈ db.leases.rows, l.jobId = j ∧ l.workerId = w ∧ l.token = f
  once : ∀ j, (db.openHistoryOf j).length ≤ 1

/-- A result transaction that finds its lease, but not its job DISPATCHED: it
returns after the DELETE. -/
def Task.strands (db : Db) : Task → Bool
  | .resultTx _ workerId msg =>
    db.holds msg.jobId workerId msg.token && db.statusOf msg.jobId ≠ some .dispatched
  | _ => false

def KeepsTerms (e : Event Cluster Action) : Prop :=
  ∀ ctx t, e.before.resumed e.action = some (ctx, t) → t.strands e.before.db = false

namespace JobView

def openGrants (v : JobView) : List (WorkerId × Token) :=
  v.openRows.map fun h => (h.workerId, h.fence)

def leaseGrants (v : JobView) : List (WorkerId × Token) :=
  v.lease.toList.map fun l => (l.workerId, l.token)

def Mirrored (v : JobView) : Prop := v.openGrants = v.leaseGrants

end JobView

theorem mem_openGrants {v : JobView} {w : WorkerId} {f : Token} :
    (w, f) ∈ v.openGrants ↔ ∃ h ∈ v.openRows, h.workerId = w ∧ h.fence = f := by
  simp [JobView.openGrants]

theorem mem_leaseGrants {db : Db} {j : JobId} {w : WorkerId} {f : Token} :
    (w, f) ∈ (db.view j).leaseGrants ↔
      ∃ l ∈ db.leases.rows, l.jobId = j ∧ l.workerId = w ∧ l.token = f := by
  simp only [JobView.leaseGrants, List.mem_map, Option.mem_toList, Prod.mk.injEq]
  constructor
  · rintro ⟨l, hl, hw, hf⟩
    obtain ⟨hm, hj⟩ := Table.lookup_eq_some.mp hl
    exact ⟨l, hm, hj, hw, hf⟩
  · rintro ⟨l, hm, hj, hw, hf⟩
    exact ⟨l, Table.lookup_eq_some.mpr ⟨hm, hj⟩, hw, hf⟩

theorem leaseGrants_length (v : JobView) : v.leaseGrants.length ≤ 1 := by
  unfold JobView.leaseGrants
  cases v.lease <;> simp

/-- Lists of at most one element with the same members. -/
theorem eq_of_mem_iff {as bs : List α} (ha : as.length ≤ 1) (hb : bs.length ≤ 1)
    (h : ∀ x, x ∈ as ↔ x ∈ bs) : as = bs := by
  match as, bs, ha, hb with
  | [], [], _, _ => rfl
  | [], b :: _, _, _ => exact absurd ((h b).mpr List.mem_cons_self) List.not_mem_nil
  | a :: _, [], _, _ => exact absurd ((h a).mp List.mem_cons_self) List.not_mem_nil
  | [a], [b], _, _ => rw [List.mem_singleton.mp ((h a).mp List.mem_cons_self)]

/-- The tables mirror each other exactly if they do job by job. -/
theorem mirrored_iff {db : Db} : db.Mirrored ↔ ∀ j, (db.view j).Mirrored := by
  constructor
  · intro h j
    refine eq_of_mem_iff ?_ (leaseGrants_length _) ?_
    · simpa [JobView.openGrants, ← openHistoryOf_view] using h.once j
    · rintro ⟨w, f⟩
      rw [mem_openGrants, mem_leaseGrants, ← openHistoryOf_view]
      exact h.rows j w f
  · intro h
    constructor
    · intro j w f
      rw [openHistoryOf_view, ← mem_openGrants, ← mem_leaseGrants, h j]
    · intro j
      have once := leaseGrants_length (db.view j)
      rw [← h j] at once
      simpa [JobView.openGrants, ← openHistoryOf_view] using once

/-- Every event but a discarded result keeps the two tables in step. -/
theorem apply_mirrored {n : Nat} {v : JobView} {j : JobId} {e : JobEvent} (hc : Consistent n v)
    (he : e.Enabled n v) (h : v.Mirrored) (hd : e ≠ .discarded) : (e.apply j v).Mirrored := by
  have closed : ∀ atMs, ((v.terminate atMs).filter fun q => q.terminatedAtMs.isNone).map
      (fun q => (q.workerId, q.fence)) = [] := by
    intro atMs
    rw [terminate_open v atMs]
    rfl
  cases e with
  | submitted ctx key payload => exact h
  | dispatched ctx w t =>
    have opened := openRows_append v ⟨j, w, t, ctx.pgClockUs, none⟩ rfl (hc.pending he.1).2
    have grants : ((JobEvent.dispatched ctx w t).apply j v).openGrants = [(w, t)] :=
      congrArg (List.map fun q : LeaseHistory => (q.workerId, q.fence)) opened
    exact grants
  | accepted | requeued | failed | reaped => exact closed _
  | discarded => exact absurd rfl hd
  | cancelled ctx => exact h
  | extended expiresAt =>
    have same : ((JobEvent.extended expiresAt).apply j v).leaseGrants = v.leaseGrants := by
      unfold JobView.leaseGrants JobEvent.apply
      cases v.lease <;> rfl
    exact Eq.trans h same.symm

/-- A discarded result leaves the open row of its lease behind. -/
theorem discarded_open {n : Nat} {v : JobView} {j : JobId} (hc : Consistent n v)
    (hl : v.lease = some l) : ¬ (JobEvent.discarded.apply j v).Mirrored := by
  obtain ⟨_, q, hq, _⟩ := hc.leased l hl
  have left : (JobEvent.discarded.apply j v).openGrants = [(q.workerId, q.fence)] :=
    congrArg (List.map fun q : LeaseHistory => (q.workerId, q.fence)) hq
  intro h
  have none : (JobEvent.discarded.apply j v).openGrants = [] := h
  rw [left] at none
  cases none

/-- A lease is discarded by the transactions that strand its history row, and no others. -/
theorem discarded_strands {t : Task} {ctx : Ctx} {db : Db} {k : JobId}
    (h : t.event ctx db k = some .discarded) : t.strands db = true := by
  cases event_cases h with
  | discarded named held left =>
    subst named
    simp [Task.strands, held, left]

theorem strands_discarded {t : Task} {db : Db} (h : t.strands db = true) (ctx : Ctx) :
    ∃ k l, t.event ctx db k = some .discarded ∧ db.leases.lookup k = some l := by
  cases t with
  | resultTx ws workerId msg =>
    simp only [Task.strands, Bool.and_eq_true, decide_eq_true_eq] at h
    obtain ⟨hh, hs⟩ := h
    obtain ⟨l, hl, _⟩ := holds_iff.mp hh
    exact ⟨msg.jobId, l, by simp [Task.event, resultEvent, hh, hs], hl⟩
  | _ => cases h

namespace Cluster

/-- A step that makes no early return after the DELETE keeps the mirror. -/
theorem mirrored_step {s s' : Cluster} {a : Action} (known : Reachable step init s)
    (h : step s a = some s') (ok : KeepsTerms ⟨s, a, s'⟩)
    (hs : ∀ j, (s.db.view j).Mirrored) : ∀ j, (s'.db.view j).Mirrored := by
  intro j
  rw [step_view h j]
  cases he : s.event a j with
  | none => exact hs j
  | some e =>
    refine apply_mirrored (consistent_reachable known j) (step_enabled he) (hs j) ?_
    rintro rfl
    obtain ⟨⟨ctx, t⟩, hr, ht⟩ := Option.bind_eq_some_iff.mp he
    have strands := discarded_strands ht
    rw [ok ctx t hr] at strands
    cases strands

/-- An early return after the DELETE leaves a history row open for good. -/
theorem unmirrored_of_strands {s s' : Cluster} {a : Action} {ctx : Ctx} {t : Task}
    (known : Reachable step init s) (h : step s a = some s') (hr : s.resumed a = some (ctx, t))
    (strands : t.strands s.db = true) : ¬ s'.db.Mirrored := by
  intro hm
  obtain ⟨k, l, ht, hl⟩ := strands_discarded strands ctx
  have event : s.event a k = some .discarded := by simp [Cluster.event, hr, ht]
  have after := mirrored_iff.mp hm k
  rw [step_view h, event] at after
  exact discarded_open (j := k) (consistent_reachable known k) hl after

/-- `LeaseHistory` mirrors `Leases` in exactly the runs in which no result
transaction deletes the lease of a job that is no longer DISPATCHED. -/
theorem history_mirrors_iff {es : List (Event Cluster Action)} {s : Cluster}
    (h : Run step init es s) :
    (∀ e ∈ es, e.after.db.Mirrored) ↔ ∀ e ∈ es, KeepsTerms e := by
  constructor
  · intro hm e he ctx t hr
    rw [Bool.eq_false_iff]
    intro strands
    obtain ⟨known, taken⟩ := h.event he
    exact unmirrored_of_strands known taken hr strands (hm e he)
  · intro ok e he
    let Inv := fun s : Cluster => Reachable step init s ∧ ∀ j, (s.db.view j).Mirrored
    have start : Inv init := ⟨.refl, fun j => rfl⟩
    have kept : ∀ s a t, Inv s → step s a = some t → KeepsTerms ⟨s, a, t⟩ → Inv t :=
      fun s a t hs taken hok => ⟨hs.1.snoc taken, mirrored_step hs.1 taken hok hs.2⟩
    exact mirrored_iff.mpr (h.guarded_events ok start kept e he).2.2

/-- The result of a job that was cancelled after its dispatch. -/
def discardRun : List Action := orphanRun ++
  [.workerSend 1 (.workerHello "w1" 4), .receive "c1" 0 (.quiet "c1" 5), .resume 1 (.quiet "c1" 5),
    .workerSend 1 (.jobResult ⟨1, 1, .obj []⟩), .receive "c1" 1 (.quiet "c1" 6),
    .resume 1 (.quiet "c1" 6), .resume 1 (.quiet "c1" 7)]

theorem discardRun_unmirrored : ∃ s, Reachable step init s ∧ ¬ s.db.Mirrored := by
  obtain ⟨s, hs, hp⟩ : ∃ s, exec step init discardRun = some s ∧
      decide (s.db.leases.rows.length = 0 ∧ (s.db.openHistoryOf 1).length = 1) = true :=
    exec_any (by decide)
  obtain ⟨hl, ho⟩ := of_decide_eq_true hp
  refine ⟨s, reachable_of_exec discardRun hs, ?_⟩
  intro hm
  obtain ⟨q, hq⟩ := List.length_eq_one_iff.mp ho
  obtain ⟨l, hmem, _⟩ := (hm.rows 1 q.workerId q.fence).mp ⟨q, by simp [hq], rfl, rfl⟩
  rw [List.length_eq_zero_iff.mp hl] at hmem
  cases hmem

theorem resultRun_keeps : ∀ e ∈ trace step init resultRun, KeepsTerms e := by
  have kept : (trace step init resultRun).all (fun e =>
      (e.before.resumed e.action).all fun p => !p.2.strands e.before.db) = true := by decide
  intro e he ctx t hr
  have checked := List.all_eq_true.mp kept e he
  simpa [hr] using checked

theorem history_mirrors_resultRun : ∃ s, Run step init (trace step init resultRun) s ∧
    ∀ e ∈ trace step init resultRun, e.after.db.Mirrored := by
  obtain ⟨s, hs, _⟩ : ∃ s, exec step init resultRun = some s ∧ true = true :=
    exec_any (by decide)
  have run := run_of_exec resultRun hs
  exact ⟨s, run, (history_mirrors_iff run).mpr resultRun_keeps⟩

end Cluster

end Dispatcher
