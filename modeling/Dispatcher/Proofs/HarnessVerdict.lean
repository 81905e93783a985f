import Dispatcher.Model.Harness
import Dispatcher.Proofs.InterleavedCommits

namespace Dispatcher
open Tables ReadCommitted Runs

variable {clockUs : Int} {es : List (Event SqlStore SqlLabel)} {s : SqlStore}

def moments (es : List (Event SqlStore SqlLabel)) (s : SqlStore) : List Db :=
  es.map (fun e => e.before.db) ++ [s.db]

structure Later (db db' : Db) : Prop where
  grants : db.grants <+: db'.grants
  commits : ∀ j, (db.view j).commits ≠ [] → (db'.view j).commits = (db.view j).commits

theorem Later.trans {db db' db'' : Db} (h : Later db db') (h' : Later db' db'') : Later db db'' := by
  refine ⟨h.grants.trans h'.grants, ?_⟩
  intro j committed
  have first := h.commits j committed
  rw [← first] at committed
  exact (h'.commits j committed).trans first

/-- No step takes back a lease or a commit. -/
theorem step_later (run : Run sqlMachine.step (migratedStore clockUs) es s) :
    ∀ e ∈ es, Later e.before.db e.after.db := by
  intro e he
  refine ⟨?_, fun j committed => ((run_settles run e he j).kept committed).1⟩
  have moved := Machine.moved_of_step (run.event he).2
  generalize e.after = s' at moved
  generalize e.action = a at moved
  cases moved with
  | @commit t x opened cmd =>
    rw [show (sqlMachine.view e.before.db x.writes).grants = _ from grants_view _ _]
    exact List.prefix_append _ _
  | _ => exact List.prefix_refl _

/-- The databases of a run come one after the other. -/
theorem moments_later {start : SqlStore} (run : Run sqlMachine.step start es s)
    (later : ∀ e ∈ es, Later e.before.db e.after.db) :
    (moments es s).Pairwise Later ∧ ∀ db ∈ moments es s, Later db s.db := by
  have refl : ∀ db, Later db db := fun db => ⟨List.prefix_refl _, fun _ _ => rfl⟩
  induction run with
  | nil => exact ⟨List.pairwise_singleton _ _, fun db hdb => List.mem_singleton.mp hdb ▸ refl _⟩
  | @snoc es s a t run taken ih =>
    obtain ⟨ordered, before⟩ := ih fun e he => later e (List.mem_append_left _ he)
    have last : Later s.db t.db :=
      later ⟨s, a, t⟩ (List.mem_append_right _ (List.mem_singleton_self _))
    have more : moments (es ++ [⟨s, a, t⟩]) t = moments es s ++ [t.db] := by simp [moments]
    rw [more]
    refine ⟨?_, ?_⟩
    · refine List.pairwise_append.mpr ⟨ordered, List.pairwise_singleton _ _, ?_⟩
      intro db hdb db' hdb'
      cases List.mem_singleton.mp hdb'
      exact (before db hdb).trans last
    · intro db hdb
      rcases List.mem_append.mp hdb with hdb | hdb
      · exact (before db hdb).trans last
      · cases List.mem_singleton.mp hdb
        exact refl _

/-- What holds of each database of a run. -/
theorem moments_sound (run : Run sqlMachine.step (migratedStore clockUs) es s) :
    ∀ db ∈ moments es s, (∃ e, Issued db e) ∧ ∀ j, (db.view j).Safe (inputs es) j := by
  obtain ⟨last, before⟩ := run_concluding run
  intro db hdb
  rcases List.mem_append.mp hdb with hdb | hdb
  · obtain ⟨e, he, rfl⟩ := List.mem_map.mp hdb
    exact ⟨⟨_, (before e he).1.1⟩, (before e he).1.2⟩
  · cases List.mem_singleton.mp hdb
    exact ⟨⟨_, last.1.1⟩, last.1.2⟩

/-- The rows that `GET /audit` answers from one database, but for queries that fail. -/
def Answered (db : Db) (j : JobId) (trail : AuditTrail) : Prop :=
  ∃ transitions commits leases,
    (audit db (some j) transitions commits leases).data = some trail

/-- An audit whose three queries ran each at a moment of its own. -/
structure ReadIn (dbs : List Db) (j : JobId) (trail : AuditTrail) : Prop where
  commits : ∃ db ∈ dbs, ∃ t, Answered db j t ∧ t.commits = trail.commits
  leases : ∃ db ∈ dbs, ∃ t, Answered db j t ∧ t.leaseHistory = trail.leaseHistory

/-- A query that failed leaves its list empty. -/
theorem answered_rows {db : Db} {j : JobId} {trail : AuditTrail} (h : Answered db j trail) :
    (trail.commits = [] ∨
      trail.commits = (orderBy CommitAttempt.atMs (db.view j).commits).map fun c =>
        ⟨c.accepted, c.fence, c.workerId, c.atMs⟩) ∧
    (trail.leaseHistory = [] ∨
      trail.leaseHistory =
        (orderBy (fun l => toLex (l.issuedAtMs, l.fence)) (db.view j).history).map fun l =>
          ⟨l.fence, l.workerId, l.issuedAtMs, l.terminatedAtMs⟩) := by
  obtain ⟨transitions, commits, leases, answer⟩ := h
  cases answer
  constructor
  · cases commits with
    | none => exact .inr (by simp [query, Db.view])
    | some error => exact .inl rfl
  · cases leases with
    | none => exact .inr (by simp [query, Db.view])
    | some error => exact .inl rfl

theorem mem_orderBy [LinearOrder κ] {key : α → κ} {rows : List α} {x : α} :
    x ∈ orderBy key rows ↔ x ∈ rows :=
  (List.perm_insertionSort _ rows).mem_iff

/-- The commits that the harness counts are rows of CommitAttempts. -/
theorem answered_commits {db : Db} {j : JobId} {trail : AuditTrail} (h : Answered db j trail) :
    (trail.commits.filter AuditCommit.accepted).length ≤ (db.view j).commits.length ∧
      ∀ c ∈ trail.commits, ∃ row ∈ (db.view j).commits, row.fence = c.fence := by
  rcases (answered_rows h).1 with none | rows
  · simp [none]
  · rw [rows]
    constructor
    · refine (List.length_filter_le _ _).trans ?_
      rw [List.length_map, orderBy, List.length_insertionSort]
    · intro c hc
      obtain ⟨row, hrow, rfl⟩ := List.mem_map.mp hc
      exact ⟨row, mem_orderBy.mp hrow, rfl⟩

/-- The tokens of an audit rise, and each is of a grant of the job. -/
theorem answered_tokens {db : Db} {e : Env} {j : JobId} {trail : AuditTrail} (issued : Issued db e)
    (h : Answered db j trail) : (Harness.tokens trail).Pairwise (· < ·) ∧
      ∀ l ∈ trail.leaseHistory, (j, l.fence, l.issuedAtMs) ∈ db.grants := by
  rcases (answered_rows h).2 with none | rows
  · simp [Harness.tokens, none]
  have ordered := fencingOrdered_of_pairwise (List.pairwise_map.mp issued.order)
  rw [Harness.tokens, rows]
  constructor
  · rw [List.map_map]
    refine ordered.audit (fun l => l.jobId = j) _ (List.perm_insertionSort _ _) ?_
    refine List.Pairwise.imp ?_ (List.pairwise_insertionSort _ _)
    intro a b le
    exact Prod.Lex.toLex_le_toLex.mp le
  · intro l hl
    obtain ⟨row, hrow, rfl⟩ := List.mem_map.mp hl
    have mine := List.mem_filter.mp (mem_orderBy.mp hrow)
    have ofJob : row.jobId = j := of_decide_eq_true mine.2
    exact List.mem_map.mpr ⟨row, mine.1, by rw [ofJob]⟩

/-- A grant that was read is of the job's ledger, wherever the commit that was read is. -/
theorem grant_ledger {db : Db} {j : JobId} {token : Token} {ts : Int}
    (h : (j, token, ts) ∈ db.grants) : ∃ g ∈ (db.view j).ledger.grants, g.2 = token := by
  obtain ⟨row, hrow, same⟩ := List.mem_map.mp h
  simp only [Prod.mk.injEq] at same
  obtain ⟨ofJob, ofToken, _⟩ := same
  refine ⟨(row.workerId, row.fence), ?_, ofToken⟩
  exact List.mem_map_of_mem (List.mem_filter.mpr ⟨hrow, by simpa using ofJob⟩)

variable {j : JobId} {trail : AuditTrail}

/-- Whenever the three queries ran, no lease that one of them has seen is newer than a
commit that another one has. -/
theorem commit_newest (run : Run sqlMachine.step (migratedStore clockUs) es s)
    (read : ReadIn (moments es s) j trail) {c : AuditCommit} (hc : c ∈ trail.commits)
    {l : AuditLease} (hl : l ∈ trail.leaseHistory) : l.fence ≤ c.fence := by
  obtain ⟨dbc, hdbc, tc, answeredC, sameC⟩ := read.commits
  obtain ⟨dbl, hdbl, tl, answeredL, sameL⟩ := read.leases
  rw [← sameC] at hc
  rw [← sameL] at hl
  obtain ⟨row, committed, fence⟩ := (answered_commits answeredC).2 c hc
  obtain ⟨⟨e, issued⟩, safe⟩ := moments_sound run dbl hdbl
  have granted := (answered_tokens issued answeredL).2 l hl
  -- the later of the two moments knows both rows
  have both : ∃ db ∈ moments es s, row ∈ (db.view j).commits ∧ (j, l.fence, l.issuedAtMs) ∈ db.grants := by
    rcases related_of_pairwise (moments_later run (step_later run)).1 hdbc hdbl with same | later | later
    · exact ⟨dbl, hdbl, same ▸ committed, granted⟩
    · refine ⟨dbl, hdbl, ?_, granted⟩
      rw [later.commits j (List.ne_nil_of_mem committed)]
      exact committed
    · exact ⟨dbc, hdbc, committed, later.grants.subset granted⟩
  obtain ⟨db, hdb, committed, granted⟩ := both
  obtain ⟨g, hg, token⟩ := grant_ledger granted
  have newest := (((moments_sound run db hdb).2 j).accepted row committed).2.2.1 g hg
  rwa [token, fence] at newest

/-- `_verify` says nothing about one job. -/
theorem job_sound (run : Run sqlMachine.step (migratedStore clockUs) es s)
    (read : ReadIn (moments es s) j trail) : Harness.doubleLines j trail = [] ∧
      Harness.orderLines j trail = [] ∧ Harness.staleLines j trail = [] := by
  refine ⟨?_, ?_, ?_⟩
  · obtain ⟨db, hdb, t, answered, same⟩ := read.commits
    have once := ((moments_sound run db hdb).2 j).once
    have counted := (answered_commits answered).1
    rw [same] at counted
    exact if_neg (Nat.not_lt.mpr (counted.trans once))
  · obtain ⟨db, hdb, t, answered, same⟩ := read.leases
    obtain ⟨⟨e, issued⟩, _⟩ := moments_sound run db hdb
    have rising := (answered_tokens issued answered).1
    rw [Harness.tokens, same] at rising
    have sorted : orderBy id (Harness.tokens trail) = Harness.tokens trail :=
      List.Pairwise.insertionSort_eq (rising.imp Nat.le_of_lt)
    simp [Harness.orderLines, sorted]
  · refine List.filterMap_eq_nil_iff.mpr ?_
    intro c hc
    split
    · rfl
    · refine Option.bind_eq_none_iff.mpr ?_
      intro max hmax
      obtain ⟨l, hl, rfl⟩ := List.mem_map.mp (List.max?_mem hmax)
      exact if_neg (Nat.not_lt.mpr (commit_newest run read hc hl))

theorem globalLines_rising {fences : List (Int × Token × JobId)} {last : Int}
    (rising : fences.Pairwise fun p q => p.2.1 < q.2.1) (above : ∀ p ∈ fences, last < (p.2.1 : Int)) :
    Harness.globalLines last fences = [] := by
  induction fences generalizing last with
  | nil => rfl
  | cons p rest ih =>
    obtain ⟨first, rising⟩ := List.pairwise_cons.mp rising
    have over_last : ¬ (p.2.1 : Int) ≤ last := Int.not_le.mpr (above p List.mem_cons_self)
    rw [Harness.globalLines, if_neg over_last]
    exact ih rising fun q hq => Int.ofNat_lt.mpr (first q hq)

variable {audits : List (JobId × AuditReport)}

/-- What was read of LeaseHistory is still there at the end. -/
theorem fences_granted (run : Run sqlMachine.step (migratedStore clockUs) es s)
    (read : ∀ j trail, (j, .ok trail) ∈ audits → ReadIn (moments es s) j trail) :
    ∀ p ∈ Harness.allFences audits, (p.2.2, p.2.1, p.1) ∈ s.db.grants := by
  intro p hp
  obtain ⟨⟨j, report⟩, hq, hm⟩ := List.mem_flatMap.mp hp
  cases report with
  | unreachable err => cases hm
  | ok trail =>
    obtain ⟨l, hl, rfl⟩ := List.mem_map.mp hm
    obtain ⟨db, hdb, t, answered, same⟩ := (read j trail hq).leases
    obtain ⟨⟨e, issued⟩, _⟩ := moments_sound run db hdb
    have granted := (answered_tokens issued answered).2 l (same ▸ hl)
    exact ((moments_later run (step_later run)).2 db hdb).grants.subset granted

theorem times_distinct (run : Run sqlMachine.step (migratedStore clockUs) es s)
    (distinct : (audits.map Prod.fst).Nodup)
    (read : ∀ j trail, (j, .ok trail) ∈ audits → ReadIn (moments es s) j trail)
    (ticks : (s.db.leaseHistory.map LeaseHistory.issuedAtMs).Nodup) :
    ((Harness.allFences audits).map Prod.fst).Nodup := by
  have timed : (s.db.grants.map fun g => g.2.2).Nodup := by
    rw [Db.grants, List.map_map]
    exact ticks
  have same : ∀ g ∈ s.db.grants, ∀ q ∈ s.db.grants, g.2.2 = q.2.2 → g = q :=
    fun g hg q hq => List.inj_on_of_nodup_map timed hg hq
  have granted := fences_granted run read
  have mine : ∀ p ∈ audits, ∀ trail, p.2 = .ok trail → ∀ l ∈ trail.leaseHistory,
      (p.1, l.fence, l.issuedAtMs) ∈ s.db.grants := by
    rintro ⟨j, report⟩ hp trail rfl l hl
    refine granted (l.issuedAtMs, l.fence, j) (List.mem_flatMap.mpr ⟨_, hp, ?_⟩)
    exact List.mem_map_of_mem hl
  rw [Harness.allFences, List.map_flatMap, List.nodup_flatMap]
  constructor
  · rintro ⟨j, report⟩ hp
    cases report with
    | unreachable err => exact .nil
    | ok trail =>
      obtain ⟨db, hdb, t, answered, read⟩ := (read j trail hp).leases
      obtain ⟨⟨e, issued⟩, _⟩ := moments_sound run db hdb
      have rising := (answered_tokens issued answered).1
      rw [Harness.tokens, read, List.pairwise_map] at rising
      simp only [List.map_map]
      refine List.pairwise_map.mpr (rising.imp_of_mem ?_)
      intro a b ha hb below tie
      have equal := same _ (mine _ hp _ rfl a ha) _ (mine _ hp _ rfl b hb) tie
      simp only [Prod.mk.injEq] at equal
      exact absurd equal.2.1 (Nat.ne_of_lt below)
  · refine (List.pairwise_map.mp distinct).imp_of_mem ?_
    rintro ⟨j, report⟩ ⟨j', report'⟩ hp hp' differ ts hts hts'
    cases report with
    | unreachable err => cases hts
    | ok trail =>
      cases report' with
      | unreachable err => cases hts'
      | ok trail' =>
        simp only [List.map_map] at hts hts'
        obtain ⟨l, hl, rfl⟩ := List.mem_map.mp hts
        obtain ⟨l', hl', tie⟩ := List.mem_map.mp hts'
        have equal := same _ (mine _ hp _ rfl l hl) _ (mine _ hp' _ rfl l' hl') tie.symm
        simp only [Prod.mk.injEq] at equal
        exact differ equal.1

/-- `_verify` says nothing about the fences of all jobs, where no two leases share a
microsecond. -/
theorem global_sound (run : Run sqlMachine.step (migratedStore clockUs) es s)
    (distinct : (audits.map Prod.fst).Nodup)
    (read : ∀ j trail, (j, .ok trail) ∈ audits → ReadIn (moments es s) j trail)
    (ticks : (s.db.leaseHistory.map LeaseHistory.issuedAtMs).Nodup) :
    Harness.globalLines (-1) (orderBy Prod.fst (Harness.allFences audits)) = [] := by
  have perm : (orderBy Prod.fst (Harness.allFences audits)).Perm (Harness.allFences audits) :=
    List.perm_insertionSort _ _
  have sorted : (orderBy Prod.fst (Harness.allFences audits)).Pairwise fun p q => p.1 ≤ q.1 :=
    List.pairwise_insertionSort _ _
  have nodup : ((orderBy Prod.fst (Harness.allFences audits)).map Prod.fst).Nodup :=
    (perm.map _).nodup_iff.mpr (times_distinct run distinct read ticks)
  have granted := fences_granted run read
  refine globalLines_rising ?_ fun p _ => Int.lt_of_lt_of_le (by decide) (Int.natCast_nonneg _)
  refine List.Pairwise.imp_of_mem ?_ (sorted.and (List.pairwise_map.mp nodup))
  rintro p q hp hq ⟨le, ne⟩
  have first := granted p (perm.subset hp)
  have second := granted q (perm.subset hq)
  rcases related_of_pairwise (run_concluding run).1.1.1.order first second with same | before | after
  · simp only [Prod.mk.injEq] at same
    exact absurd same.2.2 ne
  · exact before.1
  · exact absurd (Int.le_antisymm le after.2) ne

/-- The lines about what is not known to be finished. -/
def Harness.unfinishedLines (p : JobId × AuditReport) : List Violation :=
  match p.2 with
  | .unreachable err => [.auditUnreachable p.1 err]
  | .ok trail => lostLines p.1 trail

/-- Whatever the interleaving, and however the queries of the audits fall into it, the
harness finds no double commit, no stale commit and no fences out of order, if no two
leases were issued in one microsecond. -/
theorem harness_verdict (run : Run sqlMachine.step (migratedStore clockUs) es s)
    (tracked : List (JobId × String)) (distinct : (audits.map Prod.fst).Nodup)
    (read : ∀ j trail, (j, .ok trail) ∈ audits → ReadIn (moments es s) j trail)
    (ticks : (s.db.leaseHistory.map LeaseHistory.issuedAtMs).Nodup) :
    Harness.verify tracked audits =
      Harness.dedupLines tracked ++ audits.flatMap Harness.unfinishedLines := by
  have jobs : audits.flatMap Harness.jobLines = audits.flatMap Harness.unfinishedLines := by
    refine List.flatMap_congr fun p hp => ?_
    obtain ⟨j, report⟩ := p
    cases report with
    | unreachable err => rfl
    | ok trail =>
      obtain ⟨double, order, stale⟩ := job_sound run (read j trail hp)
      simp [Harness.jobLines, Harness.unfinishedLines, double, order, stale]
  rw [Harness.verify, global_sound run distinct read ticks, jobs, List.append_nil]

/-- The result of the first job is accepted while the second one runs. -/
def auditedRun : List SqlLabel :=
  dispatchRun ++ [.pass ⟨1, 8⟩] ++ submits 2 { Ctx.quiet "c2" 3 with freshId := 2 } "l" ++
    dispatches 3 (.quiet "c2" 4) "w2" 2 ++ results 4 (.quiet "c1" 5) "w1" ⟨1, 1, .obj []⟩

theorem harness_verdict_auditedRun : ∃ s t₁ t₂, exec sqlMachine.step (migratedStore 5) auditedRun = some s ∧
    Answered s.db 1 t₁ ∧ Answered s.db 2 t₂ ∧ t₁.leaseHistory.length = 1 ∧
    Harness.verify [(1, "k"), (2, "l")] [(2, .ok t₂), (1, .ok t₁), (3, .unreachable "timeout")] =
      [.lost 2, .auditUnreachable 3 "timeout"] := by
  obtain ⟨s, hs, hp⟩ : ∃ s, exec sqlMachine.step (migratedStore 5) auditedRun = some s ∧
      (decide (s.db.leaseHistory.map LeaseHistory.issuedAtMs).Nodup &&
        (audit s.db (some 1) none none none).data.any fun t₁ =>
          (audit s.db (some 2) none none none).data.any fun t₂ =>
            decide (t₁.leaseHistory.length = 1) &&
            decide (Harness.dedupLines [(1, "k"), (2, "l")] ++
              [(2, .ok t₂), (1, .ok t₁), (3, .unreachable "timeout")].flatMap Harness.unfinishedLines =
                [.lost 2, .auditUnreachable 3 "timeout"])) = true := exec_any (by decide)
  obtain ⟨ticks, hp⟩ := Bool.and_eq_true_iff.mp hp
  obtain ⟨t₁, h₁, hp⟩ := (Option.any_eq_true _ _).mp hp
  obtain ⟨t₂, h₂, hp⟩ := (Option.any_eq_true _ _).mp hp
  obtain ⟨issued, lines⟩ := Bool.and_eq_true_iff.mp hp
  have a₁ : Answered s.db 1 t₁ := ⟨none, none, none, h₁⟩
  have a₂ : Answered s.db 2 t₂ := ⟨none, none, none, h₂⟩
  have last : s.db ∈ moments (trace sqlMachine.step (migratedStore 5) auditedRun) s :=
    List.mem_append_right _ (List.mem_singleton_self _)
  have distinct : ([((2 : JobId), AuditReport.ok t₂), (1, .ok t₁), (3, .unreachable "timeout")].map
      Prod.fst).Nodup := by simp
  have sound := harness_verdict (run_of_exec auditedRun hs) [(1, "k"), (2, "l")] distinct ?_
    (of_decide_eq_true ticks)
  · exact ⟨s, t₁, t₂, hs, a₁, a₂, of_decide_eq_true issued, sound.trans (of_decide_eq_true lines)⟩
  · intro j trail hm
    simp only [List.mem_cons, Prod.mk.injEq, AuditReport.ok.injEq, List.not_mem_nil, or_false,
      reduceCtorEq, and_false] at hm
    rcases hm with ⟨rfl, rfl⟩ | ⟨rfl, rfl⟩
    · exact ⟨⟨_, last, _, a₂, rfl⟩, ⟨_, last, _, a₂, rfl⟩⟩
    · exact ⟨⟨_, last, _, a₁, rfl⟩, ⟨_, last, _, a₁, rfl⟩⟩

end Dispatcher
