import Dispatcher.Sql.Writes

namespace Dispatcher
open Tables ReadCommitted

namespace Prog

/-- The jobs whose expired leases a reaper has locked. -/
def reaps : Prog → Option (List JobId)
  | reaperLeases _ ids | reaperJobs _ ids | reaperHistory _ ids | reaperTransitions _ ids => some ids
  | _ => none

/-- Those jobs, once the leases are deleted. -/
def reaped : Prog → Option (List JobId)
  | reaperJobs _ ids | reaperHistory _ ids | reaperTransitions _ ids => some ids
  | _ => none

theorem reaps_of_reaped {p : Prog} {ids : List JobId} (h : p.reaped = some ids) :
    p.reaps = some ids := by
  cases p <;> first | exact h | cases h

end Prog

theorem reaps_leads {p q : Prog} {rows : List Row} {ids : List JobId} (led : p.Leads rows q)
    (h : q.reaps = some ids) : p.reaps = some ids ∨
      ∃ ctx now b, p = .reaperSelect ctx now b ∧ ids = rows.filterMap Row.leased := by
  cases led with
  | expired =>
    cases h
    exact .inr ⟨_, _, _, rfl, rfl⟩
  | reaperLeases | reaperJobs | reaperHistory => exact .inl h
  | _ => cases h

/-- After the leases come the jobs. -/
theorem reaped_leads {p q : Prog} {rows : List Row} {ids : List JobId} (led : p.Leads rows q)
    (h : q.reaped = some ids) : p.reaped = some ids ∨ ∃ ctx, p = .reaperLeases ctx ids := by
  cases led with
  | reaperLeases =>
    cases h
    exact .inr ⟨_, rfl⟩
  | reaperJobs | reaperHistory => exact .inl h
  | _ => cases h

/-- A reaper's transaction begins with its SELECT, and the leases come next. -/
theorem leads_reaper {p : Prog} {rows : List Row} :
    (∀ ctx now b, ¬ p.Leads rows (.reaperSelect ctx now b)) ∧
      ∀ ctx ids, p.Leads rows (.reaperLeases ctx ids) → p.reaps = none := by
  constructor
  · intro ctx now b led
    cases led
  · intro ctx ids led
    cases led
    rfl

theorem reaps_reads {p q : Prog} {e e' : Env} (read : p.Reads e e' q) :
    q.reaps = none ∧ ∀ ctx now b, q ≠ .reaperSelect ctx now b := by
  cases read <;> exact ⟨rfl, by simp⟩

/-- The jobs of the expired leases are distinct. -/
theorem selectExpired_nodup (now : Int) (lockJobs : Bool) (db : Db) :
    (((Sql.selectExpired now lockJobs).scan db).filterMap Row.leased).Nodup := by
  have ids : ((Sql.selectExpired now lockJobs).scan db).filterMap Row.leased =
      (db.leases.rows.filter fun l =>
        l.expiresAt < now && db.statusOf l.jobId = some .dispatched).map Lease.jobId := by
    simp only [Sql.selectExpired, List.filterMap_map]
    exact congrFun List.filterMap_eq_map _
  rw [ids]
  exact db.leases.unique.sublist (List.filter_sublist.map _)

/-- What a row of a reaper's statement writes is about the jobs it reaps, and no lease. -/
theorem reaps_writes {p : Prog} {st : Sql.Stmt} {next : List Row → Prog} {ids : List JobId}
    {db : Db} {r : Row} (cmd : p.code = .sql st next) (hp : p.reaps = some ids)
    (recheck : st.recheck db r = true) :
    ∀ w ∈ st.writes r, w.subject ∈ ids ∧ ∀ row, w ≠ .insertLease row := by
  intro w hw
  cases p with
  | reaperLeases ctx ids' =>
    cases cmd
    cases hp
    obtain ⟨l, rfl, _, hl⟩ := deleteLeases_recheck recheck
    cases List.mem_singleton.mp hw
    exact ⟨List.contains_iff_mem.mp hl, by simp⟩
  | reaperJobs ctx ids' =>
    cases cmd
    cases hp
    obtain ⟨q, rfl, _, hq⟩ := updateJobs_recheck recheck
    cases List.mem_singleton.mp hw
    rw [Bool.and_eq_true] at hq
    exact ⟨List.contains_iff_mem.mp hq.1, by simp⟩
  | reaperHistory ctx ids' =>
    cases cmd
    cases hp
    obtain ⟨j, fence, rfl, rfl⟩ := Sql.mem_terminateHistory hw
    obtain ⟨h, _, hh⟩ := List.any_eq_true.mp recheck
    simp only [Bool.and_eq_true, decide_eq_true_eq, List.contains_iff_mem] at hh
    exact ⟨hh.1.1.1 ▸ hh.1.2, by simp⟩
  | reaperTransitions ctx ids' =>
    cases cmd
    cases hp
    obtain ⟨j, hj, rfl⟩ := List.mem_map.mp hw
    exact ⟨hj, by simp⟩
  | _ => cases hp

/-- The part of an assertion that is about a reaper: it holds the leases that it
found expired, each of which stands until the reaper deletes it. -/
structure Reaping (held : Lock → Prop) (db : Db) (x : SqlTxn) : Prop where
  finding : ∀ ctx now b, x.pc = .reaperSelect ctx now b → x.writes = [] ∧
    ∀ c, x.cursor = some c → ((c.affected ++ c.remaining).filterMap Row.leased).Nodup ∧
      ∀ r ∈ c.affected, ∃ l, r = .lease l.jobId l.token ∧ held (.lease l.jobId) ∧
        db.leases.lookup l.jobId = some l
  distinct : ∀ ids, x.pc.reaps = some ids → ids.Nodup
  leased : ∀ ids, x.pc.reaps = some ids → ∀ j ∈ ids, held (.lease j) ∧
    (db.leases.lookup j).isSome
  own : ∀ ids, x.pc.reaps = some ids → ∀ w ∈ x.writes, w.subject ∈ ids ∧
    ∀ row, w ≠ .insertLease row
  deleting : ∀ ctx ids, x.pc = .reaperLeases ctx ids → ∀ w ∈ x.writes, ∃ j, w = .deleteLease j
  /-- Either the lease is deleted or its row is still to come. -/
  waiting : ∀ ctx ids, x.pc = .reaperLeases ctx ids → ∀ j ∈ ids, .deleteLease j ∈ x.writes ∨
    ∀ c, x.cursor = some c → ∃ l, db.leases.lookup j = some l ∧ .lease j l.token ∈ c.remaining
  deleted : ∀ ids, x.pc.reaped = some ids → ∀ j ∈ ids, .deleteLease j ∈ x.writes

namespace Reaping

variable {held held' : Lock → Prop} {db db' : Db} {x : SqlTxn} {st : Sql.Stmt}
  {next : List Row → Prog} {r : Row} {rows rest affected : List Row}

theorem of_other (hp : ∀ ctx now b, x.pc ≠ .reaperSelect ctx now b) (hn : x.pc.reaps = none) :
    Reaping held db x := by
  refine ⟨fun ctx now b h => absurd h (hp ctx now b), ?_, ?_, ?_, ?_, ?_, ?_⟩
  · intro ids h
    rw [hn] at h
    cases h
  · intro ids h
    rw [hn] at h
    cases h
  · intro ids h
    rw [hn] at h
    cases h
  · intro ctx ids h
    rw [h] at hn
    cases hn
  · intro ctx ids h
    rw [h] at hn
    cases hn
  · intro ids h
    rw [Prog.reaps_of_reaped h] at hn
    cases hn

theorem start {p : Prog} (hp : p.entry = true) : Reaping held db ⟨p, none, [], false⟩ := by
  cases p with
  | reaperSelect ctx now b =>
    refine ⟨?_, by simp [Prog.reaps], by simp [Prog.reaps], by simp [Prog.reaps], by simp,
      by simp, by simp [Prog.reaped]⟩
    intro _ _ _ hc
    cases hc
    exact ⟨rfl, by simp⟩
  | _ => first | exact of_other (by simp) rfl | cases hp

theorem stable (h : Reaping held db x) (grow : ∀ k, held k → held' k)
    (agree : ∀ k, held k → k.Agree db db') : Reaping held' db' x := by
  refine ⟨?_, h.distinct, ?_, h.own, h.deleting, ?_, h.deleted⟩
  · intro ctx now b hp
    obtain ⟨silent, found⟩ := h.finding ctx now b hp
    refine ⟨silent, ?_⟩
    intro c hc
    refine ⟨(found c hc).1, ?_⟩
    intro r hr
    obtain ⟨l, hl, hk, there⟩ := (found c hc).2 r hr
    have same : db'.leases.lookup l.jobId = db.leases.lookup l.jobId := agree _ hk
    exact ⟨l, hl, grow _ hk, same.trans there⟩
  · intro ids hp j hj
    obtain ⟨hk, there⟩ := h.leased ids hp j hj
    have same : db'.leases.lookup j = db.leases.lookup j := agree _ hk
    exact ⟨grow _ hk, same ▸ there⟩
  · intro ctx ids hp j hj
    have hk := (h.leased ids (by rw [hp]; rfl) j hj).1
    have same : db'.leases.lookup j = db.leases.lookup j := agree _ hk
    rw [same]
    exact h.waiting ctx ids hp j hj

/-- A lease that is not yet deleted is still there. -/
theorem present (h : Reaping held db x) {ctx : Ctx} {ids : List JobId} {j : JobId}
    (hp : x.pc = .reaperLeases ctx ids) (hd : .deleteLease j ∉ x.writes) :
    (sqlMachine.view db x.writes).leases.lookup j = db.leases.lookup j := by
  apply sqlProtection.view (k := .lease j)
  intro w hw touched
  obtain ⟨i, rfl⟩ := h.deleting ctx ids hp w hw
  cases touched
  exact hd hw

theorem scan (h : Reaping held db x) (cmd : x.pc.code = .sql st next)
    (perm : rows.Perm (st.scan (sqlMachine.view db x.writes))) :
    Reaping held db { x with cursor := some ⟨rows, []⟩ } := by
  refine ⟨?_, h.distinct, h.leased, h.own, h.deleting, ?_, h.deleted⟩
  · intro ctx now b hp
    rw [show x.pc = .reaperSelect ctx now b from hp] at cmd
    cases cmd
    refine ⟨(h.finding ctx now b hp).1, ?_⟩
    intro c hc
    cases hc
    refine ⟨?_, by simp⟩
    exact (perm.filterMap Row.leased).nodup_iff.mpr (selectExpired_nodup now b _)
  · intro ctx ids hp j hj
    by_cases hd : .deleteLease j ∈ x.writes
    · exact .inl hd
    right
    intro c hc
    cases hc
    obtain ⟨l, hl⟩ := Option.isSome_iff_exists.mp (h.leased ids (by rw [hp]; rfl) j hj).2
    have there : (sqlMachine.view db x.writes).leases.lookup j = some l :=
      (h.present hp hd).trans hl
    have key : l.jobId = j := Table.lookup_key hl
    rw [show x.pc = .reaperLeases ctx ids from hp] at cmd
    cases cmd
    refine ⟨l, hl, perm.mem_iff.mpr ?_⟩
    apply List.mem_map.mpr
    exact ⟨l, List.mem_filter.mpr ⟨Table.lookup_mem there, by simpa [key] using hj⟩, by rw [key]⟩

theorem violated (h : Reaping held db x) : Reaping held db { x with failed := true } :=
  ⟨h.finding, h.distinct, h.leased, h.own, h.deleting, h.waiting, h.deleted⟩

theorem taken (h : Reaping held db x) (cmd : x.pc.code = .sql st next)
    (cur : x.cursor = some ⟨r :: rest, affected⟩)
    (recheck : st.recheck (sqlMachine.view db x.writes) r = true) :
    Reaping (fun k => k ∈ st.locks r ∨ held k) db
      { x with cursor := some ⟨rest, affected ++ [r]⟩, writes := x.writes ++ st.writes r } := by
  refine ⟨?_, h.distinct, ?_, ?_, ?_, ?_, ?_⟩
  · intro ctx now b hp
    obtain ⟨silent, found⟩ := h.finding ctx now b hp
    obtain ⟨nodup, before⟩ := found _ cur
    rw [show x.pc = .reaperSelect ctx now b from hp] at cmd
    cases cmd
    refine ⟨by simp [silent, Sql.selectExpired], ?_⟩
    intro c hc
    cases hc
    refine ⟨by simpa using nodup, ?_⟩
    intro q hq
    rcases List.mem_append.mp hq with hq | hq
    · obtain ⟨l, hl, hk, there⟩ := before q hq
      exact ⟨l, hl, .inr hk, there⟩
    · rw [List.mem_singleton.mp hq]
      rw [silent] at recheck
      cases r with
      | lease j token =>
        simp only [Sql.selectExpired, Bool.and_eq_true] at recheck
        obtain ⟨l, hl, ht⟩ := (Option.any_eq_true _ _).mp recheck.1
        have key : l.jobId = j := Table.lookup_key hl
        simp only [Bool.and_eq_true, decide_eq_true_eq] at ht
        refine ⟨l, by rw [key, ht.1], .inl ?_, key ▸ hl⟩
        simp only [Sql.selectExpired]
        split <;> simp [key]
      | _ => cases recheck
  · intro ids hp j hj
    obtain ⟨hk, there⟩ := h.leased ids hp j hj
    exact ⟨.inr hk, there⟩
  · intro ids hp w hw
    rcases List.mem_append.mp hw with hw | hw
    · exact h.own ids hp w hw
    · exact reaps_writes cmd hp recheck w hw
  · intro ctx ids hp w hw
    rcases List.mem_append.mp hw with hw | hw
    · exact h.deleting ctx ids hp w hw
    · rw [show x.pc = .reaperLeases ctx ids from hp] at cmd
      cases cmd
      obtain ⟨l, rfl, _⟩ := deleteLeases_recheck recheck
      exact ⟨_, List.mem_singleton.mp hw⟩
  · intro ctx ids hp j hj
    rcases h.waiting ctx ids hp j hj with hd | wait
    · exact .inl (List.mem_append_left _ hd)
    obtain ⟨l, hl, hm⟩ := wait _ cur
    rcases List.mem_cons.mp hm with rfl | hm
    · rw [show x.pc = .reaperLeases ctx ids from hp] at cmd
      cases cmd
      exact .inl (List.mem_append_right _ List.mem_cons_self)
    · right
      intro c hc
      cases hc
      exact ⟨l, hl, hm⟩
  · intro ids hp j hj
    exact List.mem_append_left _ (h.deleted ids hp j hj)

theorem passed (h : Reaping held db x) (cmd : x.pc.code = .sql st next)
    (cur : x.cursor = some ⟨r :: rest, affected⟩)
    (why : st.recheck (sqlMachine.view db x.writes) r = false ∨ st.skipLocked = true) :
    Reaping held db { x with cursor := some ⟨rest, affected⟩ } := by
  refine ⟨?_, h.distinct, h.leased, h.own, h.deleting, ?_, h.deleted⟩
  · intro ctx now b hp
    obtain ⟨silent, found⟩ := h.finding ctx now b hp
    obtain ⟨nodup, before⟩ := found _ cur
    refine ⟨silent, ?_⟩
    intro c hc
    cases hc
    refine ⟨nodup.sublist ?_, before⟩
    exact ((List.sublist_cons_self r rest).append_left affected).filterMap Row.leased
  · intro ctx ids hp j hj
    by_cases hd : .deleteLease j ∈ x.writes
    · exact .inl hd
    obtain ⟨l, hl, hm⟩ := (h.waiting ctx ids hp j hj).resolve_left hd _ cur
    have there := (h.present hp hd).trans hl
    right
    intro c hc
    cases hc
    rcases List.mem_cons.mp hm with rfl | hm
    · have key : l.jobId = j := Table.lookup_key hl
      rw [show x.pc = .reaperLeases ctx ids from hp] at cmd
      cases cmd
      simp [Sql.deleteLeases, there, key, hj] at why
    · exact ⟨l, hl, hm⟩

theorem close (h : Reaping held db x) (cmd : x.pc.code = .sql st next) {c : Cursor Row}
    (cur : x.cursor = some c) (exhausted : st.exhausted c = true) :
    Reaping held db { x with pc := next c.affected, cursor := none } := by
  have led := Prog.leads cmd c.affected
  have selected : ∀ ids, (next c.affected).reaps = some ids → x.pc.reaps ≠ some ids →
      ids.Nodup ∧ x.writes = [] ∧ ∀ j ∈ ids, held (.lease j) ∧ (db.leases.lookup j).isSome := by
    intro ids hp other
    rcases reaps_leads led hp with hq | ⟨ctx, now, b, hq, rfl⟩
    · exact absurd hq other
    obtain ⟨silent, found⟩ := h.finding ctx now b hq
    obtain ⟨nodup, before⟩ := found c cur
    refine ⟨?_, silent, ?_⟩
    · exact nodup.sublist ((List.sublist_append_left _ _).filterMap Row.leased)
    · intro j hj
      obtain ⟨r, hr, hl⟩ := List.mem_filterMap.mp hj
      obtain ⟨l, rfl, hk, there⟩ := before r hr
      cases hl
      exact ⟨hk, by simp [there]⟩
  refine ⟨?_, ?_, ?_, ?_, ?_, ?_, ?_⟩
  · intro ctx now b hp
    rw [show next c.affected = .reaperSelect ctx now b from hp] at led
    exact absurd led (leads_reaper.1 ctx now b)
  · intro ids hp
    by_cases hq : x.pc.reaps = some ids
    · exact h.distinct ids hq
    · exact (selected ids hp hq).1
  · intro ids hp
    by_cases hq : x.pc.reaps = some ids
    · exact h.leased ids hq
    · exact (selected ids hp hq).2.2
  · intro ids hp w hw
    by_cases hq : x.pc.reaps = some ids
    · exact h.own ids hq w hw
    · rw [(selected ids hp hq).2.1] at hw
      cases hw
  · intro ctx ids hp w hw
    have none : x.pc.reaps ≠ some ids := by
      intro hq
      rw [show next c.affected = .reaperLeases ctx ids from hp] at led
      rw [leads_reaper.2 ctx ids led] at hq
      cases hq
    rw [(selected ids (by rw [show next c.affected = _ from hp]; rfl) none).2.1] at hw
    cases hw
  · intro ctx ids _ j _
    right
    intro c hc
    cases hc
  · intro ids hp j hj
    rcases reaped_leads led hp with hq | ⟨ctx, hq⟩
    · exact h.deleted ids hq j hj
    rcases h.waiting ctx ids hq j hj with hd | wait
    · exact hd
    obtain ⟨l, _, hm⟩ := wait c cur
    rw [hq] at cmd
    cases cmd
    have ended : c.remaining = [] := by simpa [Stmt.exhausted, Sql.deleteLeases] using exhausted
    rw [ended] at hm
    cases hm

theorem call (cmd : x.pc.code = .call f) (e : Env) : Reaping held db { x with pc := (f e).2 } := by
  obtain ⟨none, other⟩ := reaps_reads (Prog.reads cmd e)
  exact of_other other none

/-- Once the leases are deleted, no job of the reaper has one. -/
theorem unleased (h : Reaping held db x) {ids : List JobId} (hp : x.pc.reaped = some ids)
    {j : JobId} (hj : j ∈ ids) (db' : Db) :
    ((sqlMachine.view db' x.writes).view j).lease = none := by
  apply view_cleared (h.deleted ids hp j hj)
  intro row hm
  exact (h.own ids (Prog.reaps_of_reaped hp) _ hm).2 row rfl

end Reaping

end Dispatcher
