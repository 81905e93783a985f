import Dispatcher.Sql.Locking

namespace Dispatcher
open Tables ReadCommitted Runs

/-- Above every fence that was committed, and given out by the sequence. -/
def Newest (db : Db) (e : Env) (token : Token) : Prop :=
  (∀ g ∈ db.grants, g.2.1 < token) ∧ token ≤ e.fencingSeq

/-- No earlier than any committed grant, and read off the clock. -/
def Latest (db : Db) (e : Env) (issuedAtMs : Int) : Prop :=
  (∀ g ∈ db.grants, g.2.2 ≤ issuedAtMs) ∧ issuedAtMs ≤ e.clockUs

/-- Tokens and times of grants rise together, in the order of the commits. -/
structure Issued (db : Db) (e : Env) : Prop where
  order : db.grants.Pairwise fun g q => g.2.1 < q.2.1 ∧ g.2.2 ≤ q.2.2
  bounded : ∀ g ∈ db.grants, g.2.1 ≤ e.fencingSeq ∧ g.2.2 ≤ e.clockUs

/-- Nothing but a new grant makes a token old. -/
theorem Newest.stable {db db' : Db} {e e' : Env} {t : Token} (h : Newest db e t) (he : e ≤ e')
    (hg : db'.grants = db.grants) : Newest db' e' t :=
  ⟨hg ▸ h.1, Nat.le_trans h.2 he.1⟩

theorem Latest.stable {db db' : Db} {e e' : Env} {t : Int} (h : Latest db e t) (he : e ≤ e')
    (hg : db'.grants = db.grants) : Latest db' e' t :=
  ⟨hg ▸ h.1, Int.le_trans h.2 he.2⟩

theorem Issued.newest {db : Db} {e : Env} (h : Issued db e) :
    Newest db (nextval e).1 (nextval e).2 :=
  ⟨fun g hg => Nat.lt_succ_of_le (h.bounded g hg).1, Nat.le_refl _⟩

theorem Issued.latest {db : Db} {e : Env} (h : Issued db e) : Latest db e e.clockUs :=
  ⟨fun g hg => (h.bounded g hg).2, Int.le_refl _⟩

def Write.grant : Write → Option (JobId × Token × Int)
  | .insertHistory h => some (h.jobId, h.fence, h.issuedAtMs)
  | _ => none

def newGrants (ws : List Write) : List (JobId × Token × Int) := ws.filterMap Write.grant

theorem newGrants_append (ws vs : List Write) :
    newGrants (ws ++ vs) = newGrants ws ++ newGrants vs :=
  List.filterMap_append

theorem grants_apply (w : Write) (db : Db) : (w.apply db).grants = db.grants ++ w.grant.toList := by
  cases w with
  | insertHistory row => simp [Write.apply, Write.grant, Db.grants, Db.insertLeaseHistory]
  | terminate j fence atMs =>
    rw [show (Write.terminate j fence atMs).grant.toList = [] from rfl, List.append_nil]
    exact terminate_grants_eq db.leaseHistory j fence atMs
  | _ => exact (List.append_nil _).symm

/-- A transaction that commits adds its own grants. -/
theorem grants_view (ws : List Write) (db : Db) :
    (sqlMachine.view db ws).grants = db.grants ++ newGrants ws := by
  induction ws generalizing db with
  | nil => exact (List.append_nil _).symm
  | cons w rest ih =>
    have hv : sqlMachine.view db (w :: rest) = sqlMachine.view (w.apply db) rest := rfl
    rw [hv, ih, grants_apply, List.append_assoc]
    cases hw : w.grant <;> simp [newGrants, hw]

/-- What a dispatch has drawn so far. -/
def Prog.Drawn (db : Db) (e : Env) : Prog → Prop
  | .dispatchClock _ _ _ token => Newest db e token
  | .dispatchToken _ _ _ issuedAtMs => Latest db e issuedAtMs
  | .dispatchLease g | .dispatchStatus g | .dispatchHistory g =>
    Newest db e g.token ∧ Latest db e g.issuedAtMs
  | _ => True

/-- The assertion of a transaction: what it has drawn, and what it will record,
is newer than every committed grant. -/
structure Issues (held : Lock → Prop) (db : Db) (e : Env) (x : SqlTxn) : Prop where
  locked : Locked held x
  drawn : x.pc.Drawn db e
  fresh : ∀ g ∈ newGrants x.writes, Newest db e g.2.1 ∧ Latest db e g.2.2
  single : (newGrants x.writes).length ≤ 1
  recorded : newGrants x.writes ≠ [] → x.pc = .done ∨ (∃ g, x.pc = .dispatchTransition g) ∨
    ∃ g c, x.pc = .dispatchHistory g ∧ x.cursor = some c ∧ c.remaining = []
  inserting : ∀ g c, x.pc = .dispatchHistory g → x.cursor = some c → c.remaining.length ≤ 1

theorem drawn_stable {p : Prog} {db db' : Db} {e e' : Env} (h : p.Drawn db e) (he : e ≤ e')
    (hg : p.issuing = true → db'.grants = db.grants) : p.Drawn db' e' := by
  cases p with
  | dispatchClock => exact Newest.stable h he (hg rfl)
  | dispatchToken => exact Latest.stable h he (hg rfl)
  | dispatchLease | dispatchStatus | dispatchHistory =>
    exact ⟨h.1.stable he (hg rfl), h.2.stable he (hg rfl)⟩
  | _ => trivial

theorem drawn_leads {p q : Prog} {rows : List Row} {db : Db} {e : Env} (h : p.Drawn db e)
    (led : p.Leads rows q) : q.Drawn db e := by
  cases led with
  | dispatchLease | dispatchStatus => exact h
  | _ => trivial

theorem drawn_reads {p q : Prog} {db : Db} {e e' : Env} (hI : Issued db e) (h : p.Drawn db e)
    (read : p.Reads e e' q) : q.Drawn db e' := by
  have up : e ≤ (nextval e).1 := ⟨Nat.le_succ _, Int.le_refl _⟩
  cases read with
  | clockFirst => exact hI.latest
  | tokenFirst => exact hI.newest
  | clock => exact ⟨h, hI.latest⟩
  | token => exact ⟨hI.newest, Latest.stable h up rfl⟩

/-- Only one statement records a grant. -/
theorem code_grants {p : Prog} {st : Sql.Stmt} {next : List Row → Prog} (h : p.code = .sql st next)
    (hp : ∀ g, p ≠ .dispatchHistory g) (r : Row) : newGrants (st.writes r) = [] := by
  cases p with
  | dispatchHistory g => exact absurd rfl (hp g)
  | reaperTransitions ctx ids =>
    cases h
    simp [Sql.insert, newGrants, Write.grant]
  | dispatchRead | dispatchClock | dispatchToken | done => cases h
  | _ =>
    cases h
    cases r <;> rfl

namespace Issues

variable {held : Lock → Prop} {db : Db} {e : Env} {x : SqlTxn} {st : Sql.Stmt}
  {next : List Row → Prog}

theorem start {p : Prog} (hp : p.entry = true) : Issues held db e ⟨p, none, [], false⟩ := by
  refine ⟨.start hp, ?_, by simp [newGrants], by simp [newGrants], by simp [newGrants], ?_⟩
  · cases p <;> first | cases hp; done | trivial
  · intro g c _ hc
    cases hc

theorem stable {db' : Db} {e' : Env} (h : Issues held db e x) (he : e ≤ e')
    (agree : ∀ k, held k → k.Agree db db') : Issues held db' e' x := by
  refine ⟨h.locked, ?_, ?_, h.single, h.recorded, h.inserting⟩
  · exact drawn_stable h.drawn he fun hi => agree _ (h.locked.issuing hi)
  · intro g hg
    obtain ⟨w, hw, hx⟩ := List.mem_filterMap.mp hg
    have lock : w.lock = some .advisory := by
      cases w <;> first | rfl | cases hx
    have same := agree _ (h.locked.writes w hw _ lock)
    obtain ⟨newest, latest⟩ := h.fresh g hg
    exact ⟨newest.stable he same, latest.stable he same⟩

theorem scan (h : Issues held db e x) (cmd : x.pc.code = .sql st next) (idle : x.cursor = none)
    {rows : List Row} (perm : rows.Perm (st.scan db')) :
    Issues held db e { x with cursor := some ⟨rows, []⟩ } := by
  refine ⟨h.locked.scan cmd perm, h.drawn, h.fresh, h.single, ?_, ?_⟩
  · intro hn
    rcases h.recorded hn with hp | hp | ⟨g, c, _, hc, _⟩
    · exact .inl hp
    · exact .inr (.inl hp)
    · rw [idle] at hc
      cases hc
  · intro g c hp hc
    cases hc
    rw [show x.pc = .dispatchHistory g from hp] at cmd
    cases cmd
    rw [List.perm_singleton.mp perm]
    exact Nat.le_refl _

theorem taken (h : Issues held db e x) (cmd : x.pc.code = .sql st next) {r : Row}
    {rest affected : List Row} (cur : x.cursor = some ⟨r :: rest, affected⟩) :
    Issues (fun k => k ∈ st.locks r ∨ held k) db e
      { x with cursor := some ⟨rest, affected ++ [r]⟩, writes := x.writes ++ st.writes r } := by
  have before : newGrants x.writes ≠ [] → x.pc = .done ∨ ∃ g, x.pc = .dispatchTransition g := by
    intro hn
    rcases h.recorded hn with hp | hp | ⟨g, c, _, hc, hr⟩
    · exact .inl hp
    · exact .inr hp
    · rw [cur] at hc
      cases hc
      cases hr
  by_cases hp : ∃ g, x.pc = .dispatchHistory g
  · obtain ⟨g, hp⟩ := hp
    have drawn := h.drawn
    have one := h.inserting g _ hp cur
    have none : newGrants x.writes = [] := by
      by_contra hn
      rcases before hn with hq | ⟨g', hq⟩ <;> rw [hp] at hq <;> cases hq
    rw [hp] at drawn
    have cmd' := cmd
    rw [hp] at cmd'
    cases cmd'
    have new : newGrants (x.writes ++ [.insertHistory g.history]) =
        [(g.jobId, g.token, g.issuedAtMs)] := by
      rw [newGrants_append, none]
      rfl
    have ended : rest = [] := by simpa using one
    refine ⟨h.locked.taken cmd, h.drawn, ?_, ?_, ?_, ?_⟩
    · intro q hq
      have hm : q ∈ [(g.jobId, g.token, g.issuedAtMs)] := new ▸ hq
      cases List.mem_singleton.mp hm
      exact drawn
    · exact (congrArg List.length new).le
    · intro _
      exact .inr (.inr ⟨g, _, hp, rfl, ended⟩)
    · rintro g' c _ ⟨⟩
      simp [ended]
  · have silent := code_grants cmd (fun g hg => hp ⟨g, hg⟩) r
    have same : newGrants (x.writes ++ st.writes r) = newGrants x.writes := by
      rw [newGrants_append, silent, List.append_nil]
    refine ⟨h.locked.taken cmd, h.drawn, ?_, ?_, ?_, ?_⟩
    · intro q hq
      exact h.fresh q (same ▸ hq)
    · exact (congrArg List.length same).trans_le h.single
    · intro hn
      exact (before (same ▸ hn)).imp_right .inl
    · intro g c hg
      exact absurd ⟨g, hg⟩ hp

theorem passed (h : Issues held db e x) (cmd : x.pc.code = .sql st next) {r : Row}
    {rest affected : List Row} (cur : x.cursor = some ⟨r :: rest, affected⟩)
    (why : st.recheck db' r = false ∨ st.skipLocked = true) :
    Issues held db e { x with cursor := some ⟨rest, affected⟩ } := by
  refine ⟨h.locked.passed cmd why, h.drawn, h.fresh, h.single, ?_, ?_⟩
  · intro hn
    rcases h.recorded hn with hp | hp | ⟨g, c, _, hc, hr⟩
    · exact .inl hp
    · exact .inr (.inl hp)
    · rw [cur] at hc
      cases hc
      cases hr
  · intro g c hp hc
    cases hc
    have one := h.inserting g _ hp cur
    exact Nat.le_of_succ_le one

theorem close (h : Issues held db e x) (cmd : x.pc.code = .sql st next) {c : Cursor Row}
    (cur : x.cursor = some c) (exhausted : st.exhausted c = true) :
    Issues held db e { x with pc := next c.affected, cursor := none } := by
  refine ⟨h.locked.close cmd cur exhausted, drawn_leads h.drawn (Prog.leads cmd _), h.fresh, h.single, ?_, ?_⟩
  · intro hn
    rcases h.recorded hn with hp | ⟨g, hp⟩ | ⟨g, c', hp, _, _⟩ <;> rw [hp] at cmd <;> cases cmd
    · exact .inl rfl
    · exact .inr (.inl ⟨g, rfl⟩)
  · intro g c' _ hc
    cases hc

theorem call (hI : Issued db e) (h : Issues held db e x) {f : Env → Env × Prog}
    (cmd : x.pc.code = .call f) :
    e ≤ (f e).1 ∧ Issues held db (f e).1 { x with pc := (f e).2 } := by
  obtain ⟨le, locked⟩ := h.locked.call cmd e
  have none : newGrants x.writes = [] := by
    by_contra hn
    rcases h.recorded hn with hp | ⟨g, hp⟩ | ⟨g, c', hp, _, _⟩ <;> rw [hp] at cmd <;> cases cmd
  refine ⟨le, locked, drawn_reads hI h.drawn (Prog.reads cmd e), ?_, ?_, ?_, ?_⟩
  · simp [none]
  · simp [none]
  · simp [none]
  · intro g c hp
    obtain ⟨_, _, _, other⟩ := reads_issuing (Prog.reads cmd e)
    exact absurd hp (other g)

theorem commit (hI : Issued db e) (h : Issues held db e x) :
    Issued (sqlMachine.view db x.writes) e := by
  constructor
  · rw [grants_view, List.pairwise_append]
    refine ⟨hI.order, ?_, ?_⟩
    · cases hg : newGrants x.writes with
      | nil => exact .nil
      | cons g rest =>
        have one := h.single
        rw [hg] at one
        have ended : rest = [] := by simpa using one
        rw [ended]
        exact List.pairwise_singleton _ _
    · intro g hg q hq
      obtain ⟨newest, latest⟩ := h.fresh q hq
      exact ⟨newest.1 g hg, latest.1 g hg⟩
  · intro g hg
    rw [grants_view] at hg
    rcases List.mem_append.mp hg with hg | hg
    · exact hI.bounded g hg
    · obtain ⟨newest, latest⟩ := h.fresh g hg
      exact ⟨newest.2, latest.2⟩

end Issues

def issueOutline : Outline sqlMachine sqlProtection where
  starts _ := True
  allowed _ _ := True
  I := Issued
  A := Issues
  guarded h := h.locked.writes
  grow hg h := { h with locked := h.locked.grow hg }
  stable h _ he agree := h.stable he agree
  later hI he := ⟨hI.order, fun g hg =>
    ⟨Nat.le_trans (hI.bounded g hg).1 he.1, Int.le_trans (hI.bounded g hg).2 he.2⟩⟩
  start hp _ _ := .start hp
  scan _ h cmd idle perm := h.scan cmd idle perm
  violated _ h _ _ _ := { h with locked := h.locked.violated }
  taken _ h _ cmd cur _ _ _ := h.taken cmd cur
  passed _ h cmd cur why := h.passed cmd cur why
  close _ h cmd cur _ exhausted := h.close cmd cur exhausted
  call hI h cmd := Issues.call hI h cmd
  commit hI h _ := Issues.commit hI h

/-- ORDER BY IssuedAtMs, Fence. -/
def auditLe (a b : LeaseHistory) : Prop :=
  a.issuedAtMs < b.issuedAtMs ∨ a.issuedAtMs = b.issuedAtMs ∧ a.fence ≤ b.fence

/-- The rows of LeaseHistory in the order in which their grants were committed. -/
structure FencingOrdered (rows : List LeaseHistory) : Prop where
  distinct : (rows.map LeaseHistory.fence).Nodup
  clocked : ∀ a ∈ rows, ∀ b ∈ rows, a.fence < b.fence → a.issuedAtMs ≤ b.issuedAtMs
  granted : ∀ j, ((rows.filter fun h => h.jobId = j).map LeaseHistory.fence).Pairwise (· < ·)
  audit : ∀ (selected : LeaseHistory → Bool) (out : List LeaseHistory), out.Perm (rows.filter selected) →
    out.Pairwise auditLe → (out.map LeaseHistory.fence).Pairwise (· < ·)

theorem related_of_pairwise {R : α → α → Prop} {l : List α} (h : l.Pairwise R) (ha : a ∈ l)
    (hb : b ∈ l) : a = b ∨ R a b ∨ R b a := by
  induction h with
  | nil => cases ha
  | cons first rest ih =>
    rcases List.mem_cons.mp ha with rfl | hx
    · rcases List.mem_cons.mp hb with rfl | hy
      · exact .inl rfl
      · exact .inr (.inl (first b hy))
    · rcases List.mem_cons.mp hb with rfl | hy
      · exact .inr (.inr (first a hx))
      · exact ih hx hy

/-- All four orders follow from one: that token and time rise from row to row. -/
theorem fencingOrdered_of_pairwise {rows : List LeaseHistory}
    (h : rows.Pairwise fun a b => a.fence < b.fence ∧ a.issuedAtMs ≤ b.issuedAtMs) :
    FencingOrdered rows := by
  have rising : (rows.map LeaseHistory.fence).Pairwise (· < ·) :=
    List.pairwise_map.mpr (h.imp And.left)
  have clocked : ∀ a ∈ rows, ∀ b ∈ rows, a.fence < b.fence → a.issuedAtMs ≤ b.issuedAtMs := by
    intro a ha b hb hlt
    rcases related_of_pairwise h ha hb with rfl | hab | hba
    · exact Int.le_refl _
    · exact hab.2
    · exact absurd hba.1 (Nat.lt_asymm hlt)
  have distinct : (rows.map LeaseHistory.fence).Nodup := rising.imp Nat.ne_of_lt
  refine ⟨distinct, clocked, ?_, ?_⟩
  · intro j
    exact rising.sublist (List.filter_sublist.map _)
  · intro selected out perm sorted
    have nodup : (out.map LeaseHistory.fence).Nodup :=
      (perm.map _).nodup_iff.mpr (distinct.sublist (List.filter_sublist.map _))
    rw [List.pairwise_map]
    refine List.Pairwise.imp_of_mem ?_ (sorted.and (List.pairwise_map.mp nodup))
    rintro a b ha hb ⟨hab, hne⟩
    have ha := List.mem_of_mem_filter (perm.subset ha)
    have hb := List.mem_of_mem_filter (perm.subset hb)
    rcases Nat.lt_or_ge a.fence b.fence with hlt | hge
    · exact hlt
    have hlt : b.fence < a.fence := Nat.lt_of_le_of_ne hge (Ne.symm hne)
    have hle := clocked b hb a ha hlt
    rcases hab with hab | hab
    · omega
    · exact absurd hab.2 (Nat.not_le.mpr hlt)

/-- Fences are distinct and follow the clock, in every state of every interleaving. -/
theorem fencing_order {clockUs : Int} {s : SqlStore}
    (h : Reachable sqlMachine.step (migratedStore clockUs) s) :
    FencingOrdered s.db.leaseHistory := by
  obtain ⟨es, run⟩ := h
  have start : Issued (migratedStore clockUs).db (migratedStore clockUs).env := ⟨.nil, by
    intro g hg
    cases hg⟩
  have ok : ∀ e ∈ es, issueOutline.Ok e := fun _ _ => ⟨fun _ _ _ => trivial, fun _ _ _ _ _ => trivial⟩
  have issued : Issued s.db s.env := (issueOutline.sound run (fun _ => rfl) start ok).1
  apply fencingOrdered_of_pairwise
  exact List.pairwise_map.mp issued.order

/-- The second dispatch skips the locked row, and waits for the advisory lock while the
first one draws its token and reads the clock. -/
def overlappingRun : List SqlLabel :=
  List.flatten [submits 0 (.quiet "c1" 1) "k", submits 2 (.quiet "c1" 2) "l",
    [.start 1 (.dispatchSelect (.quiet "c1" 3) "w1" false), .scan 1 [.job 1, .job 2], .row 1 [],
      .close 1], Label.statement 1 [.new], [.call 1],
    [.start 3 (.dispatchSelect (.quiet "c2" 3) "w2" true)], Label.statement 3 [.job 1, .job 2],
    [.scan 3 [.new], .call 1, .pass ⟨1, 8⟩],
    Label.statement 1 [.new], Label.statement 1 [.job 1], Label.statement 1 [.new],
    Label.statement 1 [.new], [.commit 1],
    [.row 3 [], .close 3, .call 3, .call 3], Label.statement 3 [.new],
    Label.statement 3 [.job 2], Label.statement 3 [.new], Label.statement 3 [.new], [.commit 3]]

theorem fencing_order_overlappingRun : ∃ s,
    exec sqlMachine.step (migratedStore 5) overlappingRun = some s ∧
    s.db.leaseHistory.map (fun h => (h.jobId, h.fence, h.issuedAtMs)) = [(1, 1, 5), (2, 2, 8)] ∧
    FencingOrdered s.db.leaseHistory := by
  obtain ⟨s, hs, hp⟩ : ∃ s, exec sqlMachine.step (migratedStore 5) overlappingRun = some s ∧
      decide (s.db.leaseHistory.map (fun h => (h.jobId, h.fence, h.issuedAtMs)) =
        [(1, 1, 5), (2, 2, 8)]) = true := exec_any (by decide)
  exact ⟨s, hs, of_decide_eq_true hp, fencing_order (reachable_of_exec overlappingRun hs)⟩

end Dispatcher
