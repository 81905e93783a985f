import Dispatcher.Lib.ReadCommitted

namespace ReadCommitted
open Runs

variable {σ ρ κ ω ε π : Type} (M : Machine σ ρ κ ω ε π)

/-- A statement that meets no other transaction: the rows that it comes to, those it
takes, and what it writes. -/
inductive Takes (st : Stmt σ ρ κ ω) : σ → List ρ → List ρ → List ω → Prop where
  | nil : Takes st v [] [] []
  | taken (many : st.single = false) (clean : st.violates v r = false)
      (fits : st.recheck v r = true) (rest : Takes st (M.view v (st.writes r)) rows affected ws) :
      Takes st v (r :: rows) (r :: affected) (st.writes r ++ ws)
  | first (single : st.single = true) (clean : st.violates v r = false)
      (fits : st.recheck v r = true) : Takes st v (r :: rows) [r] (st.writes r)
  | passed (clean : st.violates v r = false) (gone : st.recheck v r = false)
      (rest : Takes st v rows affected ws) : Takes st v (r :: rows) affected ws

/-- A statement that comes to a row that violates a constraint. -/
inductive Throws (st : Stmt σ ρ κ ω) : σ → List ρ → Prop where
  | here (violates : st.violates v r = true) : Throws st v (r :: rows)
  | taken (many : st.single = false) (clean : st.violates v r = false)
      (fits : st.recheck v r = true) (rest : Throws st (M.view v (st.writes r)) rows) :
      Throws st v (r :: rows)
  | passed (clean : st.violates v r = false) (gone : st.recheck v r = false)
      (rest : Throws st v rows) : Throws st v (r :: rows)

/-- A transaction that meets no other, from a program point to its end: its writes, or
`none` where a statement throws and it rolls back; and what it leaves of the environment. -/
inductive Alone : π → σ → ε → Option (List ω) → ε → Prop where
  | finish (cmd : M.code p = .finish) : Alone p v e (some []) e
  | throws (cmd : M.code p = .sql st next) (perm : rows.Perm (st.scan v))
      (sorted : rows.Pairwise fun r q => st.before v r q = true) (throws : Throws M st v rows) :
      Alone p v e none e
  | call (cmd : M.code p = .call f) (rest : Alone (f e).2 v (f e).1 out e') : Alone p v e out e'
  | sql (cmd : M.code p = .sql st next) (perm : rows.Perm (st.scan v))
      (sorted : rows.Pairwise fun r q => st.before v r q = true)
      (takes : Takes M st v rows affected ws)
      (rest : Alone (next affected) (M.view v ws) e out e') : Alone p v e (out.map (ws ++ ·)) e'

variable {M} in
/-- A statement that finds each of its rows as its snapshot showed it takes them all. -/
theorem takes_all {st : Stmt σ ρ κ ω} (many : st.single = false) {v : σ} {rows : List ρ}
    (fits : ∀ pre r post, rows = pre ++ r :: post →
      st.violates (M.view v (pre.flatMap st.writes)) r = false ∧
        st.recheck (M.view v (pre.flatMap st.writes)) r = true) :
    Takes M st v rows rows (rows.flatMap st.writes) := by
  induction rows generalizing v with
  | nil => exact .nil
  | cons r rest ih =>
    obtain ⟨clean, first⟩ := fits [] r rest rfl
    refine .taken many clean first (ih ?_)
    intro pre q post hq
    have later := fits (r :: pre) q post (by rw [hq]; rfl)
    simpa [M.view_append] using later

structure Store.Idle (s : Store σ ρ κ ω ε π) : Prop where
  closed : ∀ t, s.txn t = none
  unlocked : ∀ k, s.holder k = none

/-- Transaction `t` stands so, and it is the only one. -/
structure Store.Lone (s : Store σ ρ κ ω ε π) (t : Nat) (db : σ) (e : ε) (x : Txn ρ ω π) :
    Prop where
  opened : s.txn t = some x
  only : ∀ u, u ≠ t → s.txn u = none
  db : s.db = db
  env : s.env = e
  free : ∀ k, s.free t k = true
  ok : x.failed = false

variable {M} {s : Store σ ρ κ ω ε π} {t : Nat} {db : σ} {e : ε} {x : Txn ρ ω π} {st : Stmt σ ρ κ ω}
  {next : List ρ → π} {r : ρ} {rows rest affected : List ρ}

theorem lone_put (h : s.Lone t db e x) {y : Txn ρ ω π} (ok : y.failed = false) :
    (s.put t y).Lone t db e y :=
  ⟨by simp [Store.put], fun u hu => by simp [Store.put, hu, h.only u hu], h.db, h.env, h.free, ok⟩

theorem lone_grab [DecidableEq κ] (h : s.Lone t db e x) (ks : List κ) : (s.grab t ks).Lone t db e x := by
  refine ⟨h.opened, h.only, h.db, h.env, ?_, h.ok⟩
  intro k
  have before := h.free k
  simp only [Store.free, Store.grab] at before ⊢
  split
  · simp
  · exact before

theorem idle_drop (only : ∀ u, u ≠ t → s.txn u = none) (free : ∀ k, s.free t k = true) :
    (s.drop t).Idle := by
  refine ⟨?_, ?_⟩
  · intro u
    simp only [Store.drop]
    split
    · rfl
    · exact only u ‹_›
  · intro k
    have mine := free k
    simp only [Store.free, Bool.or_eq_true, decide_eq_true_eq] at mine
    simp only [Store.drop]
    split
    · rfl
    · exact mine.resolve_right ‹_›

variable [DecidableEq ρ] [DecidableEq κ] [LE ε] [DecidableLE ε]

/-- The statement begins, with the rows in an order that it may show. -/
theorem step_scan (h : s.Lone t db e x) (cmd : M.code x.pc = .sql st next) (idle : x.cursor = none)
    (perm : rows.Perm (st.scan (M.view db x.writes)))
    (sorted : rows.Pairwise fun r q => st.before (M.view db x.writes) r q = true) :
    M.step s (.scan t rows) = some (s.put t { x with cursor := some ⟨rows, []⟩ }) := by
  have isPerm := List.isPerm_iff.mpr perm
  simp [Machine.step, h.opened, cmd, idle, h.ok, h.db, isPerm, sorted]

/-- With nobody about, every row is free. -/
theorem step_taken (h : s.Lone t db e x) (cmd : M.code x.pc = .sql st next)
    (cur : x.cursor = some ⟨r :: rest, affected⟩)
    (busy : st.exhausted ⟨r :: rest, affected⟩ = false)
    (clean : st.violates (M.view db x.writes) r = false)
    (fits : st.recheck (M.view db x.writes) r = true) :
    M.step s (.row t []) = some ((s.grab t (st.locks r)).put t
      { x with cursor := some ⟨rest, affected ++ [r]⟩, writes := x.writes ++ st.writes r }) := by
  simp [Machine.step, Machine.stepRow, h.opened, cmd, cur, h.ok, h.db, busy, clean, fits, h.free]

theorem step_passed (h : s.Lone t db e x) (cmd : M.code x.pc = .sql st next)
    (cur : x.cursor = some ⟨r :: rest, affected⟩)
    (busy : st.exhausted ⟨r :: rest, affected⟩ = false)
    (clean : st.violates (M.view db x.writes) r = false)
    (gone : st.recheck (M.view db x.writes) r = false) :
    M.step s (.row t []) =
      some ((s.grab t []).put t { x with cursor := some ⟨rest, affected⟩ }) := by
  simp [Machine.step, Machine.stepRow, h.opened, cmd, cur, h.ok, h.db, busy, clean, gone, h.free]

omit [DecidableEq ρ] [DecidableEq κ] [LE ε] [DecidableLE ε] in
theorem not_exhausted (none : st.single = true → affected = []) (r : ρ) (rest : List ρ) :
    st.exhausted ⟨r :: rest, affected⟩ = false := by
  cases hs : st.single with
  | false => simp [Stmt.exhausted, hs]
  | true => simp [Stmt.exhausted, none hs]

/-- A statement alone comes to its end with the rows it takes. -/
theorem reach_takes {v : σ} {rows taken : List ρ} {ws : List ω}
    (takes : Takes M st v rows taken ws) {s : Store σ ρ κ ω ε π} {x : Txn ρ ω π}
    (h : s.Lone t db e x) (cmd : M.code x.pc = .sql st next)
    (cur : x.cursor = some ⟨rows, affected⟩) (view : M.view db x.writes = v)
    (none : st.single = true → affected = []) :
    ∃ s' c, Reachable M.step s s' ∧ st.exhausted c = true ∧ c.affected = affected ++ taken ∧
      s'.Lone t db e { x with cursor := some c, writes := x.writes ++ ws } := by
  induction takes generalizing s x affected with
  | nil =>
    have same : { x with cursor := some ⟨[], affected⟩, writes := x.writes ++ [] } = x := by
      rw [List.append_nil, ← cur]
    refine ⟨s, ⟨[], affected⟩, .refl, rfl, by simp, ?_⟩
    rw [same]
    exact h
  | @taken v r rows taken ws many clean fits rest ih =>
    subst view
    have go := step_taken h cmd cur (not_exhausted none _ _) clean fits
    have lone := lone_put (lone_grab h (st.locks r)) (y := { x with
      cursor := some ⟨rows, affected ++ [r]⟩, writes := x.writes ++ st.writes r }) h.ok
    obtain ⟨s', c, reach, done, all, after⟩ := ih lone cmd rfl (M.view_append db _ _) (by simp [many])
    refine ⟨s', c, (Reachable.refl.snoc go).trans reach, done, by simpa using all, ?_⟩
    simpa using after
  | @first v r rows single clean fits =>
    subst view
    have go := step_taken h cmd cur (not_exhausted none _ _) clean fits
    have lone := lone_put (lone_grab h (st.locks r)) (y := { x with
      cursor := some ⟨rows, affected ++ [r]⟩, writes := x.writes ++ st.writes r }) h.ok
    exact ⟨_, _, Reachable.refl.snoc go, by simp [Stmt.exhausted, single], rfl, lone⟩
  | @passed v r rows taken ws clean gone rest ih =>
    subst view
    have go := step_passed h cmd cur (not_exhausted none _ _) clean gone
    have lone := lone_put (lone_grab h []) (y := { x with cursor := some ⟨rows, affected⟩ }) h.ok
    obtain ⟨s', c, reach, done, all, after⟩ := ih lone cmd rfl rfl none
    exact ⟨s', c, (Reachable.refl.snoc go).trans reach, done, all, after⟩

/-- A statement alone that throws, and the rollback. -/
theorem reach_throws {v : σ} {rows : List ρ} (throws : Throws M st v rows) {s : Store σ ρ κ ω ε π}
    {x : Txn ρ ω π} (h : s.Lone t db e x) (cmd : M.code x.pc = .sql st next)
    (cur : x.cursor = some ⟨rows, affected⟩) (view : M.view db x.writes = v)
    (none : st.single = true → affected = []) :
    ∃ s', Reachable M.step s s' ∧ s'.Idle ∧ s'.db = db ∧ s'.env = e := by
  induction throws generalizing s x affected with
  | @here v r rows violates =>
    subst view
    let y : Txn ρ ω π := { x with failed := true }
    have busy := not_exhausted none r rows
    have go : M.step s (.row t []) = some (s.put t y) := by
      simp [Machine.step, Machine.stepRow, h.opened, cmd, cur, h.ok, h.db, busy, violates, y]
    have aborts : M.step (s.put t y) (.abort t) = some ((s.put t y).drop t) := by
      simp [Machine.step, Store.put]
    have idle : ((s.put t y).drop t).Idle :=
      idle_drop (fun u hu => by simp [Store.put, hu, h.only u hu]) h.free
    exact ⟨_, (Reachable.refl.snoc go).snoc aborts, idle, h.db, h.env⟩
  | @taken v r rows many clean fits rest ih =>
    subst view
    have go := step_taken h cmd cur (not_exhausted none _ _) clean fits
    have lone := lone_put (lone_grab h (st.locks r)) (y := { x with
      cursor := some ⟨rows, affected ++ [r]⟩, writes := x.writes ++ st.writes r }) h.ok
    obtain ⟨s', reach, after⟩ := ih lone cmd rfl (M.view_append db _ _) (by simp [many])
    exact ⟨s', (Reachable.refl.snoc go).trans reach, after⟩
  | @passed v r rows clean gone rest ih =>
    subst view
    have go := step_passed h cmd cur (not_exhausted none _ _) clean gone
    have lone := lone_put (lone_grab h []) (y := { x with cursor := some ⟨rows, affected⟩ }) h.ok
    obtain ⟨s', reach, after⟩ := ih lone cmd rfl rfl none
    exact ⟨s', (Reachable.refl.snoc go).trans reach, after⟩

/-- What a transaction that ends so leaves of the database that it began on. -/
def Machine.ended (M : Machine σ ρ κ ω ε π) (db : σ) : Option (List ω) → σ
  | some ws => M.view db ws
  | none => db

/-- What a transaction does alone, the machine can do from any state in which it is the
only one. -/
theorem Alone.reach {p : π} {v : σ} {out : Option (List ω)} {e' : ε} (alone : Alone M p v e out e')
    {s : Store σ ρ κ ω ε π} {x : Txn ρ ω π} (h : s.Lone t db e x) (pc : x.pc = p)
    (idle : x.cursor = none) (view : M.view db x.writes = v) :
    ∃ s', Reachable M.step s s' ∧ s'.Idle ∧ s'.db = M.ended db (out.map (x.writes ++ ·)) ∧
      s'.env = e' := by
  induction alone generalizing s x with
  | finish cmd =>
    subst pc view
    have go : M.step s (.commit t) = some { s.drop t with db := M.view s.db x.writes } := by
      simp [Machine.step, h.opened, cmd]
    have after := idle_drop h.only h.free
    have quiet : Store.Idle { s.drop t with db := M.view s.db x.writes } :=
      ⟨after.closed, after.unlocked⟩
    exact ⟨_, Reachable.refl.snoc go, quiet, by simp [h.db, Machine.ended], h.env⟩
  | @throws p st next v rows e cmd perm sorted throws =>
    subst pc view
    have go := step_scan h cmd idle perm sorted
    have put := lone_put h (y := { x with cursor := some ⟨rows, []⟩ }) h.ok
    obtain ⟨s', reach, after⟩ := reach_throws throws put cmd rfl rfl (fun _ => rfl)
    exact ⟨s', (Reachable.refl.snoc go).trans reach, after⟩
  | @call p f e v out e' cmd rest ih =>
    subst pc
    have go : M.step s (.call t) = some
        { s.put t { x with pc := (f s.env).2 } with env := (f s.env).1 } := by
      simp [Machine.step, h.opened, cmd]
    have put := lone_put h (y := { x with pc := (f s.env).2 }) h.ok
    rw [h.env] at go put
    have lone : Store.Lone { s.put t { x with pc := (f e).2 } with env := (f e).1 } t db (f e).1
        { x with pc := (f e).2 } := ⟨put.opened, put.only, put.db, rfl, put.free, put.ok⟩
    obtain ⟨s', reach, after⟩ := ih lone rfl idle view
    exact ⟨s', (Reachable.refl.snoc go).trans reach, after⟩
  | @sql p st next v rows affected ws e out e' cmd perm sorted takes rest ih =>
    subst pc view
    have go := step_scan h cmd idle perm sorted
    have put := lone_put h (y := { x with cursor := some ⟨rows, []⟩ }) h.ok
    obtain ⟨s₁, c, reach, done, all, lone⟩ := reach_takes takes put cmd rfl rfl (fun _ => rfl)
    have ended : M.step s₁ (.close t) = some (s₁.put t
        { x with pc := next c.affected, cursor := none, writes := x.writes ++ ws }) := by
      simp [Machine.step, lone.opened, cmd, h.ok, done]
    rw [all, List.nil_append] at ended
    obtain ⟨s', reach', idle', db', env'⟩ := ih (lone_put lone (y := { x with
      pc := next affected, cursor := none, writes := x.writes ++ ws }) h.ok) rfl rfl
      (M.view_append db _ _)
    refine ⟨s', ((Reachable.refl.snoc go).trans reach).trans ((Reachable.refl.snoc ended).trans reach'),
      idle', ?_, env'⟩
    rw [db', Option.map_map]
    congr 2
    funext vs
    exact (List.append_assoc _ _ _)

/-- What a transaction does alone, it can do from every store where none is open. -/
theorem Alone.run {p : π} {out : Option (List ω)} {e' : ε} (alone : Alone M p s.db s.env out e')
    (entry : M.entry p = true) (idle : s.Idle) :
    ∃ s', Reachable M.step s s' ∧ s'.Idle ∧ s'.db = M.ended s.db out ∧ s'.env = e' := by
  have go : M.step s (.start 0 p) = some (s.put 0 ⟨p, none, [], false⟩) := by
    simp [Machine.step, entry, idle.closed]
  have lone : (s.put 0 ⟨p, none, [], false⟩).Lone 0 s.db s.env ⟨p, none, [], false⟩ := by
    refine ⟨by simp [Store.put], ?_, rfl, rfl, ?_, rfl⟩
    · intro u hu
      simp [Store.put, hu, idle.closed u]
    · intro k
      simp [Store.free, Store.put, idle.unlocked k]
  obtain ⟨s', reach, idle', db, env⟩ := alone.reach lone rfl rfl rfl
  exact ⟨s', (Reachable.refl.snoc go).trans reach, idle', by simpa using db, env⟩

end ReadCommitted
