import Dispatcher.Lib.Runs
import Mathlib.Data.List.Perm.Basic
import Mathlib.Order.Basic

namespace ReadCommitted
open Runs

/-- An SQL statement over databases `σ`, as Postgres runs it under READ COMMITTED:
it collects the rows its snapshot shows, then takes them one by one, each under
its locks and re-checked against the latest version. An INSERT has one row, the
new one, and may violate a constraint. -/
structure Stmt (σ ρ κ ω : Type) where
  scan : σ → List ρ
  /-- ORDER BY: `before v r q` allows `r` ahead of `q`. -/
  before : σ → ρ → ρ → Bool := fun _ _ _ => true
  /-- LIMIT 1. -/
  single : Bool := false
  skipLocked : Bool := false
  locks : ρ → List κ
  recheck : σ → ρ → Bool := fun _ _ => true
  violates : σ → ρ → Bool := fun _ _ => false
  writes : ρ → List ω

/-- What a program does at a program point: a statement, whose affected rows
choose the next point; a call on what no rollback undoes; or the end. -/
inductive Cmd (σ ρ κ ω ε π : Type) where
  | sql (stmt : Stmt σ ρ κ ω) (next : List ρ → π)
  | call (f : ε → ε × π)
  | finish

structure Machine (σ ρ κ ω ε π : Type) where
  /-- Where a transaction may start. -/
  entry : π → Bool
  code : π → Cmd σ ρ κ ω ε π
  apply : ω → σ → σ

/-- A statement under way: the rows still to take and those it has taken. -/
structure Cursor (ρ : Type) where
  remaining : List ρ
  affected : List ρ

/-- An open transaction. Its writes are its own until it commits. -/
structure Txn (ρ ω π : Type) where
  pc : π
  cursor : Option (Cursor ρ)
  writes : List ω
  failed : Bool

/-- The committed database, what no rollback undoes, the open transactions, and
the lock table: a key has one holder, until that transaction ends. -/
structure Store (σ ρ κ ω ε π : Type) where
  db : σ
  env : ε
  txn : Nat → Option (Txn ρ ω π)
  holder : κ → Option Nat

inductive Label (ρ κ ε π : Type) where
  | start (t : Nat) (p : π)
  /-- A statement begins; its snapshot shows these rows. -/
  | scan (t : Nat) (rows : List ρ)
  /-- The next row; a row that is not taken may leave some of its locks held. -/
  | row (t : Nat) (kept : List κ)
  | close (t : Nat)
  | call (t : Nat)
  | commit (t : Nat)
  | abort (t : Nat)
  | pass (e : ε)

/-- One statement, from its snapshot to its end, that takes each of these rows. -/
def Label.statement {ρ κ ε π : Type} (t : Nat) (rows : List ρ) : List (Label ρ κ ε π) :=
  .scan t rows :: rows.map (fun _ => .row t []) ++ [.close t]

variable {σ ρ κ ω ε π : Type}

namespace Store

def put (s : Store σ ρ κ ω ε π) (t : Nat) (x : Txn ρ ω π) : Store σ ρ κ ω ε π :=
  { s with txn := fun u => if u = t then some x else s.txn u }

def drop (s : Store σ ρ κ ω ε π) (t : Nat) : Store σ ρ κ ω ε π :=
  { s with
    txn := fun u => if u = t then none else s.txn u
    holder := fun k => if s.holder k = some t then none else s.holder k }

def held (s : Store σ ρ κ ω ε π) (t : Nat) (k : κ) : Prop := s.holder k = some t

def free (s : Store σ ρ κ ω ε π) (t : Nat) (k : κ) : Bool :=
  s.holder k = none || s.holder k = some t

def grab [DecidableEq κ] (s : Store σ ρ κ ω ε π) (t : Nat) (ks : List κ) : Store σ ρ κ ω ε π :=
  { s with holder := fun k => if k ∈ ks then some t else s.holder k }

variable {s : Store σ ρ κ ω ε π} {t : Nat}

theorem held_grab [DecidableEq κ] (ks : List κ) :
    (s.grab t ks).held t = fun k => k ∈ ks ∨ s.held t k := by
  funext k
  simp only [Store.held, Store.grab, eq_iff_iff]
  split
  · rename_i hk
    simp [hk]
  · rename_i hk
    simp [hk]

/-- Nobody loses a key to a transaction that grabs free ones. -/
theorem held_grab_other [DecidableEq κ] {ks : List κ} (free : ∀ k ∈ ks, s.free t k = true)
    (hu : u ≠ t) : (s.grab t ks).held u = s.held u := by
  funext k
  simp only [Store.held, Store.grab, eq_iff_iff]
  split
  · rename_i hk
    have hf := free k hk
    simp only [Store.free, Bool.or_eq_true, decide_eq_true_eq] at hf
    rcases hf with hf | hf <;> simp [hf, hu.symm]
  · rfl

theorem held_drop_other (hu : u ≠ t) : (s.drop t).held u = s.held u := by
  funext k
  simp only [Store.held, Store.drop, eq_iff_iff]
  split
  · rename_i hk
    simp [hk, hu.symm]
  · rfl

theorem drop_txn (hy : (s.drop t).txn u = some y) : u ≠ t ∧ s.txn u = some y := by
  simp only [Store.drop] at hy
  split at hy
  · cases hy
  · rename_i hu
    exact ⟨hu, hy⟩

end Store

def Stmt.exhausted (st : Stmt σ ρ κ ω) (c : Cursor ρ) : Bool :=
  c.remaining.isEmpty || (st.single && !c.affected.isEmpty)

namespace Machine

variable (M : Machine σ ρ κ ω ε π)

/-- The database as a transaction with these writes sees it. -/
def view (db : σ) (ws : List ω) : σ := ws.foldl (fun d w => M.apply w d) db

@[simp] theorem view_nil (db : σ) : M.view db [] = db := rfl

@[simp] theorem view_cons (db : σ) (w : ω) (ws : List ω) :
    M.view db (w :: ws) = M.view (M.apply w db) ws := rfl

theorem view_append (db : σ) (ws vs : List ω) :
    M.view db (ws ++ vs) = M.view (M.view db ws) vs :=
  List.foldl_append

variable [DecidableEq ρ] [DecidableEq κ] [LE ε] [DecidableLE ε]

def stepRow (s : Store σ ρ κ ω ε π) (t : Nat) (kept : List κ) (x : Txn ρ ω π)
    (st : Stmt σ ρ κ ω) (r : ρ) (c : Cursor ρ) : Option (Store σ ρ κ ω ε π) :=
  let free := (st.locks r).all (s.free t)
  let recheck := st.recheck (M.view s.db x.writes) r
  if st.violates (M.view s.db x.writes) r then some (s.put t { x with failed := true })
  else if free && recheck then
    some ((s.grab t (st.locks r)).put t
      { x with cursor := some ⟨c.remaining, c.affected ++ [r]⟩, writes := x.writes ++ st.writes r })
  else if ((free && !recheck) || (!free && st.skipLocked)) &&
      kept.all (fun k => k ∈ st.locks r && s.free t k) then
    some ((s.grab t kept).put t { x with cursor := some c })
  else none

def step : Step (Store σ ρ κ ω ε π) (Label ρ κ ε π) := fun s a =>
  match a with
  | .start t p =>
    if M.entry p && (s.txn t).isNone then some (s.put t ⟨p, none, [], false⟩) else none
  | .scan t rows => (s.txn t).bind fun x => match M.code x.pc, x.cursor with
    | .sql st _, none =>
      let v := M.view s.db x.writes
      if !x.failed && rows.isPerm (st.scan v) && rows.Pairwise (fun r q => st.before v r q) then
        some (s.put t { x with cursor := some ⟨rows, []⟩ })
      else none
    | _, _ => none
  | .row t kept => (s.txn t).bind fun x => match M.code x.pc, x.cursor with
    | .sql st _, some ⟨r :: rest, affected⟩ =>
      if x.failed || st.exhausted ⟨r :: rest, affected⟩ then none
      else M.stepRow s t kept x st r ⟨rest, affected⟩
    | _, _ => none
  | .close t => (s.txn t).bind fun x => match M.code x.pc, x.cursor with
    | .sql st next, some c =>
      if !x.failed && st.exhausted c then
        some (s.put t { x with pc := next c.affected, cursor := none })
      else none
    | _, _ => none
  | .call t => (s.txn t).bind fun x => match M.code x.pc with
    | .call f => some { s.put t { x with pc := (f s.env).2 } with env := (f s.env).1 }
    | _ => none
  | .commit t => (s.txn t).bind fun x => match M.code x.pc with
    | .finish => some { s.drop t with db := M.view s.db x.writes }
    | _ => none
  | .abort t => (s.txn t).bind fun _ => some (s.drop t)
  | .pass e => if s.env ≤ e then some { s with env := e } else none

inductive Moved (s : Store σ ρ κ ω ε π) :
    Label ρ κ ε π → Store σ ρ κ ω ε π → Prop where
  | start (entry : M.entry p = true) (fresh : s.txn t = none) :
      Moved s (.start t p) (s.put t ⟨p, none, [], false⟩)
  | scan (opened : s.txn t = some x) (cmd : M.code x.pc = .sql st next) (idle : x.cursor = none)
      (ok : x.failed = false) (perm : rows.Perm (st.scan (M.view s.db x.writes)))
      (sorted : rows.Pairwise fun r q => st.before (M.view s.db x.writes) r q = true) :
      Moved s (.scan t rows) (s.put t { x with cursor := some ⟨rows, []⟩ })
  | violated (opened : s.txn t = some x) (cmd : M.code x.pc = .sql st next)
      (cur : x.cursor = some ⟨r :: rest, affected⟩) (ok : x.failed = false)
      (busy : st.exhausted ⟨r :: rest, affected⟩ = false)
      (violates : st.violates (M.view s.db x.writes) r = true) :
      Moved s (.row t kept) (s.put t { x with failed := true })
  | taken (opened : s.txn t = some x) (cmd : M.code x.pc = .sql st next)
      (cur : x.cursor = some ⟨r :: rest, affected⟩) (ok : x.failed = false)
      (busy : st.exhausted ⟨r :: rest, affected⟩ = false)
      (clean : st.violates (M.view s.db x.writes) r = false)
      (free : ∀ k ∈ st.locks r, s.free t k = true)
      (recheck : st.recheck (M.view s.db x.writes) r = true) :
      Moved s (.row t kept) ((s.grab t (st.locks r)).put t
        { x with cursor := some ⟨rest, affected ++ [r]⟩, writes := x.writes ++ st.writes r })
  | passed (opened : s.txn t = some x) (cmd : M.code x.pc = .sql st next)
      (cur : x.cursor = some ⟨r :: rest, affected⟩) (ok : x.failed = false)
      (busy : st.exhausted ⟨r :: rest, affected⟩ = false)
      (clean : st.violates (M.view s.db x.writes) r = false)
      (free : ∀ k ∈ kept, k ∈ st.locks r ∧ s.free t k = true)
      (why : (∀ k ∈ st.locks r, s.free t k = true) ∧ st.recheck (M.view s.db x.writes) r = false ∨
        st.skipLocked = true) :
      Moved s (.row t kept) ((s.grab t kept).put t { x with cursor := some ⟨rest, affected⟩ })
  | close (opened : s.txn t = some x) (cmd : M.code x.pc = .sql st next)
      (cur : x.cursor = some c) (ok : x.failed = false) (exhausted : st.exhausted c = true) :
      Moved s (.close t) (s.put t { x with pc := next c.affected, cursor := none })
  | call (opened : s.txn t = some x) (cmd : M.code x.pc = .call f) :
      Moved s (.call t) { s.put t { x with pc := (f s.env).2 } with env := (f s.env).1 }
  | commit (opened : s.txn t = some x) (cmd : M.code x.pc = .finish) :
      Moved s (.commit t) { s.drop t with db := M.view s.db x.writes }
  | abort (opened : s.txn t = some x) : Moved s (.abort t) (s.drop t)
  | pass (later : s.env ≤ e) : Moved s (.pass e) { s with env := e }

variable {M}

omit [DecidableEq ρ] [DecidableLE ε] in
theorem moved_of_row {s s' : Store σ ρ κ ω ε π} {t : Nat} {kept : List κ} {x : Txn ρ ω π}
    {st : Stmt σ ρ κ ω} {next : List ρ → π} {r : ρ} {rest affected : List ρ}
    (opened : s.txn t = some x) (cmd : M.code x.pc = .sql st next)
    (cur : x.cursor = some ⟨r :: rest, affected⟩) (ok : x.failed = false)
    (busy : st.exhausted ⟨r :: rest, affected⟩ = false)
    (h : M.stepRow s t kept x st r ⟨rest, affected⟩ = some s') : M.Moved s (.row t kept) s' := by
  simp only [stepRow] at h
  split at h
  · rename_i hv
    cases h
    exact .violated opened cmd cur ok busy hv
  rename_i hv
  have clean : st.violates (M.view s.db x.writes) r = false := by simpa using hv
  split at h
  · rename_i hf
    simp only [Bool.and_eq_true, List.all_eq_true] at hf
    cases h
    exact .taken opened cmd cur ok busy clean hf.1 hf.2
  rename_i hf
  split at h
  · rename_i hk
    simp only [Bool.and_eq_true, Bool.or_eq_true, List.all_eq_true, decide_eq_true_eq,
      Bool.not_eq_eq_eq_not, Bool.not_true] at hk
    cases h
    exact .passed opened cmd cur ok busy clean hk.2 (hk.1.imp_right And.right)
  · cases h

/-- Every step goes one of these ways. -/
theorem moved_of_step {s s' : Store σ ρ κ ω ε π} {a : Label ρ κ ε π} (h : M.step s a = some s') :
    M.Moved s a s' := by
  cases a with
  | start t p =>
    simp only [step, Option.ite_none_right_eq_some, Bool.and_eq_true, Option.isNone_iff_eq_none,
      Option.some.injEq] at h
    obtain ⟨⟨he, hn⟩, rfl⟩ := h
    exact .start he hn
  | pass e =>
    simp only [step, Option.ite_none_right_eq_some, Option.some.injEq] at h
    obtain ⟨hl, rfl⟩ := h
    exact .pass hl
  | abort t =>
    obtain ⟨x, hx, hs⟩ := Option.bind_eq_some_iff.mp h
    cases hs
    exact .abort hx
  | commit t =>
    obtain ⟨x, hx, hs⟩ := Option.bind_eq_some_iff.mp h
    split at hs <;> cases hs
    rename_i hc
    exact .commit hx hc
  | call t =>
    obtain ⟨x, hx, hs⟩ := Option.bind_eq_some_iff.mp h
    split at hs <;> cases hs
    rename_i hc
    exact .call hx hc
  | close t =>
    obtain ⟨x, hx, hs⟩ := Option.bind_eq_some_iff.mp h
    split at hs
    · rename_i st next c hc hcur
      simp only [Option.ite_none_right_eq_some, Bool.and_eq_true, Bool.not_eq_eq_eq_not,
        Bool.not_true, Option.some.injEq] at hs
      obtain ⟨⟨ok, exhausted⟩, rfl⟩ := hs
      exact .close hx hc hcur ok exhausted
    · cases hs
  | scan t rows =>
    obtain ⟨x, hx, hs⟩ := Option.bind_eq_some_iff.mp h
    split at hs
    · rename_i st next hc hcur
      simp only [Option.ite_none_right_eq_some, Bool.and_eq_true, Bool.not_eq_eq_eq_not,
        Bool.not_true, decide_eq_true_eq, Option.some.injEq, List.isPerm_iff] at hs
      obtain ⟨⟨⟨ok, perm⟩, sorted⟩, rfl⟩ := hs
      exact .scan hx hc hcur ok perm sorted
    · cases hs
  | row t kept =>
    obtain ⟨x, hx, hs⟩ := Option.bind_eq_some_iff.mp h
    split at hs
    · rename_i st next r rest affected hc hcur
      split at hs
      · cases hs
      · rename_i hn
        simp only [Bool.or_eq_true, not_or, Bool.not_eq_true] at hn
        exact moved_of_row hx hc hcur hn.1 hn.2 hs
    · cases hs

end Machine

end ReadCommitted
