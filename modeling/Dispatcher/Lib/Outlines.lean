import Dispatcher.Lib.ReadCommitted

namespace ReadCommitted
open Runs

variable {σ ρ κ ω ε π : Type}

/-- What each lock key protects: the part of the database on which two states
agree, and the writes that may change it. -/
structure Protection (M : Machine σ ρ κ ω ε π) where
  agree : κ → σ → σ → Prop
  touches : ω → κ → Prop
  refl : ∀ k s, agree k s s
  trans : ∀ {k s s' s''}, agree k s s' → agree k s' s'' → agree k s s''
  apply : ∀ {w k} (s), ¬ touches w k → agree k s (M.apply w s)

theorem Protection.view {M : Machine σ ρ κ ω ε π} (L : Protection M) {ws : List ω} {k : κ}
    (h : ∀ w ∈ ws, ¬ L.touches w k) (s : σ) : L.agree k s (M.view s ws) := by
  induction ws generalizing s with
  | nil => exact L.refl k s
  | cons w rest ih =>
    have first : L.agree k s (M.apply w s) := L.apply s (h w List.mem_cons_self)
    exact L.trans first (ih (fun v hv => h v (List.mem_cons_of_mem _ hv)) (M.apply w s))

namespace Protection

variable {M : Machine σ ρ κ ω ε π} (L : Protection M)

/-- Whatever others commit meanwhile to what is not held, a commit of these writes
takes a database with `I` to one that stands to it in `Q`. -/
def Ensures (I : σ → Prop) (Q : σ → σ → Prop) (held : κ → Prop) (db : σ) (ws : List ω) : Prop :=
  ∀ db', (∀ k, held k → L.agree k db db') → I db' → Q db' (M.view db' ws)

variable {L} {I : σ → Prop} {Q : σ → σ → Prop} {held held' : κ → Prop} {db db' : σ}
  {ws vs : List ω}

theorem Ensures.now (h : L.Ensures I Q held db ws) (hi : I db) : Q db (M.view db ws) :=
  h db (fun k _ => L.refl k db) hi

theorem Ensures.stable (h : L.Ensures I Q held db ws) (grow : ∀ k, held k → held' k)
    (agree : ∀ k, held k → L.agree k db db') : L.Ensures I Q held' db' ws := by
  intro other same hi
  apply h other _ hi
  intro k hk
  exact L.trans (agree k hk) (same k (grow k hk))

theorem Ensures.grow (h : L.Ensures I Q held db ws) (grow : ∀ k, held k → held' k) :
    L.Ensures I Q held' db ws :=
  h.stable grow fun k _ => L.refl k db

/-- Further writes ensure `Q` where they keep it. -/
theorem Ensures.append (h : L.Ensures I Q held db ws)
    (more : ∀ other, I other → Q other (M.view other ws) →
      Q other (M.view (M.view other ws) vs)) : L.Ensures I Q held db (ws ++ vs) := by
  intro other same hi
  rw [Machine.view_append]
  exact more other hi (h other same hi)

end Protection

/-- A proof outline: an invariant of the committed state, and an assertion about
each open transaction in terms of the keys it holds. The assertion speaks of the
database only as far as those keys protect it, so no other transaction breaks it. -/
structure Outline (M : Machine σ ρ κ ω ε π) (L : Protection M) [Preorder ε] where
  starts : π → Prop
  /-- What a row step may rely on, where the code does not see to it. -/
  allowed : σ → Txn ρ ω π → Prop
  I : σ → ε → Prop
  A : (κ → Prop) → σ → ε → Txn ρ ω π → Prop
  guarded : ∀ {held db e x}, A held db e x → ∀ w ∈ x.writes, ∀ k, L.touches w k → held k
  grow : ∀ {held held' db e x}, (∀ k, held k → held' k) → A held db e x → A held' db e x
  stable : ∀ {held db db' e e' x}, A held db e x → I db' e' → e ≤ e' →
    (∀ k, held k → L.agree k db db') → A held db' e' x
  later : ∀ {db e e'}, I db e → e ≤ e' → I db e'
  start : ∀ {held db e p}, M.entry p = true → starts p → I db e → A held db e ⟨p, none, [], false⟩
  scan : ∀ {held db e x st next rows}, I db e → A held db e x → M.code x.pc = .sql st next →
    x.cursor = none → rows.Perm (st.scan (M.view db x.writes)) →
    A held db e { x with cursor := some ⟨rows, []⟩ }
  violated : ∀ {held db e x st next r rest affected}, I db e → A held db e x →
    M.code x.pc = .sql st next → x.cursor = some ⟨r :: rest, affected⟩ →
    st.violates (M.view db x.writes) r = true → A held db e { x with failed := true }
  taken : ∀ {held db e x st next r rest affected}, I db e → A held db e x → allowed db x →
    M.code x.pc = .sql st next → x.cursor = some ⟨r :: rest, affected⟩ →
    st.exhausted ⟨r :: rest, affected⟩ = false → st.violates (M.view db x.writes) r = false →
    st.recheck (M.view db x.writes) r = true →
    A (fun k => k ∈ st.locks r ∨ held k) db e
      { x with cursor := some ⟨rest, affected ++ [r]⟩, writes := x.writes ++ st.writes r }
  passed : ∀ {held db e x st next r rest affected}, I db e → A held db e x →
    M.code x.pc = .sql st next → x.cursor = some ⟨r :: rest, affected⟩ →
    st.recheck (M.view db x.writes) r = false ∨ st.skipLocked = true →
    A held db e { x with cursor := some ⟨rest, affected⟩ }
  close : ∀ {held db e x st next c}, I db e → A held db e x → M.code x.pc = .sql st next →
    x.cursor = some c → x.failed = false → st.exhausted c = true →
    A held db e { x with pc := next c.affected, cursor := none }
  call : ∀ {held db e x f}, I db e → A held db e x → M.code x.pc = .call f →
    e ≤ (f e).1 ∧ A held db (f e).1 { x with pc := (f e).2 }
  commit : ∀ {held db e x}, I db e → A held db e x → M.code x.pc = .finish →
    I (M.view db x.writes) e

namespace Outline

variable {M : Machine σ ρ κ ω ε π} {L : Protection M} [Preorder ε] (O : Outline M L)

def Inv (s : Store σ ρ κ ω ε π) : Prop :=
  O.I s.db s.env ∧ ∀ t x, s.txn t = some x → O.A (s.held t) s.db s.env x

/-- The steps that an outline speaks of. -/
def Ok (e : Event (Store σ ρ κ ω ε π) (Label ρ κ ε π)) : Prop :=
  (∀ t p, e.action = .start t p → O.starts p) ∧
    ∀ t kept x, e.action = .row t kept → e.before.txn t = some x → O.allowed e.before.db x

variable {O} {s s' : Store σ ρ κ ω ε π} {t : Nat} {x : Txn ρ ω π}

theorem inv_put (h : O.Inv s) (hx : O.A (s.held t) s.db s.env x) : O.Inv (s.put t x) := by
  refine ⟨h.1, ?_⟩
  intro u y hy
  simp only [Store.put] at hy
  split at hy
  · rename_i hu
    cases hy
    subst hu
    exact hx
  · exact h.2 u y hy

theorem inv_grab [DecidableEq κ] {ks : List κ} (h : O.Inv s)
    (free : ∀ k ∈ ks, s.free t k = true)
    (hx : O.A (fun k => k ∈ ks ∨ s.held t k) s.db s.env x) : O.Inv ((s.grab t ks).put t x) := by
  refine ⟨h.1, ?_⟩
  intro u y hy
  simp only [Store.put] at hy
  split at hy
  · rename_i hu
    cases hy
    subst hu
    change O.A ((s.grab u ks).held u) _ _ _
    rw [Store.held_grab]
    exact hx
  · rename_i hu
    change O.A ((s.grab t ks).held u) _ _ _
    rw [Store.held_grab_other free hu]
    exact h.2 u y hy

/-- The writes of one transaction leave alone what another holds. -/
theorem agree_other (h : O.Inv s) (hx : s.txn t = some x) (hu : u ≠ t) (hk : s.held u k) :
    L.agree k s.db (M.view s.db x.writes) := by
  apply L.view
  intro w hw touched
  have mine : s.held t k := O.guarded (h.2 t x hx) w hw k touched
  have both := mine.symm.trans hk
  exact hu (Option.some.inj both).symm

variable [DecidableEq κ]

/-- No step of a transaction breaks the assertion of another. -/
theorem inv_moved {a : Label ρ κ ε π} (h : O.Inv s) (moved : M.Moved s a s')
    (ok : O.Ok ⟨s, a, s'⟩) : O.Inv s' := by
  have later : ∀ e', s.env ≤ e' → ∀ u y, s.txn u = some y → O.A (s.held u) s.db e' y :=
    fun e' he u y hy => O.stable (h.2 u y hy) (O.later h.1 he) he fun k _ => L.refl k _
  have passed : ∀ e', s.env ≤ e' → O.Inv { s with env := e' } :=
    fun e' he => ⟨O.later h.1 he, later e' he⟩
  cases moved with
  | start entry fresh => exact inv_put h (O.start entry (ok.1 _ _ rfl) h.1)
  | scan opened cmd idle failed perm sorted =>
    exact inv_put h (O.scan h.1 (h.2 _ _ opened) cmd idle perm)
  | violated opened cmd cur failed busy violates =>
    exact inv_put h (O.violated h.1 (h.2 _ _ opened) cmd cur violates)
  | taken opened cmd cur failed busy clean free recheck =>
    have allowed := ok.2 _ _ _ rfl opened
    exact inv_grab h free (O.taken h.1 (h.2 _ _ opened) allowed cmd cur busy clean recheck)
  | passed opened cmd cur failed busy clean free why =>
    refine inv_grab h (fun k hk => (free k hk).2) (O.grow (fun k hk => .inr hk) ?_)
    exact O.passed h.1 (h.2 _ _ opened) cmd cur (why.imp_left And.right)
  | close opened cmd cur failed exhausted =>
    exact inv_put h (O.close h.1 (h.2 _ _ opened) cmd cur failed exhausted)
  | call opened cmd =>
    obtain ⟨mono, after⟩ := O.call h.1 (h.2 _ _ opened) cmd
    exact inv_put (passed _ mono) after
  | pass le => exact passed _ le
  | abort opened =>
    refine ⟨h.1, ?_⟩
    intro u y hy
    obtain ⟨hu, hy⟩ := Store.drop_txn hy
    rw [Store.held_drop_other hu]
    exact h.2 u y hy
  | commit opened cmd =>
    have after := O.commit h.1 (h.2 _ _ opened) cmd
    refine ⟨after, ?_⟩
    intro u y hy
    obtain ⟨hu, hy⟩ := Store.drop_txn hy
    change O.A ((s.drop _).held u) _ _ _
    rw [Store.held_drop_other hu]
    exact O.stable (h.2 u y hy) after le_rfl fun k hk => agree_other h opened hu hk

variable [DecidableEq ρ] [DecidableLE ε]

/-- An outline holds along every run of steps that it speaks of. -/
theorem sound {es : List (Event (Store σ ρ κ ω ε π) (Label ρ κ ε π))}
    (h : Run M.step s es s') (idle : ∀ t, s.txn t = none) (initial : O.I s.db s.env)
    (ok : ∀ e ∈ es, O.Ok e) : O.Inv s' := by
  refine h.guarded ok ⟨initial, ?_⟩ ?_
  · intro t x hx
    rw [idle t] at hx
    cases hx
  · intro u a v hu taken hok
    exact inv_moved hu (Machine.moved_of_step taken) hok

end Outline

end ReadCommitted
