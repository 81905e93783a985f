import Mathlib.Data.List.Basic

namespace Runs

/-- A transition function with labelled actions; `none` where the action is not
enabled. All nondeterminism sits in the choice of the action. -/
abbrev Step (σ α : Type) := σ → α → Option σ

structure Event (σ α : Type) where
  before : σ
  action : α
  after : σ

/-- A finite run, with the list of its steps in order. -/
inductive Run (step : Step σ α) (start : σ) : List (Event σ α) → σ → Prop where
  | nil : Run step start [] start
  | snoc (run : Run step start es s) (taken : step s a = some t) :
      Run step start (es ++ [⟨s, a, t⟩]) t

def Reachable (step : Step σ α) (start s : σ) : Prop := ∃ es, Run step start es s

variable {step : Step σ α} {start s t : σ} {es fs : List (Event σ α)}

theorem Reachable.refl : Reachable step start start := ⟨[], .nil⟩

theorem Run.append (h : Run step start es s) (h' : Run step s fs t) :
    Run step start (es ++ fs) t := by
  induction h' with
  | nil => simpa using h
  | snoc run taken ih => simpa only [List.append_assoc] using ih.snoc taken

theorem Reachable.trans {u : σ} (h : Reachable step start s) (h' : Reachable step s u) :
    Reachable step start u := by
  obtain ⟨es, hr⟩ := h
  obtain ⟨fs, hs⟩ := h'
  exact ⟨es ++ fs, hr.append hs⟩

theorem Reachable.snoc (h : Reachable step start s) (taken : step s a = some t) :
    Reachable step start t := by
  obtain ⟨es, hr⟩ := h
  exact ⟨_, hr.snoc taken⟩

/-- Each step of a run starts in a reached state and is a step of the system. -/
theorem Run.event (h : Run step start es s) (he : e ∈ es) :
    Reachable step start e.before ∧ step e.before e.action = some e.after := by
  induction h with
  | nil => cases he
  | snoc run taken ih =>
    rcases List.mem_append.mp he with he | he
    · exact ih he
    · cases List.mem_singleton.mp he
      exact ⟨⟨_, run⟩, taken⟩

theorem Run.event_after (h : Run step start es s) (he : e ∈ es) :
    Reachable step start e.after :=
  (h.event he).1.snoc (h.event he).2

/-- Induction over the runs whose steps all meet `Ok`: what the start has and
every such step keeps holds at the end. -/
theorem Run.guarded {Ok : Event σ α → Prop} {Inv : σ → Prop} (h : Run step start es s)
    (ok : ∀ e ∈ es, Ok e) (initial : Inv start)
    (preserved : ∀ s a t, Inv s → step s a = some t → Ok ⟨s, a, t⟩ → Inv t) : Inv s := by
  induction h with
  | nil => exact initial
  | snoc run taken ih =>
    refine preserved _ _ _ (ih fun e he => ok e (List.mem_append_left _ he)) taken ?_
    exact ok _ (List.mem_append_right _ (List.mem_singleton.mpr rfl))

/-- A run up to, at and after one of its steps. -/
theorem Run.at_split {pre post : List (Event σ α)} {e : Event σ α}
    (h : Run step start (pre ++ e :: post) s) :
    Run step start pre e.before ∧ step e.before e.action = some e.after ∧
      Run step e.after post s := by
  generalize whole : pre ++ e :: post = es at h
  induction h generalizing post with
  | nil => simp at whole
  | @snoc es s a t run taken ih =>
    rcases List.eq_nil_or_concat post with rfl | ⟨post, last, rfl⟩
    · obtain ⟨rfl, last⟩ := List.append_inj' whole rfl
      cases last
      exact ⟨run, taken, .nil⟩
    · rw [List.concat_eq_append, ← List.cons_append, ← List.append_assoc] at whole
      obtain ⟨rfl, same⟩ := List.append_inj' whole rfl
      cases same
      obtain ⟨before, here, after⟩ := ih rfl
      exact ⟨before, here, List.concat_eq_append ▸ after.snoc taken⟩

/-- Every step of a run starts in a state that the run has reached. -/
theorem Run.prefix_of_event (h : Run step start es s) (he : e ∈ es) :
    ∃ pre, Run step start pre e.before ∧ pre ⊆ es := by
  induction h with
  | nil => cases he
  | @snoc es s a t run taken ih =>
    rcases List.mem_append.mp he with he | he
    · obtain ⟨pre, hp, hs⟩ := ih he
      exact ⟨pre, hp, fun x hx => List.mem_append_left _ (hs hx)⟩
    · cases List.mem_singleton.mp he
      exact ⟨es, run, fun x hx => List.mem_append_left _ hx⟩

theorem Run.end_eq (h : Run step start es s) : s = start ∨ ∃ e ∈ es, e.after = s := by
  cases h with
  | nil => exact .inl rfl
  | snoc run taken => exact .inr ⟨_, List.mem_append_right _ List.mem_cons_self, rfl⟩

theorem Run.split (h : Run step start (es ++ fs) s) :
    ∃ t, Run step start es t ∧ Run step t fs s := by
  generalize whole : es ++ fs = gs at h
  induction h generalizing fs with
  | nil =>
    obtain ⟨rfl, rfl⟩ := List.append_eq_nil_iff.mp whole
    exact ⟨start, .nil, .nil⟩
  | @snoc gs s a t run taken ih =>
    rcases List.eq_nil_or_concat fs with rfl | ⟨fs, last, rfl⟩
    · rw [List.append_nil] at whole
      exact ⟨t, whole ▸ run.snoc taken, .nil⟩
    · rw [List.concat_eq_append, ← List.append_assoc] at whole
      obtain ⟨rfl, last⟩ := List.append_inj' whole rfl
      cases last
      obtain ⟨u, before, after⟩ := ih rfl
      exact ⟨u, before, List.concat_eq_append ▸ after.snoc taken⟩

theorem Run.head_before (h : Run step start es s) (he : e ∈ es.head?) : e.before = start := by
  induction h with
  | nil => cases he
  | @snoc es s a t run taken ih =>
    cases es with
    | nil =>
      cases he
      rcases run.end_eq with first | ⟨f, hf, _⟩
      · exact first
      · cases hf
    | cons f es => exact ih he

theorem Run.last_after (h : Run step start es s) (he : e ∈ es.getLast?) : e.after = s := by
  cases h with
  | nil => cases he
  | snoc run taken =>
    rw [List.getLast?_concat] at he
    cases he
    rfl

/-- What holds at the start and after each step holds before each step. -/
theorem Run.before_of_after {P : σ → Prop} (h : Run step start es s) (initial : P start)
    (after : ∀ e ∈ es, P e.after) : ∀ e ∈ es, P e.before := by
  intro e he
  obtain ⟨pre, hp, hs⟩ := h.prefix_of_event he
  rcases hp.end_eq with hb | ⟨f, hf, hb⟩
  · exact hb ▸ initial
  · exact hb ▸ after f (hs hf)

/-- The same induction, read off before and after each step of the run. -/
theorem Run.guarded_events {Ok : Event σ α → Prop} {Inv : σ → Prop}
    (h : Run step start es s) (ok : ∀ e ∈ es, Ok e) (initial : Inv start)
    (preserved : ∀ s a t, Inv s → step s a = some t → Ok ⟨s, a, t⟩ → Inv t) :
    ∀ e ∈ es, Inv e.before ∧ Inv e.after := by
  intro e he
  obtain ⟨pre, hp, hs⟩ := h.prefix_of_event he
  have hb : Inv e.before := hp.guarded (fun f hf => ok f (hs hf)) initial preserved
  exact ⟨hb, preserved _ _ _ hb (h.event he).2 (ok e he)⟩

/-- What holds at the start and is preserved by every step holds of every state reached. -/
theorem Reachable.invariant {Inv : σ → Prop} (h : Reachable step start s)
    (initial : Inv start) (preserved : ∀ s a t, Inv s → step s a = some t → Inv t) : Inv s := by
  obtain ⟨es, hr⟩ := h
  have ok : ∀ e ∈ es, (fun _ : Event σ α => True) e := fun _ _ => trivial
  exact hr.guarded ok initial (fun s a t hi hs _ => preserved s a t hi hs)

/-- An invariant whose step may use a second invariant of the reachable states. -/
theorem Reachable.invariant_with {Known Inv : σ → Prop} (h : Reachable step start s)
    (known : ∀ s, Reachable step start s → Known s) (initial : Inv start)
    (preserved : ∀ s a t, Known s → Inv s → step s a = some t → Inv t) : Inv s := by
  obtain ⟨es, hr⟩ := h
  induction hr with
  | nil => exact initial
  | snoc run taken ih => exact preserved _ _ _ (known _ ⟨_, run⟩) ih taken

/-- Where each step pays for what it does, from the potential of the state and what
is added to it there, the whole run pays for all of it. -/
theorem Run.potential {β : Type} (Φ : σ → Nat) {pays : Event σ α → Bool} {gains : Event σ α → List β}
    (h : Run step start es s)
    (paid : ∀ e ∈ es, Φ e.after + (pays e).toNat ≤ Φ e.before + (gains e).length) :
    Φ s + (es.filter pays).length ≤ Φ start + (es.flatMap gains).length := by
  induction h with
  | nil => exact Nat.le_refl _
  | @snoc es s a t run taken ih =>
    have before := ih fun e he => paid e (List.mem_append_left _ he)
    have now : Φ t + (pays ⟨s, a, t⟩).toNat ≤ Φ s + (gains ⟨s, a, t⟩).length :=
      paid ⟨s, a, t⟩ (List.mem_append_right _ (List.mem_singleton_self _))
    rw [List.filter_append, List.flatMap_append, List.length_append, List.length_append,
      List.flatMap_singleton]
    have last : ([⟨s, a, t⟩].filter pays).length = (pays ⟨s, a, t⟩).toNat := by
      cases hp : pays ⟨s, a, t⟩ <;> simp [hp]
    rw [last]
    omega

/-- The actions of a run say everything about it. -/
theorem Run.eq_of_actions (h : Run step start es s) (h' : Run step start fs t)
    (same : es.map Event.action = fs.map Event.action) : es = fs ∧ s = t := by
  induction h generalizing fs t with
  | nil =>
    cases h' with
    | nil => exact ⟨rfl, rfl⟩
    | snoc run taken => simp at same
  | snoc run taken ih =>
    cases h' with
    | nil => simp at same
    | snoc run' taken' =>
      simp only [List.map_append, List.map_cons, List.map_nil] at same
      obtain ⟨earlier, last⟩ := List.append_inj' same rfl
      obtain ⟨rfl, rfl⟩ := ih run' earlier
      cases last
      cases Option.some.inj (taken.symm.trans taken')
      exact ⟨rfl, rfl⟩

def Event.map (f : σ → τ) (g : α → β) (e : Event σ α) : Event τ β :=
  ⟨f e.before, g e.action, f e.after⟩

/-- A system whose steps are steps of another has the other's runs. -/
theorem Run.map {step' : Step τ β} {f : σ → τ} {g : α → β} (h : Run step start es s)
    (taken : ∀ s a t, step s a = some t → step' (f s) (g a) = some (f t)) :
    Run step' (f start) (es.map (Event.map f g)) (f s) := by
  induction h with
  | nil => exact .nil
  | snoc run hs ih =>
    rw [List.map_append]
    exact ih.snoc (taken _ _ _ hs)

def exec (step : Step σ α) (s : σ) : List α → Option σ
  | [] => some s
  | a :: rest => (step s a).bind fun t => exec step t rest

theorem reachable_of_exec (as : List α) (h : exec step s as = some t) : Reachable step s t := by
  induction as generalizing s with
  | nil => cases h; exact .refl
  | cons a rest ih =>
    obtain ⟨u, hu, ht⟩ := Option.bind_eq_some_iff.mp h
    exact (Reachable.refl.snoc hu).trans (ih ht)

/-- A check that an explicit run passes says that it ends, and in such a state. -/
theorem exec_any {as : List α} {p : σ → Bool} (h : (exec step s as).any p = true) :
    ∃ t, exec step s as = some t ∧ p t = true := by
  cases he : exec step s as with
  | none => simp [he] at h
  | some t => exact ⟨t, rfl, by simpa [he] using h⟩

/-- The steps of the explicit run, as far as they are enabled. -/
def trace (step : Step σ α) (s : σ) : List α → List (Event σ α)
  | [] => []
  | a :: rest => match step s a with
    | none => []
    | some t => ⟨s, a, t⟩ :: trace step t rest

theorem run_of_exec (as : List α) (h : exec step s as = some t) :
    Run step s (trace step s as) t := by
  induction as generalizing s with
  | nil => cases h; exact .nil
  | cons a rest ih =>
    obtain ⟨u, hu, ht⟩ := Option.bind_eq_some_iff.mp h
    simp only [trace, hu]
    exact (Run.nil.snoc hu).append (ih ht)

theorem trace_actions (as : List α) (h : exec step s as = some t) :
    (trace step s as).map Event.action = as := by
  induction as generalizing s with
  | nil => rfl
  | cons a rest ih =>
    obtain ⟨u, hu, ht⟩ := Option.bind_eq_some_iff.mp h
    simp only [trace, hu, List.map_cons, ih ht]

/-- A check of every step of a run, together with the steps before it. -/
def checkSteps (check : List (Event σ α) → Event σ α → Bool) :
    List (Event σ α) → List (Event σ α) → Bool
  | _, [] => true
  | pre, e :: rest => check pre e && checkSteps check (pre ++ [e]) rest

theorem checkSteps_split {check : List (Event σ α) → Event σ α → Bool} {before pre post : List (Event σ α)}
    {e : Event σ α} (h : checkSteps check before (pre ++ e :: post) = true) :
    check (before ++ pre) e = true := by
  induction pre generalizing before with
  | nil =>
    rw [List.append_nil]
    exact (Bool.and_eq_true_iff.mp h).1
  | cons f pre ih =>
    have rest := ih (Bool.and_eq_true_iff.mp h).2
    rwa [List.append_assoc] at rest

theorem trace_action_mem (as : List α) (h : exec step s as = some t) :
    ∀ e ∈ trace step s as, e.action ∈ as :=
  fun _ he => trace_actions as h ▸ List.mem_map_of_mem he

end Runs
