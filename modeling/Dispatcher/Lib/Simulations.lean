import Dispatcher.Lib.Runs

namespace Runs

variable {step : Step σ α} {step' : Step τ β} {seen : Event σ α → List γ} {seen' : Event τ β → List γ}
  {R : σ → τ → Prop}

def visible (seen : Event σ α → List γ) (es : List (Event σ α)) : List γ := es.flatMap seen

@[simp] theorem visible_append (es fs : List (Event σ α)) :
    visible seen (es ++ fs) = visible seen es ++ visible seen fs :=
  List.flatMap_append

@[simp] theorem visible_singleton (e : Event σ α) : visible seen [e] = seen e :=
  List.append_nil _

theorem mem_visible {es : List (Event σ α)} {x : γ} : x ∈ visible seen es ↔ ∃ e ∈ es, x ∈ seen e :=
  List.mem_flatMap

/-- Each step of one system is matched by a run of another in which the same is seen. -/
def Simulates (step : Step σ α) (step' : Step τ β) (seen : Event σ α → List γ)
    (seen' : Event τ β → List γ) (R : σ → τ → Prop) : Prop :=
  ∀ s a t u, R s u → step s a = some t →
    ∃ es v, Run step' u es v ∧ visible seen' es = seen ⟨s, a, t⟩ ∧ R t v

/-- A matched step is matched by a single one. -/
theorem Run.one {u v : τ} {b : β} (taken : step' u b = some v) : Run step' u [⟨u, b, v⟩] v :=
  Run.nil.snoc taken

/-- What is matched now is matched in every later state, and all that is seen on the way. -/
theorem Simulates.run {s t : σ} {u : τ} {es : List (Event σ α)}
    (h : Simulates step step' seen seen' R) (run : Run step s es t) (here : R s u) :
    ∃ fs v, Run step' u fs v ∧ visible seen' fs = visible seen es ∧ R t v := by
  induction run with
  | nil => exact ⟨[], u, .nil, rfl, here⟩
  | @snoc es s a t run taken ih =>
    obtain ⟨fs, v, before, same, matched⟩ := ih
    obtain ⟨gs, w, more, now, matched⟩ := h s a t v matched taken
    refine ⟨fs ++ gs, w, before.append more, ?_, matched⟩
    rw [visible_append, visible_append, visible_singleton, same, now]

end Runs
