import Mathlib.Data.List.Basic

namespace Walks

/-- The steps lead from `a` to `b`, each starting where the one before ended. -/
def IsWalk (a : α) : List (α × α) → α → Prop
  | [], b => a = b
  | (x, y) :: rest, b => x = a ∧ IsWalk y rest b

variable {a b c x y : α} {es fs : List (α × α)}

theorem isWalk_nil : IsWalk a [] b ↔ a = b := Iff.rfl

theorem isWalk_append : IsWalk a (es ++ fs) c ↔ ∃ b, IsWalk a es b ∧ IsWalk b fs c := by
  induction es generalizing a with
  | nil => simp [IsWalk]
  | cons e rest ih =>
    simp only [List.cons_append, IsWalk, ih]
    constructor
    · rintro ⟨hx, b, hb, hc⟩
      exact ⟨b, ⟨hx, hb⟩, hc⟩
    · rintro ⟨b, ⟨hx, hb⟩, hc⟩
      exact ⟨hx, b, hb, hc⟩

theorem isWalk_snoc : IsWalk a (es ++ [(x, y)]) c ↔ IsWalk a es x ∧ y = c := by
  simp only [isWalk_append, IsWalk]
  constructor
  · rintro ⟨b, hb, rfl, rfl⟩
    exact ⟨hb, rfl⟩
  · rintro ⟨hx, rfl⟩
    exact ⟨x, hx, rfl, rfl⟩

/-- A walk has one end. -/
theorem IsWalk.end_unique (h : IsWalk a es b) (h' : IsWalk a es c) : b = c := by
  induction es generalizing a with
  | nil => exact (isWalk_nil.mp h).symm.trans (isWalk_nil.mp h')
  | cons e rest ih => exact ih h.2 h'.2

end Walks
