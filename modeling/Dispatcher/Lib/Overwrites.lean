import Mathlib.Data.List.Basic

namespace Overwrites

/-- A write to a cell that may be empty: an `update` changes only what is there. -/
inductive Write (β : Type) where
  | put (b : β)
  | update (b : β)
  deriving DecidableEq

namespace Write

variable {β : Type}

def puts : Write β → Bool
  | put _ => true
  | update _ => false

def apply : Write β → Option β → Option β
  | put b, _ => some b
  | update b, cell => cell.map fun _ => b

theorem apply_isSome (w : Write β) (cell : Option β) :
    (w.apply cell).isSome = (cell.isSome || w.puts) := by
  cases w <;> simp [apply, puts]

/-- Of the cell a write sees only whether it is empty. -/
theorem apply_congr {w : Write β} {cell cell' : Option β}
    (h : cell.isSome = cell'.isSome ∨ w.puts = true) : w.apply cell = w.apply cell' := by
  cases w with
  | put b => rfl
  | update b =>
    rcases h with h | h
    · cases cell <;> cases cell' <;> simp_all [apply]
    · cases h

end Write

variable {β : Type} {cell : Option β} {w : Write β} {before after : List (Write β)}

/-- What the cell is to hold when the pending writes have taken effect, in the order
in which they were begun. -/
def settle (cell : Option β) (pending : List (Write β)) : Option β :=
  pending.foldl (fun cell w => w.apply cell) cell

theorem settle_snoc (cell : Option β) (pending : List (Write β)) (w : Write β) :
    settle cell (pending ++ [w]) = w.apply (settle cell pending) := by
  rw [settle, List.foldl_append]
  rfl

theorem settle_isSome (cell : Option β) (pending : List (Write β)) :
    (settle cell pending).isSome = (cell.isSome || pending.any Write.puts) := by
  induction pending generalizing cell with
  | nil => simp [settle]
  | cons w rest ih =>
    have step := ih (w.apply cell)
    rw [Write.apply_isSome] at step
    rw [List.any_cons, ← Bool.or_assoc, ← step]
    rfl

/-- A write may take effect as long as a later one is pending, and the last once it is
the only one. -/
theorem settle_performed (h : after ≠ [] ∨ before = []) :
    settle (w.apply cell) (before ++ after) = settle cell (before ++ w :: after) := by
  rcases h with later | rfl
  · obtain ⟨rest, last, rfl⟩ := (List.eq_nil_or_concat' after).resolve_left later
    rw [← List.append_assoc, settle_snoc, ← List.cons_append, ← List.append_assoc, settle_snoc]
    apply Write.apply_congr
    left
    rw [settle_isSome, settle_isSome, Write.apply_isSome]
    simp only [List.any_append, List.any_cons, Bool.or_assoc, Bool.or_left_comm]
  · rfl

/-- It may be lost as well, where no later write relies on it. -/
theorem settle_lost (later : after ≠ []) (order : w.puts = true → ∀ w' ∈ after, w'.puts = true) :
    settle cell (before ++ after) = settle cell (before ++ w :: after) := by
  obtain ⟨rest, last, rfl⟩ := (List.eq_nil_or_concat' after).resolve_left later
  rw [← List.append_assoc, settle_snoc, ← List.cons_append, ← List.append_assoc, settle_snoc]
  apply Write.apply_congr
  cases hw : w.puts with
  | true => exact .inr (order hw last (List.mem_append_right _ (List.mem_singleton_self last)))
  | false =>
    left
    rw [settle_isSome, settle_isSome]
    simp [hw]

/-- What an empty cell is to hold, a full one is. -/
theorem settle_of_empty {pending : List (Write β)} {b : β} (h : settle none pending = some b) :
    settle cell pending = some b := by
  induction pending generalizing cell with
  | nil => cases h
  | cons w rest ih =>
    cases w with
    | put => exact h
    | update => exact ih h

end Overwrites
