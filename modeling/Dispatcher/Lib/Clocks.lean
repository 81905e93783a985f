import Dispatcher.Lib.Runs

namespace Clocks
open Runs

/-- A state, and what the clock shows. -/
structure Timed (σ : Type) where
  state : σ
  clock : Nat

structure At (α : Type) where
  action : α
  clock : Nat

/-- A system under a clock that never goes back. `reads a before after` says that
what `a` reads of the clock fits a step from `before` to `after`. -/
def timed (step : Step σ α) (reads : α → Nat → Nat → Bool) : Step (Timed σ) (At α) := fun s a =>
  if s.clock ≤ a.clock ∧ reads a.action s.clock a.clock = true then
    (step s.state a.action).map fun t => ⟨t, a.clock⟩
  else none

variable {step : Step σ α} {reads : α → Nat → Nat → Bool} {s t : Timed σ}

/-- A step under the clock is a step, with readings that fit. -/
theorem timed_step {a : At α} (h : timed step reads s a = some t) :
    step s.state a.action = some t.state ∧ s.clock ≤ t.clock ∧
      reads a.action s.clock t.clock = true := by
  unfold timed at h
  split at h
  · rename_i fits
    obtain ⟨u, hu, rfl⟩ := Option.map_eq_some_iff.mp h
    exact ⟨hu, fits⟩
  · cases h

/-- A timed run, without its clock. -/
theorem run_untimed (h : Run (timed step reads) s es t) :
    Run step s.state (es.map (Event.map Timed.state At.action)) t.state :=
  h.map fun _ _ _ hs => (timed_step hs).1

theorem reachable_untimed (h : Reachable (timed step reads) s t) :
    Reachable step s.state t.state := by
  obtain ⟨es, hr⟩ := h
  exact ⟨_, run_untimed hr⟩

/-- The clock never goes back. -/
theorem clock_mono (h : Reachable (timed step reads) s t) : s.clock ≤ t.clock := by
  let Inv := fun u : Timed σ => s.clock ≤ u.clock
  have initial : Inv s := Nat.le_refl _
  have kept : ∀ u a u', Inv u → timed step reads u a = some u' → Inv u' :=
    fun u a u' before taken => Nat.le_trans before (timed_step taken).2.1
  exact h.invariant initial kept

/-- No step of a run is over after its end. -/
theorem run_clock (h : Run (timed step reads) s es t) : ∀ e ∈ es, e.after.clock ≤ t.clock := by
  intro e he
  obtain ⟨pre, post, rfl⟩ := List.append_of_mem he
  obtain ⟨_, _, rest⟩ := h.at_split
  exact clock_mono ⟨post, rest⟩

end Clocks
