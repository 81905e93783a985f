import Mathlib.Data.List.Pairwise
import Mathlib.Order.Basic

namespace Fencing

/-- The ledger of one resource handed out under fencing tokens: who was granted
it, who holds it, which results were accepted, and whether it may be granted again. -/
structure Ledger (ω τ ρ : Type) where
  grants : List (ω × τ)
  holder : Option (ω × τ)
  accepted : List ((ω × τ) × ρ)
  live : Bool

variable {ω τ ρ : Type} [Preorder τ]

/-- What may happen to the resource. Only the holder's result is accepted, and
an accepted result retires the resource. -/
inductive Step : Ledger ω τ ρ → Ledger ω τ ρ → Prop where
  | idle : Step l l
  | grant (live : l.live = true) (newer : ∀ g ∈ l.grants, g.2 < t) :
      Step l { l with grants := l.grants ++ [(w, t)], holder := some (w, t) }
  | revoke : Step l { l with holder := none }
  | accept (held : l.holder = some h) :
      Step l { l with holder := none, accepted := l.accepted ++ [(h, r)], live := false }
  | retire : Step l { l with holder := none, live := false }

structure Sound (l : Ledger ω τ ρ) : Prop where
  increasing : l.grants.Pairwise fun g g' => g.2 < g'.2
  held : ∀ h, l.holder = some h → l.live = true ∧ h ∈ l.grants ∧ ∀ g ∈ l.grants, g.2 ≤ h.2
  undecided : l.live = true → l.accepted = []
  once : l.accepted.length ≤ 1
  decided : ∀ a ∈ l.accepted, a.1 ∈ l.grants ∧ ∀ g ∈ l.grants, g.2 ≤ a.1.2

theorem Sound.fresh : Sound (⟨[], none, [], true⟩ : Ledger ω τ ρ) := by
  constructor <;> simp

theorem Sound.grant {l : Ledger ω τ ρ} {w : ω} {t : τ} (h : Sound l) (live : l.live = true)
    (newer : ∀ g ∈ l.grants, g.2 < t) :
    Sound { l with grants := l.grants ++ [(w, t)], holder := some (w, t) } := by
  have hn : l.accepted = [] := h.undecided live
  refine ⟨?_, ?_, h.undecided, h.once, by simp [hn]⟩
  · rw [List.pairwise_append]
    refine ⟨h.increasing, List.pairwise_singleton _ _, ?_⟩
    intro g hg g' hg'
    cases List.mem_singleton.mp hg'
    exact newer g hg
  · rintro _ ⟨⟩
    refine ⟨live, by simp, ?_⟩
    intro g hg
    rcases List.mem_append.mp hg with hg | hg
    · exact (newer g hg).le
    · cases List.mem_singleton.mp hg
      exact le_refl t

theorem Sound.accept {l : Ledger ω τ ρ} {h : ω × τ} {r : ρ} (hs : Sound l)
    (held : l.holder = some h) :
    Sound { l with holder := none, accepted := l.accepted ++ [(h, r)], live := false } := by
  obtain ⟨live, granted, newest⟩ := hs.held h held
  have hn : l.accepted = [] := hs.undecided live
  refine ⟨hs.increasing, by simp, by simp, by simp [hn], ?_⟩
  intro a ha
  simp only [hn, List.nil_append, List.mem_singleton] at ha
  subst ha
  exact ⟨granted, newest⟩

/-- Every step keeps the ledger sound. -/
theorem Sound.step {l l' : Ledger ω τ ρ} (h : Sound l) (hs : Step l l') : Sound l' := by
  cases hs with
  | idle => exact h
  | grant live newer => exact h.grant live newer
  | revoke => exact ⟨h.increasing, by simp, h.undecided, h.once, h.decided⟩
  | accept held => exact h.accept held
  | retire => exact ⟨h.increasing, by simp, by simp, h.once, h.decided⟩

/-- Whatever is accepted stays accepted. -/
theorem Step.keeps_accepted {l l' : Ledger ω τ ρ} (hs : Step l l') (ha : a ∈ l.accepted) :
    a ∈ l'.accepted := by
  cases hs with
  | accept held => exact List.mem_append_left _ ha
  | idle | grant | revoke | retire => exact ha

/-- A grant is never taken back. -/
theorem Step.keeps_grants {l l' : Ledger ω τ ρ} (hs : Step l l') (hg : g ∈ l.grants) :
    g ∈ l'.grants := by
  cases hs with
  | grant => exact List.mem_append_left _ hg
  | idle | revoke | accept | retire => exact hg

end Fencing
