import Dispatcher.Lib.Runs

namespace Runs

variable {step : Step σ α} {ok ok' : Event σ α → Prop} {s t : σ} {P Q : σ → Prop}

/-- Some run of allowed steps ends where `Q` holds. -/
def Leads (step : Step σ α) (ok : Event σ α → Prop) (s : σ) (Q : σ → Prop) : Prop :=
  ∃ es t, Run step s es t ∧ (∀ e ∈ es, ok e) ∧ Q t

theorem Leads.here (h : Q s) : Leads step ok s Q :=
  ⟨[], s, .nil, fun _ he => (List.not_mem_nil he).elim, h⟩

theorem Leads.one {a : α} (taken : step s a = some t) (allowed : ok ⟨s, a, t⟩) (h : Q t) :
    Leads step ok s Q := by
  refine ⟨[⟨s, a, t⟩], t, Run.nil.snoc taken, fun e he => ?_, h⟩
  rw [List.mem_singleton.mp he]
  exact allowed

theorem Leads.trans (h : Leads step ok s P) (onward : ∀ t, P t → Leads step ok t Q) :
    Leads step ok s Q := by
  obtain ⟨es, t, run, allowed, here⟩ := h
  obtain ⟨fs, u, run', allowed', there⟩ := onward t here
  refine ⟨es ++ fs, u, run.append run', fun e he => ?_, there⟩
  rcases List.mem_append.mp he with he | he
  · exact allowed e he
  · exact allowed' e he

theorem Leads.mono (h : Leads step ok s P) (weaker : ∀ t, P t → Q t) : Leads step ok s Q :=
  h.trans fun t here => .here (weaker t here)

/-- What it leads to is reached from wherever the start is. -/
theorem Leads.reachable {start : σ} (h : Leads step ok s Q) (known : Reachable step start s) :
    Leads step ok s fun t => Reachable step start t ∧ Q t := by
  obtain ⟨es, t, run, allowed, there⟩ := h
  exact ⟨es, t, run, allowed, known.trans ⟨es, run⟩, there⟩

/-- Where each state with something left leads to one with less left, all leads to
one with nothing left. -/
theorem Leads.exhausts (left : σ → Nat)
    (less : ∀ s, P s → 0 < left s → Leads step ok s fun t => P t ∧ left t < left s) (h : P s) :
    Leads step ok s fun t => P t ∧ left t = 0 := by
  induction hn : left s using Nat.strongRecOn generalizing s with
  | ind n ih =>
    rcases Nat.eq_zero_or_pos n with rfl | more
    · exact .here ⟨h, hn⟩
    · refine (less s h (hn ▸ more)).trans fun t => ?_
      rintro ⟨here, lower⟩
      exact ih (left t) (hn ▸ lower) here rfl

end Runs
