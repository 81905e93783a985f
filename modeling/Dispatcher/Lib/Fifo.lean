import Mathlib.Data.List.Basic

namespace Fifo

variable {κ α : Type} [DecidableEq κ] {k : κ} {q q' : List (κ × α)} {a : α}

/-- The messages of one channel, of all that are under way. -/
def on (k : κ) (q : List (κ × α)) : List α :=
  q.filterMap fun m => if m.1 = k then some m.2 else none

def take (k : κ) (q : List (κ × α)) : Option (α × List (κ × α)) :=
  (q.find? fun m => m.1 = k).map fun m => (m.2, q.eraseP fun m => m.1 = k)

@[simp] theorem on_append (k : κ) (q q' : List (κ × α)) : on k (q ++ q') = on k q ++ on k q' :=
  List.filterMap_append

theorem mem_on : a ∈ on k q ↔ (k, a) ∈ q := by
  simp only [on, List.mem_filterMap, Option.ite_none_right_eq_some, Option.some.injEq]
  constructor
  · rintro ⟨m, hm, rfl, rfl⟩
    exact hm
  · exact fun hm => ⟨(k, a), hm, rfl, rfl⟩

theorem on_eq_nil : on k q = [] ↔ ∀ m ∈ q, m.1 ≠ k := by
  rw [List.eq_nil_iff_forall_not_mem]
  constructor
  · intro h m hm hk
    exact h m.2 (mem_on.mpr (hk ▸ hm))
  · exact fun h a ha => h _ (mem_on.mp ha) rfl

/-- The message taken is the first of its channel. -/
theorem take_split (h : take k q = some (a, q')) :
    ∃ before after, q = before ++ (k, a) :: after ∧ q' = before ++ after ∧
      ∀ m ∈ before, m.1 ≠ k := by
  obtain ⟨m, hm, heq⟩ := Option.map_eq_some_iff.mp h
  obtain ⟨hk, before, after, rfl, first⟩ := List.find?_eq_some_iff_append.mp hm
  have hk : m.1 = k := of_decide_eq_true hk
  have first : ∀ m ∈ before, m.1 ≠ k := fun m hm => by simpa using first m hm
  cases heq
  refine ⟨before, after, by rw [← hk], ?_, first⟩
  rw [List.eraseP_append_right _ fun m hm => by simpa using first m hm]
  simp [hk]

theorem take_on (h : take k q = some (a, q')) : on k q = a :: on k q' := by
  obtain ⟨before, after, rfl, rfl, first⟩ := take_split h
  have none : on k before = [] := on_eq_nil.mpr first
  rw [on_append, on_append, none]
  simp [on]

theorem take_other (h : take k q = some (a, q')) {k' : κ} (other : k' ≠ k) :
    on k' q' = on k' q := by
  obtain ⟨before, after, rfl, rfl, _⟩ := take_split h
  simp [on, other.symm]

/-- A message on a channel that is empty is its next one. -/
theorem take_last (empty : ∀ m ∈ q, m.1 ≠ k) (a : α) : take k (q ++ [(k, a)]) = some (a, q) := by
  have none : q.find? (fun m => m.1 = k) = none :=
    List.find?_eq_none.mpr fun m hm => by simp [empty m hm]
  have kept : (q ++ [(k, a)]).eraseP (fun m => m.1 = k) = q := by
    rw [List.eraseP_append_right _ fun m hm => by simp [empty m hm]]
    simp
  simp [take, none, kept]

theorem take_sublist (h : take k q = some (a, q')) : q'.Sublist q := by
  obtain ⟨before, after, rfl, rfl, _⟩ := take_split h
  exact (List.sublist_cons_self _ _).append_left before

end Fifo
