import Mathlib.Data.List.Nodup
import Mathlib.Data.List.Basic

namespace Tables

/-- A table with a primary key. Two rows with one key cannot be built. -/
structure Table (ρ κ : Type) (key : ρ → κ) where
  rows : List ρ
  unique : (rows.map key).Nodup

namespace Table

variable {ρ κ : Type} [DecidableEq κ] {key : ρ → κ}

def empty : Table ρ κ key := ⟨[], List.nodup_nil⟩

def lookup (t : Table ρ κ key) (k : κ) : Option ρ := t.rows.find? fun r => key r = k

/-- Appends the row; a row whose key is taken is not inserted. -/
def insert (t : Table ρ κ key) (r : ρ) : Table ρ κ key :=
  if h : key r ∈ t.rows.map key then t
  else ⟨t.rows ++ [r], by simpa [List.nodup_append, t.unique] using h⟩

/-- `UPDATE ... SET f WHERE p`, for an assignment that leaves the key alone. -/
def update (t : Table ρ κ key) (p : ρ → Bool) (f : ρ → ρ) (hf : ∀ r, key (f r) = key r) :
    Table ρ κ key :=
  ⟨t.rows.map fun r => if p r then f r else r, by
    have he : (key ∘ fun r => if p r then f r else r) = key := by
      funext r
      by_cases h : p r <;> simp [h, hf]
    simpa [List.map_map, he] using t.unique⟩

def delete (t : Table ρ κ key) (p : ρ → Bool) : Table ρ κ key :=
  ⟨t.rows.filter fun r => !p r, t.unique.sublist (List.filter_sublist.map key)⟩

/-- The rows a statement with this WHERE clause affects. -/
def count (t : Table ρ κ key) (p : ρ → Bool) : Nat := (t.rows.filter p).length

omit [DecidableEq κ] in
theorem ext {t u : Table ρ κ key} (h : t.rows = u.rows) : t = u := by
  cases t; cases u; cases h; rfl

theorem lookup_mem {t : Table ρ κ key} (h : t.lookup k = some r) : r ∈ t.rows :=
  List.mem_of_find?_eq_some h

theorem lookup_key {t : Table ρ κ key} (h : t.lookup k = some r) : key r = k := by
  simpa using List.find?_some h

/-- The primary key makes lookup exact. -/
theorem lookup_of_mem {t : Table ρ κ key} (h : r ∈ t.rows) : t.lookup (key r) = some r := by
  obtain ⟨rows, unique⟩ := t
  simp only [lookup] at h ⊢
  induction rows with
  | nil => cases h
  | cons q qs ih =>
    simp only [List.map_cons, List.nodup_cons] at unique
    rcases List.mem_cons.mp h with rfl | hm
    · simp
    · have hne : key q ≠ key r := fun he => unique.1 (he ▸ List.mem_map_of_mem hm)
      simpa [List.find?_cons, hne] using ih unique.2 hm

theorem lookup_eq_some {t : Table ρ κ key} : t.lookup k = some r ↔ r ∈ t.rows ∧ key r = k :=
  ⟨fun h => ⟨lookup_mem h, lookup_key h⟩, fun ⟨hm, hk⟩ => hk ▸ lookup_of_mem hm⟩

theorem lookup_eq_none {t : Table ρ κ key} : t.lookup k = none ↔ ∀ r ∈ t.rows, key r ≠ k := by
  simp [lookup]

theorem lookup_isSome_of_mem {t : Table ρ κ key} (h : r ∈ t.rows) :
    (t.lookup (key r)).isSome := by
  simp [lookup_of_mem h]

theorem mem_keys {t : Table ρ κ key} {k : κ} : k ∈ t.rows.map key ↔ (t.lookup k).isSome := by
  rw [Option.isSome_iff_exists]
  constructor
  · intro h
    obtain ⟨r, hm, rfl⟩ := List.mem_map.mp h
    exact ⟨r, lookup_of_mem hm⟩
  · rintro ⟨r, h⟩
    exact List.mem_map.mpr ⟨r, lookup_mem h, lookup_key h⟩

theorem insert_rows {t : Table ρ κ key} (h : t.lookup (key r) = none) :
    (t.insert r).rows = t.rows ++ [r] := by
  have hk : key r ∉ t.rows.map key := by rw [mem_keys, h]; simp
  simp only [insert, hk, ↓reduceDIte]

theorem insert_of_taken {t : Table ρ κ key} (h : (t.lookup (key r)).isSome) :
    t.insert r = t := by
  have hk : key r ∈ t.rows.map key := mem_keys.mpr h
  simp only [insert, hk, ↓reduceDIte]

theorem lookup_insert (t : Table ρ κ key) (r : ρ) (k : κ) :
    (t.insert r).lookup k = if key r = k then some ((t.lookup k).getD r) else t.lookup k := by
  cases h : t.lookup (key r) with
  | none =>
    have hl : (t.insert r).lookup k = (t.rows ++ [r]).find? fun q => key q = k := by
      simp only [lookup, insert_rows h]
    rw [hl, List.find?_append]
    by_cases hk : key r = k
    · subst hk
      have hn : (t.rows.find? fun q => key q = key r) = none := h
      simp [hn, h]
    · simp [hk, lookup]
  | some q =>
    rw [insert_of_taken (by simp [h])]
    by_cases hk : key r = k
    · subst hk; simp [h]
    · simp [hk]

theorem lookup_update (t : Table ρ κ key) (p : ρ → Bool) (f : ρ → ρ) (hf : ∀ r, key (f r) = key r)
    (k : κ) : (t.update p f hf).lookup k =
      (t.lookup k).map fun r => if p r then f r else r := by
  simp only [lookup, update, List.find?_map]
  have he : ((fun r => decide (key r = k)) ∘ fun r => if p r then f r else r) =
      fun r => decide (key r = k) := by
    funext r
    by_cases h : p r <;> simp [h, hf]
  rw [he]

theorem lookup_delete (t : Table ρ κ key) (p : ρ → Bool) (k : κ) :
    (t.delete p).lookup k = (t.lookup k).filter fun r => !p r := by
  cases h : t.lookup k with
  | none =>
    rw [Option.filter_none, lookup_eq_none]
    intro r hr
    exact lookup_eq_none.mp h r (List.mem_of_mem_filter hr)
  | some q =>
    obtain ⟨hm, hk⟩ := lookup_eq_some.mp h
    by_cases hp : p q
    · rw [Option.filter_some]
      simp only [hp, Bool.not_true, Bool.false_eq_true, ↓reduceIte]
      rw [lookup_eq_none]
      intro r hr hrk
      obtain ⟨hrm, hrp⟩ := List.mem_filter.mp hr
      have he : r = q := Option.some.inj ((lookup_eq_some.mpr ⟨hrm, hrk⟩).symm.trans h)
      simp [he, hp] at hrp
    · simp only [Option.filter_some, hp, Bool.not_false, ↓reduceIte]
      exact lookup_eq_some.mpr ⟨List.mem_filter.mpr ⟨hm, by simp [hp]⟩, hk⟩

omit [DecidableEq κ] in
theorem count_eq_zero {t : Table ρ κ key} {p : ρ → Bool} :
    t.count p = 0 ↔ ∀ r ∈ t.rows, p r = false := by
  simp [count, List.filter_eq_nil_iff]

omit [DecidableEq κ] in
theorem count_congr {t : Table ρ κ key} {p q : ρ → Bool} (h : ∀ r ∈ t.rows, p r = q r) :
    t.count p = t.count q := by
  rw [count, count, List.filter_congr h]

omit [DecidableEq κ] in
/-- The rows of one clause are those of both, and those that the other misses. -/
theorem count_split (t : Table ρ κ key) (p q : ρ → Bool) :
    t.count p = t.count (fun r => p r && q r) + t.count (fun r => p r && !q r) := by
  simp only [count, ← List.countP_eq_length_filter]
  rw [List.countP_eq_countP_filter_add t.rows p q, List.countP_filter, List.countP_filter]

omit [DecidableEq κ] in
/-- Two clauses count alike when each misses as many rows of the other. -/
theorem count_eq_iff {t : Table ρ κ key} {p q : ρ → Bool} : t.count p = t.count q ↔
    t.count (fun r => p r && !q r) = t.count (fun r => q r && !p r) := by
  have both : t.count (fun r => p r && q r) = t.count (fun r => q r && p r) :=
    count_congr fun r _ => Bool.and_comm ..
  have left := t.count_split p q
  have right := t.count_split q p
  omega

/-- A WHERE clause that pins the key affects the looked-up row or nothing. -/
theorem count_pinned {t : Table ρ κ key} {p : ρ → Bool} {k : κ}
    (hp : ∀ r, p r = true → key r = k) :
    t.count p = 0 ↔ ∀ r, t.lookup k = some r → p r = false := by
  rw [count_eq_zero]
  constructor
  · intro h r hr
    exact h r (lookup_mem hr)
  · intro h r hm
    by_contra hc
    have ht : p r = true := by simpa using hc
    have := h r (lookup_eq_some.mpr ⟨hm, hp r ht⟩)
    simp [this] at ht

/-- Rows with one key: the looked-up row, alone. -/
theorem filter_key (t : Table ρ κ key) (k : κ) :
    t.rows.filter (fun r => key r = k) = (t.lookup k).toList := by
  obtain ⟨rows, unique⟩ := t
  simp only [lookup]
  induction rows with
  | nil => rfl
  | cons q qs ih =>
    simp only [List.map_cons, List.nodup_cons] at unique
    by_cases hq : key q = k
    · have hn : qs.filter (fun r => decide (key r = k)) = [] := by
        simp only [List.filter_eq_nil_iff, decide_eq_true_eq]
        rintro r hr rfl
        exact unique.1 (hq ▸ List.mem_map_of_mem hr)
      simp [hq, hn]
    · simpa [List.filter_cons, hq] using ih unique.2

omit [DecidableEq κ] in
theorem update_eq_self {t : Table ρ κ key} {p : ρ → Bool} {f : ρ → ρ}
    {hf : ∀ r, key (f r) = key r} (h : ∀ r ∈ t.rows, p r = false) : t.update p f hf = t := by
  apply ext
  simp only [update]
  conv_rhs => rw [← List.map_id t.rows]
  exact List.map_congr_left fun r hr => by simp [h r hr]

omit [DecidableEq κ] in
theorem delete_eq_self {t : Table ρ κ key} {p : ρ → Bool} (h : ∀ r ∈ t.rows, p r = false) :
    t.delete p = t := by
  apply ext
  simp only [delete, List.filter_eq_self]
  intro r hr
  simp [h r hr]

omit [DecidableEq κ] in
theorem update_congr {t : Table ρ κ key} {p q : ρ → Bool} {f : ρ → ρ}
    (hf : ∀ r, key (f r) = key r) (h : ∀ r ∈ t.rows, p r = q r) :
    t.update p f hf = t.update q f hf := by
  apply ext
  apply List.map_congr_left
  intro r hr
  rw [h r hr]

omit [DecidableEq κ] in
theorem delete_congr {t : Table ρ κ key} {p q : ρ → Bool} (h : ∀ r ∈ t.rows, p r = q r) :
    t.delete p = t.delete q := by
  apply ext
  apply List.filter_congr
  intro r hr
  rw [h r hr]

/-- The key of a row is among those that a WHERE clause selects if the row is. -/
theorem key_selected {t : Table ρ κ key} {p : ρ → Bool} {r : ρ} (hr : r ∈ t.rows) :
    decide (key r ∈ (t.rows.filter p).map key) = p r := by
  cases hp : p r with
  | true => exact decide_eq_true (List.mem_map_of_mem (List.mem_filter.mpr ⟨hr, hp⟩))
  | false =>
    apply decide_eq_false
    intro hm
    obtain ⟨q, hq, hk⟩ := List.mem_map.mp hm
    obtain ⟨hq, hpq⟩ := List.mem_filter.mp hq
    have same : q = r := Option.some.inj ((lookup_of_mem hq).symm.trans (hk ▸ lookup_of_mem hr))
    rw [same, hp] at hpq
    cases hpq

theorem update_cons (t : Table ρ κ key) {f : ρ → ρ} (hf : ∀ r, key (f r) = key r) {k : κ}
    {ks : List κ} (hk : k ∉ ks) :
    (t.update (fun r => key r = k) f hf).update (fun r => decide (key r ∈ ks)) f hf =
      t.update (fun r => decide (key r ∈ k :: ks)) f hf := by
  apply ext
  simp only [update, List.map_map]
  apply List.map_congr_left
  intro r _
  simp only [Function.comp_apply, decide_eq_true_eq, List.mem_cons]
  by_cases first : key r = k
  · simp [first, hf, hk]
  · simp [first]

theorem delete_cons (t : Table ρ κ key) (k : κ) (ks : List κ) :
    (t.delete fun r => key r = k).delete (fun r => decide (key r ∈ ks)) =
      t.delete fun r => decide (key r ∈ k :: ks) := by
  apply ext
  simp only [delete, List.filter_filter]
  apply List.filter_congr
  intro r _
  simp only [List.mem_cons, Bool.decide_or, Bool.not_or]
  exact Bool.and_comm _ _

def map (t : Table ρ κ key) (f : ρ → ρ) (hf : ∀ r, key (f r) = key r) : Table ρ κ key :=
  ⟨t.rows.map f, by
    have he : key ∘ f = key := funext hf
    simpa [List.map_map, he] using t.unique⟩

/-- An UPDATE of one key that takes its row out of a selection. -/
theorem count_update {t : Table ρ κ key} {p : ρ → Bool} {f : ρ → ρ} (hf : ∀ q, key (f q) = key q)
    (hr : t.lookup k = some r) (hp : p r = true) (hn : p (f r) = false) :
    (t.update (fun q => key q = k) f hf).count p + 1 = t.count p := by
  let named := fun q => decide (key q = k)
  have parts : ∀ rows : List ρ, (rows.filter p).length =
      ((rows.filter named).filter p).length + ((rows.filter fun q => !named q).filter p).length := by
    intro rows
    simp only [← List.countP_eq_length_filter]
    exact List.countP_eq_countP_filter_add rows p named
  have before : t.rows.filter named = [r] := by
    simp only [named, filter_key, hr, Option.toList_some]
  have after : (t.update (fun q => key q = k) f hf).rows.filter named = [f r] := by
    simp [named, filter_key, lookup_update, hr, lookup_key hr]
  have others : (t.update (fun q => key q = k) f hf).rows.filter (fun q => !named q) =
      t.rows.filter fun q => !named q := by
    simp only [update, List.filter_map]
    have same : (fun q => !named q) ∘ (fun q => if decide (key q = k) = true then f q else q) =
        fun q => !named q := by
      funext q
      by_cases h : key q = k <;> simp [named, h, hf]
    rw [same]
    conv_rhs => rw [← List.map_id (t.rows.filter _)]
    apply List.map_congr_left
    intro q hq
    have other : ¬ key q = k := by simpa [named] using (List.mem_filter.mp hq).2
    simp [other]
  simp only [count]
  rw [parts t.rows, parts (t.update _ f hf).rows, before, after, others]
  simp [hp, hn]
  omega

section map

variable {f : ρ → ρ} {p : ρ → Bool} (t : Table ρ κ key) (hf : ∀ r, key (f r) = key r)

theorem lookup_map (k : κ) : (t.map f hf).lookup k = (t.lookup k).map f := by
  have he : (fun r => decide (key r = k)) ∘ f = fun r => decide (key r = k) := by
    funext r
    simp [hf]
  simp only [lookup, map, List.find?_map, he]

theorem insert_map (r : ρ) : (t.map f hf).insert (f r) = (t.insert r).map f hf := by
  cases h : t.lookup (key r) with
  | none =>
    have fresh : (t.map f hf).lookup (key (f r)) = none := by simp [lookup_map, hf, h]
    apply ext
    rw [insert_rows fresh]
    simp only [map, insert_rows h, List.map_append, List.map_cons, List.map_nil]
  | some q =>
    have taken : ((t.map f hf).lookup (key (f r))).isSome := by simp [lookup_map, hf, h]
    rw [insert_of_taken taken, insert_of_taken (by simp [h])]

omit [DecidableEq κ] in
theorem count_map (hp : ∀ r, p (f r) = p r) : (t.map f hf).count p = t.count p := by
  have he : p ∘ f = p := funext hp
  simp only [count, map, List.filter_map, he, List.length_map]

omit [DecidableEq κ] in
theorem delete_map (hp : ∀ r, p (f r) = p r) : (t.map f hf).delete p = (t.delete p).map f hf := by
  have he : (fun r => !p r) ∘ f = fun r => !p r := by
    funext r
    simp [hp]
  apply ext
  simp only [delete, map, List.filter_map, he]

omit [DecidableEq κ] in
/-- An UPDATE of the changed rows is a change of the updated rows. -/
theorem update_map {g g' : ρ → ρ} (hg : ∀ r, key (g r) = key r) (hg' : ∀ r, key (g' r) = key r)
    (hp : ∀ r, p (f r) = p r) (hgf : ∀ r, g (f r) = f (g' r)) :
    (t.map f hf).update p g hg = (t.update p g' hg').map f hf := by
  apply ext
  simp only [update, map, List.map_map]
  apply List.map_congr_left
  intro r _
  simp only [Function.comp_apply, hp, hgf]
  split <;> rfl

end map

end Table

end Tables
