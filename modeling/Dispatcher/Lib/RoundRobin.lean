import Mathlib.Algebra.Order.BigOperators.Group.List
import Mathlib.Algebra.Order.Group.Nat
import Mathlib.Algebra.GroupWithZero.Nat
import Mathlib.Logic.Function.Basic

namespace RoundRobin

/-- Items still in a queue, and what each worker has been given of it. -/
structure Deal (ω : Type) where
  queue : Nat
  given : ω → Nat

/-- How a pass over the workers ends: the queue ran empty, or with the news of
whether any worker was given an item. -/
inductive Pass where
  | returned
  | done (anyGiven : Bool)
  deriving DecidableEq

variable {ω : Type} [DecidableEq ω] (free : ω → Nat)

def Deal.give (s : Deal ω) (w : ω) (queue : Nat) : Deal ω :=
  ⟨queue, Function.update s.given w (s.given w + 1)⟩

/-- One item for each worker with a slot left. -/
def pass : List ω → Bool → Deal ω → Pass × Deal ω
  | [], anyGiven, s => (.done anyGiven, s)
  | w :: rest, anyGiven, s =>
    if free w ≤ s.given w then pass rest anyGiven s
    else match s.queue with
      | 0 => (.returned, s)
      | queue + 1 => pass rest true (s.give w queue)

/-- Passes until one gives nothing or the queue is empty; `none` when the fuel runs out. -/
def deal (workers : List ω) : Nat → Deal ω → Option (Deal ω)
  | 0, _ => none
  | fuel + 1, s => match pass free workers false s with
    | (.returned, s) => some s
    | (.done true, s) => deal workers fuel s
    | (.done false, s) => some s

/-- After `k` rounds: the workers of `ahead` have their share of the next as well. -/
structure Round (k : Nat) (ahead behind : List ω) (s : Deal ω) : Prop where
  ahead : ∀ w ∈ ahead, s.given w = min (free w) (k + 1)
  behind : ∀ w ∈ behind, s.given w = min (free w) k

variable {free} {workers : List ω}

omit [DecidableEq ω] in
theorem Round.next {k : Nat} {s : Deal ω} (h : Round free k workers [] s) :
    Round free (k + 1) [] workers s :=
  ⟨fun _ hw => absurd hw List.not_mem_nil, h.ahead⟩

omit [DecidableEq ω] in
/-- A worker without a free slot has its share of the round already. -/
theorem Round.skip {k : Nat} {ahead rest : List ω} {w : ω} {s : Deal ω}
    (h : Round free k ahead (w :: rest) s) (full : free w ≤ s.given w) :
    Round free k (ahead ++ [w]) rest s := by
  refine ⟨?_, fun v hv => h.behind v (List.mem_cons_of_mem _ hv)⟩
  intro v hv
  rcases List.mem_append.mp hv with hv | hv
  · exact h.ahead v hv
  · have hw := h.behind w List.mem_cons_self
    rw [List.mem_singleton.mp hv]
    omega

/-- The next worker gets its share of the round. -/
theorem Round.give {k : Nat} {ahead rest : List ω} {w : ω} {s : Deal ω}
    (h : Round free k ahead (w :: rest) s) (nodup : (ahead ++ w :: rest).Nodup)
    (room : ¬ free w ≤ s.given w) (queue : Nat) :
    Round free k (ahead ++ [w]) rest (s.give w queue) := by
  obtain ⟨_, tail, apart⟩ := List.nodup_append.mp nodup
  have hw := h.behind w List.mem_cons_self
  constructor
  · intro v hv
    rcases List.mem_append.mp hv with hv | hv
    · have other : v ≠ w := apart v hv w List.mem_cons_self
      simpa [Deal.give, Function.update_of_ne other] using h.ahead v hv
    · rw [List.mem_singleton.mp hv]
      simp only [Deal.give, Function.update_self]
      omega
  · intro v hv
    have other : v ≠ w := by
      rintro rfl
      exact (List.nodup_cons.mp tail).1 hv
    simpa [Deal.give, Function.update_of_ne other] using h.behind v (List.mem_cons_of_mem _ hv)

/-- How a pass that starts from the deal `s₀` of round `k` ends. -/
inductive PassEnds (free : ω → Nat) (workers : List ω) (k : Nat) (s₀ : Deal ω) :
    Pass → Deal ω → Prop where
  | returned (split : ahead ++ behind = workers) (round : Round free k ahead behind s)
      (empty : s.queue = 0) : PassEnds free workers k s₀ .returned s
  | progress (round : Round free (k + 1) [] workers s) (fewer : s.queue < s₀.queue) :
      PassEnds free workers k s₀ (.done true) s
  | idle (round : Round free (k + 1) [] workers s) (full : ∀ w ∈ workers, s.given w = free w) :
      PassEnds free workers k s₀ (.done false) s

/-- What a pass has done when it comes to the workers of `rest`. -/
structure PassAt (free : ω → Nat) (k : Nat) (s₀ : Deal ω) (ahead rest : List ω) (anyGiven : Bool)
    (s : Deal ω) : Prop where
  round : Round free k ahead rest s
  fewer : anyGiven = true → s.queue < s₀.queue
  full : anyGiven = false → ∀ w ∈ ahead, s.given w = free w
  queue : s.queue ≤ s₀.queue

/-- A pass that has come this far ends as a pass of the round does. -/
theorem pass_ends {k : Nat} {s₀ s : Deal ω} {ahead rest : List ω} {anyGiven : Bool}
    (h : PassAt free k s₀ ahead rest anyGiven s) (nodup : (ahead ++ rest).Nodup) :
    PassEnds free (ahead ++ rest) k s₀ (pass free rest anyGiven s).1
      (pass free rest anyGiven s).2 := by
  induction rest generalizing ahead anyGiven s with
  | nil =>
    rw [List.append_nil]
    cases anyGiven with
    | true => exact .progress h.round.next (h.fewer rfl)
    | false => exact .idle h.round.next (h.full rfl)
  | cons w rest ih =>
    have split : ahead ++ w :: rest = ahead ++ [w] ++ rest := by simp
    unfold pass
    split
    · rename_i full
      rw [split] at nodup ⊢
      refine ih ⟨h.round.skip full, h.fewer, ?_, h.queue⟩ nodup
      intro none v hv
      rcases List.mem_append.mp hv with hv | hv
      · exact h.full none v hv
      · have hw := h.round.behind w List.mem_cons_self
        rw [List.mem_singleton.mp hv]
        omega
    · rename_i room
      cases hq : s.queue with
      | zero => exact .returned rfl h.round hq
      | succ queue =>
        have given := h.round.give nodup room queue
        have fewer : queue < s₀.queue := by
          have before := h.queue
          omega
        rw [split] at nodup ⊢
        exact ih ⟨given, fun _ => fewer, fun none => absurd none.symm Bool.false_ne_true,
          Nat.le_of_lt fewer⟩ nodup

/-- Every item that leaves the queue goes to one of the workers. -/
def Deal.total (workers : List ω) (s : Deal ω) : Nat := s.queue + (workers.map s.given).sum

theorem sum_update {workers : List ω} (nodup : workers.Nodup) {w : ω} (hw : w ∈ workers)
    (given : ω → Nat) : (workers.map (Function.update given w (given w + 1))).sum =
      (workers.map given).sum + 1 := by
  induction workers with
  | nil => cases hw
  | cons v rest ih =>
    obtain ⟨fresh, nodup⟩ := List.nodup_cons.mp nodup
    by_cases same : v = w
    · subst same
      have others : rest.map (Function.update given v (given v + 1)) = rest.map given := by
        apply List.map_congr_left
        intro u hu
        have other : u ≠ v := fun h => fresh (h ▸ hu)
        exact Function.update_of_ne other _ _
      simp only [List.map_cons, List.sum_cons, others, Function.update_self]
      omega
    · have hw : w ∈ rest := (List.mem_cons.mp hw).resolve_left (Ne.symm same)
      simp only [List.map_cons, List.sum_cons, ih nodup hw, Function.update_of_ne same]
      omega

theorem pass_total {rest : List ω} (nodup : workers.Nodup) (within : rest ⊆ workers)
    (anyGiven : Bool) (s : Deal ω) :
    (pass free rest anyGiven s).2.total workers = s.total workers := by
  induction rest generalizing anyGiven s with
  | nil => rfl
  | cons w rest ih =>
    obtain ⟨hw, within⟩ := List.cons_subset.mp within
    unfold pass
    split
    · exact ih within anyGiven s
    · cases hq : s.queue with
      | zero => rfl
      | succ queue =>
        have sum := sum_update nodup hw s.given
        have given : (s.give w queue).total workers = s.total workers := by
          simp only [Deal.total, Deal.give, hq]
          omega
        exact (ih within true _).trans given

/-- A finished deal of a queue among workers: as many items as there were or as there
was room for, in rounds, of which the last may have served only the first workers. -/
structure Dealt (free : ω → Nat) (workers : List ω) (queue : Nat) (s : Deal ω) : Prop where
  count : (workers.map s.given).sum = min queue (workers.map free).sum
  left : s.queue + (workers.map s.given).sum = queue
  rounds : ∃ k ahead behind, ahead ++ behind = workers ∧ Round free k ahead behind s
  filled : s.queue = 0 ∨ ∀ w ∈ workers, s.given w = free w

omit [DecidableEq ω] in
theorem Round.le {k : Nat} {ahead behind : List ω} {s : Deal ω} (h : Round free k ahead behind s) :
    ∀ w ∈ ahead ++ behind, s.given w ≤ free w := by
  intro w hw
  rcases List.mem_append.mp hw with hw | hw
  · exact h.ahead w hw ▸ Nat.min_le_left _ _
  · exact h.behind w hw ▸ Nat.min_le_left _ _

omit [DecidableEq ω] in
/-- A round after which nothing can be given is the last. -/
theorem dealt_of_round {k queue : Nat} {ahead behind : List ω} {s : Deal ω}
    (round : Round free k ahead behind s) (split : ahead ++ behind = workers)
    (total : s.total workers = queue)
    (filled : s.queue = 0 ∨ ∀ w ∈ workers, s.given w = free w) :
    Dealt free workers queue s := by
  refine ⟨?_, total, ⟨k, ahead, behind, split, round⟩, filled⟩
  have bounded : (workers.map s.given).sum ≤ (workers.map free).sum :=
    List.sum_le_sum fun w hw => round.le w (split ▸ hw)
  unfold Deal.total at total
  rcases filled with empty | full
  · omega
  · have same : workers.map s.given = workers.map free := List.map_congr_left full
    rw [same] at total ⊢
    omega

/-- With more fuel than the queue is long, dealing ends. -/
theorem deal_dealt {k queue : Nat} {s : Deal ω} (nodup : workers.Nodup)
    (round : Round free k [] workers s) (total : s.total workers = queue) :
    ∃ s', Dealt free workers queue s' ∧
      ∀ fuel, s.queue < fuel → deal free workers fuel s = some s' := by
  induction hq : s.queue using Nat.strongRecOn generalizing k s with
  | ind n ih =>
    have start : PassAt free k s [] workers false s :=
      ⟨round, fun h => absurd h Bool.false_ne_true, fun _ _ hw => absurd hw List.not_mem_nil,
        Nat.le_refl _⟩
    have ends := pass_ends start nodup
    have kept : (pass free workers false s).2.total workers = queue :=
      (pass_total nodup (List.Subset.refl workers) false s).trans total
    rw [List.nil_append] at ends
    have unfolded : ∀ fuel, n < fuel → ∃ rest, fuel = rest + 1 ∧
        deal free workers fuel s = match pass free workers false s with
          | (.returned, s) => some s
          | (.done true, s) => deal free workers rest s
          | (.done false, s) => some s := by
      intro fuel hf
      obtain ⟨rest, rfl⟩ := Nat.exists_eq_add_one_of_ne_zero (Nat.ne_of_gt (Nat.zero_lt_of_lt hf))
      exact ⟨rest, rfl, rfl⟩
    generalize pass free workers false s = p at ends kept unfolded
    obtain ⟨p, s'⟩ := p
    cases ends with
    | returned split round empty =>
      refine ⟨s', dealt_of_round round split kept (.inl empty), ?_⟩
      intro fuel hf
      obtain ⟨rest, _, he⟩ := unfolded fuel hf
      exact he
    | progress round fewer =>
      obtain ⟨s'', dealt, ended⟩ := ih s'.queue (hq ▸ fewer) round kept rfl
      refine ⟨s'', dealt, ?_⟩
      intro fuel hf
      obtain ⟨rest, rfl, he⟩ := unfolded fuel hf
      refine he.trans (ended rest ?_)
      dsimp only at fewer
      omega
    | idle round full =>
      refine ⟨s', dealt_of_round round (List.nil_append _) kept (.inr full), ?_⟩
      intro fuel hf
      obtain ⟨rest, _, he⟩ := unfolded fuel hf
      exact he

end RoundRobin
