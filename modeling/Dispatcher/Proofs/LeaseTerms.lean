import Dispatcher.Model.Clocked
import Dispatcher.Proofs.CommitSafety
import Dispatcher.Proofs.Recoverable

namespace Dispatcher
open Tables Runs Clocks

/-- The terms in `LeaseHistory` are intervals, and those of one job come one after
the other in the order of their fences. -/
structure Db.TermsOrdered (db : Db) : Prop where
  formed : ∀ h ∈ db.leaseHistory, ∀ t, h.terminatedAtMs = some t → h.issuedAtMs ≤ t
  disjoint : ∀ a ∈ db.leaseHistory, ∀ b ∈ db.leaseHistory, a.jobId = b.jobId → a.fence < b.fence →
    ∃ t, a.terminatedAtMs = some t ∧ t ≤ b.issuedAtMs

/-- The `TerminatedAtMs` that an event writes. -/
def JobEvent.endsAt : JobEvent → Option Int
  | .accepted ctx _ _ _ | .requeued ctx | .failed ctx | .reaped ctx => some ctx.laterMs
  | .submitted .. | .dispatched .. | .discarded | .cancelled _ | .extended _ => none

/-- A transaction that ends a term runs when the clock, in milliseconds, has come
to what the row calls `IssuedAtMs`: the issue time in microseconds. -/
def EndsInTime (e : Event Clocked (At Action)) : Prop :=
  ∀ j x t, e.before.state.event e.action.action j = some x → x.endsAt = some t →
    ∀ h ∈ e.before.state.db.openHistoryOf j, h.issuedAtMs ≤ t

theorem endsAt_ctx {e : JobEvent} (h : e.endsAt = some t) :
    ∃ ctx, e.ctx = some ctx ∧ t = ctx.laterMs := by
  cases e <;> cases h <;> exact ⟨_, rfl, rfl⟩

/-- An event opens a term, or ends the open ones, or leaves the history alone. -/
theorem history_cases (e : JobEvent) (j : JobId) (v : JobView) :
    (∃ ctx w t, e = .dispatched ctx w t) ∨
    (∃ t, e.endsAt = some t ∧ (e.apply j v).history = v.terminate t) ∨
    (e.endsAt = none ∧ (e.apply j v).history = v.history) := by
  cases e with
  | dispatched ctx w t => exact .inl ⟨ctx, w, t, rfl⟩
  | accepted | requeued | failed | reaped => exact .inr (.inl ⟨_, rfl, rfl⟩)
  | submitted | discarded | cancelled | extended => exact .inr (.inr ⟨rfl, rfl⟩)

/-- A row that goes through a termination keeps its issue, and its end if it has one. -/
theorem mem_terminate {v : JobView} {atMs : Int} {h' : LeaseHistory} (hm : h' ∈ v.terminate atMs) :
    ∃ h ∈ v.history, h'.fence = h.fence ∧ h'.issuedAtMs = h.issuedAtMs ∧
      (h.terminatedAtMs = none ∧ h'.terminatedAtMs = some atMs ∨
        h.terminatedAtMs.isSome ∧ h'.terminatedAtMs = h.terminatedAtMs) := by
  obtain ⟨h, hh, rfl⟩ := List.mem_map.mp hm
  refine ⟨h, hh, ?_⟩
  cases ht : h.terminatedAtMs <;> simp [LeaseHistory.terminate, ht]

def LeaseHistory.Before (a b : LeaseHistory) : Prop :=
  a.fence < b.fence ∧ ∃ t, a.terminatedAtMs = some t ∧ t ≤ b.issuedAtMs

/-- The terms of a job in a run from one clock reading to another: in order, none
issued before the run, none ended after it. -/
structure Terms (start clock : Nat) (v : JobView) : Prop where
  ordered : v.history.Pairwise LeaseHistory.Before
  issued : ∀ h ∈ v.history, (start : Int) ≤ h.issuedAtMs
  ended : ∀ h ∈ v.history, ∀ t, h.terminatedAtMs = some t → t ≤ ((clock / 1000 : Nat) : Int)

section events

variable {n start before after : Nat} {v : JobView} {j : JobId} {e : JobEvent}

theorem Terms.later (h : Terms start before v) (forward : before ≤ after) : Terms start after v := by
  refine ⟨h.ordered, h.issued, ?_⟩
  intro q hq t ht
  have mono : before / 1000 ≤ after / 1000 := Nat.div_le_div_right forward
  have ended := h.ended q hq t ht
  omega

theorem terminate_ordered (h : v.history.Pairwise LeaseHistory.Before) (atMs : Int) :
    (v.terminate atMs).Pairwise LeaseHistory.Before := by
  refine List.pairwise_map.mpr (h.imp ?_)
  rintro a b ⟨newer, t, ht, hi⟩
  have closed : a.terminate (fun _ => true) atMs = a := by simp [LeaseHistory.terminate, ht]
  have issue : (b.terminate (fun _ => true) atMs).issuedAtMs = b.issuedAtMs := by
    unfold LeaseHistory.terminate
    split <;> rfl
  rw [closed]
  refine ⟨?_, t, ht, ?_⟩
  · rw [(LeaseHistory.terminate_grant _ _ b).2]
    exact newer
  · rw [issue]
    exact hi

/-- A new term starts after every earlier one of the job has ended. -/
theorem dispatched_terms (hc : Consistent n v) (hp : v.status = some .pending) (ht : n < token)
    (h : Terms start before v) (since : start ≤ before) (forward : before ≤ after) {ctx : Ctx}
    {workerId : WorkerId} (now : (before : Int) ≤ ctx.pgClockUs) :
    Terms start after ((JobEvent.dispatched ctx workerId token).apply j v) := by
  have kept := h.later forward
  have closed : ∀ q ∈ v.history, q.terminatedAtMs.isSome := by
    intro q hq
    have hopen := List.filter_eq_nil_iff.mp (hc.pending hp).2 q hq
    cases hs : q.terminatedAtMs with
    | none => simp [hs] at hopen
    | some t => rfl
  refine ⟨List.pairwise_append.mpr ⟨h.ordered, List.pairwise_singleton _ _, ?_⟩, ?_, ?_⟩
  · intro a ha b hb
    cases List.mem_singleton.mp hb
    obtain ⟨t, hs⟩ := Option.isSome_iff_exists.mp (closed a ha)
    have fence := hc.fences a ha
    have ended := h.ended a ha t hs
    exact ⟨Nat.lt_of_le_of_lt fence ht, t, hs, by simp only; omega⟩
  · intro q hq
    rcases List.mem_append.mp hq with hq | hq
    · exact h.issued q hq
    · cases List.mem_singleton.mp hq
      simp only
      omega
  · intro q hq t hs
    rcases List.mem_append.mp hq with hq | hq
    · exact kept.ended q hq t hs
    · cases List.mem_singleton.mp hq
      cases hs

/-- One event keeps the terms in order, where the clock goes on. -/
theorem apply_terms (hc : Consistent n v) (he : e.Enabled n v) (h : Terms start before v)
    (since : start ≤ before) (forward : before ≤ after)
    (now : ∀ ctx, e.ctx = some ctx → (before : Int) ≤ ctx.pgClockUs)
    (ends : ∀ t, e.endsAt = some t → t ≤ ((after / 1000 : Nat) : Int)) :
    Terms start after (e.apply j v) := by
  have kept := h.later forward
  rcases history_cases e j v with ⟨ctx, w, t, rfl⟩ | ⟨t, ht, hh⟩ | ⟨_, hh⟩
  · exact dispatched_terms hc he.1 he.2.2 h since forward (now ctx rfl)
  · constructor
    · rw [hh]
      exact terminate_ordered h.ordered t
    · intro q hq
      rw [hh] at hq
      obtain ⟨p, hp, _, hi, _⟩ := mem_terminate hq
      rw [hi]
      exact h.issued p hp
    · intro q hq u hu
      rw [hh] at hq
      obtain ⟨p, hp, _, _, ⟨_, hn⟩ | ⟨_, hs⟩⟩ := mem_terminate hq
      · rw [hn, Option.some.injEq] at hu
        subst hu
        exact ends t ht
      · exact kept.ended p hp u (hs ▸ hu)
  · exact ⟨hh ▸ kept.ordered, hh ▸ kept.issued, hh ▸ kept.ended⟩

def JobView.Formed (v : JobView) : Prop :=
  ∀ h ∈ v.history, ∀ t, h.terminatedAtMs = some t → h.issuedAtMs ≤ t

theorem apply_formed (h : v.Formed)
    (inTime : ∀ t, e.endsAt = some t → ∀ q ∈ v.openRows, q.issuedAtMs ≤ t) :
    (e.apply j v).Formed := by
  intro q hq u hu
  rcases history_cases e j v with ⟨ctx, w, t, rfl⟩ | ⟨t, ht, hh⟩ | ⟨_, hh⟩
  · rcases List.mem_append.mp hq with hq | hq
    · exact h q hq u hu
    · cases List.mem_singleton.mp hq
      cases hu
  · rw [hh] at hq
    obtain ⟨p, hp, _, hi, ⟨hn, ht'⟩ | ⟨_, hs⟩⟩ := mem_terminate hq
    · rw [ht', Option.some.injEq] at hu
      subst hu
      rw [hi]
      exact inTime t ht p (List.mem_filter.mpr ⟨hp, by simp [hn]⟩)
    · rw [hi]
      exact h p hp u (hs ▸ hu)
  · rw [hh] at hq
    exact h q hq u hu

/-- A row that an event closes shows whether it was closed in time. -/
theorem inTime_of_formed (h : (e.apply j v).Formed) (ht : e.endsAt = some t) :
    ∀ q ∈ v.openRows, q.issuedAtMs ≤ t := by
  intro q hq
  obtain ⟨hm, hn⟩ := List.mem_filter.mp hq
  have open_ : q.terminatedAtMs = none := by simpa using hn
  have closed : q.terminate (fun _ => true) t = { q with terminatedAtMs := some t } := by
    simp [LeaseHistory.terminate, open_]
  have row : { q with terminatedAtMs := some t } ∈ (e.apply j v).history := by
    rcases history_cases e j v with ⟨ctx, w, t', rfl⟩ | ⟨t', ht', hh⟩ | ⟨hx, _⟩
    · cases ht
    · rw [ht, Option.some.injEq] at ht'
      subst ht'
      rw [hh]
      exact List.mem_map.mpr ⟨q, hm, closed⟩
    · rw [ht] at hx
      cases hx
  exact h _ row t rfl

end events

theorem mem_history {db : Db} {h : LeaseHistory} :
    h ∈ db.leaseHistory ↔ h ∈ (db.view h.jobId).history := by
  simp [Db.view]

theorem formed_iff {db : Db} : (∀ h ∈ db.leaseHistory, ∀ t, h.terminatedAtMs = some t →
    h.issuedAtMs ≤ t) ↔ ∀ j, (db.view j).Formed := by
  constructor
  · intro h j q hq
    exact h q (List.mem_of_mem_filter hq)
  · intro h q hq
    exact h q.jobId q (mem_history.mp hq)

/-- In a list of terms in order, the smaller fence comes first. -/
theorem before_of_fence {rows : List LeaseHistory} (h : rows.Pairwise LeaseHistory.Before)
    (ha : a ∈ rows) (hb : b ∈ rows) (hf : a.fence < b.fence) : a.Before b := by
  induction h with
  | nil => cases ha
  | @cons q rest first _ ih =>
    rcases List.mem_cons.mp ha with rfl | ha' <;> rcases List.mem_cons.mp hb with rfl | hb'
    · exact absurd hf (Nat.lt_irrefl _)
    · exact first b hb'
    · exact absurd hf (Nat.lt_asymm (first a ha').1)
    · exact ih ha' hb'

/-- The terms of a job in order do not overlap. -/
theorem disjoint_of_terms {db : Db} {start clock : Nat} (h : ∀ j, Terms start clock (db.view j)) :
    ∀ a ∈ db.leaseHistory, ∀ b ∈ db.leaseHistory, a.jobId = b.jobId → a.fence < b.fence →
      ∃ t, a.terminatedAtMs = some t ∧ t ≤ b.issuedAtMs := by
  intro a ha b hb same hf
  have ha' := mem_history.mp ha
  have hb' := mem_history.mp hb
  rw [same] at ha'
  exact (before_of_fence (h b.jobId).ordered ha' hb' hf).2

namespace Clocked

/-- What a resumed handler reads of the shared clock. -/
theorem resumed_reads {s s' : Clocked} {a : At Action} {ctx : Ctx} {t : Task}
    (h : step s a = some s') (hr : s.state.resumed a.action = some (ctx, t)) :
    ctx.nowMs ≤ ((s'.clock / 1000 : Nat) : Int) ∧ showsMs s.clock s'.clock ctx.laterMs = true ∧
      (s.clock : Int) ≤ ctx.pgClockUs := by
  obtain ⟨_, _, reads⟩ := timed_step h
  obtain ⟨action, clock⟩ := a
  cases action with
  | resume i ctx' =>
    obtain ⟨p, _, hp⟩ := Option.map_eq_some_iff.mp hr
    cases hp
    simp only [Action.reads, Bool.and_eq_true, decide_eq_true_eq] at reads
    exact ⟨reads.1.1.1.1, reads.1.1.1.2, reads.1.2⟩
  | _ => cases hr

/-- One step under the clock keeps the terms of every job in order. -/
theorem terms_step {start : Nat} {s s' : Clocked} {a : At Action}
    (known : Reachable step (init start) s) (h : step s a = some s')
    (hs : ∀ j, Terms start s.clock (s.state.db.view j)) :
    ∀ j, Terms start s'.clock (s'.state.db.view j) := by
  intro j
  obtain ⟨taken, forward, _⟩ := timed_step h
  rw [Cluster.step_view taken j]
  cases he : s.state.event a.action j with
  | none => exact (hs j).later forward
  | some e =>
    obtain ⟨⟨ctx, t⟩, hr, ht⟩ := Option.bind_eq_some_iff.mp he
    obtain ⟨_, later, issue⟩ := resumed_reads h hr
    refine apply_terms (Cluster.consistent_reachable (reachable_untimed known) j)
      (Cluster.step_enabled he) (hs j) (clock_mono known) forward ?_ ?_
    · intro c hc
      rw [event_ctx ht hc]
      exact issue
    · intro u hu
      obtain ⟨c, hc, rfl⟩ := endsAt_ctx hu
      rw [event_ctx ht hc]
      simp only [showsMs, Bool.and_eq_true, decide_eq_true_eq] at later
      exact later.2

theorem terms_reachable {start : Nat} {s : Clocked} (h : Reachable step (init start) s) :
    ∀ j, Terms start s.clock (s.state.db.view j) := by
  let Inv := fun u : Clocked => ∀ j, Terms start u.clock (u.state.db.view j)
  have initial : Inv (init start) :=
    fun j => ⟨.nil, (fun q hq => by cases hq), fun q hq => by cases hq⟩
  have kept : ∀ s a s', Reachable step (init start) s → Inv s → step s a = some s' → Inv s' :=
    fun s a s' known hs taken => terms_step known taken hs
  exact h.invariant_with (fun _ known => known) initial kept

/-- Until the clock has come to a thousand times its first reading, no term that
has ended is an interval. -/
theorem ended_unordered {start : Nat} {s : Clocked} (h : Reachable step (init start) s)
    (young : s.clock < 1000 * start) (hq : q ∈ s.state.db.leaseHistory)
    (ended : q.terminatedAtMs.isSome) : ¬ s.state.db.TermsOrdered := by
  intro ordered
  obtain ⟨t, ht⟩ := Option.isSome_iff_exists.mp ended
  have terms := terms_reachable h q.jobId
  have issue := terms.issued q (mem_history.mp hq)
  have past := terms.ended q (mem_history.mp hq) t ht
  have formed := ordered.formed q hq t ht
  omega

theorem formed_step {s s' : Clocked} {a : At Action} (h : step s a = some s')
    (ok : EndsInTime ⟨s, a, s'⟩) (hs : ∀ j, (s.state.db.view j).Formed) :
    ∀ j, (s'.state.db.view j).Formed := by
  intro j
  rw [Cluster.step_view (timed_step h).1 j]
  cases he : s.state.event a.action j with
  | none => exact hs j
  | some e =>
    refine apply_formed (hs j) ?_
    intro t ht q hq
    rw [← openHistoryOf_view] at hq
    exact ok j e t he ht q hq

theorem endsInTime_of_rows {e : Event Clocked (At Action)}
    (h : ∀ ctx t, e.before.state.resumed e.action.action = some (ctx, t) →
      ∀ q ∈ e.before.state.db.leaseHistory, q.terminatedAtMs = none → q.issuedAtMs ≤ ctx.laterMs) :
    EndsInTime e := by
  intro j x t hx ht q hq
  obtain ⟨⟨ctx, task⟩, hr, he⟩ := Option.bind_eq_some_iff.mp hx
  obtain ⟨c, hc, rfl⟩ := endsAt_ctx ht
  rw [event_ctx he hc]
  obtain ⟨hm, hn⟩ := List.mem_filter.mp hq
  exact h ctx task hr q hm (by simpa using (Bool.and_eq_true_iff.mp hn).2)

/-- Under one shared clock the terms are ordered in exactly the runs that end each
of them at a time which, in milliseconds, is not below its start in microseconds. -/
theorem terms_ordered_iff {clock : Nat} {es : List (Event Clocked (At Action))} {s : Clocked}
    (h : Run step (init clock) es s) :
    (∀ e ∈ es, e.after.state.db.TermsOrdered) ↔ ∀ e ∈ es, EndsInTime e := by
  constructor
  · intro ordered e he j x t hx ht q hq
    have taken := (timed_step (h.event he).2).1
    have formed := formed_iff.mp (ordered e he).formed j
    rw [Cluster.step_view taken j, hx] at formed
    rw [openHistoryOf_view] at hq
    exact inTime_of_formed formed ht q hq
  · intro ok e he
    have start : ∀ j, ((init clock).state.db.view j).Formed := fun j q hq => by cases hq
    have formed := h.guarded_events ok start fun s a t hs taken hok => formed_step taken hok hs
    exact ⟨formed_iff.mpr (formed e he).2, disjoint_of_terms (terms_reachable (h.event_after he))⟩

/-- `resultRun` under a shared clock: issued at 3 ms, ended at 6 ms. -/
def termRun : List (At Action) :=
  List.zipWith atMs [1, 1, 1, 1, 2, 2, 2, 3, 3, 3, 4, 5, 6] Cluster.resultRun

theorem termRun_unordered : ∃ s, Reachable step (init 0) s ∧ ¬ s.state.db.TermsOrdered := by
  obtain ⟨s, hs, hp⟩ : ∃ s, exec step (init 0) termRun = some s ∧
      decide (s.state.db.leaseHistory.map (fun h => (h.issuedAtMs, h.terminatedAtMs)) =
        [(3000, some 6)]) = true := exec_any (by decide)
  refine ⟨s, reachable_of_exec termRun hs, ?_⟩
  intro ordered
  obtain ⟨h, hm, he⟩ := List.mem_map.mp ((of_decide_eq_true hp) ▸ List.mem_singleton_self _ :
    ((3000 : Int), some (6 : Int)) ∈ s.state.db.leaseHistory.map _)
  simp only [Prod.mk.injEq] at he
  have formed := ordered.formed h hm 6 he.2
  rw [he.1] at formed
  omega

/-- The same job, issued at 3 ms and ended after three seconds. -/
def slowRun : List (At Action) :=
  List.zipWith atMs [1, 1, 1, 1, 2, 2, 2, 3, 3000, 3000, 3000, 3000, 3000] (Cluster.resultRun.take 8 ++
    [.resume 0 (.quiet "c1" 3000), .workerSend 1 (.jobResult ⟨1, 1, .obj []⟩),
      .receive "c1" 1 (.quiet "c1" 3000), .resume 0 (.quiet "c1" 3000), .resume 0 (.quiet "c1" 3000)])

theorem terms_ordered_slowRun : ∃ s, Run step (init 0) (trace step (init 0) slowRun) s ∧
    s.state.db.leaseHistory.map LeaseHistory.terminatedAtMs = [some 3000] ∧
    ∀ e ∈ trace step (init 0) slowRun, e.after.state.db.TermsOrdered := by
  obtain ⟨s, hs, hp⟩ : ∃ s, exec step (init 0) slowRun = some s ∧
      decide (s.state.db.leaseHistory.map LeaseHistory.terminatedAtMs = [some 3000]) = true :=
    exec_any (by decide)
  have run := run_of_exec slowRun hs
  refine ⟨s, run, of_decide_eq_true hp, (terms_ordered_iff run).mpr ?_⟩
  have rows : (trace step (init 0) slowRun).all (fun e =>
      (e.before.state.resumed e.action.action).all fun p =>
        e.before.state.db.leaseHistory.all fun q =>
          q.terminatedAtMs.isSome || q.issuedAtMs ≤ p.1.laterMs) = true := by decide
  intro e he
  apply endsInTime_of_rows
  intro ctx t hr q hq open_
  have checked := List.all_eq_true.mp rows e he
  rw [hr, Option.all_some] at checked
  simpa [open_] using List.all_eq_true.mp checked q hq

end Clocked

end Dispatcher
