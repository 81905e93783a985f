import Dispatcher.Model.Stream

namespace Dispatcher
open Runs

namespace JobStream

def taken (s : JobStream) (i : Nat) : JobStream := { s with queries := s.queries.eraseIdx i }

inductive Moves (s : JobStream) : StreamAction → JobStream → Prop where
  | write (row : Option Job) : Moves s (.write row) { s with row }
  | run (asked : s.queries[i]? = some (q, none)) : Moves s (.run i thrown)
      { s with queries := s.queries.set i (q, some (BaseRepo.get "Job" false (query thrown s.row))) }
  | absent (found : s.queries[i]? = some (.lookup, some ⟨none, error⟩)) : Moves s (.reply i)
      { s.taken i with
        answer := some ⟨jobNotFound, none, ResultWithError.thrown ⟨(none : Option Job), error⟩⟩ }
  | complete (found : s.queries[i]? = some (.lookup, some ⟨some job, error⟩))
      (terminal : job.status.terminal = true) : Moves s (.reply i)
      { s.taken i with answer := some ⟨makeResponse 200 true "job complete" .empty (some .ok),
        some job, ResultWithError.thrown ⟨some job, error⟩⟩ }
  | opens (found : s.queries[i]? = some (.lookup, some ⟨some job, error⟩))
      (live : job.status.terminal = false) : Moves s (.reply i)
      { s.taken i with
        events := s.events ++ [.opened job.status job.jobId]
        deadline := true
        poll := true
        listening := true }
  | lost (found : s.queries[i]? = some (.poll, some ⟨none, error⟩)) :
      Moves s (.reply i) { (s.taken i).clear with ended := true }
  | polls (found : s.queries[i]? = some (.poll, some ⟨some current, error⟩))
      (live : current.status.terminal = false) : Moves s (.reply i)
      { s.taken i with
        events := s.events ++ [.polled current.status current.jobId current.result] }
  | finishes (found : s.queries[i]? = some (.poll, some ⟨some current, error⟩))
      (terminal : current.status.terminal = true) : Moves s (.reply i)
      { (s.taken i).clear with
        events := s.events ++ [.polled current.status current.jobId current.result]
        ended := true }
  | interval (armed : s.poll = true) :
      Moves s .interval { s with queries := s.queries ++ [(.poll, none)] }
  | timeout (armed : s.deadline = true) (here : s.closed = false) : Moves s .timeout
      { s.clear with events := s.events ++ [.error "stream timeout"], ended := true }
  | expires (armed : s.deadline = true) (gone : s.closed = true) : Moves s .timeout
      { s with
        deadline := false
        events := s.events ++ [.error "stream timeout"]
        ended := true }
  | closes (listening : s.listening = true) :
      Moves s .close { s.clear with closed := true, handled := true }
  | leaves (unheard : s.listening = false ∨ s.ended = true) : Moves s .close { s with closed := true }

/-- Where the timers have been cleared before, the end is the same for every client. -/
theorem clear_finish (s : JobStream) : s.clear.finish = { s.clear with ended := true } := by
  unfold finish
  split <;> rfl

theorem setup_moves {s : JobStream} {found : ResultWithError Job}
    (h : s.queries[i]? = some (.lookup, some found)) :
    Moves s (.reply i) ((s.taken i).setup found) := by
  obtain ⟨data, error⟩ := found
  cases data with
  | none => exact .absent h
  | some job =>
    simp only [setup]
    split
    case isTrue terminal => exact .complete h terminal
    case isFalse live => exact .opens h (Bool.eq_false_of_not_eq_true live)

theorem polled_moves {s : JobStream} {found : ResultWithError Job}
    (h : s.queries[i]? = some (.poll, some found)) :
    Moves s (.reply i) ((s.taken i).polled found) := by
  obtain ⟨data, error⟩ := found
  cases data with
  | none =>
    simp only [polled, clear_finish]
    exact .lost h
  | some current =>
    simp only [polled, clear_finish]
    split
    case isTrue terminal => exact .finishes h terminal
    case isFalse live => exact .polls h (Bool.eq_false_of_not_eq_true live)

theorem step_moves {s s' : JobStream} (h : step s a = some s') : Moves s a s' := by
  cases a with
  | write row =>
    cases h
    exact .write row
  | run i thrown =>
    simp only [step] at h
    split at h
    case h_1 asked =>
      cases h
      exact .run asked
    · cases h
  | reply i =>
    simp only [step] at h
    split at h
    case h_1 found =>
      cases h
      exact setup_moves found
    case h_2 found =>
      cases h
      exact polled_moves found
    · cases h
  | interval =>
    obtain ⟨armed, same⟩ := Option.ite_none_right_eq_some.mp h
    cases same
    exact .interval armed
  | timeout =>
    obtain ⟨armed, same⟩ := Option.ite_none_right_eq_some.mp h
    cases same
    unfold finish
    split
    case isTrue gone => exact .expires armed gone
    case isFalse here => exact .timeout armed (Bool.eq_false_of_not_eq_true here)
  | close =>
    simp only [step] at h
    split at h
    · cases h
    · split at h
      case isTrue listening =>
        cases h
        exact .closes (Bool.and_eq_true_iff.mp listening).1
      case isFalse unheard =>
        cases h
        refine .leaves ?_
        simpa only [Bool.and_eq_true, Bool.not_eq_true', not_and_or, Bool.not_eq_true,
          Bool.not_eq_false] using unheard

/-- What holds of every stream, whatever the order of its events. -/
structure Sound (s : JobStream) : Prop where
  /-- Nothing has begun until the first query is answered, -/
  first : ∀ q ∈ s.queries, q.1 = .lookup →
    s.queries = [q] ∧ s.listening = false ∧ s.answer = none
  /-- nor where it has led to no stream. -/
  unset : s.listening = false → s.poll = false ∧ s.deadline = false ∧ s.ended = false ∧
    s.handled = false ∧ s.events = [] ∧ ∀ q ∈ s.queries, q.1 = .lookup
  armed : s.deadline = true → s.listening = true ∧ s.ended = false ∧ s.handled = false
  known : s.handled = true → s.closed = true

theorem sound_start (row : Option Job) : (start row).Sound := by
  refine ⟨?_, fun _ => ⟨rfl, rfl, rfl, rfl, rfl, ?_⟩, fun h => ?_, fun h => ?_⟩
  · intro q hq _
    rw [List.mem_singleton.mp hq]
    exact ⟨rfl, rfl, rfl⟩
  · intro q hq
    rw [List.mem_singleton.mp hq]
  · cases h
  · cases h

/-- The first query is the only one while it is under way. -/
theorem Sound.only {s : JobStream} (h : s.Sound) (found : s.queries[i]? = some (.lookup, r)) :
    i = 0 ∧ s.queries = [(.lookup, r)] ∧ s.listening = false ∧ s.answer = none := by
  obtain ⟨only, unheard, unanswered⟩ := h.first _ (List.mem_of_getElem? found) rfl
  refine ⟨?_, only, unheard, unanswered⟩
  rw [only] at found
  cases i with
  | zero => rfl
  | succ i => cases found

/-- The query whose answer comes was the only one, or it is a poll. -/
theorem Sound.alone {s : JobStream} (h : s.Sound)
    (found : s.queries[i]? = some (.lookup, r)) :
    s.queries.eraseIdx i = [] ∧ s.listening = false := by
  obtain ⟨rfl, only, unheard, _⟩ := h.only found
  rw [only]
  exact ⟨rfl, unheard⟩

theorem Sound.heard {s : JobStream} {i : Nat} {r : Option (ResultWithError Job)} (h : s.Sound)
    (found : s.queries[i]? = some (.poll, r)) : s.listening = true := by
  by_contra unheard
  have lookup := (h.unset (Bool.eq_false_of_not_eq_true unheard)).2.2.2.2.2 _
    (List.mem_of_getElem? found)
  cases lookup

/-- Only a stream polls. -/
theorem Sound.streaming {s : JobStream} (h : s.Sound) (armed : s.poll = true) :
    s.listening = true := by
  by_contra off
  have none := (h.unset (Bool.eq_false_of_not_eq_true off)).1
  exact Bool.false_ne_true (none.symm.trans armed)

/-- While the stream is on, no first query is under way. -/
theorem Sound.polling {s : JobStream} (h : s.Sound) (on : s.listening = true) :
    ∀ q ∈ s.queries, q.1 ≠ .lookup := by
  intro q hq lookup
  exact Bool.false_ne_true ((h.first q hq lookup).2.1.symm.trans on)

theorem Sound.of_on {s : JobStream} (on : s.listening = true)
    (polling : ∀ q ∈ s.queries, q.1 ≠ .lookup)
    (armed : s.deadline = true → s.listening = true ∧ s.ended = false ∧ s.handled = false)
    (known : s.handled = true → s.closed = true) : s.Sound :=
  ⟨fun q hq lookup => absurd lookup (polling q hq),
    fun off => absurd (off.symm.trans on) Bool.false_ne_true, armed, known⟩

/-- The route has answered without a stream. -/
theorem Sound.answered {s : JobStream} (h : s.Sound) (found : s.queries[i]? = some (.lookup, r))
    (answer : Option (RouteAnswer Job)) : { s.taken i with answer }.Sound := by
  obtain ⟨none, unheard⟩ := h.alone found
  obtain ⟨poll, deadline, ended, handled, events, _⟩ := h.unset unheard
  have empty : (s.taken i).queries = [] := none
  constructor
  case first =>
    intro q hq
    rw [empty] at hq
    cases hq
  case unset =>
    refine fun _ => ⟨poll, deadline, ended, handled, events, fun q hq => ?_⟩
    rw [empty] at hq
    cases hq
  case armed => exact h.armed
  case known => exact h.known

/-- Every step of a stream, in whatever order, keeps it sound. -/
theorem Sound.step {s s' : JobStream} (h : s.Sound) (taken : Moves s a s') : s'.Sound := by
  cases taken with
  | write row => exact ⟨h.first, h.unset, h.armed, h.known⟩
  | @run i q thrown asked =>
    cases q with
    | lookup =>
      obtain ⟨rfl, only, unheard, none⟩ := h.only asked
      obtain ⟨poll, deadline, ended, handled, events, _⟩ := h.unset unheard
      rw [only]
      constructor
      case first =>
        intro q hq _
        rw [List.mem_singleton.mp hq]
        exact ⟨rfl, unheard, none⟩
      case unset =>
        refine fun _ => ⟨poll, deadline, ended, handled, events, fun q hq => ?_⟩
        rw [List.mem_singleton.mp hq]
      case armed => exact h.armed
      case known => exact h.known
    | poll =>
      have on := h.heard asked
      refine .of_on on ?_ h.armed h.known
      intro q hq
      rcases List.mem_or_eq_of_mem_set hq with hq | rfl
      · exact h.polling on q hq
      · exact fun lookup => by cases lookup
  | absent found | complete found => exact h.answered found _
  | opens found live =>
    obtain ⟨none, unheard⟩ := h.alone found
    obtain ⟨_, _, ended, handled, _⟩ := h.unset unheard
    refine .of_on rfl ?_ (fun _ => ⟨rfl, ended, handled⟩) h.known
    intro q hq
    have here : q ∈ s.queries.eraseIdx _ := hq
    rw [none] at here
    cases here
  | lost found | finishes found =>
    have on := h.heard found
    exact .of_on on (fun q hq => h.polling on q (List.mem_of_mem_eraseIdx hq))
      (fun armed => by cases armed) h.known
  | polls found live =>
    have on := h.heard found
    exact .of_on on (fun q hq => h.polling on q (List.mem_of_mem_eraseIdx hq)) h.armed h.known
  | interval armed =>
    have on := h.streaming armed
    refine .of_on on ?_ h.armed h.known
    intro q hq
    rcases List.mem_append.mp hq with hq | hq
    · exact h.polling on q hq
    · rw [List.mem_singleton.mp hq]
      exact fun lookup => by cases lookup
  | timeout armed | expires armed =>
    have on := (h.armed armed).1
    exact .of_on on (h.polling on) (fun armed => by cases armed) h.known
  | closes on =>
    exact .of_on on (h.polling on) (fun armed => by cases armed) fun _ => rfl
  | leaves unheard => exact ⟨h.first, h.unset, h.armed, fun _ => rfl⟩

def Disarmed (s : JobStream) : Prop := s.poll = false ∧ s.deadline = false

/-- A terminal status comes last, and ends the stream. -/
def TerminalLast (s : JobStream) : Prop :=
  ∀ pre event post, s.events = pre ++ event :: post → event.terminal = true → post = []

/-- No poll that is under way when the stream ends, by a terminal status or by the
deadline, or when the close is handled, finds the job; and the client has not closed when
the stream begins. -/
def orderly (e : Event JobStream StreamAction) : Bool :=
  match e.action with
  | .reply i =>
    match e.before.queries[i]? with
    | some (.lookup, some ⟨some job, _⟩) => job.status.terminal || !e.before.closed
    | some (.poll, some ⟨some _, _⟩) => !e.before.ended && !e.before.handled
    | _ => true
  | _ => true

structure Tidy (s : JobStream) : Prop where
  disarmed : s.ended = true ∨ s.closed = true → s.Disarmed
  ended : ∀ event ∈ s.events, event.terminal = true → s.ended = true
  last : s.TerminalLast

theorem terminalLast_append {events : List SseEvent} {event : SseEvent}
    (none : ∀ e ∈ events, e.terminal = false) {pre post : List SseEvent} {e : SseEvent}
    (split : events ++ [event] = pre ++ e :: post) (terminal : e.terminal = true) : post = [] := by
  rcases List.eq_nil_or_concat post with rfl | ⟨post, last, rfl⟩
  · rfl
  · rw [List.concat_eq_append, ← List.cons_append, ← List.append_assoc] at split
    obtain ⟨rfl, _⟩ := List.append_inj' split rfl
    have live := none e (by simp)
    exact absurd (live.symm.trans terminal) Bool.false_ne_true

theorem live_append {events : List SseEvent} {event : SseEvent}
    (none : ∀ e ∈ events, e.terminal = false) (live : event.terminal = false) :
    ∀ e ∈ events ++ [event], e.terminal = false := by
  intro e he
  rcases List.mem_append.mp he with he | he
  · exact none e he
  · exact List.mem_singleton.mp he ▸ live

/-- An orderly step writes to an open stream only. -/
theorem writes_of_orderly {s s' : JobStream} (sound : s.Sound) (taken : Moves s a s')
    (ok : orderly ⟨s, a, s'⟩ = true) :
    s'.events ≠ s.events → s.ended = false ∧ s.handled = false := by
  intro written
  cases taken with
  | opens found live =>
    obtain ⟨_, unheard⟩ := sound.alone found
    obtain ⟨_, _, ended, handled, _⟩ := sound.unset unheard
    exact ⟨ended, handled⟩
  | polls found | finishes found => simpa [orderly, found] using ok
  | timeout armed | expires armed => exact (sound.armed armed).2
  | _ => exact absurd rfl written

theorem Tidy.step {s s' : JobStream} (h : s.Tidy) (sound : s.Sound) (taken : Moves s a s')
    (ok : orderly ⟨s, a, s'⟩ = true) : s'.Tidy := by
  have live (goes : s'.events ≠ s.events) : ∀ e ∈ s.events, e.terminal = false := by
    intro e he
    by_contra terminal
    have ended := h.ended e he (Bool.eq_true_of_not_eq_false terminal)
    exact Bool.false_ne_true ((writes_of_orderly sound taken ok goes).1.symm.trans ended)
  cases taken with
  | write | run | interval => exact ⟨h.disarmed, h.ended, h.last⟩
  | absent | complete => exact ⟨h.disarmed, h.ended, h.last⟩
  | @opens i job error found nonterminal =>
    have before := live (by simp)
    obtain ⟨_, unheard⟩ := sound.alone found
    have going : s.ended = false := (sound.unset unheard).2.2.1
    have shut : s.closed = false := by simpa [orderly, found, nonterminal] using ok
    refine ⟨fun finished => ?_, fun e he terminal => ?_, fun _ _ _ => terminalLast_append before⟩
    · change s.ended = true ∨ s.closed = true at finished
      simp [going, shut] at finished
    · have quiet := live_append before (by exact nonterminal) e he
      exact absurd (quiet.symm.trans terminal) Bool.false_ne_true
  | lost => exact ⟨fun _ => ⟨rfl, rfl⟩, fun _ _ _ => rfl, h.last⟩
  | polls found nonterminal =>
    have before := live (by simp)
    refine ⟨h.disarmed, fun e he terminal => ?_, fun _ _ _ => terminalLast_append before⟩
    have quiet := live_append before (by exact nonterminal) e he
    exact absurd (quiet.symm.trans terminal) Bool.false_ne_true
  | finishes =>
    have before := live (by simp)
    exact ⟨fun _ => ⟨rfl, rfl⟩, fun _ _ _ => rfl, fun _ _ _ => terminalLast_append before⟩
  | timeout =>
    have before := live (by simp)
    exact ⟨fun _ => ⟨rfl, rfl⟩, fun _ _ _ => rfl, fun _ _ _ => terminalLast_append before⟩
  | expires armed gone =>
    exact absurd ((h.disarmed (.inr gone)).2.symm.trans armed) Bool.false_ne_true
  | closes => exact ⟨fun _ => ⟨rfl, rfl⟩, h.ended, h.last⟩
  | leaves unheard =>
    refine ⟨fun _ => ?_, h.ended, h.last⟩
    rcases unheard with unheard | ended
    · obtain ⟨poll, deadline, _⟩ := sound.unset unheard
      exact ⟨poll, deadline⟩
    · exact h.disarmed (.inl ended)

end JobStream

end Dispatcher
