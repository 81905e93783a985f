import Dispatcher.Hub.Counting
import Mathlib.Data.List.Infix

namespace Dispatcher
open Tables Runs

namespace HubProcess

variable {ws : SocketId} {r : StateRef} {workerId : WorkerId} {s : HubProcess}

/-- Handlers and dispatches go back to a registration. -/
structure Traced (s : HubProcess) : Prop where
  handlers : ∀ handler ∈ s.handlers, ∀ r, handler.state = some r → r < s.hub.states.length
  dispatches : ∀ ws msg, (ws, .jobDispatch msg) ∈ s.sent → ws ∈ s.hub.states.map WorkerState.ws

theorem Traced.quiet (h : s.Traced) {s' : HubProcess} (quiet : Quiet s s') : s'.Traced := by
  constructor
  · intro handler hh r hr
    have length := congrArg List.length quiet.sockets
    rw [List.length_map, List.length_map] at length
    rw [length]
    rcases quiet.states handler hh r hr with ⟨earlier, he, hr⟩ | bound
    · exact h.handlers earlier he r hr
    · exact bound
  · intro ws msg hm
    obtain ⟨more, sent, _, jobs⟩ := quiet.sent
    rw [quiet.sockets]
    rw [sent] at hm
    rcases List.mem_append.mp hm with hm | hm
    · exact h.dispatches ws msg hm
    · exact jobs _ hm fun none => by cases none

/-- A handler of no message has counted nothing, and a limit is no job. -/
theorem Traced.control (h : s.Traced) {s' : HubProcess}
    (sockets : s.hub.states.map WorkerState.ws <+: s'.hub.states.map WorkerState.ws)
    (handlers : ∀ handler ∈ s'.handlers, handler ∈ s.handlers ∨ handler.state = none)
    (sent : ∀ ws msg, (ws, .jobDispatch msg) ∈ s'.sent → (ws, .jobDispatch msg) ∈ s.sent) :
    s'.Traced := by
  constructor
  · intro handler hh r hr
    have length := sockets.length_le
    rw [List.length_map, List.length_map] at length
    rcases handlers handler hh with hh | none
    · exact Nat.lt_of_lt_of_le (h.handlers handler hh r hr) length
    · cases none.symm.trans hr
  · exact fun ws msg hm => sockets.subset (h.dispatches ws msg (sent ws msg hm))

theorem Traced.step {a : HubAction} {s' : HubProcess} (h : s.Traced)
    (hstep : HubProcess.step s a = some s') : s'.Traced := by
  have set : ∀ {i : Nat} {new handler : Handler}, new.state = none →
      handler ∈ s.handlers.set i new → handler ∈ s.handlers ∨ handler.state = none := by
    intro i new handler none hh
    rcases List.mem_or_eq_of_mem_set hh with hh | rfl
    · exact .inl hh
    · exact .inr none
  have appended : ∀ {new handler : Handler}, new.state = none →
      handler ∈ s.handlers ++ [new] → handler ∈ s.handlers ∨ handler.state = none := by
    intro new handler none hh
    rcases List.mem_append.mp hh with hh | hh
    · exact .inl hh
    · exact .inr (List.mem_singleton.mp hh ▸ none)
  cases step_control hstep with
  | quiet quiet => exact h.quiet quiet
  | hello => exact h.control List.prefix_rfl (fun _ => appended rfl) fun _ _ hm => hm
  | @called workerId r state limit found =>
    refine h.control ?_ (fun _ => appended rfl) ?_
    · rw [Hub.sockets_modify]
      exact fun _ => rfl
    · intro ws msg hm
      rcases List.mem_append.mp hm with hm | hm
      · exact hm
      · cases List.mem_singleton.mp hm
  | upserted | updated => exact h.control List.prefix_rfl (fun _ => set rfl) fun _ _ hm => hm
  | @lost i old new hi ended =>
    have none : new.state = none := by
      rcases Handler.answered_cases ended with ⟨_, _, _, _, rfl⟩ | ⟨_, _, _, rfl⟩ <;> rfl
    exact h.control List.prefix_rfl (fun _ => set none) fun _ _ hm => hm
  | @registered i ws workerId limit ctx hi =>
    obtain ⟨hub, _, handlers, sent, _⟩ :=
      register_fields { s with handlers := s.handlers.eraseIdx i } ws workerId limit
    refine h.control ?_ ?_ ?_
    · rw [hub, Hub.set, List.map_append]
      exact List.prefix_append _ _
    · rw [handlers]
      exact fun _ hh => .inl (List.mem_of_mem_eraseIdx hh)
    · rw [sent]
      exact fun _ _ hm => hm
  | returned =>
    exact h.control List.prefix_rfl (fun _ hh => .inl (List.mem_of_mem_eraseIdx hh))
      fun _ _ hm => hm

theorem init_traced (db : Db) : (init db).Traced where
  handlers _ hh := by cases hh
  dispatches _ _ hm := by cases hm

structure Registers (ws : SocketId) (workerId : WorkerId) (s s' : HubProcess) : Prop where
  reached : ∃ db, Reachable step (init db) s
  hello : ∃ i limit ctx, s.handlers[i]? = some (.onHello ws workerId limit true) ∧
    step s (.resume i ctx) = some s'
  first : ws ∉ s.hub.states.map WorkerState.ws

theorem Registers.counted {s' : HubProcess} (h : Registers ws workerId s s') :
    s'.InFlight ws s.hub.states.length ∧ s'.Connected ws s.hub.states.length workerId := by
  obtain ⟨db, reached⟩ := h.reached
  have traced : s.Traced := reached.invariant (init_traced db) fun _ _ _ h hs => h.step hs
  obtain ⟨i, limit, ctx, hi, hstep⟩ := h.hello
  simp only [step, hi, Option.some.injEq] at hstep
  subst hstep
  obtain ⟨hub, _, handlers, sent, _⟩ :=
    register_fields { s with handlers := s.handlers.eraseIdx i } ws workerId limit
  have last : (s.hub.set ⟨ws, workerId, limit, 0⟩).states[s.hub.states.length]? =
      some ⟨ws, workerId, limit, 0⟩ := List.getElem?_concat_length
  have unsent : dispatchesOn ws s.sent = [] := by
    rw [dispatchesOn, List.filterMap_eq_nil_iff]
    rintro ⟨ws', msg⟩ hm
    split
    next same =>
      obtain rfl : ws' = ws := same
      cases msg with
      | jobDispatch msg => exact absurd (traced.dispatches ws' msg hm) h.first
      | jobAck | setConcurrency | ping => rfl
    next => rfl
  have earlier : ∀ handler ∈ s.handlers.eraseIdx i,
      handler.state ≠ some s.hub.states.length := by
    intro handler hh hr
    exact Nat.lt_irrefl _ (traced.handlers handler (List.mem_of_mem_eraseIdx hh) _ hr)
  have uncounted : (s.handlers.eraseIdx i).filterMap (Handler.uncounted s.hub.states.length) =
      [] := by
    rw [List.filterMap_eq_nil_iff]
    intro handler hh
    cases hu : handler.uncounted s.hub.states.length with
    | none => rfl
    | some n =>
      obtain ⟨task, rfl⟩ := uncounted_eq_some hu
      exact absurd rfl (earlier _ hh)
  constructor
  · refine ⟨?_, ?_, ?_⟩
    · rw [hub, last, outstanding, sent, unsent, HubProcess.uncounted, handlers, uncounted]
      rfl
    · rw [sent, unsent]
      exact List.nodup_nil
    · intro n settled task hm
      rw [handlers] at hm
      exact absurd rfl (earlier _ hm)
  · refine ⟨?_, ?_, ?_⟩
    · rw [hub]
      exact Hub.get_set s.hub ⟨ws, workerId, limit, 0⟩
    · rw [hub, last]
      rfl
    · intro p _ state hs hw
      rw [hub] at hs
      rcases Nat.lt_trichotomy p.2 s.hub.states.length with before | here | past
      · rw [Hub.states_set _ _ before] at hs
        exact absurd (List.mem_map.mpr ⟨state, List.mem_of_getElem? hs, hw⟩) h.first
      · exact here
      · have bound := (List.getElem?_eq_some_iff.mp hs).1
        rw [Hub.set, List.length_append, List.length_singleton] at bound
        exact absurd (Nat.lt_succ_iff.mp bound) (Nat.not_le_of_lt past)

/-- Once no handler has a message of the connection, its count is the number of
dispatches that wait for an answer. -/
def CountExact (ws : SocketId) (r : StateRef) (s : HubProcess) : Prop :=
  (∀ handler ∈ s.handlers, handler.state ≠ some r) →
    (s.hub.states[r]?).map WorkerState.inFlight = some (s.outstanding ws)

/-- A count with nothing left to count is exact. -/
theorem InFlight.exact (h : s.InFlight ws r) : s.CountExact ws r := by
  intro rest
  have none : s.handlers.filterMap (Handler.uncounted r) = [] := by
    rw [List.filterMap_eq_nil_iff]
    intro handler hh
    cases hu : handler.uncounted r with
    | none => rfl
    | some n =>
      obtain ⟨task, rfl⟩ := uncounted_eq_some hu
      exact absurd rfl (rest _ hh)
  rw [h.count, uncounted, none]
  rfl

/-- The count is exact throughout a connection in which each dispatch is counted once. -/
theorem inFlight_exact {s₁ s₀ : HubProcess} {es : List (Event HubProcess HubAction)}
    (registers : Registers ws workerId s₁ s₀) (run : Run step s₀ es s)
    (connected : ∀ e ∈ es, e.after.Connected ws s₁.hub.states.length workerId)
    (fresh : ∀ e ∈ es, FreshJob ws e)
    (once : ∀ e ∈ es, CountsOnce ws s₁.hub.states.length e) :
    s.CountExact ws s₁.hub.states.length := by
  obtain ⟨initial, first⟩ := registers.counted
  have before := run.before_of_after
    (P := fun s => s.Connected ws s₁.hub.states.length workerId) first connected
  have counted : s.InFlight ws s₁.hub.states.length := by
    have steps : ∀ e ∈ es, e.before.Connected ws s₁.hub.states.length workerId ∧
        FreshJob ws e ∧ CountsOnce ws s₁.hub.states.length e :=
      fun e he => ⟨before e he, fresh e he, once e he⟩
    refine run.guarded steps initial ?_
    exact fun s a t h hs ok => step_inFlight h ok.1 hs ok.2.1 ok.2.2
  exact counted.exact

/-- Two jobs are dispatched to "w1", over whichever connection. -/
def twoJobs : List Action :=
  [.post "c1" (some (.str "a")) (some (.obj [])), .resume 0 (.quiet "c1" 1), .resume 0 (.quiet "c1" 1),
    .post "c1" (some (.str "b")) (some (.obj [])), .resume 0 (.quiet "c1" 2), .resume 0 (.quiet "c1" 2),
    .workerSend 1 (.workerHello "w1" 4), .receive "c1" 0 (.quiet "c1" 3), .resume 0 (.quiet "c1" 3),
    .dispatchTick "c1" "w1", .resume 0 (.quiet "c1" 4), .resume 0 (.quiet "c1" 4),
    .dispatchTick "c1" "w1", .resume 0 (.quiet "c1" 5), .resume 0 (.quiet "c1" 5)]

def helloRun : List HubAction :=
  [.connection 1, .message 1 (.workerHello "w1" 4) (.quiet "c1" 3), .write 0]

/-- The hub before and after the handler of the hello ends. -/
def greeted (db : Db) : HubProcess :=
  { (init db).upsert "w1" 4 with
    opened := [1]
    ids := [(1, "w1")]
    handlers := [.onHello 1 "w1" 4 true]
    received := [(1, .workerHello "w1" 4)] }

def joined (db : Db) : HubProcess := { greeted db with handlers := [] }.register 1 "w1" 4

theorem joined_registers (db : Db) : Registers 1 "w1" (greeted db) (joined db) where
  reached := ⟨db, reachable_of_exec helloRun rfl⟩
  hello := ⟨0, 4, .quiet "c1" 3, rfl, rfl⟩
  first := List.not_mem_nil

/-- The ack of the first job is dropped; its result comes again after it is counted and
before the second job goes out. -/
def cleanRun : List HubAction :=
  [.sendJob "w1" ⟨1, 1, .obj [], 60000⟩,
    .message 1 (.jobResult ⟨1, 1, .obj []⟩) (.quiet "c1" 6), .resume 0 (.quiet "c1" 6),
    .resume 0 { Ctx.quiet "c1" 7 with dropAck := true },
    .message 1 (.jobResult ⟨1, 1, .obj []⟩) (.quiet "c1" 8), .resume 0 (.quiet "c1" 8),
    .resume 0 (.quiet "c1" 8), .sendJob "w1" ⟨2, 2, .obj [], 60000⟩]

theorem inFlight_exact_cleanRun : ∃ c s, exec Cluster.step .init twoJobs = some c ∧
    Run step (joined c.db) (trace step (joined c.db) cleanRun) s ∧ s.handlers.isEmpty ∧
    s.outstanding 1 = 1 ∧ s.CountExact 1 0 := by
  obtain ⟨c, hc, hp⟩ : ∃ c, exec Cluster.step .init twoJobs = some c ∧
      (((trace step (joined c.db) cleanRun).all fun e => decide (e.after.Connected 1 0 "w1") &&
          decide (FreshJob 1 e) && decide (CountsOnce 1 0 e)) &&
        (exec step (joined c.db) cleanRun).any fun s => s.handlers.isEmpty &&
          decide (s.outstanding 1 = 1)) = true := exec_any (by decide)
  obtain ⟨steps, last⟩ := Bool.and_eq_true_iff.mp hp
  obtain ⟨s, hs, ended⟩ := exec_any last
  obtain ⟨rest, one⟩ := Bool.and_eq_true_iff.mp ended
  have run := run_of_exec cleanRun hs
  have each : ∀ e ∈ trace step (joined c.db) cleanRun,
      (e.after.Connected 1 0 "w1" ∧ FreshJob 1 e) ∧ CountsOnce 1 0 e := by
    intro e he
    simpa only [Bool.and_eq_true, decide_eq_true_eq] using List.all_eq_true.mp steps e he
  exact ⟨c, s, hc, run, rest, of_decide_eq_true one, inFlight_exact (joined_registers c.db) run
    (fun e he => (each e he).1.1) (fun e he => (each e he).1.2) fun e he => (each e he).2⟩

/-- The same, with the second job at the worker when the result comes again. -/
def repeatedRun : List HubAction :=
  [.sendJob "w1" ⟨1, 1, .obj [], 60000⟩, .sendJob "w1" ⟨2, 2, .obj [], 60000⟩,
    .message 1 (.jobResult ⟨1, 1, .obj []⟩) (.quiet "c1" 6), .resume 0 (.quiet "c1" 6),
    .resume 0 { Ctx.quiet "c1" 7 with dropAck := true },
    .message 1 (.jobResult ⟨1, 1, .obj []⟩) (.quiet "c1" 8), .resume 0 (.quiet "c1" 8),
    .resume 0 (.quiet "c1" 8)]

theorem repeatedRun_drifts : ∃ c s, exec Cluster.step .init twoJobs = some c ∧
    Run step (joined c.db) (trace step (joined c.db) repeatedRun) s ∧
    Registers 1 "w1" (greeted c.db) (joined c.db) ∧
    (∀ e ∈ trace step (joined c.db) repeatedRun,
      e.after.Connected 1 0 "w1" ∧ FreshJob 1 e) ∧
    s.handlers.isEmpty ∧ (s.hub.states[0]?).map WorkerState.inFlight = some 0 ∧
    s.outstanding 1 = 1 ∧ ¬ s.CountExact 1 0 := by
  obtain ⟨c, hc, hp⟩ : ∃ c, exec Cluster.step .init twoJobs = some c ∧
      (((trace step (joined c.db) repeatedRun).all fun e =>
          decide (e.after.Connected 1 0 "w1") && decide (FreshJob 1 e)) &&
        (exec step (joined c.db) repeatedRun).any fun s => s.handlers.isEmpty &&
          (decide ((s.hub.states[0]?).map WorkerState.inFlight = some 0) &&
            decide (s.outstanding 1 = 1))) = true := exec_any (by decide)
  obtain ⟨steps, last⟩ := Bool.and_eq_true_iff.mp hp
  obtain ⟨s, hs, ended⟩ := exec_any last
  obtain ⟨rest, counts⟩ := Bool.and_eq_true_iff.mp ended
  obtain ⟨zero, one⟩ := Bool.and_eq_true_iff.mp counts
  have inFlight := of_decide_eq_true zero
  have owed := of_decide_eq_true one
  refine ⟨c, s, hc, run_of_exec repeatedRun hs, joined_registers c.db, ?_, rest, inFlight, owed, ?_⟩
  · intro e he
    simpa only [Bool.and_eq_true, decide_eq_true_eq] using List.all_eq_true.mp steps e he
  · intro exactly
    have none : s.handlers = [] := List.isEmpty_iff.mp rest
    have same := exactly fun handler hh => by rw [none] at hh; cases hh
    rw [inFlight, owed] at same
    cases same

end HubProcess

end Dispatcher
