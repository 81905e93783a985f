import Dispatcher.Cluster.Messages
import Dispatcher.Hub.Control

namespace Dispatcher
open Tables Runs

def WorkerToCoordMsg.answer : WorkerToCoordMsg → Option (JobId × Token)
  | .jobResult msg => some (msg.jobId, msg.token)
  | .jobFailed msg => some (msg.jobId, msg.token)
  | .jobHeartbeat _ | .workerHello .. | .pong => none

def answersOn (ws : SocketId) (received : List (SocketId × WorkerToCoordMsg)) :
    List (JobId × Token) :=
  received.filterMap fun m => if m.1 = ws then m.2.answer else none

def dispatchesOn (ws : SocketId) (sent : List (SocketId × CoordToWorkerMsg)) :
    List (JobId × Token) :=
  sent.filterMap fun m => if m.1 = ws then m.2.dispatch else none

namespace Handler

/-- The message that a handler has still to count in `r`. -/
def uncounted (r : StateRef) : Handler → Option Nat
  | .onMessage n state false _ => if state = some r then some n else none
  | .onMessage _ _ true _ | .onHello .. | .setConcurrency .. => none

/-- The message that a handler counts in `r` when its query succeeds, or when it fails. -/
def counts (r : StateRef) : Handler → Option Nat
  | .onMessage n state settled task =>
    if state = some r ∧ task.settles settled = true then some n else none
  | .onHello .. | .setConcurrency .. => none

def countsFailed (r : StateRef) : Handler → Option Nat
  | .onMessage n state settled task =>
    if state = some r ∧ task.settlesFailed settled = true then some n else none
  | .onHello .. | .setConcurrency .. => none

def transacts : Handler → Option Nat
  | .onMessage n _ _ (.resultTx ..) | .onMessage n _ _ (.failedTx _) => some n
  | _ => none

end Handler

namespace HubProcess

section connection

variable (ws : SocketId) (r : StateRef) (s : HubProcess)

/-- The dispatches sent on the socket that no answer has been received for on it. -/
def outstanding : Nat :=
  (dispatchesOn ws s.sent).countP fun d => d ∉ answersOn ws s.received

/-- The `n`-th message received is the first answer to a dispatch sent on the socket. -/
def firstAnswer (n : Nat) : Bool :=
  (s.received[n]?).any fun m => m.1 = ws && m.2.answer.any fun d =>
    d ∈ dispatchesOn ws s.sent && d ∉ answersOn ws (s.received.take n)

/-- The first answers that handlers have still to count. -/
def uncounted : Nat :=
  (s.handlers.filterMap (Handler.uncounted r)).countP (s.firstAnswer ws)

/-- The worker is registered with this socket, and no other is. -/
structure Connected (workerId : WorkerId) : Prop where
  registered : s.hub.get workerId = some r
  socket : (s.hub.states[r]?).map WorkerState.ws = some ws
  only : ∀ p ∈ s.hub.workers.rows, ∀ state, s.hub.states[p.2]? = some state →
    state.ws = ws → p.2 = r

end connection

def counted (r : StateRef) (e : Event HubProcess HubAction) : Option Nat :=
  match e.action with
  | .resume i _ => (e.before.handlers[i]?).bind (Handler.counts r)
  | .fail i _ => (e.before.handlers[i]?).bind (Handler.countsFailed r)
  | _ => none

/-- A dispatch goes out under a token that the socket has not seen. -/
def FreshJob (ws : SocketId) (e : Event HubProcess HubAction) : Prop :=
  ∀ workerId msg, e.action = .sendJob workerId msg →
    (msg.jobId, msg.token) ∉ dispatchesOn ws e.before.sent ∧
    (msg.jobId, msg.token) ∉ answersOn ws e.before.received

/-- The transaction of a first answer does not fail, and any other answer is counted
only when the worker owes no answer and none waits to be counted. -/
structure CountsOnce (ws : SocketId) (r : StateRef) (e : Event HubProcess HubAction) : Prop where
  commits : ∀ i error n, e.action = .fail i error →
    (e.before.handlers[i]?).bind Handler.transacts = some n → e.before.firstAnswer ws n = false
  strays : ∀ n, counted r e = some n → e.before.firstAnswer ws n = false →
    e.before.outstanding ws = 0 ∧ e.before.uncounted ws r = 0

instance (ws : SocketId) (r : StateRef) (s : HubProcess) (workerId : WorkerId) :
    Decidable (s.Connected ws r workerId) :=
  decidable_of_iff (s.hub.get workerId = some r ∧
      (s.hub.states[r]?).map WorkerState.ws = some ws ∧
      ∀ p ∈ s.hub.workers.rows, ∀ state ∈ s.hub.states[p.2]?, state.ws = ws → p.2 = r)
    ⟨fun ⟨h, h', h''⟩ => ⟨h, h', h''⟩, fun h => ⟨h.registered, h.socket, h.only⟩⟩

def sends : HubAction → List JobDispatch
  | .sendJob _ msg => [msg]
  | _ => []

instance (ws : SocketId) (e : Event HubProcess HubAction) : Decidable (FreshJob ws e) :=
  decidable_of_iff (∀ msg ∈ sends e.action,
      (msg.jobId, msg.token) ∉ dispatchesOn ws e.before.sent ∧
      (msg.jobId, msg.token) ∉ answersOn ws e.before.received) <| by
    constructor
    · intro h workerId msg ha
      exact h msg (by rw [ha]; exact List.mem_singleton_self msg)
    · intro h msg hm
      cases ha : e.action with
      | sendJob workerId msg' =>
        rw [ha] at hm
        rw [List.mem_singleton.mp hm]
        exact h workerId msg' ha
      | _ => rw [ha] at hm; cases hm

/-- The first answers whose transaction fails in a step. -/
def rollback (e : Event HubProcess HubAction) : Option Nat :=
  match e.action with
  | .fail i _ => (e.before.handlers[i]?).bind Handler.transacts
  | _ => none

instance (ws : SocketId) (r : StateRef) (e : Event HubProcess HubAction) :
    Decidable (CountsOnce ws r e) :=
  decidable_of_iff ((∀ n ∈ rollback e, e.before.firstAnswer ws n = false) ∧
      ∀ n ∈ counted r e, e.before.firstAnswer ws n = false →
        e.before.outstanding ws = 0 ∧ e.before.uncounted ws r = 0) <| by
    constructor
    · rintro ⟨commits, strays⟩
      refine ⟨fun i error n ha hn => commits n ?_, strays⟩
      rw [rollback, ha]
      exact hn
    · rintro ⟨commits, strays⟩
      refine ⟨fun n hn => ?_, strays⟩
      cases ha : e.action with
      | fail i error =>
        rw [rollback, ha] at hn
        exact commits i error n ha hn
      | _ => rw [rollback, ha] at hn; cases hn

/-- The count of a connection from its registration on. -/
structure InFlight (ws : SocketId) (r : StateRef) (s : HubProcess) : Prop where
  count : (s.hub.states[r]?).map WorkerState.inFlight = some (s.outstanding ws + s.uncounted ws r)
  distinct : (dispatchesOn ws s.sent).Nodup
  handlers : ∀ n settled task, .onMessage n (some r) settled task ∈ s.handlers →
    ∃ m, s.received[n]? = some m ∧ task.heard = some m.2 ∧
      (settled = true → ∃ ws' msg, task = .resultReAck ws' msg)

structure SameCount (ws : SocketId) (r : StateRef) (s s' : HubProcess) : Prop where
  inFlight : (s'.hub.states[r]?).map WorkerState.inFlight =
    (s.hub.states[r]?).map WorkerState.inFlight
  received : s'.received = s.received
  dispatches : dispatchesOn ws s'.sent = dispatchesOn ws s.sent
  uncounted : (s'.handlers.filterMap (Handler.uncounted r)).countP (s.firstAnswer ws) =
    s.uncounted ws r

theorem InFlight.same {ws : SocketId} {r : StateRef} {s s' : HubProcess} (h : s.InFlight ws r)
    (same : SameCount ws r s s') (proper : ∀ n settled task,
      .onMessage n (some r) settled task ∈ s'.handlers → ∃ m, s'.received[n]? = some m ∧
        task.heard = some m.2 ∧ (settled = true → ∃ ws' msg, task = .resultReAck ws' msg)) :
    s'.InFlight ws r := by
  have outstanding : s'.outstanding ws = s.outstanding ws := by
    simp only [HubProcess.outstanding, same.dispatches, same.received]
  have first : s'.firstAnswer ws = s.firstAnswer ws := by
    funext n
    simp only [firstAnswer, same.dispatches, same.received]
  have uncounted : s'.uncounted ws r = s.uncounted ws r := by
    rw [HubProcess.uncounted, first]
    exact same.uncounted
  refine ⟨?_, same.dispatches ▸ h.distinct, proper⟩
  rw [same.inFlight, h.count, outstanding, uncounted]

end HubProcess

theorem dispatchesOn_append (ws : SocketId) (sent more : List (SocketId × CoordToWorkerMsg)) :
    dispatchesOn ws (sent ++ more) = dispatchesOn ws sent ++ dispatchesOn ws more :=
  List.filterMap_append

/-- No other message sent changes the dispatches of a socket. -/
theorem dispatchesOn_unchanged {ws : SocketId} {sent more : List (SocketId × CoordToWorkerMsg)}
    (h : ∀ m ∈ more, m.2.dispatch = none) :
    dispatchesOn ws (sent ++ more) = dispatchesOn ws sent := by
  have none : dispatchesOn ws more = [] := by
    rw [dispatchesOn, List.filterMap_eq_nil_iff]
    intro m hm
    split
    · exact h m hm
    · rfl
  rw [dispatchesOn_append, none, List.append_nil]

theorem answersOn_append (ws : SocketId) (received more : List (SocketId × WorkerToCoordMsg)) :
    answersOn ws (received ++ more) = answersOn ws received ++ answersOn ws more :=
  List.filterMap_append

/-- One more answer settles one dispatch, or none. -/
theorem countP_settled {l : List (JobId × Token)} (nodup : l.Nodup)
    (answers : List (JobId × Token)) (d : JobId × Token) :
    l.countP (fun x => x ∉ answers ++ [d]) + (if d ∈ l ∧ d ∉ answers then 1 else 0) =
      l.countP fun x => x ∉ answers := by
  induction l with
  | nil => simp
  | cons x rest ih =>
    obtain ⟨fresh, nodup⟩ := List.nodup_cons.mp nodup
    have rest := ih nodup
    by_cases same : x = d
    · subst same
      by_cases answered : x ∈ answers <;>
        simp [fresh, answered] at rest ⊢ <;> omega
    · by_cases answered : x ∈ answers <;>
        simp [same, Ne.symm same, answered] at rest ⊢ <;> omega

namespace HubProcess

variable {ws : SocketId} {r : StateRef} {workerId : WorkerId} {s : HubProcess}

theorem Connected.stateByWs (h : s.Connected ws r workerId) : s.hub.stateByWs ws = some r := by
  obtain ⟨state, hs, hw⟩ := Option.map_eq_some_iff.mp h.socket
  obtain ⟨r', hr⟩ := Option.isSome_iff_exists.mp
    (Hub.stateByWs_isSome (Hub.get_mem h.registered) hs hw)
  obtain ⟨state', hs', hw'⟩ := Hub.stateByWs_state hr
  obtain ⟨p, hp, rfl⟩ := Hub.stateByWs_mem hr
  rw [hr, h.only p hp state' hs' hw']

/-- A dispatch under an unseen token makes no earlier message a first answer. -/
theorem firstAnswer_sent {s' : HubProcess} {d : JobId × Token}
    (sent : dispatchesOn ws s'.sent = dispatchesOn ws s.sent ++ [d])
    (received : s'.received = s.received) (unanswered : d ∉ answersOn ws s.received) :
    s'.firstAnswer ws = s.firstAnswer ws := by
  funext n
  simp only [firstAnswer, received, sent]
  cases hm : s.received[n]? with
  | none => rfl
  | some m =>
    by_cases hw : m.1 = ws
    · cases ha : m.2.answer with
      | none => simp [ha]
      | some d' =>
        have seen : d' ∈ answersOn ws s.received :=
          List.mem_filterMap.mpr ⟨m, List.mem_of_getElem? hm, by simp [hw, ha]⟩
        have other : d' ≠ d := fun equal => unanswered (equal ▸ seen)
        simp [ha, other]
    · simp [hw]

/-- A dispatch is counted at once. -/
theorem InFlight.dispatched (h : s.InFlight ws r) {s' : HubProcess} {d : JobId × Token}
    (sent : dispatchesOn ws s'.sent = dispatchesOn ws s.sent ++ [d])
    (received : s'.received = s.received) (handlers : s'.handlers = s.handlers)
    (inFlight : (s'.hub.states[r]?).map WorkerState.inFlight =
      ((s.hub.states[r]?).map WorkerState.inFlight).map (· + 1))
    (unsent : d ∉ dispatchesOn ws s.sent) (unanswered : d ∉ answersOn ws s.received) :
    s'.InFlight ws r := by
  have uncounted : s'.uncounted ws r = s.uncounted ws r := by
    simp only [HubProcess.uncounted, handlers, firstAnswer_sent sent received unanswered]
  have outstanding : s'.outstanding ws = s.outstanding ws + 1 := by
    simp [HubProcess.outstanding, sent, received, unanswered]
  refine ⟨?_, ?_, ?_⟩
  · rw [inFlight, h.count, uncounted, outstanding, Option.map_some]
    congr 1
    omega
  · rw [sent, List.nodup_append]
    refine ⟨h.distinct, List.nodup_singleton _, ?_⟩
    intro d₁ hd₁ d₂ hd₂ equal
    rw [List.mem_singleton.mp hd₂] at equal
    exact unsent (equal ▸ hd₁)
  · rw [handlers, received]
    exact h.handlers

theorem sendJob_counted (h : s.InFlight ws r) (connected : s.Connected ws r workerId)
    {workerId' : WorkerId} {msg : JobDispatch}
    (unsent : (msg.jobId, msg.token) ∉ dispatchesOn ws s.sent)
    (unanswered : (msg.jobId, msg.token) ∉ answersOn ws s.received) :
    HubProcess.InFlight ws r { s with
      hub := (s.hub.sendJob s.isOpen workerId' msg).2.1
      sent := s.sent ++ (s.hub.sendJob s.isOpen workerId' msg).2.2 } := by
  unfold Hub.sendJob
  cases ho : s.hub.openState s.isOpen workerId' with
  | none =>
    refine h.same ⟨rfl, rfl, ?_, rfl⟩ h.handlers
    simp
  | some p =>
    obtain ⟨r', state⟩ := p
    obtain ⟨hr', hs', _⟩ := Hub.openState_eq_some.mp ho
    by_cases same : r' = r
    · subst same
      have socket := connected.socket
      rw [hs', Option.map_some, Option.some.injEq] at socket
      have sent : dispatchesOn ws (s.sent ++ [(state.ws, .jobDispatch msg)]) =
          dispatchesOn ws s.sent ++ [(msg.jobId, msg.token)] := by
        rw [dispatchesOn_append]
        simp [dispatchesOn, socket, CoordToWorkerMsg.dispatch]
      refine h.dispatched sent rfl rfl ?_ unsent unanswered
      simp only [Hub.states_modify, ↓reduceIte, hs', Option.map_some]
    · have elsewhere : state.ws ≠ ws := fun hw =>
        same (connected.only _ (Hub.get_mem hr') state hs' hw)
      refine h.same ⟨?_, rfl, ?_, rfl⟩ h.handlers
      · simp only [Hub.states_modify, same, ↓reduceIte]
      · dsimp only
        have nothing : dispatchesOn ws [(state.ws, .jobDispatch msg)] = [] := by
          simp [dispatchesOn, elsewhere]
        rw [dispatchesOn_append, nothing, List.append_nil]

/-- A later message does not change which answers were the first. -/
theorem firstAnswer_earlier {s' : HubProcess} {m : SocketId × WorkerToCoordMsg}
    (received : s'.received = s.received ++ [m]) (sent : s'.sent = s.sent) {n : Nat}
    (hn : n < s.received.length) : s'.firstAnswer ws n = s.firstAnswer ws n := by
  simp only [firstAnswer, received, sent, List.getElem?_append_left hn,
    List.take_append_of_le_length (Nat.le_of_lt hn)]

theorem firstAnswer_last {s' : HubProcess} {m : SocketId × WorkerToCoordMsg}
    (received : s'.received = s.received ++ [m]) (sent : s'.sent = s.sent) :
    s'.firstAnswer ws s.received.length = (m.1 = ws && m.2.answer.any fun d =>
      d ∈ dispatchesOn ws s.sent && d ∉ answersOn ws s.received) := by
  simp [firstAnswer, received, sent]

/-- What a message does to the dispatches that wait for an answer. -/
theorem outstanding_received (h : s.InFlight ws r) {s' : HubProcess}
    {m : SocketId × WorkerToCoordMsg} (received : s'.received = s.received ++ [m])
    (sent : s'.sent = s.sent) : s'.outstanding ws +
      (if s'.firstAnswer ws s.received.length then 1 else 0) = s.outstanding ws := by
  rw [firstAnswer_last received sent, outstanding, outstanding, received, sent, answersOn_append]
  by_cases hw : m.1 = ws
  · cases ha : m.2.answer with
    | none =>
      have more : answersOn ws [m] = [] := by simp [answersOn, ha]
      simp [more]
    | some d =>
      have more : answersOn ws [m] = [d] := by simp [answersOn, hw, ha]
      have settled := countP_settled h.distinct (answersOn ws s.received) d
      rw [more]
      simpa [hw] using settled
  · have more : answersOn ws [m] = [] := by simp [answersOn, hw]
    simp [more, hw]

theorem uncounted_eq_some {handler : Handler} {n : Nat} (h : handler.uncounted r = some n) :
    ∃ task, handler = .onMessage n (some r) false task := by
  cases handler with
  | onHello | setConcurrency => cases h
  | onMessage n' state settled task =>
    cases settled with
    | true => cases h
    | false =>
      obtain ⟨rfl, hn⟩ := Option.ite_none_right_eq_some.mp h
      obtain rfl : n' = n := Option.some.inj hn
      exact ⟨task, rfl⟩

theorem uncounted_bound (h : s.InFlight ws r) {n : Nat}
    (hn : n ∈ s.handlers.filterMap (Handler.uncounted r)) : n < s.received.length := by
  obtain ⟨handler, hh, hu⟩ := List.mem_filterMap.mp hn
  obtain ⟨task, rfl⟩ := uncounted_eq_some hu
  obtain ⟨m, hm, _⟩ := h.handlers n false task hh
  exact (List.getElem?_eq_some_iff.mp hm).1

/-- The message that comes in waits to be counted. -/
theorem InFlight.received (h : s.InFlight ws r) {s' : HubProcess}
    {m : SocketId × WorkerToCoordMsg} {new : List Handler}
    (received : s'.received = s.received ++ [m]) (sent : s'.sent = s.sent)
    (states : s'.hub.states = s.hub.states) (handlers : s'.handlers = s.handlers ++ new)
    (counts : m.1 = ws → m.2.answer.isSome = true →
      new.filterMap (Handler.uncounted r) = [s.received.length])
    (proper : ∀ n settled task, .onMessage n (some r) settled task ∈ new →
      n = s.received.length ∧ task.heard = some m.2 ∧ settled = false) : s'.InFlight ws r := by
  have one : (new.filterMap (Handler.uncounted r)).countP (s'.firstAnswer ws) =
      if s'.firstAnswer ws s.received.length then 1 else 0 := by
    split
    · rename_i first
      rw [firstAnswer_last received sent, Bool.and_eq_true] at first
      obtain ⟨d, hd, _⟩ := (Option.any_eq_true _ _).mp first.2
      have answer := counts (of_decide_eq_true first.1) (by simp [hd])
      have last : s'.firstAnswer ws s.received.length = true := by
        rw [firstAnswer_last received sent, first.1, first.2]
        rfl
      simp [answer, last]
    · rename_i later
      rw [List.countP_eq_zero]
      intro n hn
      obtain ⟨handler, hh, hu⟩ := List.mem_filterMap.mp hn
      obtain ⟨task, rfl⟩ := uncounted_eq_some hu
      rw [(proper n false task hh).1]
      exact later
  have uncounted : s'.uncounted ws r = s.uncounted ws r +
      if s'.firstAnswer ws s.received.length then 1 else 0 := by
    rw [HubProcess.uncounted, handlers, List.filterMap_append, List.countP_append, one,
      HubProcess.uncounted]
    congr 1
    apply List.countP_congr
    intro n hn
    rw [firstAnswer_earlier received sent (uncounted_bound h hn)]
  have outstanding := outstanding_received h received sent
  refine ⟨?_, sent ▸ h.distinct, ?_⟩
  · rw [states, h.count, uncounted]
    congr 1
    omega
  · intro n settled task hm
    rw [handlers] at hm
    rcases List.mem_append.mp hm with hm | hm
    · obtain ⟨m', hm', rest⟩ := h.handlers n settled task hm
      refine ⟨m', ?_, rest⟩
      rw [received, List.getElem?_append_left (List.getElem?_eq_some_iff.mp hm').1, hm']
    · obtain ⟨rfl, heard, rfl⟩ := proper n settled task hm
      exact ⟨m, by simp [received], heard, fun h => absurd h Bool.false_ne_true⟩

/-- Every handler works on the message that has started it. -/
theorem onMessage_hears {msg : WorkerToCoordMsg} {ctx : Ctx} {named : Option WorkerId}
    {ws' : SocketId} {t : Task} (other : msg.greeting = none)
    (ht : t ∈ onMessage ctx named ws' msg) : t.heard = some msg := by
  cases msg with
  | workerHello => cases other
  | pong => cases ht
  | jobResult | jobHeartbeat =>
    obtain ⟨_, _, rfl⟩ := List.mem_map.mp ht
    rfl
  | jobFailed =>
    cases List.mem_singleton.mp ht
    rfl

theorem message_counted (h : s.InFlight ws r) (connected : s.Connected ws r workerId)
    {ws' : SocketId} {msg : WorkerToCoordMsg} {ctx : Ctx} {n : Nat} (other : msg.greeting = none)
    (last : n = s.received.length) :
    HubProcess.InFlight ws r { s with
      received := s.received ++ [(ws', msg)]
      handlers := s.handlers ++ (onMessage ctx
        (((s.hub.stateByWs ws').bind (s.hub.states[·]?)).map WorkerState.workerId) ws' msg).map
          fun task => .onMessage n (s.hub.stateByWs ws') false task } := by
  subst last
  obtain ⟨state, hs, _⟩ := Option.map_eq_some_iff.mp connected.socket
  refine h.received (m := (ws', msg)) rfl rfl rfl rfl ?_ ?_
  · -- the socket is registered, so an answer on it starts a handler
    intro hw answer
    obtain rfl : ws' = ws := hw
    have here := connected.stateByWs
    cases msg with
    | jobResult | jobFailed => simp [onMessage, Handler.uncounted, here, hs]
    | workerHello | jobHeartbeat | pong => cases answer
  · intro n settled task hm
    obtain ⟨t, ht, heq⟩ := List.mem_map.mp hm
    obtain ⟨rfl, _, rfl, rfl⟩ := Handler.onMessage.inj heq
    exact ⟨rfl, onMessage_hears other ht, rfl⟩

theorem countP_finish {handlers : List Handler} {i : Nat} {handler : Handler}
    (hi : handlers[i]? = some handler) (new : List Handler) (F : Nat → Bool) :
    ((handlers.eraseIdx i ++ new).filterMap (Handler.uncounted r)).countP F +
        (handler.uncounted r).toList.countP F =
      (handlers.filterMap (Handler.uncounted r)).countP F +
        (new.filterMap (Handler.uncounted r)).countP F := by
  rw [List.filterMap_append, filterMap_eraseIdx _ hi, filterMap_at _ hi]
  simp only [List.countP_append]
  omega

/-- How the handler of a message goes on: with its next await, after it has counted
the message, or not at all, uncounted. -/
inductive GoesOn (settled first : Bool) (msg : WorkerToCoordMsg) : Bool → List Task → Prop where
  | next (same : t.heard = some msg) (uncounted : settled = false) :
      GoesOn settled first msg false [t]
  | counted (uncounted : settled = false)
      (next : ∀ t ∈ ts, t.heard = some msg ∧ ∃ ws m, t = .resultReAck ws m) :
      GoesOn settled first msg true ts
  | dropped (none : settled = false → first = false) : GoesOn settled first msg false []

theorem unsettled {t : Task} {settled : Bool} (proper : settled = true → ∃ ws m, t = .resultReAck ws m)
    (other : ∀ ws m, t ≠ .resultReAck ws m) : settled = false := by
  cases settled with
  | false => rfl
  | true =>
    obtain ⟨ws, m, ht⟩ := proper rfl
    exact absurd ht (other ws m)

theorem resume_goesOn {t : Task} {settled first : Bool} {msg : WorkerToCoordMsg}
    (heard : t.heard = some msg) (proper : settled = true → ∃ ws m, t = .resultReAck ws m)
    (answers : msg.answer = none → first = false) (ctx : Ctx) (db : Db) :
    GoesOn settled first msg (t.settles settled) (t.resume ctx (fun _ => none) db).next := by
  cases t with
  | resultLookup ws workerId m =>
    have uncounted := unsettled proper fun _ _ h => by cases h
    simp only [Task.resume]
    split
    · split <;> exact .next heard uncounted
    · exact .next heard uncounted
  | resultTx ws workerId m =>
    have uncounted := unsettled proper fun _ _ h => by cases h
    simp only [Task.resume]
    split
    · split <;> exact .counted uncounted fun t ht => by cases ht
    · refine .counted uncounted fun t ht => ?_
      cases List.mem_singleton.mp ht
      exact ⟨heard, ws, m, rfl⟩
  | resultReAck ws m =>
    have last : ((Task.resultReAck ws m).resume ctx (fun _ => none) db).next = [] := by
      simp only [Task.resume]
      split <;> rfl
    rw [last]
    cases settled with
    | false => exact .counted rfl fun t ht => by cases ht
    | true => exact .dropped fun h => absurd h.symm Bool.false_ne_true
  | failedTx m =>
    have uncounted := unsettled proper fun _ _ h => by cases h
    exact .counted uncounted fun t ht => by cases ht
  | heartbeatUpdate workerId m newExpiry =>
    refine .dropped fun _ => answers ?_
    cases heard
    rfl
  | _ => cases heard

theorem fail_goesOn {t : Task} {settled first : Bool} {msg : WorkerToCoordMsg}
    (heard : t.heard = some msg) (proper : settled = true → ∃ ws m, t = .resultReAck ws m)
    (answers : msg.answer = none → first = false) (db : Db) (error : String)
    (commits : (∃ ws workerId m, t = .resultTx ws workerId m) ∨ (∃ m, t = .failedTx m) →
      first = false) :
    GoesOn settled first msg (t.settlesFailed settled) (t.fail db error).next := by
  cases t with
  | resultLookup ws workerId m =>
    have uncounted := unsettled proper fun _ _ h => by cases h
    exact .next heard uncounted
  | resultReAck ws m =>
    cases settled with
    | false => exact .counted rfl fun t ht => by cases ht
    | true => exact .dropped fun h => absurd h.symm Bool.false_ne_true
  | resultTx ws workerId m => exact .dropped fun _ => commits (.inl ⟨ws, workerId, m, rfl⟩)
  | failedTx m => exact .dropped fun _ => commits (.inr ⟨m, rfl⟩)
  | heartbeatUpdate workerId m newExpiry =>
    refine .dropped fun _ => answers ?_
    cases heard
    rfl
  | _ => cases heard

theorem settle_inFlight (hub : Hub) (r r' : StateRef) :
    ((hub.settle r).states[r']?).map WorkerState.inFlight =
      if r = r' then ((hub.states[r']?).map WorkerState.inFlight).map (· - 1)
      else (hub.states[r']?).map WorkerState.inFlight := by
  rw [Hub.settle, Hub.states_modify]
  split <;> cases hub.states[r']? <;> rfl

/-- The handler of a message of another connection, or of none. -/
theorem finish_other (h : s.InFlight ws r) {i n : Nat} {state : Option StateRef} {settled settles : Bool}
    {task : Task} {o : Outcome} (hi : s.handlers[i]? = some (.onMessage n state settled task))
    (other : state ≠ some r) (sent : ∀ m ∈ o.sent, m.2.dispatch = none) :
    (s.finish i n state settled settles o).InFlight ws r := by
  have new : (o.next.map fun task => Handler.onMessage n state (settled || settles) task).filterMap
      (Handler.uncounted r) = [] := by
    rw [List.filterMap_eq_nil_iff]
    intro handler hh
    obtain ⟨t, _, rfl⟩ := List.mem_map.mp hh
    cases settled || settles <;> simp [Handler.uncounted, other]
  have old : (Handler.onMessage n state settled task).uncounted r = none := by
    cases settled <;> simp [Handler.uncounted, other]
  have uncounted := countP_finish (r := r) hi
    (o.next.map fun task => Handler.onMessage n state (settled || settles) task) (s.firstAnswer ws)
  rw [new, old] at uncounted
  refine h.same ⟨?_, rfl, ?_, ?_⟩ ?_
  · unfold finish
    cases state with
    | none => rfl
    | some r' =>
      dsimp only
      split
      · rw [settle_inFlight, if_neg fun same => other (congrArg some same)]
      · rfl
  · exact dispatchesOn_unchanged sent
  · exact uncounted
  · intro n' settled' task' hm
    rcases List.mem_append.mp hm with hm | hm
    · exact h.handlers n' settled' task' (List.mem_of_mem_eraseIdx hm)
    · obtain ⟨t, _, heq⟩ := List.mem_map.mp hm
      exact absurd (Handler.onMessage.inj heq).2.1 other

/-- Of the first answers only a counted one leaves the uncounted. -/
theorem goesOn_uncounted {F : Nat → Bool} {handlers : List Handler} {i n : Nat}
    {settled settles : Bool} {task : Task} {msg : WorkerToCoordMsg} {ts : List Task}
    (hi : handlers[i]? = some (.onMessage n (some r) settled task))
    (goes : GoesOn settled (F n) msg settles ts) :
    ((handlers.eraseIdx i ++ ts.map fun t =>
        Handler.onMessage n (some r) (settled || settles) t).filterMap
          (Handler.uncounted r)).countP F + (if settles && F n then 1 else 0) =
      (handlers.filterMap (Handler.uncounted r)).countP F := by
  have finished := countP_finish (r := r) hi
    (ts.map fun t => Handler.onMessage n (some r) (settled || settles) t) F
  cases goes with
  | next same unsettled =>
    subst unsettled
    simp [Handler.uncounted] at finished ⊢
    omega
  | counted unsettled next =>
    subst unsettled
    have none : (ts.map fun t => Handler.onMessage n (some r) (false || true) t).filterMap
        (Handler.uncounted r) = [] := by
      rw [List.filterMap_eq_nil_iff]
      intro handler hh
      obtain ⟨t, _, rfl⟩ := List.mem_map.mp hh
      rfl
    rw [none] at finished
    simp [Handler.uncounted, List.countP_singleton] at finished ⊢
    omega
  | dropped none =>
    cases settled with
    | true =>
      simp [Handler.uncounted] at finished ⊢
      omega
    | false =>
      simp [Handler.uncounted, none rfl] at finished ⊢
      omega

theorem finish_heard (h : s.InFlight ws r) {i n : Nat} {settled settles : Bool} {o : Outcome}
    {m : SocketId × WorkerToCoordMsg} (hm : s.received[n]? = some m)
    (goes : GoesOn settled (s.firstAnswer ws n) m.2 settles o.next) : ∀ n' settled' task',
    .onMessage n' (some r) settled' task' ∈ (s.finish i n (some r) settled settles o).handlers →
      ∃ m, s.received[n']? = some m ∧ task'.heard = some m.2 ∧
        (settled' = true → ∃ ws' msg, task' = .resultReAck ws' msg) := by
  intro n' settled' task' hh
  rcases List.mem_append.mp hh with hh | hh
  · exact h.handlers n' settled' task' (List.mem_of_mem_eraseIdx hh)
  · obtain ⟨t, ht, heq⟩ := List.mem_map.mp hh
    obtain ⟨rfl, _, rfl, rfl⟩ := Handler.onMessage.inj heq
    refine ⟨m, hm, ?_⟩
    generalize o.next = ts at goes ht
    cases goes with
    | next same unsettled =>
      cases List.mem_singleton.mp ht
      exact ⟨same, fun h => by simp [unsettled] at h⟩
    | counted unsettled next => exact ⟨(next t ht).1, fun _ => (next t ht).2⟩
    | dropped none => cases ht

/-- The handler of a message of the connection. -/
theorem finish_counted (h : s.InFlight ws r) {i n : Nat} {settled settles : Bool} {task : Task}
    {o : Outcome} {m : SocketId × WorkerToCoordMsg}
    (hi : s.handlers[i]? = some (.onMessage n (some r) settled task))
    (hm : s.received[n]? = some m) (sent : ∀ m ∈ o.sent, m.2.dispatch = none)
    (goes : GoesOn settled (s.firstAnswer ws n) m.2 settles o.next)
    (strays : settles = true → s.firstAnswer ws n = false →
      s.outstanding ws = 0 ∧ s.uncounted ws r = 0) :
    (s.finish i n (some r) settled settles o).InFlight ws r := by
  have dispatches : dispatchesOn ws (s.finish i n (some r) settled settles o).sent =
      dispatchesOn ws s.sent := dispatchesOn_unchanged sent
  have first : (s.finish i n (some r) settled settles o).firstAnswer ws = s.firstAnswer ws := by
    funext n'
    simp only [firstAnswer, dispatches]
    rfl
  have outstanding : (s.finish i n (some r) settled settles o).outstanding ws =
      s.outstanding ws := by
    simp only [HubProcess.outstanding, dispatches]
    rfl
  have uncounted : (s.finish i n (some r) settled settles o).uncounted ws r +
      (if settles && s.firstAnswer ws n then 1 else 0) = s.uncounted ws r := by
    simp only [HubProcess.uncounted, first]
    exact goesOn_uncounted hi goes
  have count := h.count
  refine ⟨?_, dispatches ▸ h.distinct, ?_⟩
  · rw [outstanding]
    cases settles with
    | false =>
      rw [Bool.false_and, if_neg Bool.false_ne_true, Nat.add_zero] at uncounted
      rw [uncounted]
      exact count
    | true =>
      have inFlight : ((s.finish i n (some r) settled true o).hub.states[r]?).map
          WorkerState.inFlight = ((s.hub.states[r]?).map WorkerState.inFlight).map (· - 1) :=
        (settle_inFlight s.hub r r).trans (if_pos rfl)
      rw [inFlight, count, Option.map_some]
      cases hf : s.firstAnswer ws n with
      | true =>
        simp only [hf, Bool.and_self, ↓reduceIte] at uncounted
        congr 1
        omega
      | false =>
        obtain ⟨none, idle⟩ := strays rfl hf
        simp only [hf, Bool.and_false, Bool.false_eq_true, ↓reduceIte] at uncounted
        congr 1
        omega
  · exact finish_heard h hm goes

/-- A step that concerns no message of the connection. -/
theorem InFlight.elsewhere (h : s.InFlight ws r) {s' : HubProcess}
    (inFlight : (s'.hub.states[r]?).map WorkerState.inFlight =
      (s.hub.states[r]?).map WorkerState.inFlight)
    (received : s'.received = s.received)
    (dispatches : dispatchesOn ws s'.sent = dispatchesOn ws s.sent)
    (handlers : s'.handlers = s.handlers) : s'.InFlight ws r := by
  refine h.same ⟨inFlight, received, dispatches, by rw [handlers, uncounted]⟩ ?_
  rw [handlers, received]
  exact h.handlers

theorem write_inFlight (h : s.InFlight ws r) {s' : HubProcess} {i : Nat} {old new : Handler}
    (hi : s.handlers[i]? = some old) (before : old.state = none) (after : new.state = none)
    (hub : s'.hub = s.hub) (received : s'.received = s.received) (sent : s'.sent = s.sent)
    (handlers : s'.handlers = s.handlers.set i new) : s'.InFlight ws r := by
  have none : ∀ handler : Handler, handler.state = none → handler.uncounted r = none := by
    intro handler hs
    cases handler with
    | onHello | setConcurrency => rfl
    | onMessage n state settled task =>
      obtain rfl : state = none := hs
      cases settled <;> rfl
  have same := filterMap_set_same (Handler.uncounted r) hi
    ((none new after).trans (none old before).symm)
  refine h.same ⟨by rw [hub], received, by rw [sent], by rw [handlers, same, uncounted]⟩ ?_
  intro n settled task hm
  rw [handlers] at hm
  rw [received]
  rcases List.mem_or_eq_of_mem_set hm with hm | rfl
  · exact h.handlers n settled task hm
  · cases after

theorem hello_erased (h : s.InFlight ws r) {s' : HubProcess} {i : Nat} {handler : Handler}
    (hi : s.handlers[i]? = some handler) (none : handler.uncounted r = none)
    (inFlight : (s'.hub.states[r]?).map WorkerState.inFlight =
      (s.hub.states[r]?).map WorkerState.inFlight)
    (received : s'.received = s.received) (sent : s'.sent = s.sent)
    (handlers : s'.handlers = s.handlers.eraseIdx i) : s'.InFlight ws r := by
  have same := filterMap_eraseIdx_none (Handler.uncounted r) hi none
  refine h.same ⟨inFlight, received, by rw [sent], by rw [handlers, same, uncounted]⟩ ?_
  intro n settled task hm
  rw [handlers] at hm
  rw [received]
  exact h.handlers n settled task (List.mem_of_mem_eraseIdx hm)

theorem pingAll_inFlight (h : s.InFlight ws r) : s.pingAll.InFlight ws r := by
  refine pingAll_invariant s h ?_ ?_
  · intro s ws' h
    refine h.elsewhere rfl rfl (dispatchesOn_unchanged ?_) rfl
    intro m hm
    cases List.mem_singleton.mp hm
    rfl
  · intro s workerId ws' h
    exact h.elsewhere (by rw [Hub.states_deregister]) rfl rfl rfl

theorem answer_of_firstAnswer {n : Nat} {m : SocketId × WorkerToCoordMsg}
    (hm : s.received[n]? = some m) (none : m.2.answer = none) : s.firstAnswer ws n = false := by
  simp [firstAnswer, hm, none]

/-- The count follows the handlers of the messages. -/
theorem resume_inFlight (h : s.InFlight ws r) {i n : Nat} {state : Option StateRef}
    {settled : Bool} {task : Task} {ctx : Ctx} {s' : HubProcess}
    (hi : s.handlers[i]? = some (.onMessage n state settled task))
    (once : CountsOnce ws r ⟨s, .resume i ctx, s'⟩) :
    (s.finish i n state settled (task.settles settled)
      (task.resume { ctx with wsOpen := task.socket.any s.isOpen } (fun _ => none) s.db)).InFlight
        ws r := by
  have sent : ∀ m ∈ (task.resume { ctx with wsOpen := task.socket.any s.isOpen }
      (fun _ => none) s.db).sent, m.2.dispatch = none := fun m hm => (resume_undispatched hm).2
  by_cases mine : state = some r
  · subst mine
    obtain ⟨m, hm, heard, proper⟩ := h.handlers n settled task (List.mem_of_getElem? hi)
    refine finish_counted h hi hm sent ?_ ?_
    · exact resume_goesOn heard proper (answer_of_firstAnswer hm) _ _
    · intro settles stray
      refine once.strays n ?_ stray
      simp [counted, hi, Handler.counts, settles]
  · exact finish_other h hi mine sent

theorem fail_inFlight (h : s.InFlight ws r) {i n : Nat} {state : Option StateRef}
    {settled : Bool} {task : Task} {error : String} {s' : HubProcess}
    (hi : s.handlers[i]? = some (.onMessage n state settled task))
    (once : CountsOnce ws r ⟨s, .fail i error, s'⟩) :
    (s.finish i n state settled (task.settlesFailed settled)
      (task.fail s.db error)).InFlight ws r := by
  have sent : ∀ m ∈ (task.fail s.db error).sent, m.2.dispatch = none := by
    rw [fail_sent]
    exact fun m hm => by cases hm
  by_cases mine : state = some r
  · subst mine
    obtain ⟨m, hm, heard, proper⟩ := h.handlers n settled task (List.mem_of_getElem? hi)
    refine finish_counted h hi hm sent ?_ ?_
    · refine fail_goesOn heard proper (answer_of_firstAnswer hm) _ _ ?_
      rintro (⟨ws', workerId', msg, rfl⟩ | ⟨msg, rfl⟩) <;>
        exact once.commits i error n rfl (by simp [hi, Handler.transacts])
    · intro settles stray
      refine once.strays n ?_ stray
      simp [counted, hi, Handler.countsFailed, settles]
  · exact finish_other h hi mine sent

theorem called_inFlight (h : s.InFlight ws r) (r' : StateRef) (ws' : SocketId)
    (workerId' : WorkerId) (limit : Int) :
    HubProcess.InFlight ws r { s with
      hub := s.hub.modify r' (fun state => { state with concurrencyLimit := limit }) fun _ => rfl
      sent := s.sent ++ [(ws', .setConcurrency limit)]
      handlers := s.handlers ++ [.setConcurrency workerId' limit false] } := by
  refine h.same ⟨?_, rfl, ?_, ?_⟩ ?_
  · exact Hub.map_modify (f := fun state => { state with concurrencyLimit := limit }) s.hub r' r
      (fun _ => rfl) fun _ => rfl
  · refine dispatchesOn_unchanged ?_
    intro m hm
    cases List.mem_singleton.mp hm
    rfl
  · simp [uncounted, Handler.uncounted]
  · intro n settled task hm
    rcases List.mem_append.mp hm with hm | hm
    · exact h.handlers n settled task hm
    · cases List.mem_singleton.mp hm

/-- Each step keeps the count, where tokens are fresh and every answer is counted once. -/
theorem step_inFlight (h : s.InFlight ws r) (connected : s.Connected ws r workerId)
    {a : HubAction} {s' : HubProcess} (hstep : step s a = some s')
    (fresh : FreshJob ws ⟨s, a, s'⟩) (once : CountsOnce ws r ⟨s, a, s'⟩) : s'.InFlight ws r := by
  cases step_moves hstep with
  | connected | closing | others | unnamed => exact h.elsewhere rfl rfl rfl rfl
  | greeted =>
    refine h.received rfl rfl rfl rfl ?_ ?_
    · exact fun _ answer => by cases answer
    · simp
  | heard other last => exact message_counted h connected other last
  | left =>
    refine h.elsewhere ?_ rfl rfl rfl
    rw [Hub.states_deregister]
  | pinged => exact pingAll_inFlight h
  | called => exact called_inFlight h _ _ _ _
  | refused => exact h
  | sent =>
    obtain ⟨unsent, unanswered⟩ := fresh _ _ rfl
    exact sendJob_counted h connected unsent unanswered
  | upserted hi | updated hi => exact write_inFlight h hi rfl rfl rfl rfl rfl rfl
  | lost hi ended =>
    rcases Handler.answered_cases ended with ⟨ws', workerId', limit, rfl, rfl⟩ |
      ⟨workerId', limit, rfl, rfl⟩
    all_goals exact write_inFlight h hi rfl rfl rfl rfl rfl rfl
  | @registered i ws' workerId' limit ctx hi =>
    obtain ⟨hub, _, handlers, sent, received⟩ :=
      register_fields { s with handlers := s.handlers.eraseIdx i } ws' workerId' limit
    obtain ⟨state, hs, _⟩ := Option.map_eq_some_iff.mp connected.socket
    refine hello_erased h hi rfl ?_ received sent handlers
    rw [hub, Hub.states_set _ _ (List.getElem?_eq_some_iff.mp hs).1]
  | returned hi => exact hello_erased h hi rfl rfl rfl rfl rfl
  | resumed hi => exact resume_inFlight h hi once
  | failed hi => exact fail_inFlight h hi once

end HubProcess

end Dispatcher
