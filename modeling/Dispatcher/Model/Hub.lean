import Dispatcher.Lib.Runs
import Dispatcher.Model.Cluster

namespace Dispatcher
open Tables

/-- One object of the interface `WorkerState`. -/
structure WorkerState where
  ws : SocketId
  workerId : WorkerId
  concurrencyLimit : Int
  inFlight : Nat

/-- A reference to a `WorkerState`, as handlers and ticks keep it across awaits. -/
abbrev StateRef := Nat

/-- The `workers` map in insertion order, over all `WorkerState` objects made so
far; one that has left the map may still be referred to. -/
structure Hub where
  states : List WorkerState
  workers : Table (WorkerId × StateRef) WorkerId Prod.fst
  named : ∀ p ∈ workers.rows, (states[p.2]?).map WorkerState.workerId = some p.1

namespace Hub

def init : Hub := ⟨[], .empty, fun _ h => by cases h⟩

def get (hub : Hub) (workerId : WorkerId) : Option StateRef :=
  (hub.workers.lookup workerId).map Prod.snd

def modify (hub : Hub) (r : StateRef) (f : WorkerState → WorkerState)
    (hf : ∀ state, (f state).workerId = state.workerId) : Hub where
  states := hub.states.modify r f
  workers := hub.workers
  named := by
    intro p hp
    rw [List.getElem?_modify, Option.map_eq_map, Option.map_map, ← hub.named p hp]
    congr 1
    funext state
    by_cases h : r = p.2 <;> simp [h, hf]

/-- `this.workers.set(state.workerId, state)` with a new object: a key that is in the
map keeps its place. -/
def set (hub : Hub) (state : WorkerState) : Hub where
  states := hub.states ++ [state]
  workers :=
    if (hub.get state.workerId).isSome then
      hub.workers.update (fun p => p.1 = state.workerId) (fun p => (p.1, hub.states.length))
        fun _ => rfl
    else hub.workers.insert (state.workerId, hub.states.length)
  named := by
    have earlier : ∀ p ∈ hub.workers.rows,
        ((hub.states ++ [state])[p.2]?).map WorkerState.workerId = some p.1 := by
      intro p hp
      obtain ⟨q, hq, hn⟩ := Option.map_eq_some_iff.mp (hub.named p hp)
      rw [List.getElem?_append_left (List.getElem?_eq_some_iff.mp hq).1, hq]
      exact congrArg some hn
    intro p hp
    split at hp
    · obtain ⟨q, hq, rfl⟩ := List.mem_map.mp hp
      split
      · rename_i named
        simp [of_decide_eq_true named]
      · exact earlier q hq
    · rename_i absent
      have fresh : hub.workers.lookup state.workerId = none := by simpa [get] using absent
      rw [Table.insert_rows fresh] at hp
      rcases List.mem_append.mp hp with hp | hp
      · exact earlier p hp
      · rw [List.mem_singleton.mp hp]
        simp

def remove (hub : Hub) (workerId : WorkerId) : Hub where
  states := hub.states
  workers := hub.workers.delete fun p => p.1 = workerId
  named := fun p hp => hub.named p (List.mem_of_mem_filter hp)

def stateByWs (hub : Hub) (ws : SocketId) : Option StateRef :=
  (hub.workers.rows.find? fun p => (hub.states[p.2]?).any fun state => state.ws = ws).map Prod.snd

def openState (hub : Hub) (isOpen : SocketId → Bool) (workerId : WorkerId) :
    Option (StateRef × WorkerState) :=
  (hub.get workerId).bind fun r => (hub.states[r]?).bind fun state =>
    if isOpen state.ws then some (r, state) else none

def getAvailableWorkers (hub : Hub) (isOpen : SocketId → Bool) : List StateRef :=
  (hub.workers.rows.map Prod.snd).filter fun r => (hub.states[r]?).any fun state =>
    isOpen state.ws && (state.inFlight : Int) < state.concurrencyLimit

/-- Whether it was sent, with the socket that the message was written to. -/
def sendJob (hub : Hub) (isOpen : SocketId → Bool) (workerId : WorkerId) (msg : JobDispatch) :
    Bool × Hub × List (SocketId × CoordToWorkerMsg) :=
  match hub.openState isOpen workerId with
  | none => (false, hub, [])
  | some (r, state) =>
    (true, hub.modify r (fun state => { state with inFlight := state.inFlight + 1 }) fun _ => rfl,
      [(state.ws, .jobDispatch msg)])

/-- `state.inFlight = Math.max(0, state.inFlight - 1)` -/
def settle (hub : Hub) (r : StateRef) : Hub :=
  hub.modify r (fun state => { state with inFlight := state.inFlight - 1 }) fun _ => rfl

/-- `deregister`: only the registered socket of a worker takes its entry away. -/
def deregister (hub : Hub) (workerId : WorkerId) (ws : SocketId) : Hub :=
  match (hub.get workerId).bind (hub.states[·]?) with
  | none => hub
  | some state => if state.ws = ws then hub.remove workerId else hub

/-- The part of `setConcurrency` before its await; `none` where it returns false. -/
def setConcurrency (hub : Hub) (isOpen : SocketId → Bool) (workerId : WorkerId) (limit : Int) :
    Option (Hub × List (SocketId × CoordToWorkerMsg)) :=
  (hub.openState isOpen workerId).map fun (r, state) =>
    (hub.modify r (fun state => { state with concurrencyLimit := limit }) fun _ => rfl,
      [(state.ws, .setConcurrency limit)])

/-- The stale connection that `onHello` closes. -/
def stale (hub : Hub) (isOpen : SocketId → Bool) (workerId : WorkerId) (ws : SocketId) :
    Option SocketId :=
  (hub.openState isOpen workerId).bind fun (_, state) =>
    if state.ws = ws then none else some state.ws

end Hub

/-- The columns of `WorkerReg` that the hub and the worker keep copies of. -/
structure WorkerReg where
  workerId : WorkerId
  concurrencyLimit : Int

/-- A suspended handler of the hub. `returned` says that the repository has answered. -/
inductive Handler where
  | onHello (ws : SocketId) (workerId : WorkerId) (concurrencyLimit : Int) (returned : Bool)
  | setConcurrency (workerId : WorkerId) (limit : Int) (returned : Bool)
  /-- A handler of another message, the `n`-th received, at an await of `task`. It has
  found `state` for its socket; `settled` once it has counted the message. -/
  | onMessage (n : Nat) (state : Option StateRef) (settled : Bool) (task : Task)

/-- After this await, where the query succeeds, the handler takes one from `state.inFlight`. -/
def Task.settles (settled : Bool) : Task → Bool
  | .resultTx .. | .failedTx _ => true
  | .resultReAck .. => !settled
  | _ => false

/-- The same where the query fails: a failed lookup reads as "no row", a failed
transaction throws past the decrement. -/
def Task.settlesFailed (settled : Bool) : Task → Bool
  | .resultReAck .. => !settled
  | _ => false

def Task.socket : Task → Option SocketId
  | .resultLookup ws _ _ | .resultTx ws _ _ | .resultReAck ws _ => some ws
  | _ => none

/-- One coordinator's `WorkerHubService`, with its sockets and what it reads and
writes in the database. -/
structure HubProcess where
  hub : Hub
  /-- The sockets whose `readyState` is OPEN. -/
  opened : List SocketId
  /-- The `workerId` of each `handleConnection`, as the last hello set it. -/
  ids : List (SocketId × WorkerId)
  handlers : List Handler
  db : Db
  workerReg : Table WorkerReg WorkerId WorkerReg.workerId
  received : List (SocketId × WorkerToCoordMsg)
  sent : List (SocketId × CoordToWorkerMsg)

inductive HubAction where
  | connection (ws : SocketId)
  | message (ws : SocketId) (msg : WorkerToCoordMsg) (ctx : Ctx)
  /-- The socket leaves OPEN. -/
  | closing (ws : SocketId)
  /-- The `close` or the `error` event. -/
  | closed (ws : SocketId)
  | pingAll
  | setConcurrency (workerId : WorkerId) (limit : Int)
  | sendJob (workerId : WorkerId) (msg : JobDispatch)
  /-- The `WorkerReg` query of the `i`-th handler takes effect, or fails. -/
  | write (i : Nat)
  | writeFails (i : Nat)
  /-- The `i`-th handler runs to its next await. -/
  | resume (i : Nat) (ctx : Ctx)
  /-- The query of the `i`-th handler fails. -/
  | fail (i : Nat) (error : String)
  /-- Others write to the database. -/
  | others (db : Db)

namespace HubProcess

def init (db : Db) : HubProcess := ⟨.init, [], [], [], db, .empty, [], []⟩

def isOpen (s : HubProcess) (ws : SocketId) : Bool := ws ∈ s.opened

def idOf (s : HubProcess) (ws : SocketId) : Option WorkerId :=
  ((s.ids.reverse.find? fun p => p.1 = ws).map Prod.snd)

def close (s : HubProcess) (ws : SocketId) : HubProcess :=
  { s with opened := s.opened.filter (· ≠ ws) }

/-- The registered workers, with the states they refer to. -/
def entries (s : HubProcess) : List (WorkerId × WorkerState) :=
  s.hub.workers.rows.filterMap fun p => (s.hub.states[p.2]?).map fun state => (p.1, state)

def pingAll (s : HubProcess) : HubProcess :=
  s.entries.foldl (fun s (workerId, state) =>
    if s.isOpen state.ws then { s with sent := s.sent ++ [(state.ws, .ping)] }
    else { s with hub := s.hub.deregister workerId state.ws }) s

/-- The part of `onHello` after its await. -/
def register (s : HubProcess) (ws : SocketId) (workerId : WorkerId) (concurrencyLimit : Int) :
    HubProcess :=
  let s := match s.hub.stale s.isOpen workerId ws with
    | some ws' => s.close ws'
    | none => s
  { s with hub := s.hub.set { ws, workerId, concurrencyLimit, inFlight := 0 } }

/-- `INSERT ... ON CONFLICT ("WorkerID") DO UPDATE` -/
def upsert (s : HubProcess) (workerId : WorkerId) (concurrencyLimit : Int) : HubProcess :=
  let workerReg := s.workerReg.insert { workerId, concurrencyLimit }
  { s with
    workerReg := workerReg.update (fun row => row.workerId = workerId)
      (fun row => { row with concurrencyLimit }) fun _ => rfl }

def update (s : HubProcess) (workerId : WorkerId) (concurrencyLimit : Int) : HubProcess :=
  { s with
    workerReg := s.workerReg.update (fun row => row.workerId = workerId)
      (fun row => { row with concurrencyLimit }) fun _ => rfl }

def finish (s : HubProcess) (i n : Nat) (state : Option StateRef) (settled settles : Bool)
    (o : Outcome) : HubProcess :=
  { s with
    hub := match state with
      | some r => if settles then s.hub.settle r else s.hub
      | none => s.hub
    handlers := s.handlers.eraseIdx i ++
      o.next.map fun task => .onMessage n state (settled || settles) task
    db := o.db
    sent := s.sent ++ o.sent }

def step : Runs.Step HubProcess HubAction := fun s a =>
  match a with
  | .connection ws => some { s with opened := s.opened ++ [ws] }
  | .message ws msg ctx =>
    let s := { s with received := s.received ++ [(ws, msg)] }
    match msg with
    | .workerHello workerId concurrencyLimit =>
      some { s with
        ids := s.ids ++ [(ws, workerId)]
        handlers := s.handlers ++ [.onHello ws workerId concurrencyLimit false] }
    | msg =>
      let state := s.hub.stateByWs ws
      let workerId := (state.bind (s.hub.states[·]?)).map WorkerState.workerId
      let next := (onMessage ctx workerId ws msg).map fun task =>
        .onMessage (s.received.length - 1) state false task
      some { s with handlers := s.handlers ++ next }
  | .closing ws => some (s.close ws)
  | .closed ws =>
    let s := s.close ws
    match s.idOf ws with
    | some workerId => some { s with hub := s.hub.deregister workerId ws }
    | none => some s
  | .pingAll => some s.pingAll
  | .setConcurrency workerId limit =>
    match s.hub.setConcurrency s.isOpen workerId limit with
    | some (hub, sent) => some { s with
        hub
        sent := s.sent ++ sent
        handlers := s.handlers ++ [.setConcurrency workerId limit false] }
    | none => some s
  | .sendJob workerId msg =>
    let (_, hub, sent) := s.hub.sendJob s.isOpen workerId msg
    some { s with hub, sent := s.sent ++ sent }
  | .write i =>
    match s.handlers[i]? with
    | some (.onHello ws workerId limit false) =>
      some { s.upsert workerId limit with
        handlers := s.handlers.set i (.onHello ws workerId limit true) }
    | some (.setConcurrency workerId limit false) =>
      some { s.update workerId limit with
        handlers := s.handlers.set i (.setConcurrency workerId limit true) }
    | _ => none
  | .writeFails i =>
    match s.handlers[i]? with
    | some (.onHello ws workerId limit false) =>
      some { s with handlers := s.handlers.set i (.onHello ws workerId limit true) }
    | some (.setConcurrency workerId limit false) =>
      some { s with handlers := s.handlers.set i (.setConcurrency workerId limit true) }
    | _ => none
  | .resume i ctx =>
    match s.handlers[i]? with
    | some (.onHello ws workerId limit true) =>
      some ({ s with handlers := s.handlers.eraseIdx i }.register ws workerId limit)
    | some (.setConcurrency _ _ true) => some { s with handlers := s.handlers.eraseIdx i }
    | some (.onMessage n state settled task) =>
      let ctx := { ctx with wsOpen := task.socket.any s.isOpen }
      some (s.finish i n state settled (task.settles settled) (task.resume ctx (fun _ => none) s.db))
    | _ => none
  | .fail i error =>
    match s.handlers[i]? with
    | some (.onMessage n state settled task) =>
      some (s.finish i n state settled (task.settlesFailed settled) (task.fail s.db error))
    | _ => none
  | .others db => some { s with db }

end HubProcess

end Dispatcher
