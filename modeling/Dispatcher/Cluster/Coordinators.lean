import Dispatcher.Cluster.Messages
import Dispatcher.Lib.Simulations

namespace Dispatcher
open Runs

inductive Part where
  | hello | hub | dispatch | apart
  deriving DecidableEq

def Task.part : Task → Part
  | .helloUpsert .. => .hello
  | .resultLookup .. | .resultTx .. | .resultReAck .. | .failedTx _ | .heartbeatUpdate .. => .hub
  | .dispatchTx _ | .dispatchSend .. => .dispatch
  | .reaperTx _ | .submitLookup .. | .submitTx .. | .submitWinner .. | .cancelLookup _
  | .cancelTx _ => .apart

section

variable {t t' : Task} {ctx : Ctx} {wsOf : WorkerId → Option SocketId} {db : Db} {error : String}

theorem resume_part (h : t' ∈ (t.resume ctx wsOf db).next) : t'.part = t.part := by
  cases t with
  | helloUpsert | failedTx | heartbeatUpdate | reaperTx | submitWinner | cancelTx => cases h
  | resultLookup | resultTx | resultReAck | dispatchTx | dispatchSend | submitLookup | submitTx
  | cancelLookup =>
    simp only [Task.resume] at h
    repeat' split at h
    all_goals first
      | cases h; done
      | cases List.mem_singleton.mp h; rfl

theorem fail_part (h : t' ∈ (t.fail db error).next) : t'.part = t.part := by
  cases t with
  | resultLookup | submitLookup =>
    cases List.mem_singleton.mp h
    rfl
  | _ => cases h

/-- Only the send of a dispatch looks a socket up. -/
theorem resume_wsOf (wsOf' : WorkerId → Option SocketId) (h : t.part ≠ .dispatch) :
    t.resume ctx wsOf db = t.resume ctx wsOf' db := by
  cases t with
  | dispatchTx | dispatchSend => exact absurd rfl h
  | _ => rfl

theorem resume_registered (h : t.part ≠ .hello) : (t.resume ctx wsOf db).registered = none := by
  cases t with
  | helloUpsert => exact absurd rfl h
  | failedTx | heartbeatUpdate | reaperTx | submitWinner | cancelTx => rfl
  | resultLookup | resultTx | resultReAck | dispatchTx | dispatchSend | submitLookup | submitTx
  | cancelLookup =>
    simp only [Task.resume]
    repeat' split
    all_goals rfl

theorem fail_registered (h : t.part ≠ .hello) : (t.fail db error).registered = none := by
  cases t with
  | helloUpsert => exact absurd rfl h
  | _ => rfl

theorem resume_answers (h : t.part ≠ .apart) : (t.resume ctx wsOf db).answers = [] := by
  cases t with
  | reaperTx | submitLookup | submitTx | submitWinner | cancelLookup | cancelTx => exact absurd rfl h
  | helloUpsert | failedTx | heartbeatUpdate => rfl
  | resultLookup | resultTx | resultReAck | dispatchTx | dispatchSend =>
    simp only [Task.resume]
    repeat' split
    all_goals rfl

theorem fail_answers (h : t.part ≠ .apart) : (t.fail db error).answers = [] := by
  cases t with
  | reaperTx | submitLookup | submitTx | submitWinner | cancelLookup | cancelTx => exact absurd rfl h
  | _ => rfl

theorem resume_sent_apart (h : t.part = .apart) : (t.resume ctx wsOf db).sent = [] := by
  cases t with
  | submitLookup | submitTx | cancelLookup =>
    simp only [Task.resume]
    repeat' split
    all_goals rfl
  | reaperTx | submitWinner | cancelTx => rfl
  | _ => cases h

end

/-- What comes in from the clients and the workers. -/
def Action.input : Action → List Action
  | .post c idempotencyKey payload => [.post c idempotencyKey payload]
  | .delete c jobId => [.delete c jobId]
  | .workerSend ws msg => [.workerSend ws msg]
  | .receive .. | .deregister .. | .dispatchTick .. | .reaperTick .. | .resume .. | .fail .. | .crash _
  | .skipTokens _ => []

namespace Cluster

def input (e : Event Cluster Action) : List Action := e.action.input

def rosterOf (registry : List Registration) (c : CoordinatorId) : List (WorkerId × SocketId) :=
  (registry.filter fun r => r.coordinatorId = c).map fun r => (r.workerId, r.ws)

def roster (s : Cluster) (c : CoordinatorId) : List (WorkerId × SocketId) := rosterOf s.registry c

theorem stateByWs_roster (s : Cluster) (c : CoordinatorId) (ws : SocketId) :
    s.stateByWs c ws = ((s.roster c).find? fun p => p.2 = ws).map Prod.fst := by
  rw [roster, rosterOf, List.find?_map, List.find?_filter, Option.map_map, stateByWs]
  simp [Function.comp_def]

theorem wsOf_roster (s : Cluster) (c : CoordinatorId) (workerId : WorkerId) :
    s.wsOf c workerId = ((s.roster c).find? fun p => p.1 = workerId).map Prod.snd := by
  rw [roster, rosterOf, List.find?_map, List.find?_filter, Option.map_map, wsOf]
  simp [Function.comp_def]

variable {registry : List Registration} {c c' : CoordinatorId}

/-- What is dropped by worker and socket, at one coordinator. -/
theorem rosterOf_filter {p : WorkerId × SocketId → Bool} {q : Registration → Bool}
    (drops : ∀ r, r.coordinatorId = c → q r = p (r.workerId, r.ws)) :
    rosterOf (registry.filter q) c = (rosterOf registry c).filter p := by
  simp only [rosterOf, List.filter_map, List.filter_filter]
  congr 1
  apply List.filter_congr
  intro r _
  by_cases here : r.coordinatorId = c
  · simp [here, drops r here]
  · simp [here]

/-- What is taken away of other coordinators leaves this roster alone. -/
theorem rosterOf_kept {q : Registration → Bool} (keeps : ∀ r, r.coordinatorId = c → q r = true) :
    rosterOf (registry.filter q) c = rosterOf registry c := by
  rw [rosterOf_filter (p := fun _ => true) keeps, List.filter_true]

theorem rosterOf_deregister (workerId : WorkerId) (ws : SocketId) :
    rosterOf (registry.filter fun r =>
      !(r.coordinatorId = c && r.workerId = workerId && r.ws = ws)) c =
        (rosterOf registry c).filter fun p => p ≠ (workerId, ws) := by
  apply rosterOf_filter
  intro r here
  simp [here]

theorem rosterOf_register (workerId : WorkerId) (ws : SocketId) :
    rosterOf (register registry c workerId ws) c =
      ((rosterOf registry c).filter fun p => p.1 ≠ workerId) ++ [(workerId, ws)] := by
  rw [register, rosterOf, List.filter_append, List.map_append]
  congr 1
  · apply rosterOf_filter
    intro r here
    simp [here]
  · simp

theorem rosterOf_register_of_ne (other : c' ≠ c) (workerId : WorkerId) (ws : SocketId) :
    rosterOf (register registry c workerId ws) c' = rosterOf registry c' := by
  rw [register, rosterOf, List.filter_append, List.map_append]
  have new : ([⟨c, workerId, ws⟩] : List Registration).filter (fun r => r.coordinatorId = c') = [] := by
    simp [Ne.symm other]
  rw [new, List.map_nil, List.append_nil]
  exact rosterOf_kept fun r here => by simp [here, other]

def tasksOf (s : Cluster) (c : CoordinatorId) : List Task :=
  (s.tasks.filter fun p => p.1 = c).map Prod.snd

variable {s u v w : Cluster} {t : Task}

theorem mem_tasksOf : t ∈ s.tasksOf c ↔ (c, t) ∈ s.tasks := by
  simp [tasksOf]

/-- A later state in which nothing has come in and nothing has changed at the other
coordinators. -/
structure Beside (c : CoordinatorId) (u v : Cluster) : Prop where
  quiet : ∃ es, Run step u es v ∧ visible input es = []
  wire : v.wire = u.wire
  answers : v.answers = u.answers
  tasks : ∀ c' ≠ c, (v.tasksOf c').Perm (u.tasksOf c')
  roster : ∀ c' ≠ c, v.roster c' = u.roster c'

theorem Beside.refl : Beside c u u :=
  ⟨⟨[], .nil, rfl⟩, rfl, rfl, fun _ _ => .refl _, fun _ _ => rfl⟩

theorem Beside.trans (h : Beside c u v) (h' : Beside c v w) : Beside c u w where
  quiet := by
    obtain ⟨es, run, none⟩ := h.quiet
    obtain ⟨fs, run', none'⟩ := h'.quiet
    exact ⟨es ++ fs, run.append run', by rw [visible_append, none, none', List.append_nil]⟩
  wire := h'.wire.trans h.wire
  answers := h'.answers.trans h.answers
  tasks := fun c' other => (h'.tasks c' other).trans (h.tasks c' other)
  roster := fun c' other => (h'.roster c' other).trans (h.roster c' other)

/-- A step that nothing comes in for is a run without inputs. -/
theorem quiet_step {a : Action} (taken : step u a = some v) (none : a.input = []) :
    ∃ es, Run step u es v ∧ visible input es = [] :=
  ⟨_, .one taken, by rw [visible_singleton]; exact none⟩

theorem spawn_tasksOf (s : Cluster) (c : CoordinatorId) (next : List Task) :
    (s.spawn c next).tasksOf c = s.tasksOf c ++ next := by
  simp [tasksOf, spawn, List.filter_map, Function.comp_def]

theorem spawn_tasksOf_ne (s : Cluster) (other : c' ≠ c) (next : List Task) :
    (s.spawn c next).tasksOf c' = s.tasksOf c' := by
  simp [tasksOf, spawn, List.filter_map, Function.comp_def, Ne.symm other]

theorem tasksOf_perm {i : Nat} (hi : s.tasks[i]? = some (c, t)) (c' : CoordinatorId) :
    (s.tasksOf c').Perm ((if c = c' then [t] else []) ++
      ((s.tasks.eraseIdx i).filter fun p => p.1 = c').map Prod.snd) := by
  obtain ⟨hlt, ht⟩ := List.getElem?_eq_some_iff.mp hi
  have split := (List.getElem_cons_eraseIdx_perm hlt).symm
  rw [ht] at split
  refine ((split.filter _).map _).trans ?_
  by_cases here : c = c' <;> simp [here]

/-- The task that is over leaves the list, and its next ones come in. -/
theorem finish_tasksOf {i : Nat} (hi : s.tasks[i]? = some (c, t)) (o : Outcome) :
    (t :: (s.finish i c o).tasksOf c).Perm (s.tasksOf c ++ o.next) := by
  have rest := (tasksOf_perm hi c).append_right o.next
  rw [if_pos rfl] at rest
  refine .trans (.of_eq ?_) rest.symm
  simp [tasksOf, finish, List.filter_map, Function.comp_def]

theorem finish_tasksOf_ne {i : Nat} (hi : s.tasks[i]? = some (c, t)) (o : Outcome)
    (other : c' ≠ c) : ((s.finish i c o).tasksOf c').Perm (s.tasksOf c') := by
  have rest := tasksOf_perm hi c'
  rw [if_neg other.symm] at rest
  refine .trans (.of_eq ?_) rest.symm
  simp [tasksOf, finish, List.filter_map, Function.comp_def, Ne.symm other]

theorem spawn_beside {a : Action} {next : List Task} (taken : step s a = some (s.spawn c next))
    (none : a.input = []) : Beside c s (s.spawn c next) where
  quiet := quiet_step taken none
  wire := rfl
  answers := rfl
  tasks := fun _ other => .of_eq (spawn_tasksOf_ne s other next)
  roster := fun _ _ => rfl

theorem left_beside (workerId : WorkerId) (ws : SocketId) :
    Beside c s { s with registry := s.registry.filter fun r =>
      !(r.coordinatorId = c && r.workerId = workerId && r.ws = ws) } where
  quiet := quiet_step (a := .deregister c workerId ws) rfl rfl
  wire := rfl
  answers := rfl
  tasks := fun _ _ => .refl _
  roster := fun _ other => rosterOf_kept fun r here => by simp [here, other]

/-- The end of an await concerns its own coordinator only. -/
theorem finish_beside {a : Action} {i : Nat} {o : Outcome} (hi : s.tasks[i]? = some (c, t))
    (taken : step s a = some (s.finish i c o)) (none : a.input = []) (silent : o.answers = []) :
    Beside c s (s.finish i c o) where
  quiet := quiet_step taken none
  wire := rfl
  answers := by rw [finish, silent, List.append_nil]
  tasks := fun _ other => finish_tasksOf_ne hi o other
  roster := by
    intro c' other
    simp only [finish, roster]
    split
    · exact rosterOf_register_of_ne other _ _
    · rfl

variable {rest : List Task}

/-- One of the handlers of a coordinator ends, and the others stay. -/
theorem finish_split {i : Nat} (hi : s.tasks[i]? = some (c, t)) (split : (s.tasksOf c).Perm (t :: rest))
    (o : Outcome) : ((s.finish i c o).tasksOf c).Perm (rest ++ o.next) :=
  ((finish_tasksOf hi o).trans (split.append_right o.next)).cons_inv

/-- A suspended handler of a coordinator has a place among the cluster's. -/
theorem task_at (split : (s.tasksOf c).Perm (t :: rest)) : ∃ i : Nat, s.tasks[i]? = some (c, t) :=
  List.getElem?_of_mem (mem_tasksOf.mp (split.symm.subset List.mem_cons_self))

/-- A handler that registers nobody runs to its next await. -/
theorem task_resumes (split : (s.tasksOf c).Perm (t :: rest)) (ctx : Ctx)
    (part : t.part = .hub ∨ t.part = .dispatch) : ∃ v, Beside c s v ∧
      let o := t.resume { ctx with coordinatorId := c } (s.wsOf c) s.db
      v.db = o.db ∧ v.sent = s.sent ++ o.sent ∧ (v.tasksOf c).Perm (rest ++ o.next) ∧
        v.roster c = s.roster c := by
  obtain ⟨i, hi⟩ := task_at split
  have known : t.part ≠ .hello ∧ t.part ≠ .apart := by
    rcases part with part | part <;> rw [part] <;> decide
  have taken : step s (.resume i ctx) = some (s.finish i c
      (t.resume { ctx with coordinatorId := c } (s.wsOf c) s.db)) := by simp [step, hi]
  refine ⟨_, finish_beside hi taken rfl (resume_answers known.2), rfl, rfl, finish_split hi split _, ?_⟩
  simp only [finish, roster, resume_registered known.1]

/-- The same where its query fails. -/
theorem task_fails (split : (s.tasksOf c).Perm (t :: rest)) (error : String)
    (part : t.part = .hub ∨ t.part = .dispatch) : ∃ v, Beside c s v ∧
      let o := t.fail s.db error
      v.db = o.db ∧ v.sent = s.sent ++ o.sent ∧ (v.tasksOf c).Perm (rest ++ o.next) ∧
        v.roster c = s.roster c := by
  obtain ⟨i, hi⟩ := task_at split
  have known : t.part ≠ .hello ∧ t.part ≠ .apart := by
    rcases part with part | part <;> rw [part] <;> decide
  have taken : step s (.fail i error) = some (s.finish i c (t.fail s.db error)) := by simp [step, hi]
  refine ⟨_, finish_beside hi taken rfl (fail_answers known.2), rfl, rfl, finish_split hi split _, ?_⟩
  simp only [finish, roster, fail_registered known.1]

/-- A hello registers its worker at the end of the list. -/
theorem registers {ws : SocketId} {workerId : WorkerId}
    (split : (s.tasksOf c).Perm (.helloUpsert ws workerId :: rest)) : ∃ v, Beside c s v ∧
      v.db = s.db ∧ v.sent = s.sent ∧ (v.tasksOf c).Perm rest ∧
        v.roster c = ((s.roster c).filter fun p => p.1 ≠ workerId) ++ [(workerId, ws)] := by
  obtain ⟨i, hi⟩ := task_at split
  let ctx : Ctx := .quiet c 0
  have taken : step s (.resume i ctx) = some (s.finish i c
      { db := s.db, registered := some (workerId, ws) }) := by simp [step, hi, Task.resume]
  have tasks := finish_split hi split { db := s.db, registered := some (workerId, ws) }
  rw [List.append_nil] at tasks
  refine ⟨_, finish_beside hi taken rfl rfl, rfl, List.append_nil _, tasks, ?_⟩
  exact rosterOf_register workerId ws

/-- A hello that comes in once more registers its worker again. -/
theorem registers_again {ws : SocketId} {workerId : WorkerId} {limit : Int}
    (heard : (ws, .workerHello workerId limit) ∈ s.wire) : ∃ v, Beside c s v ∧
      v.db = s.db ∧ v.sent = s.sent ∧ (v.tasksOf c).Perm (s.tasksOf c) ∧
        v.roster c = ((s.roster c).filter fun p => p.1 ≠ workerId) ++ [(workerId, ws)] := by
  obtain ⟨k, hk⟩ := List.getElem?_of_mem heard
  have taken : step s (.receive c k (.quiet c 0)) = some (s.spawn c [.helloUpsert ws workerId]) := by
    simp [step, hk, onMessage]
  have split : ((s.spawn c [.helloUpsert ws workerId]).tasksOf c).Perm
      (.helloUpsert ws workerId :: s.tasksOf c) := by
    rw [spawn_tasksOf]
    exact List.perm_append_singleton _ _
  obtain ⟨v, beside, db, sent, tasks, roster⟩ := registers split
  exact ⟨v, (spawn_beside taken rfl).trans beside, db, sent, tasks, roster⟩

/-- Registering the workers of a list one after another moves them to the end, in its order. -/
theorem registers_all (es : List (WorkerId × SocketId)) (nodup : (es.map Prod.fst).Nodup)
    (heard : ∀ p ∈ es, ∃ limit, (p.2, .workerHello p.1 limit) ∈ s.wire) : ∃ v, Beside c s v ∧
      v.db = s.db ∧ v.sent = s.sent ∧ (v.tasksOf c).Perm (s.tasksOf c) ∧
        v.roster c = ((s.roster c).filter fun p => p.1 ∉ es.map Prod.fst) ++ es := by
  induction es generalizing s with
  | nil =>
    refine ⟨s, .refl, rfl, rfl, .refl _, ?_⟩
    simp
  | cons p rest ih =>
    obtain ⟨fresh, nodup⟩ := List.nodup_cons.mp nodup
    obtain ⟨limit, first⟩ := heard p List.mem_cons_self
    obtain ⟨u, toward, db, sent, tasks, roster⟩ := registers_again (c := c) first
    have later : ∀ q ∈ rest, ∃ limit, (q.2, .workerHello q.1 limit) ∈ u.wire := by
      intro q hq
      rw [toward.wire]
      exact heard q (List.mem_cons_of_mem _ hq)
    obtain ⟨v, beside, db', sent', tasks', roster'⟩ := ih nodup later
    refine ⟨v, toward.trans beside, db'.trans db, sent'.trans sent, tasks'.trans tasks, ?_⟩
    have last : [p].filter (fun q => q.1 ∉ rest.map Prod.fst) = [p] :=
      List.filter_cons_of_pos (decide_eq_true fresh)
    rw [roster', roster, List.filter_append, last, List.filter_filter, List.append_assoc]
    congr 1
    apply List.filter_congr
    intro q _
    rw [List.map_cons]
    simp only [List.mem_cons, not_or, Bool.decide_and, Bool.and_comm]

end Cluster

end Dispatcher
