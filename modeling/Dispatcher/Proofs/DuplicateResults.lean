import Dispatcher.Proofs.AckDurability
import Dispatcher.Proofs.MessageFencing
import Mathlib.Algebra.GroupWithZero.Nat

namespace Dispatcher
open Tables Runs

/-- The socket of a handler at work on a result for the job and the token of `msg`. -/
def Task.copyOf (msg : JobResult) : Task → Option SocketId
  | .resultLookup ws _ m | .resultTx ws _ m | .resultReAck ws m =>
    if m.jobId = msg.jobId ∧ m.token = msg.token then some ws else none
  | _ => none

/-- The awaits that a copy has at most ahead of it. -/
def Task.awaits (msg : JobResult) (t : Task) : Nat :=
  if (t.copyOf msg).isNone then 0 else
  match t with
  | .resultLookup .. => 3
  | .resultTx .. => 2
  | _ => 1

def CoordToWorkerMsg.acks (j : JobId) : CoordToWorkerMsg → Bool
  | .jobAck jobId => jobId = j
  | _ => false

def JobEvent.accepts : JobEvent → Bool
  | .accepted .. => true
  | _ => false

/-- `consumeDropAck` fires for the accepted result. -/
def JobEvent.dropsAck : JobEvent → Bool
  | .accepted ctx _ _ _ => ctx.dropAck
  | _ => false

section events

variable (msg : JobResult) (ws : SocketId) (e : Event Cluster Action)

def copied : Option SocketId := (e.before.resumed e.action).bind fun p => p.2.copyOf msg

def arrived : Option SocketId :=
  match e.action with
  | .receive _ k _ => match e.before.wire[k]? with
    | some (ws, .jobResult m) => if m.jobId = msg.jobId ∧ m.token = msg.token then some ws else none
    | _ => none
  | _ => none

def acceptsCopy : Bool := (e.before.event e.action msg.jobId).any JobEvent.accepts

/-- The step resumes a copy on this socket and sends its ack there. -/
def acksCopy : Bool :=
  copied msg e = some ws && (e.after.sent.drop e.before.sent.length).any fun m =>
    m.1 = ws && m.2.acks msg.jobId

/-- The step accepts the copy on this socket and drops its ack. -/
def withholdsAck : Bool :=
  copied msg e = some ws && (e.before.event e.action msg.jobId).any JobEvent.dropsAck

end events

def Cluster.copies (msg : JobResult) (s : Cluster) : List Task :=
  (s.tasks.map Prod.snd).filter fun t => (t.copyOf msg).isSome

/-- The awaits that all copies have at most ahead of them. -/
def Cluster.awaits (msg : JobResult) (s : Cluster) : Nat :=
  ((s.copies msg).map (Task.awaits msg)).sum

def Cluster.inFlight (msg : JobResult) (ws : SocketId) (s : Cluster) : Nat :=
  (s.copies msg).countP fun t => t.copyOf msg = some ws

/-- Nothing but copies of the result touches its job, each from a socket that its
worker is registered on; the sockets are open, and no query of a copy fails. -/
structure Undisturbed (w : WorkerId) (msg : JobResult) (e : Event Cluster Action) : Prop where
  alone : e.before.event e.action msg.jobId ≠ none → copied msg e ≠ none
  registered : ∀ c k ctx ws m, e.action = .receive c k ctx →
    e.before.wire[k]? = some (ws, .jobResult m) → m.jobId = msg.jobId → m.token = msg.token →
    m = msg ∧ e.before.stateByWs c ws = some w
  opened : ∀ i ctx, e.action = .resume i ctx → copied msg e ≠ none → ctx.wsOpen = true
  noFailure : ∀ i error p, e.action = .fail i error → e.before.tasks[i]? = some p →
    p.2.copyOf msg = none
  noCrash : ∀ c, e.action = .crash c → ∀ p ∈ e.before.tasks, p.1 = c → p.2.copyOf msg = none

theorem leaseOfWorker_eq (db : Db) (j : JobId) (w : WorkerId) :
    leaseOfWorker db j w = (db.leases.lookup j).filter fun l => l.workerId = w := by
  unfold leaseOfWorker Table.lookup
  rw [← List.head?_filter, ← List.head?_filter]
  have rows := Table.filter_key db.leases j
  have split : (db.leases.rows.filter fun l => l.jobId = j && l.workerId = w) =
      (db.leases.rows.filter fun l => l.jobId = j).filter fun l => l.workerId = w := by
    rw [List.filter_filter]
    congr 1
    funext l
    exact Bool.and_comm _ _
  rw [split, rows]
  cases (db.leases.lookup j) with
  | none => rfl
  | some l =>
    by_cases h : l.workerId = w <;> simp [Option.filter_some, h]

theorem alreadyDone_of_status {db : Db} {j : JobId} (h : db.statusOf j = some .succeeded) :
    alreadyDone db j = true := by
  obtain ⟨r, hr, hs⟩ := Option.map_eq_some_iff.mp h
  obtain ⟨hm, hj⟩ := Table.lookup_eq_some.mp hr
  exact List.any_eq_true.mpr ⟨r, hm, by simp [hj, hs]⟩

section copies

variable {w : WorkerId} {msg : JobResult} {ws : SocketId} {ctx : Ctx} {db : Db}
  {wsOf : WorkerId → Option SocketId}

/-- The lookup finds the current lease and lets the copy into the transaction. -/
theorem lookup_current (held : db.holds msg.jobId w msg.token = true) :
    (Task.resultLookup ws w msg).resume ctx wsOf db = { db, next := [.resultTx ws w msg] } := by
  obtain ⟨l, hl, hw, ht⟩ := holds_iff.mp held
  have found : leaseOfWorker db msg.jobId w = some l := by
    rw [leaseOfWorker_eq, hl, Option.filter_some, if_pos (by simpa using hw)]
  simp only [Task.resume, found, ht, ↓reduceIte]

theorem tx_accepted (held : db.holds msg.jobId w msg.token = true)
    (hs : db.statusOf msg.jobId = some .dispatched) (opened : ctx.wsOpen = true) :
    (Task.resultTx ws w msg).resume ctx wsOf db =
      { db := (onResultTx ctx w msg db).2,
        sent := if ctx.dropAck then [] else [(ws, .jobAck msg.jobId)] } := by
  have accepted : (onResultTx ctx w msg db).1 = true := by rw [onResultTx_accepted held hs]
  simp only [Task.resume, accepted, ↓reduceIte, sendMsg, opened]
  split <;> rfl

theorem tx_stale (gone : db.holds msg.jobId w msg.token = false) :
    (Task.resultTx ws w msg).resume ctx wsOf db = { db, next := [.resultReAck ws msg] } := by
  simp only [Task.resume, onResultTx_stale gone, Bool.false_eq_true, ↓reduceIte]

theorem reAck_done (hs : db.statusOf msg.jobId = some .succeeded) (opened : ctx.wsOpen = true) :
    (Task.resultReAck ws msg).resume ctx wsOf db =
      { db, sent := [(ws, .jobAck msg.jobId)] } := by
  simp only [Task.resume, alreadyDone_of_status hs, sendMsg, opened, ↓reduceIte]

end copies

/-- A copy at its lookup or at its transaction. -/
def Task.Undecided (w : WorkerId) (msg : JobResult) (ws : SocketId) (t : Task) : Prop :=
  t = .resultLookup ws w msg ∨ t = .resultTx ws w msg

theorem Task.Undecided.copy {w : WorkerId} {msg : JobResult} {ws : SocketId} {t : Task}
    (h : t.Undecided w msg ws) : t.copyOf msg = some ws := by
  rcases h with rfl | rfl <;> simp [Task.copyOf]

/-- A handler that is at work on no copy works on another message. -/
theorem copyOf_eq_none {t : Task} {msg : JobResult} : t.copyOf msg = none ↔
    ∀ m, t.heard = some (.jobResult m) → ¬ (m.jobId = msg.jobId ∧ m.token = msg.token) := by
  cases t <;> simp [Task.copyOf, Task.heard]

/-- The rows of the job and what is left to do for its copies: all is as it was,
or one copy has been accepted. -/
structure CopyState (w : WorkerId) (msg : JobResult) (s₀ s : Cluster) (accepted : Nat) : Prop where
  copies : ∀ p ∈ s.tasks, ∀ ws, p.2.copyOf msg = some ws →
    p.2.Undecided w msg ws ∨ accepted = 1 ∧ p.2 = .resultReAck ws msg
  once : accepted ≤ 1
  waiting : accepted = 0 → s.db.view msg.jobId = s₀.db.view msg.jobId
  done : accepted = 1 → ∃ ctx,
    s.db.view msg.jobId = (onResultTx ctx w msg s₀.db).2.view msg.jobId

theorem view_holds {db db' : Db} {j : JobId} (h : db'.view j = db.view j) (w : WorkerId)
    (token : Token) : db'.holds j w token = db.holds j w token := by
  have lease : db'.leases.lookup j = db.leases.lookup j := congrArg JobView.lease h
  unfold Db.holds
  rw [lease]

theorem view_statusOf {db db' : Db} {j : JobId} (h : db'.view j = db.view j) :
    db'.statusOf j = db.statusOf j := congrArg JobView.status h

theorem accepted_view (ctx : Ctx) {w : WorkerId} {msg : JobResult} {db : Db}
    (held : db.holds msg.jobId w msg.token = true)
    (hs : db.statusOf msg.jobId = some .dispatched) :
    (onResultTx ctx w msg db).2.view msg.jobId =
      (JobEvent.accepted ctx w msg.token msg.result).apply msg.jobId (db.view msg.jobId) := by
  rw [onResultTx_view, if_pos rfl, resultEvent, if_pos held, if_pos hs]
  rfl

/-- After the accepted copy the lease is gone and the job has succeeded. -/
theorem accepted_gone (ctx : Ctx) {w : WorkerId} {msg : JobResult} {db : Db}
    (held : db.holds msg.jobId w msg.token = true)
    (hs : db.statusOf msg.jobId = some .dispatched) :
    (onResultTx ctx w msg db).2.holds msg.jobId w msg.token = false ∧
      (onResultTx ctx w msg db).2.statusOf msg.jobId = some .succeeded := by
  have hv := accepted_view ctx held hs
  obtain ⟨r, hr, hd⟩ := Option.map_eq_some_iff.mp hs
  have lease : (onResultTx ctx w msg db).2.leases.lookup msg.jobId = none :=
    congrArg JobView.lease hv
  have status : (onResultTx ctx w msg db).2.statusOf msg.jobId = _ := congrArg JobView.status hv
  constructor
  · simp [Db.holds, lease]
  · have hr' : (db.view msg.jobId).job = some r := hr
    simp [status, JobView.status, JobEvent.apply, JobView.patchDispatched, hr', hd,
      Db.JobPatch.on]

/-- One await of a copy, by what came before: a copy goes on, gets its ack, or is
the first to be accepted. -/
inductive Handled (ctx : Ctx) (w : WorkerId) (msg : JobResult) (ws : SocketId) (db : Db) :
    Task → Outcome → Option JobEvent → Nat → Nat → Prop where
  | goesOn (fewer : t'.awaits msg < t.awaits msg)
      (next : t'.Undecided w msg ws ∨ n = 1 ∧ t' = .resultReAck ws msg) :
      Handled ctx w msg ws db t { db, next := [t'] } none n n
  | acked (last : 0 < t.awaits msg) :
      Handled ctx w msg ws db t { db, sent := [(ws, .jobAck msg.jobId)] } none 1 1
  | accepted (last : 0 < t.awaits msg) :
      Handled ctx w msg ws db t
        { db := (onResultTx ctx w msg db).2,
          sent := if ctx.dropAck then [] else [(ws, .jobAck msg.jobId)] }
        (some (.accepted ctx w msg.token msg.result)) 0 1

/-- One await of a copy goes one of these ways, whoever was accepted before it. -/
theorem copy_handled (ctx : Ctx) {w : WorkerId} {msg : JobResult} {ws : SocketId} {db : Db}
    (wsOf : WorkerId → Option SocketId) {t : Task} {n : Nat} (once : n ≤ 1)
    (waiting : n = 0 → db.holds msg.jobId w msg.token = true ∧
      db.statusOf msg.jobId = some .dispatched)
    (done : n = 1 → db.holds msg.jobId w msg.token = false ∧
      db.statusOf msg.jobId = some .succeeded)
    (copy : t.Undecided w msg ws ∨ n = 1 ∧ t = .resultReAck ws msg)
    (opened : ctx.wsOpen = true) :
    ∃ m, Handled ctx w msg ws db t (t.resume ctx wsOf db) (t.event ctx db msg.jobId) n m := by
  rcases copy with (rfl | rfl) | ⟨rfl, rfl⟩
  · obtain rfl | rfl : n = 0 ∨ n = 1 := by omega
    · rw [lookup_current (waiting rfl).1]
      exact ⟨0, .goesOn (by simp [Task.awaits, Task.copyOf]) (.inl (.inr rfl))⟩
    · rw [staleLookup (done rfl).1]
      exact ⟨1, .goesOn (by simp [Task.awaits, Task.copyOf]) (.inr ⟨rfl, rfl⟩)⟩
  · have event : (Task.resultTx ws w msg).event ctx db msg.jobId = resultEvent ctx w msg db := by
      simp [Task.event]
    obtain rfl | rfl : n = 0 ∨ n = 1 := by omega
    · obtain ⟨held, hs⟩ := waiting rfl
      rw [tx_accepted held hs opened, event, resultEvent, if_pos held, if_pos hs]
      exact ⟨1, .accepted (by simp [Task.awaits, Task.copyOf])⟩
    · obtain ⟨gone, _⟩ := done rfl
      rw [tx_stale gone, event, resultEvent, if_neg (by simp [gone])]
      exact ⟨1, .goesOn (by simp [Task.awaits, Task.copyOf]) (.inr ⟨rfl, rfl⟩)⟩
  · rw [reAck_done (done rfl).2 opened]
    exact ⟨1, .acked (by simp [Task.awaits, Task.copyOf])⟩

namespace Cluster

theorem copies_perm {s s' : Cluster} {a : Action} (h : step s a = some s') (msg : JobResult) :
    (s'.copies msg ++ (s.ended a).filter fun t => (t.copyOf msg).isSome).Perm
      (s.copies msg ++ (s.started a).filter fun t => (t.copyOf msg).isSome) := by
  have tasks := (step_perm h).filter fun t => (t.copyOf msg).isSome
  simpa only [copies, List.filter_append] using tasks

theorem copied_resumed {msg : JobResult} {e : Event Cluster Action} {ws : SocketId}
    (h : copied msg e = some ws) : ∃ i ctx c t, e.action = .resume i ctx ∧
      e.before.tasks[i]? = some (c, t) ∧ t.copyOf msg = some ws := by
  obtain ⟨s, a, s'⟩ := e
  cases a with
  | resume i ctx =>
    obtain ⟨p, hp, ht⟩ := Option.bind_eq_some_iff.mp h
    obtain ⟨q, hq, rfl⟩ := Option.map_eq_some_iff.mp hp
    exact ⟨i, ctx, q.1, q.2, rfl, hq, ht⟩
  | _ => cases h

/-- A step that resumes no copy starts none but those that come in. -/
theorem started_copies {w : WorkerId} {msg : JobResult} {e : Event Cluster Action}
    (hu : Undisturbed w msg e) (hc : copied msg e = none) :
    (e.before.started e.action).filter (fun t => (t.copyOf msg).isSome) =
      (arrived msg e).toList.map fun ws => .resultLookup ws w msg := by
  obtain ⟨s, a, s'⟩ := e
  have none_of : ∀ {ts : List Task} {t : Task}, (∀ t' ∈ ts, ∀ m, t'.heard = some m → t.heard = some m) →
      t.copyOf msg = none → ts.filter (fun t => (t.copyOf msg).isSome) = [] := by
    intro ts t same ht
    rw [List.filter_eq_nil_iff]
    intro t' ht'
    have other : t'.copyOf msg = none :=
      copyOf_eq_none.mpr fun m hm => copyOf_eq_none.mp ht m (same t' ht' _ hm)
    simp [other]
  cases a with
  | resume i ctx =>
    simp only [started, arrived]
    cases hi : s.tasks[i]? with
    | none => rfl
    | some q =>
      have ht : q.2.copyOf msg = none := by simpa [copied, resumed, hi] using hc
      exact none_of (fun t' ht' m hm => resume_heard ht' hm) ht
  | fail i error =>
    simp only [started, arrived]
    cases hi : s.tasks[i]? with
    | none => rfl
    | some q => exact none_of (fun t' ht' m hm => fail_heard ht' hm) (hu.noFailure i error q rfl hi)
  | receive c k ctx =>
    simp only [started, arrived]
    cases hk : s.wire[k]? with
    | none => rfl
    | some p =>
      obtain ⟨ws, m⟩ := p
      cases m with
      | jobResult m =>
        by_cases same : m.jobId = msg.jobId ∧ m.token = msg.token
        · obtain ⟨rfl, hw⟩ := hu.registered c k ctx ws m rfl hk same.1 same.2
          have hw : s.stateByWs c ws = some w := hw
          simp [onMessage, hw, Task.copyOf]
        · simp only [same, ↓reduceIte]
          cases hw : s.stateByWs c ws <;> simp [onMessage, Task.copyOf, same]
      | jobHeartbeat m => cases hw : s.stateByWs c ws <;> simp [onMessage, Task.copyOf]
      | workerHello | jobFailed | pong => simp [onMessage, Task.copyOf]
  | post c key payload =>
    simp only [started, arrived]
    split <;> simp [Task.copyOf]
  | delete | dispatchTick | reaperTick => simp [started, arrived, Task.copyOf]
  | workerSend | deregister | crash | skipTokens => rfl

theorem ended_copies {w : WorkerId} {msg : JobResult} {e : Event Cluster Action}
    (hu : Undisturbed w msg e) (hc : copied msg e = none) :
    (e.before.ended e.action).filter (fun t => (t.copyOf msg).isSome) = [] := by
  obtain ⟨s, a, s'⟩ := e
  cases a with
  | resume i ctx =>
    simp only [ended]
    cases hi : s.tasks[i]? with
    | none => rfl
    | some q =>
      have ht : q.2.copyOf msg = none := by simpa [copied, resumed, hi] using hc
      simp [ht]
  | fail i error =>
    simp only [ended]
    cases hi : s.tasks[i]? with
    | none => rfl
    | some q => simp [hu.noFailure i error q rfl hi]
  | crash c =>
    simp only [ended, List.filter_eq_nil_iff, List.mem_map, List.mem_filter]
    rintro t ⟨p, ⟨hp, hpc⟩, rfl⟩
    simp [hu.noCrash c rfl p hp (by simpa using hpc)]
  | post | delete | workerSend | receive | deregister | dispatchTick | reaperTick | skipTokens => rfl

/-- What a step adds to the count of every kind of copy, with `n` the copies
accepted before it and `m` after it. -/
structure Counted (w : WorkerId) (msg : JobResult) (e : Event Cluster Action) (n m : Nat) :
    Prop where
  accepted : m = n + [e].countP (acceptsCopy msg)
  balance : ∀ ws, e.before.inFlight msg ws + [e].countP (fun e => arrived msg e = some ws) =
    e.after.inFlight msg ws + [e].countP (acksCopy msg ws) + [e].countP (withholdsAck msg ws)
  awaits : e.after.awaits msg + [e].countP (fun e => (copied msg e).isSome) ≤
    e.before.awaits msg + 3 * [e].countP fun e => (arrived msg e).isSome
  unanswered : m = 0 → ∀ ws, [e].countP (acksCopy msg ws) = 0
  ack : acceptsCopy msg e = true →
    ∃ ws, copied msg e = some ws ∧ acksCopy msg ws e = !withholdsAck msg ws e
  tables : copied msg e ≠ none → e.after.db = e.before.db ∨
    acceptsCopy msg e = true ∧ ∃ ctx, e.after.db = (onResultTx ctx w msg e.before.db).2

theorem quiet_counted {w : WorkerId} {msg : JobResult} {e : Event Cluster Action} (n : Nat)
    (h : step e.before e.action = some e.after) (hu : Undisturbed w msg e)
    (hc : copied msg e = none) : Counted w msg e n n := by
  have event : e.before.event e.action msg.jobId = none := by
    by_contra touched
    exact hu.alone touched hc
  have perm := copies_perm h msg
  rw [ended_copies hu hc, started_copies hu hc, List.append_nil] at perm
  have inFlight : ∀ ws, e.after.inFlight msg ws =
      e.before.inFlight msg ws + [e].countP (fun e => arrived msg e = some ws) := by
    intro ws
    unfold inFlight
    rw [perm.countP_eq, List.countP_append]
    cases ha : arrived msg e <;> simp [Task.copyOf, ha]
  have awaits : e.after.awaits msg =
      e.before.awaits msg + 3 * [e].countP fun e => (arrived msg e).isSome := by
    unfold awaits
    rw [(perm.map (Task.awaits msg)).sum_nat, List.map_append, List.sum_append]
    cases ha : arrived msg e <;> simp [Task.awaits, Task.copyOf, ha]
  constructor
  · simp [acceptsCopy, event]
  · intro ws
    rw [inFlight ws]
    simp [acksCopy, withholdsAck, hc]
  · simp [awaits, hc]
  · simp [acksCopy, hc]
  · simp [acceptsCopy, event]
  · exact fun resumed => absurd hc resumed

/-- The step that resumes a copy, by what it is handled to. -/
structure CopyStep (w : WorkerId) (msg : JobResult) (ws : SocketId) (e : Event Cluster Action)
    (ctx : Ctx) (t : Task) (o : Outcome) (n m : Nat) : Prop where
  handled : Handled ctx w msg ws e.before.db t o (e.before.event e.action msg.jobId) n m
  copy : t.copyOf msg = some ws
  db : e.after.db = o.db
  sent : e.after.sent.drop e.before.sent.length = o.sent
  tasks : ∀ p ∈ e.after.tasks, p ∈ e.before.tasks ∨ p.2 ∈ o.next
  perm : (e.after.copies msg ++ [t]).Perm
    (e.before.copies msg ++ o.next.filter fun t => (t.copyOf msg).isSome)

theorem copied_step {w : WorkerId} {msg : JobResult} {e : Event Cluster Action} {s₀ : Cluster}
    {ws : SocketId} {n : Nat} (held : s₀.db.holds msg.jobId w msg.token = true)
    (hs : s₀.db.statusOf msg.jobId = some .dispatched) (before : CopyState w msg s₀ e.before n)
    (h : step e.before e.action = some e.after) (hu : Undisturbed w msg e)
    (hc : copied msg e = some ws) : ∃ ctx t o m, CopyStep w msg ws e ctx t o n m := by
  obtain ⟨i, ctx, c, t, ha, hi, ht⟩ := copied_resumed hc
  have opened := hu.opened i ctx ha (by simp [hc])
  have perm := copies_perm h msg
  have tasks := fun p hp => step_tasks (p := p) h hp
  rw [ha] at h perm tasks
  have after : e.after = e.before.finish i c
      (t.resume { ctx with coordinatorId := c } (e.before.wsOf c) e.before.db) := by
    simp only [step, hi, Option.some.injEq] at h
    exact h.symm
  have event : e.before.event e.action msg.jobId =
      t.event { ctx with coordinatorId := c } e.before.db msg.jobId := by
    simp [ha, Cluster.event, resumed, hi]
  have ended : e.before.ended (.resume i ctx) = [t] := by simp [Cluster.ended, hi]
  have started : e.before.started (.resume i ctx) =
      (t.resume { ctx with coordinatorId := c } (e.before.wsOf c) e.before.db).next := by
    simp [Cluster.started, hi]
  have waiting : n = 0 → e.before.db.holds msg.jobId w msg.token = true ∧
      e.before.db.statusOf msg.jobId = some .dispatched := by
    intro hn
    have same := before.waiting hn
    exact ⟨(view_holds same w msg.token).trans held, (view_statusOf same).trans hs⟩
  have done : n = 1 → e.before.db.holds msg.jobId w msg.token = false ∧
      e.before.db.statusOf msg.jobId = some .succeeded := by
    intro hn
    obtain ⟨ctx', same⟩ := before.done hn
    have gone := accepted_gone ctx' held hs
    exact ⟨(view_holds same w msg.token).trans gone.1, (view_statusOf same).trans gone.2⟩
  obtain ⟨m, handled⟩ := copy_handled { ctx with coordinatorId := c } (e.before.wsOf c)
    before.once waiting done (before.copies (c, t) (List.mem_of_getElem? hi) ws ht) opened
  refine ⟨_, t, _, m, event ▸ handled, ht, by rw [after]; rfl, ?_, ?_, ?_⟩
  · rw [after]
    simp [finish]
  · intro p hp
    exact started ▸ tasks p hp
  · rw [ended, started] at perm
    simpa [ht] using perm

section

variable {w : WorkerId} {msg : JobResult} {ws : SocketId} {e : Event Cluster Action} {ctx : Ctx}
  {t : Task} {o : Outcome} {n m : Nat}

theorem CopyStep.inFlight (copied : CopyStep w msg ws e ctx t o n m) (ws' : SocketId) :
    e.after.inFlight msg ws' + (if ws = ws' then 1 else 0) =
      e.before.inFlight msg ws' + o.next.countP (fun t => t.copyOf msg = some ws') := by
  have counts := copied.perm.countP_eq fun t => t.copyOf msg = some ws'
  have all : (o.next.filter fun t => (t.copyOf msg).isSome).countP
      (fun t => t.copyOf msg = some ws') = o.next.countP fun t => t.copyOf msg = some ws' := by
    rw [List.countP_filter]
    apply List.countP_congr
    intro t _
    cases t.copyOf msg <;> simp
  rw [List.countP_append, List.countP_append, all] at counts
  simpa [copied.copy, Cluster.inFlight] using counts

theorem CopyStep.awaits (copied : CopyStep w msg ws e ctx t o n m) :
    e.after.awaits msg + t.awaits msg = e.before.awaits msg +
      ((o.next.filter fun t => (t.copyOf msg).isSome).map (Task.awaits msg)).sum := by
  have sums := (copied.perm.map (Task.awaits msg)).sum_nat
  simpa [Cluster.awaits] using sums

theorem CopyStep.state {s₀ : Cluster} (copied : CopyStep w msg ws e ctx t o n m)
    (held : s₀.db.holds msg.jobId w msg.token = true)
    (hs : s₀.db.statusOf msg.jobId = some .dispatched) (before : CopyState w msg s₀ e.before n)
    (h : step e.before e.action = some e.after) : CopyState w msg s₀ e.after m := by
  obtain ⟨handled, _, _, _, tasks, _⟩ := copied
  have view := step_view h msg.jobId
  generalize e.before.event e.action msg.jobId = event at handled view
  cases handled with
  | @goesOn _ t' _ fewer next =>
    have same : e.after.db.view msg.jobId = e.before.db.view msg.jobId := view
    have copy : t'.copyOf msg = some ws := by
      rcases next with next | ⟨_, rfl⟩
      · exact next.copy
      · simp [Task.copyOf]
    refine ⟨?_, before.once, fun hn => same.trans (before.waiting hn), ?_⟩
    · intro p hp ws' hw
      rcases tasks p hp with hp | hp
      · exact before.copies p hp ws' hw
      · rw [List.mem_singleton.mp hp, copy] at hw
        cases hw
        exact List.mem_singleton.mp hp ▸ next
    · intro hn
      obtain ⟨ctx', hv⟩ := before.done hn
      exact ⟨ctx', same.trans hv⟩
  | acked last =>
    have same : e.after.db.view msg.jobId = e.before.db.view msg.jobId := view
    refine ⟨?_, le_rfl, fun hn => absurd hn Nat.one_ne_zero, ?_⟩
    · intro p hp ws' hw
      rcases tasks p hp with hp | hp
      · exact before.copies p hp ws' hw
      · cases hp
    · intro hn
      obtain ⟨ctx', hv⟩ := before.done hn
      exact ⟨ctx', same.trans hv⟩
  | accepted last =>
    refine ⟨?_, le_rfl, fun hn => absurd hn Nat.one_ne_zero, fun _ => ⟨ctx, ?_⟩⟩
    · intro p hp ws' hw
      rcases tasks p hp with hp | hp
      · rcases before.copies p hp ws' hw with copy | ⟨hn, _⟩
        · exact .inl copy
        · cases hn
      · cases hp
    · rw [view, before.waiting rfl, accepted_view _ held hs]
      rfl

/-- Each copy that is handled counts once. -/
theorem CopyStep.counted (step : CopyStep w msg ws e ctx t o n m) (hc : copied msg e = some ws) :
    Counted w msg e n m := by
  have quiet : arrived msg e = none := by
    obtain ⟨i, ctx, c, t, ha, _⟩ := copied_resumed hc
    simp [arrived, ha]
  have inFlight := step.inFlight
  have awaits := step.awaits
  obtain ⟨handled, _, db, sent, _, _⟩ := step
  generalize hev : e.before.event e.action msg.jobId = event at handled
  cases handled with
  | @goesOn _ t' _ fewer next =>
    have copy : t'.copyOf msg = some ws := by
      rcases next with next | ⟨_, rfl⟩
      · exact next.copy
      · simp [Task.copyOf]
    constructor
    case accepted => simp [acceptsCopy, hev]
    case balance =>
      intro ws'
      have counts := inFlight ws'
      simp only [List.countP_singleton, copy] at counts
      simp [quiet, acksCopy, withholdsAck, sent, hev] at counts ⊢
      omega
    case awaits =>
      simp only [List.filter_singleton, copy, Option.isSome_some, cond_true, List.map_cons,
        List.map_nil, List.sum_cons, List.sum_nil] at awaits
      simp [hc, quiet]
      omega
    case unanswered =>
      intro _ ws'
      simp [acksCopy, sent]
    case ack => simp [acceptsCopy, hev]
    case tables => exact fun _ => .inl db
  | acked last =>
    constructor
    case accepted => simp [acceptsCopy, hev]
    case balance =>
      intro ws'
      have counts := inFlight ws'
      by_cases hw : ws = ws'
      · simp [quiet, acksCopy, withholdsAck, sent, hev, hc, hw, CoordToWorkerMsg.acks] at counts ⊢
        omega
      · simp [quiet, acksCopy, withholdsAck, hc, hw] at counts ⊢
        omega
    case awaits =>
      simp only [List.filter_nil, List.map_nil, List.sum_nil] at awaits
      simp [hc, quiet]
      omega
    case unanswered => exact fun hm => absurd hm Nat.one_ne_zero
    case ack => simp [acceptsCopy, hev]
    case tables => exact fun _ => .inl db
  | accepted last =>
    have accept : acceptsCopy msg e = true := by simp [acceptsCopy, hev, JobEvent.accepts]
    constructor
    case accepted => simp [accept]
    case balance =>
      intro ws'
      have counts := inFlight ws'
      by_cases hw : ws = ws'
      · cases hd : ctx.dropAck <;>
          simp [quiet, acksCopy, withholdsAck, sent, hev, hc, hw, hd, CoordToWorkerMsg.acks,
            JobEvent.dropsAck] at counts ⊢ <;> omega
      · simp [quiet, acksCopy, withholdsAck, hc, hw] at counts ⊢
        omega
    case awaits =>
      simp only [List.filter_nil, List.map_nil, List.sum_nil] at awaits
      simp [hc, quiet]
      omega
    case unanswered => exact fun hm => absurd hm Nat.one_ne_zero
    case ack =>
      intro _
      refine ⟨ws, hc, ?_⟩
      cases hd : ctx.dropAck <;>
        simp [acksCopy, withholdsAck, sent, hev, hc, hd, CoordToWorkerMsg.acks, JobEvent.dropsAck]
    case tables =>
      exact fun _ => .inr ⟨accept, ctx, db⟩

end

theorem quiet_state {w : WorkerId} {msg : JobResult} {e : Event Cluster Action} {s₀ : Cluster}
    {n : Nat} (before : CopyState w msg s₀ e.before n)
    (h : step e.before e.action = some e.after) (hu : Undisturbed w msg e)
    (hc : copied msg e = none) : CopyState w msg s₀ e.after n := by
  have event : e.before.event e.action msg.jobId = none := by
    by_contra touched
    exact hu.alone touched hc
  have same : e.after.db.view msg.jobId = e.before.db.view msg.jobId := by
    rw [step_view h, event]
    rfl
  refine ⟨?_, before.once, fun hn => same.trans (before.waiting hn), ?_⟩
  · intro p hp ws hw
    rcases step_tasks h hp with hp | hp
    · exact before.copies p hp ws hw
    · have copy : p.2 ∈ (e.before.started e.action).filter fun t => (t.copyOf msg).isSome :=
        List.mem_filter.mpr ⟨hp, by simp [hw]⟩
      rw [started_copies hu hc] at copy
      obtain ⟨ws', _, hp⟩ := List.mem_map.mp copy
      rw [← hp] at hw
      simp only [Task.copyOf, and_self, ↓reduceIte, Option.some.injEq] at hw
      exact .inl (.inl (hw ▸ hp.symm))
  · intro hn
    obtain ⟨ctx, hv⟩ := before.done hn
    exact ⟨ctx, same.trans hv⟩

/-- One step, over whichever coordinator, keeps the rows of the job in line with the count
of the copies. -/
theorem copy_step {w : WorkerId} {msg : JobResult} {e : Event Cluster Action} {s₀ : Cluster}
    {n : Nat} (held : s₀.db.holds msg.jobId w msg.token = true)
    (hs : s₀.db.statusOf msg.jobId = some .dispatched) (before : CopyState w msg s₀ e.before n)
    (h : step e.before e.action = some e.after) (hu : Undisturbed w msg e) :
    ∃ m, CopyState w msg s₀ e.after m ∧ Counted w msg e n m := by
  cases hc : copied msg e with
  | none => exact ⟨n, quiet_state before h hu hc, quiet_counted n h hu hc⟩
  | some ws =>
    obtain ⟨_, _, _, m, copied⟩ := copied_step held hs before h hu hc
    exact ⟨m, copied.state held hs before h, copied.counted hc⟩

structure RunCounted (w : WorkerId) (msg : JobResult) (s₀ : Cluster)
    (es : List (Event Cluster Action)) (s : Cluster) : Prop where
  state : CopyState w msg s₀ s (es.countP (acceptsCopy msg))
  balance : ∀ ws, s₀.inFlight msg ws + es.countP (fun e => arrived msg e = some ws) =
    s.inFlight msg ws + es.countP (acksCopy msg ws) + es.countP (withholdsAck msg ws)
  awaits : s.awaits msg + es.countP (fun e => (copied msg e).isSome) ≤
    s₀.awaits msg + 3 * es.countP fun e => (arrived msg e).isSome
  unanswered : es.countP (acceptsCopy msg) = 0 → ∀ ws, es.countP (acksCopy msg ws) = 0
  ack : ∀ e ∈ es, acceptsCopy msg e = true →
    ∃ ws, copied msg e = some ws ∧ acksCopy msg ws e = !withholdsAck msg ws e
  tables : ∀ e ∈ es, copied msg e ≠ none → e.after.db = e.before.db ∨
    acceptsCopy msg e = true ∧ ∃ ctx, e.after.db = (onResultTx ctx w msg e.before.db).2

/-- A whole run handles every copy once, and accepts one at most. -/
theorem run_counted {w : WorkerId} {msg : JobResult} {s₀ s : Cluster}
    {es : List (Event Cluster Action)} (run : Run step s₀ es s)
    (held : s₀.db.holds msg.jobId w msg.token = true)
    (hs : s₀.db.statusOf msg.jobId = some .dispatched)
    (undecided : ∀ p ∈ s₀.tasks, ∀ ws, p.2.copyOf msg = some ws → p.2.Undecided w msg ws)
    (undisturbed : ∀ e ∈ es, Undisturbed w msg e) : RunCounted w msg s₀ es s := by
  induction run with
  | nil =>
    refine ⟨⟨?_, ?_, ?_, ?_⟩, ?_, ?_, ?_, ?_, ?_⟩
    · exact fun p hp ws hw => .inl (undecided p hp ws hw)
    all_goals simp
  | @snoc es s a t run taken ih =>
    have earlier := ih fun e he => undisturbed e (List.mem_append_left _ he)
    have last : (⟨s, a, t⟩ : Event Cluster Action) ∈ es ++ [⟨s, a, t⟩] :=
      List.mem_append_right _ List.mem_cons_self
    obtain ⟨m, state, counted⟩ :=
      copy_step (e := ⟨s, a, t⟩) held hs earlier.state taken (undisturbed _ last)
    have total : (es ++ [(⟨s, a, t⟩ : Event Cluster Action)]).countP (acceptsCopy msg) = m := by
      rw [List.countP_append]
      exact counted.accepted.symm
    refine ⟨total ▸ state, ?_, ?_, ?_, ?_, ?_⟩
    · intro ws
      have before := earlier.balance ws
      have now := counted.balance ws
      dsimp only at now
      simp only [List.countP_append]
      omega
    · have before := earlier.awaits
      have now := counted.awaits
      dsimp only at now
      simp only [List.countP_append]
      omega
    · intro none ws
      rw [total] at none
      have before : es.countP (acceptsCopy msg) = 0 := by
        have accepted := counted.accepted
        omega
      rw [List.countP_append, earlier.unanswered before ws, counted.unanswered none ws]
    · intro e he accept
      rcases List.mem_append.mp he with he | he
      · exact earlier.ack e he accept
      · cases List.mem_singleton.mp he
        exact counted.ack accept
    · intro e he resumed
      rcases List.mem_append.mp he with he | he
      · exact earlier.tables e he resumed
      · cases List.mem_singleton.mp he
        exact counted.tables resumed

/-- Every copy of a result is handled as if it were the only one, and acked. -/
structure HandledOnce (w : WorkerId) (msg : JobResult) (s₀ : Cluster)
    (es : List (Event Cluster Action)) (s : Cluster) : Prop where
  atMostOne : es.countP (acceptsCopy msg) ≤ 1
  /-- Once every copy is handled, one was accepted. -/
  one : (∀ ws, s.inFlight msg ws = 0) →
    (∃ ws, 0 < s₀.inFlight msg ws + es.countP fun e => arrived msg e = some ws) →
    es.countP (acceptsCopy msg) = 1
  /-- The rows of the job are those that a single copy leaves, whatever clocks and
  coordinator that copy meets. -/
  tables : es.countP (acceptsCopy msg) = 1 →
    ∃ ctx, s.db.view msg.jobId = (onResultTx ctx w msg s₀.db).2.view msg.jobId
  /-- Only the accepted copy writes. -/
  writes : ∀ e ∈ es, copied msg e ≠ none → e.after.db = e.before.db ∨
    acceptsCopy msg e = true ∧ ∃ ctx, e.after.db = (onResultTx ctx w msg e.before.db).2
  /-- On each socket the copies handled are those acked and those withheld. -/
  answered : ∀ ws, s₀.inFlight msg ws + es.countP (fun e => arrived msg e = some ws) =
    s.inFlight msg ws + es.countP (acksCopy msg ws) + es.countP (withholdsAck msg ws)
  /-- The accepted copy gets its ack unless the ack is dropped. -/
  dropped : ∀ e ∈ es, acceptsCopy msg e = true →
    ∃ ws, copied msg e = some ws ∧ acksCopy msg ws e = !withholdsAck msg ws e
  /-- A copy is over after three awaits. -/
  ends : es.countP (fun e => (copied msg e).isSome) ≤
    s₀.awaits msg + 3 * es.countP fun e => (arrived msg e).isSome

/-- Duplicate results are idempotent and always acked. -/
theorem duplicate_results {w : WorkerId} {msg : JobResult} {s₀ s : Cluster}
    {es : List (Event Cluster Action)} (run : Run step s₀ es s)
    (held : s₀.db.holds msg.jobId w msg.token = true)
    (hs : s₀.db.statusOf msg.jobId = some .dispatched)
    (undecided : ∀ p ∈ s₀.tasks, ∀ ws, p.2.copyOf msg = some ws → p.2.Undecided w msg ws)
    (undisturbed : ∀ e ∈ es, Undisturbed w msg e) : HandledOnce w msg s₀ es s := by
  have counted := run_counted run held hs undecided undisturbed
  refine ⟨counted.state.once, ?_, counted.state.done, counted.tables, counted.balance, counted.ack,
    Nat.le_trans (Nat.le_add_left _ _) counted.awaits⟩
  rintro handled ⟨ws, copy⟩
  by_contra other
  have none : es.countP (acceptsCopy msg) = 0 := by
    have once := counted.state.once
    omega
  have withheld : es.countP (withholdsAck msg ws) = 0 := by
    rw [List.countP_eq_zero] at none ⊢
    intro e he dropped
    apply none e he
    obtain ⟨_, dropped⟩ := Bool.and_eq_true_iff.mp dropped
    obtain ⟨ev, hev, hd⟩ := (Option.any_eq_true _ _).mp dropped
    refine (Option.any_eq_true _ _).mpr ⟨ev, hev, ?_⟩
    cases ev with
    | accepted => rfl
    | _ => cases hd
  have balance := counted.balance ws
  rw [handled ws, counted.unanswered none ws, withheld] at balance
  omega

/-- "w1" holds job 1 and is connected to two coordinators. -/
def heldRun : List Action :=
  [.post "c1" (some (.str "k")) (some (.obj [])), .resume 0 (.quiet "c1" 1), .resume 0 (.quiet "c1" 1),
    .workerSend 1 (.workerHello "w1" 4), .receive "c1" 0 (.quiet "c1" 2), .resume 0 (.quiet "c1" 2),
    .workerSend 2 (.workerHello "w1" 4), .receive "c2" 1 (.quiet "c2" 2), .resume 0 (.quiet "c2" 2),
    .dispatchTick "c1" "w1", .resume 0 (.quiet "c1" 3), .resume 0 (.quiet "c1" 3)]

/-- Its result reaches both before either transaction. The ack of the accepted copy is
dropped, and the worker repeats the result. -/
def copiesRun : List Action :=
  [.workerSend 1 (.jobResult ⟨1, 1, .obj []⟩), .workerSend 2 (.jobResult ⟨1, 1, .obj []⟩),
    .receive "c1" 2 (.quiet "c1" 4), .receive "c2" 3 (.quiet "c2" 4),
    .resume 0 (.quiet "c1" 5), .resume 0 (.quiet "c2" 5),
    .resume 0 { Ctx.quiet "c1" 6 with dropAck := true }, .resume 0 (.quiet "c2" 6),
    .resume 0 (.quiet "c2" 6), .receive "c1" 2 (.quiet "c1" 7), .resume 0 (.quiet "c1" 7),
    .resume 0 (.quiet "c1" 7)]

def calm (e : Event Cluster Action) : Bool :=
  match e.action with
  | .workerSend .. => true
  | .receive c k _ => (e.before.wire[k]?).any fun p => match p.2 with
    | .jobResult ⟨1, 1, .obj []⟩ => e.before.stateByWs c p.1 = some "w1"
    | _ => false
  | .resume _ ctx => ctx.wsOpen && (copied ⟨1, 1, .obj []⟩ e).isSome
  | _ => false

theorem undisturbed_of_calm {e : Event Cluster Action} (h : calm e = true) :
    Undisturbed "w1" ⟨1, 1, .obj []⟩ e := by
  obtain ⟨s, a, s'⟩ := e
  cases a with
  | workerSend ws m => constructor <;> simp [event, resumed]
  | receive c k ctx =>
    constructor
    case registered =>
      rintro _ _ _ ws m ⟨⟩ hk _ _
      have known := h
      simp only [calm] at known
      dsimp only at hk
      rw [hk, Option.any_some] at known
      split at known
      · rename_i same
        cases same
        exact ⟨rfl, of_decide_eq_true known⟩
      · cases known
    all_goals simp [event, resumed]
  | resume i ctx =>
    obtain ⟨opened, resumed⟩ := Bool.and_eq_true_iff.mp h
    constructor
    case alone => exact fun _ => Option.isSome_iff_ne_none.mp resumed
    case opened =>
      rintro _ _ ⟨⟩ _
      exact opened
    all_goals simp
  | _ => cases h

theorem duplicate_results_copiesRun : ∃ s₀ s, exec step init heldRun = some s₀ ∧
    exec step s₀ copiesRun = some s ∧
    HandledOnce "w1" ⟨1, 1, .obj []⟩ s₀ (trace step s₀ copiesRun) s ∧
    (s.sent.map fun m => (m.1, m.2.acks 1)) = [(1, false), (2, true), (1, true)] := by
  obtain ⟨s₀, hs₀, hp⟩ : ∃ s₀, exec step init heldRun = some s₀ ∧
      (s₀.db.holds 1 "w1" 1 && decide (s₀.db.statusOf 1 = some .dispatched) && s₀.tasks.isEmpty &&
        (trace step s₀ copiesRun).all calm && (exec step s₀ copiesRun).any fun s =>
          decide ((s.sent.map fun m => (m.1, m.2.acks 1)) = [(1, false), (2, true), (1, true)]))
        = true := exec_any (by decide)
  simp only [Bool.and_eq_true, decide_eq_true_eq, List.isEmpty_iff, List.all_eq_true] at hp
  obtain ⟨⟨⟨⟨held, hs⟩, idle⟩, calm⟩, done⟩ := hp
  obtain ⟨s, hs', sent⟩ := (Option.any_eq_true _ _).mp done
  refine ⟨s₀, s, hs₀, hs', ?_, of_decide_eq_true sent⟩
  refine duplicate_results (run_of_exec copiesRun hs') held hs ?_ ?_
  · rw [idle]
    intro p hp
    cases hp
  · exact fun e he => undisturbed_of_calm (calm e he)

end Cluster

end Dispatcher
