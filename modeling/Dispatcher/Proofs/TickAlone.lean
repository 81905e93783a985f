import Mathlib.Logic.Relation
import Dispatcher.Model.DispatchLoop
import Dispatcher.Proofs.FairTick

namespace Dispatcher
open Runs
open RoundRobin (Pass)

namespace DispatchProcess

/-- The process stands where a tick alone does, which began on `hub₀`. -/
structure Agrees (hub₀ : HubProcess) (available : List StateRef) (s : Tick) (p : DispatchProcess) :
    Prop where
  hub : p.hub = { hub₀ with hub := s.hub, db := s.db, sent := hub₀.sent ++ s.sent }
  leases : p.leases = s.dispatched
  captured : p.available = available

/-- A run of the tick's own steps; its transactions read these contexts. -/
structure OwnRun (ctx : Nat → Ctx) (p : DispatchProcess)
    (es : List (Event DispatchProcess DispatchAction)) (p' : DispatchProcess) : Prop where
  run : Run step p es p'
  own : ∀ e ∈ es, e.action = .resume ∨ e.action = .turn ∨ ∃ n, e.action = .commit (ctx n)

/-- The dispatches that lead a tick alone from one state to another. -/
def Dispatches (ctx : Nat → Ctx) (isOpen : SocketId → Bool) : Tick → Tick → Prop :=
  Relation.ReflTransGen fun s s' =>
    ∃ workerId, Tick.tryDispatchOne ctx isOpen workerId s = .ok (true, s')

inductive Passed (ctx : Nat → Ctx) (hub₀ : HubProcess) (available : List StateRef) (p : DispatchProcess)
    (s : Tick) : Except PgError (Pass × Tick) → Prop where
  | returned (run : OwnRun ctx p.advance es p') (ended : p'.point = .ended)
      (agrees : Agrees hub₀ available s' p') : Passed ctx hub₀ available p s (.ok (.returned, s'))
  | done (run : OwnRun ctx p.advance es p'.advance) (rest : p'.rest = [])
      (any : p'.anyDispatched = given) (agrees : Agrees hub₀ available s' p')
      (before : Dispatches ctx hub₀.isOpen s s') : Passed ctx hub₀ available p s (.ok (.done given, s'))
  | thrown (run : OwnRun ctx p.advance es p') (ended : p'.point = .ended)
      (agrees : Agrees hub₀ available s' p') (before : Dispatches ctx hub₀.isOpen s s')
      (throws : Tick.tryDispatchOne ctx hub₀.isOpen workerId s' = .error e) :
      Passed ctx hub₀ available p s (.error e)

/-- What a tick alone has done when it ends: all of it, or the dispatches before the
transaction that throws. -/
inductive Ends (ctx : Nat → Ctx) (isOpen : SocketId → Bool) (s : Tick) :
    Except PgError Tick → Tick → Prop where
  | ok : Ends ctx isOpen s (.ok s') s'
  | thrown (before : Dispatches ctx isOpen s s')
      (throws : Tick.tryDispatchOne ctx isOpen workerId s' = .error e) : Ends ctx isOpen s (.error e) s'

variable {hub₀ : HubProcess} {available : List StateRef} {s s' : Tick} {p p' q : DispatchProcess}
  {ctx : Nat → Ctx} {workerId : WorkerId} {es fs : List (Event DispatchProcess DispatchAction)}

theorem OwnRun.nil (ctx : Nat → Ctx) (p : DispatchProcess) : OwnRun ctx p [] p :=
  ⟨.nil, fun e he => by cases he⟩

theorem OwnRun.snoc {a : DispatchAction} (h : OwnRun ctx p es q) (taken : step q a = some p')
    (own : a = .resume ∨ a = .turn ∨ ∃ n, a = .commit (ctx n)) :
    OwnRun ctx p (es ++ [⟨q, a, p'⟩]) p' := by
  refine ⟨h.run.snoc taken, fun e he => ?_⟩
  rcases List.mem_append.mp he with he | he
  · exact h.own e he
  · cases List.mem_singleton.mp he
    exact own

theorem OwnRun.append (h : OwnRun ctx p es q) (h' : OwnRun ctx q fs p') : OwnRun ctx p (es ++ fs) p' :=
  ⟨h.run.append h'.run, fun e he => (List.mem_append.mp he).elim (h.own e) (h'.own e)⟩

theorem Agrees.states (h : Agrees hub₀ available s p) : p.hub.hub = s.hub := by rw [h.hub]

/-- `tryDispatchOne` takes two steps of the process. -/
theorem Agrees.dispatch (h : Agrees hub₀ available s p) (now : p.point = .transaction workerId)
    (done : Tick.tryDispatchOne ctx hub₀.isOpen workerId s = .ok (sent, s')) :
    ∃ es p', OwnRun ctx p es p' ∧ p'.point = .returned sent ∧ p'.rest = p.rest ∧
      Agrees hub₀ available s' p' := by
  have db : p.hub.db = s.db := by rw [h.hub]
  unfold Tick.tryDispatchOne at done
  split at done
  · cases done
  case h_2 db' found =>
    cases done
    let q : DispatchProcess := { p with
      hub := { p.hub with db := db' }
      point := .committed workerId none }
    have commits : step p (.commit (ctx s.dispatched.length)) = some q := by
      simp only [step, now, db, found, q]
    have resumes : step q .resume = some { q with point := .returned false } := rfl
    have run := ((OwnRun.nil ctx p).snoc commits (.inr (.inr ⟨_, rfl⟩))).snoc resumes (.inl rfl)
    refine ⟨_, _, run, rfl, rfl, ?_, h.leases, h.captured⟩
    simp only [h.hub, q]
  case h_3 job db' found =>
    cases done
    let q : DispatchProcess := { p with
      hub := { p.hub with db := db' }
      leases := p.leases ++ [(workerId, job)]
      point := .committed workerId (some job) }
    have commits : step p (.commit (ctx s.dispatched.length)) = some q := by
      simp only [step, now, db, found, q]
    have resumes : step q .resume = some (q.send workerId job) := rfl
    have run := ((OwnRun.nil ctx p).snoc commits (.inr (.inr ⟨_, rfl⟩))).snoc resumes (.inl rfl)
    refine ⟨_, _, run, rfl, rfl, ?_, ?_, h.captured⟩
    · simp only [send, h.hub, q, List.append_assoc]
      rfl
    · exact congrArg (· ++ [(workerId, job)]) h.leases

/-- A transaction that throws ends the tick, and leaves nothing. -/
theorem Agrees.throw {error : PgError} (h : Agrees hub₀ available s p)
    (now : p.point = .transaction workerId)
    (thrown : Tick.tryDispatchOne ctx hub₀.isOpen workerId s = .error error) :
    ∃ es p', OwnRun ctx p es p' ∧ p'.point = .ended ∧ Agrees hub₀ available s p' := by
  have db : p.hub.db = s.db := by rw [h.hub]
  unfold Tick.tryDispatchOne at thrown
  split at thrown
  case h_1 e failed =>
    have fails : step p (.commit (ctx s.dispatched.length)) = some { p with point := .ended } := by
      simp only [step, now, db, failed]
    exact ⟨_, _, (OwnRun.nil ctx p).snoc fails (.inr (.inr ⟨_, rfl⟩)), rfl, h.hub, h.leases, h.captured⟩
  · cases thrown
  · cases thrown

/-- A worker that the loop passes over changes nothing. -/
theorem advance_passed {worker : StateRef} {rest : List StateRef} (hp : p.rest = worker :: rest)
    (passed : forWorkers p.hub.hub (worker :: rest) = forWorkers p.hub.hub rest) :
    p.advance = { p with rest }.advance := by
  have next : p.next = { p with rest }.next := by simp only [next, hp, passed]
  simp only [advance, next]

/-- The end of a pass that has dispatched a job is the beginning of the next one. -/
theorem advance_again (hp : p.rest = []) (any : p.anyDispatched = true) :
    p.advance = { p with rest := p.available, anyDispatched := false }.advance := by
  have next : p.next = { p with rest := p.available, anyDispatched := false }.next := by
    simp only [next, hp, any, forWorkers]
    cases forWorkers p.hub.hub p.available <;> rfl
  simp only [advance, next]

theorem Passed.after {out : Except PgError (Pass × Tick)} (run : OwnRun ctx p.advance es q.advance)
    (first : Dispatches ctx hub₀.isOpen s s') (h : Passed ctx hub₀ available q s' out) :
    Passed ctx hub₀ available p s out := by
  cases h with
  | returned rest ended agrees => exact .returned (run.append rest) ended agrees
  | done rest empty any agrees before =>
    exact .done (run.append rest) empty any agrees (first.trans before)
  | thrown rest ended agrees before throws =>
    exact .thrown (run.append rest) ended agrees (first.trans before) throws

theorem Agrees.pass {rest : List StateRef} (h : Agrees hub₀ available s p) (hp : p.rest = rest) :
    Passed ctx hub₀ available p s (Tick.forWorkers ctx hub₀.isOpen rest p.anyDispatched s) := by
  induction rest generalizing p s with
  | nil => exact .done (.nil ctx _) hp rfl h .refl
  | cons worker rest ih =>
    have onward : Agrees hub₀ available s { p with rest } := ⟨h.hub, h.leases, h.captured⟩
    have skip (passed : forWorkers p.hub.hub (worker :: rest) = forWorkers p.hub.hub rest) :
        Passed ctx hub₀ available p s (Tick.forWorkers ctx hub₀.isOpen rest p.anyDispatched s) := by
      have run : OwnRun ctx p.advance [] { p with rest }.advance := by
        rw [advance_passed hp passed]
        exact .nil ctx _
      exact (ih onward rfl).after run .refl
    unfold Tick.forWorkers
    rw [← h.states]
    split
    case h_1 gone => exact skip (by simp only [forWorkers, gone])
    case h_2 state found =>
      split
      case isTrue full => exact skip (by simp only [forWorkers, found, full, ↓reduceIte])
      case isFalse room =>
        have turned : p.advance = { p with rest, point := .transaction state.workerId } := by
          simp only [advance, next, hp, forWorkers, found, room, ↓reduceIte]
        have turning : Agrees hub₀ available s p.advance := by
          rw [turned]
          exact ⟨h.hub, h.leases, h.captured⟩
        have now : p.advance.point = .transaction state.workerId := by rw [turned]
        have left : p.advance.rest = rest := by rw [turned]
        split
        case h_1 e failed =>
          obtain ⟨es, q, run, ended, agrees⟩ := turning.throw now failed
          exact .thrown run ended agrees .refl failed
        case h_2 s₁ sent =>
          obtain ⟨es, q, run, returned, _, agrees⟩ := turning.dispatch now sent
          have ends : step q .turn = some { q with point := .ended } := by simp only [step, returned]
          exact .returned (run.snoc ends (.inr (.inl rfl))) rfl
            ⟨agrees.hub, agrees.leases, agrees.captured⟩
        case h_3 s₁ sent =>
          obtain ⟨es, q, run, returned, same, agrees⟩ := turning.dispatch now sent
          have turns : step q .turn = some { q with anyDispatched := true }.advance := by
            simp only [step, returned]
          have after : Agrees hub₀ available s₁ { q with anyDispatched := true } :=
            ⟨agrees.hub, agrees.leases, agrees.captured⟩
          exact (ih after (same.trans left)).after (run.snoc turns (.inr (.inl rfl)))
            (Relation.ReflTransGen.single ⟨_, sent⟩)

/-- The `do ... while` loop ends where the process does. -/
theorem Agrees.loop {fuel : Nat} {out : Except PgError Tick} (h : Agrees hub₀ available s p)
    (hp : p.rest = available) (first : p.anyDispatched = false)
    (done : Tick.doWhile ctx hub₀.isOpen available fuel s = some out) :
    ∃ es p' s', OwnRun ctx p.advance es p' ∧ p'.point = .ended ∧ Agrees hub₀ available s' p' ∧
      Ends ctx hub₀.isOpen s out s' := by
  induction fuel generalizing p s with
  | zero => cases done
  | succ fuel ih =>
    unfold Tick.doWhile at done
    rw [← first] at done
    have passed : Passed ctx hub₀ available p s
        (Tick.forWorkers ctx hub₀.isOpen available p.anyDispatched s) := h.pass hp
    split at done
    case h_1 e pass =>
      cases done
      rw [pass] at passed
      cases passed with
      | thrown run ended agrees before throws =>
        exact ⟨_, _, _, run, ended, agrees, .thrown before throws⟩
    case h_2 s₁ pass =>
      cases done
      rw [pass] at passed
      cases passed with
      | returned run ended agrees => exact ⟨_, _, _, run, ended, agrees, .ok⟩
    case h_3 s₁ pass =>
      rw [pass] at passed
      cases passed with
      | @done es _ _ q run rest any agrees before =>
        rw [advance_again rest any] at run
        have again : Agrees hub₀ available s₁
            { q with rest := q.available, anyDispatched := false } :=
          ⟨agrees.hub, agrees.leases, agrees.captured⟩
        obtain ⟨fs, p', s', more, ended, agrees', ends⟩ := ih again agrees.captured rfl done
        refine ⟨_, p', s', run.append more, ended, agrees', ?_⟩
        cases ends with
        | ok => exact .ok
        | thrown later throws => exact .thrown (before.trans later) throws
    case h_4 s₁ pass =>
      cases done
      rw [pass] at passed
      cases passed with
      | @done es _ _ q run rest any agrees _ =>
        have ended : q.advance = { q with rest := [], anyDispatched := false, point := .ended } := by
          simp only [advance, next, rest, any, forWorkers, Bool.false_eq_true, ↓reduceIte]
        rw [ended] at run
        exact ⟨_, _, _, run, rfl, ⟨agrees.hub, agrees.leases, agrees.captured⟩, .ok⟩

/-- A dispatch takes a job out of the queue. -/
theorem dispatched_pending {isOpen : SocketId → Bool}
    (done : Tick.tryDispatchOne ctx isOpen workerId s = .ok (true, s')) :
    s'.db.pending.length + 1 = s.db.pending.length := by
  simp only [Tick.tryDispatchOne, tryDispatchOneTx_eq] at done
  cases head : headOfQueue (ctx s.dispatched.length) s.db with
  | none =>
    rw [head] at done
    cases done
  | some job =>
    obtain ⟨found, waits, _⟩ := headOfQueue_spec head
    have queued : job ∈ s.db.pending := mem_pending.mpr ⟨found, waits⟩
    simp only [head] at done
    by_cases leased : (s.db.leases.lookup job.jobId).isSome
    · simp only [leased, ↓reduceIte] at done
      cases done
    · simp only [leased, Bool.false_eq_true, ↓reduceIte] at done
      cases done
      exact pending_dispatchedDb_length _ workerId queued

theorem pass_pending {isOpen : SocketId → Bool} {rest : List StateRef} {any given : Bool}
    (done : Tick.forWorkers ctx isOpen rest any s = .ok (.done given, s')) :
    s'.db.pending.length + given.toNat ≤ s.db.pending.length + any.toNat := by
  induction rest generalizing any s with
  | nil =>
    cases done
    exact Nat.le_refl _
  | cons worker rest ih =>
    unfold Tick.forWorkers at done
    split at done
    · exact ih done
    · split at done
      · exact ih done
      · split at done
        · cases done
        · cases done
        next s₁ sent =>
          have less := dispatched_pending sent
          have later := ih done
          rw [Bool.toNat_true, less] at later
          exact later.trans (Nat.le_add_right _ _)

/-- Every pass but the last takes a job out of the queue, so the loop ends. -/
theorem doWhile_ends (ctx : Nat → Ctx) (isOpen : SocketId → Bool) (available : List StateRef) (s : Tick) :
    ∃ out, ∀ fuel, s.db.pending.length < fuel →
      Tick.doWhile ctx isOpen available fuel s = some out := by
  induction size : s.db.pending.length using Nat.strongRecOn generalizing s with
  | ind n ih =>
    subst size
    have last {out : Except PgError Tick}
        (here : ∀ fuel, Tick.doWhile ctx isOpen available (fuel + 1) s = some out) :
        ∃ out, ∀ fuel, s.db.pending.length < fuel →
          Tick.doWhile ctx isOpen available fuel s = some out := by
      refine ⟨out, fun fuel enough => ?_⟩
      obtain ⟨k, rfl⟩ := Nat.exists_eq_add_of_lt enough
      exact here _
    cases pass : Tick.forWorkers ctx isOpen available false s with
    | error e => exact last fun fuel => by rw [Tick.doWhile, pass]
    | ok passed =>
      obtain ⟨ending, s₁⟩ := passed
      cases ending with
      | returned => exact last fun fuel => by rw [Tick.doWhile, pass]
      | done anyDispatched =>
        cases anyDispatched with
        | false => exact last fun fuel => by rw [Tick.doWhile, pass]
        | true =>
          have less : s₁.db.pending.length < s.db.pending.length := pass_pending pass
          obtain ⟨out, ends⟩ := ih _ less s₁ rfl
          refine ⟨out, fun fuel enough => ?_⟩
          cases fuel with
          | zero => cases enough
          | succ fuel =>
            rw [Tick.doWhile, pass]
            exact ends fuel (by omega)

theorem agrees_start (hub₀ : HubProcess) (available rest : List StateRef) :
    Agrees hub₀ available (.start hub₀.db hub₀.hub) ⟨hub₀, available, rest, false, .ended, [], []⟩ := by
  refine ⟨?_, rfl, rfl⟩
  simp only [Tick.start, List.append_nil]

/-- What a tick does alone is what the process does by its own steps, where nothing else
steps in. A transaction that throws ends both after the same dispatches. -/
theorem tick_alone (isDispatchPaused isDbPartitioned : Bool) (ctx : Nat → Ctx) (hub₀ : HubProcess) :
    ∃ out es p available s',
      (∀ fuel, hub₀.db.pending.length < fuel → Tick.tick isDispatchPaused isDbPartitioned ctx
        hub₀.isOpen fuel (.start hub₀.db hub₀.hub) = some out) ∧
      OwnRun ctx (tick isDispatchPaused isDbPartitioned hub₀) es p ∧ p.point = .ended ∧
      Agrees hub₀ available s' p ∧ Ends ctx hub₀.isOpen (.start hub₀.db hub₀.hub) out s' := by
  unfold Tick.tick tick
  cases isDispatchPaused with
  | true => exact ⟨_, [], _, [], _, fun _ _ => rfl, .nil ctx _, rfl, agrees_start hub₀ [] [], .ok⟩
  | false =>
    cases isDbPartitioned with
    | true => exact ⟨_, [], _, [], _, fun _ _ => rfl, .nil ctx _, rfl, agrees_start hub₀ [] [], .ok⟩
    | false =>
      simp only [Bool.false_eq_true, ↓reduceIte, Bool.or_self]
      have captured : (Tick.start hub₀.db hub₀.hub).hub = hub₀.hub := rfl
      rw [captured]
      generalize hub₀.hub.getAvailableWorkers hub₀.isOpen = available
      have agrees := agrees_start hub₀ available available
      cases available with
      | nil => exact ⟨_, [], _, [], _, fun _ _ => rfl, .nil ctx _, rfl, agrees, .ok⟩
      | cons worker rest =>
        obtain ⟨out, done⟩ :=
          doWhile_ends ctx hub₀.isOpen (worker :: rest) (.start hub₀.db hub₀.hub)
        have first := done _ (Nat.lt_succ_self _)
        obtain ⟨es, p, s', run, ended, agrees, ends⟩ := agrees.loop rfl rfl first
        exact ⟨out, es, p, _, s', done, run, ended, agrees, ends⟩

def oneWorker (db : Db) : HubProcess :=
  { HubProcess.init db with hub := Hub.init.set ⟨1, "w1", 2, 0⟩, opened := [1] }

def oneJob : Except PgError (JobId × Db) := submitTx (.quiet "c1" 1) "k" (.obj []) .migrated

/-- Two jobs in the queue, of which the second one has a lease. -/
def leasedJob : Except PgError Db := do
  let (_, db) ← oneJob
  let (_, db) ← submitTx (.quiet "c1" 2) "l" (.obj []) db
  db.insertLease ⟨2, "w2", 7, 60000⟩

/-- The tick dispatches the job; or it dispatches the first job and then throws. -/
theorem tick_alone_oneWorker :
    (∃ db s' es p available, oneJob = .ok (1, db) ∧
      s'.dispatched.map (fun d => (d.1, d.2.jobId)) = [("w1", 1)] ∧
      OwnRun (fun _ => .quiet "c1" 2) (tick false false (oneWorker db)) es p ∧ p.point = .ended ∧
      Agrees (oneWorker db) available s' p) ∧
    ∃ db e es p available s', leasedJob = .ok db ∧
      OwnRun (fun _ => .quiet "c1" 2) (tick false false (oneWorker db)) es p ∧ p.point = .ended ∧
      Agrees (oneWorker db) available s' p ∧
      Ends (fun _ => .quiet "c1" 2) (oneWorker db).isOpen (.start db (oneWorker db).hub) (.error e)
        s' := by
  constructor
  · have ticks : oneJob.toOption.any (fun job => decide (job.1 = 1 ∧ job.2.pending.length < 3) &&
        (Tick.tick false false (fun _ => .quiet "c1" 2) (oneWorker job.2).isOpen 3
          (.start (oneWorker job.2).db (oneWorker job.2).hub)).any fun out =>
            out.toOption.any fun s =>
              decide (s.dispatched.map (fun d => (d.1, d.2.jobId)) = [("w1", 1)])) = true := by
      decide
    rcases submitted : oneJob with e | ⟨j, db⟩
    · rw [submitted] at ticks
      cases ticks
    rw [submitted] at ticks
    obtain ⟨one, ticks⟩ := Bool.and_eq_true_iff.mp ticks
    obtain ⟨out, ticks, ended⟩ := (Option.any_eq_true _ _).mp ticks
    obtain ⟨same, few⟩ := of_decide_eq_true one
    cases same
    obtain ⟨out', es, p, available, s', done, run, stops, agrees, ends⟩ :=
      tick_alone false false (fun _ => .quiet "c1" 2) (oneWorker db)
    cases (done 3 few).symm.trans ticks
    cases ends with
    | ok => exact ⟨db, s', es, p, available, rfl, of_decide_eq_true ended, run, stops, agrees⟩
    | thrown => cases ended
  · have ticks : leasedJob.toOption.any (fun db => decide (db.pending.length < 3) &&
        (Tick.tick false false (fun _ => .quiet "c1" 2) (oneWorker db).isOpen 3
          (.start (oneWorker db).db (oneWorker db).hub)).any fun out => out.toOption.isNone) = true := by
      decide
    rcases leased : leasedJob with e | db
    · rw [leased] at ticks
      cases ticks
    rw [leased] at ticks
    obtain ⟨_, same, ticks⟩ := (Option.any_eq_true _ _).mp ticks
    cases same
    obtain ⟨few, ticks⟩ := Bool.and_eq_true_iff.mp ticks
    obtain ⟨out, ticks, failed⟩ := (Option.any_eq_true _ _).mp ticks
    obtain ⟨out', es, p, available, s', done, run, stops, agrees, ends⟩ :=
      tick_alone false false (fun _ => .quiet "c1" 2) (oneWorker db)
    cases (done 3 (of_decide_eq_true few)).symm.trans ticks
    cases out with
    | ok s => cases failed
    | error e => exact ⟨db, e, es, p, available, s', rfl, run, stops, agrees, ends⟩

end DispatchProcess

end Dispatcher
