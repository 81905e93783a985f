import Dispatcher.Cluster.Events
import Dispatcher.Hub.Entries
import Dispatcher.Model.Dispatch

namespace Dispatcher
open Tables Runs RoundRobin

/-- The queue of a tick, in the order of the table. -/
def Db.pending (db : Db) : List Job := db.jobs.rows.filter fun r => r.status = .pending

def Db.createdAt (db : Db) (j : JobId) : Option Int := (db.jobs.lookup j).map Job.createdAt

/-- What any number of dispatches in a row have done to the tables. -/
structure Drained (db₀ db : Db) (ds : List (WorkerId × Dispatched)) : Prop where
  once : (ds.map fun d => d.2.jobId).Nodup
  leased : ∀ d ∈ ds, db₀.statusOf d.2.jobId = some .pending ∧
    db.statusOf d.2.jobId = some .dispatched ∧ db.holds d.2.jobId d.1 d.2.token = true
  tokens : ds.map (fun d => d.2.token) = (List.range ds.length).map (db₀.fencingSeq + 1 + ·)
  seq : db.fencingSeq = db₀.fencingSeq + ds.length
  others : ∀ j, (∀ d ∈ ds, d.2.jobId ≠ j) → db.view j = db₀.view j
  sorted : ds.Pairwise fun d d' => ∀ a ∈ db₀.createdAt d.2.jobId,
    ∀ a' ∈ db₀.createdAt d'.2.jobId, a ≤ a'
  older : ∀ d ∈ ds, ∀ a ∈ db₀.createdAt d.2.jobId, ∀ r ∈ db.pending, a ≤ r.createdAt
  queue : db.pending.length + ds.length = db₀.pending.length

theorem Drained.refl (db : Db) : Drained db db [] := by
  constructor <;> simp

theorem headOfQueue_unlocked {ctx : Ctx} (unlocked : ∀ j, ctx.locked j = false) (db : Db) :
    headOfQueue ctx db = oldest db.pending := by
  simp [headOfQueue, Db.pending, unlocked]

theorem mem_pending {db : Db} {r : Job} :
    r ∈ db.pending ↔ db.jobs.lookup r.jobId = some r ∧ r.status = .pending := by
  simp only [Db.pending, List.mem_filter, decide_eq_true_eq]
  exact and_congr_left fun _ => ⟨Table.lookup_of_mem, Table.lookup_mem⟩

theorem pending_status {db : Db} {r : Job} (h : r ∈ db.pending) :
    db.statusOf r.jobId = some .pending := by
  obtain ⟨hr, hs⟩ := mem_pending.mp h
  simp [Db.statusOf, hr, hs]

/-- What a dispatch leaves of the queue. -/
theorem pending_dispatchedDb {ctx : Ctx} {w : WorkerId} {job r : Job} {db : Db}
    (h : r ∈ (dispatchedDb ctx w job db).pending) : r ∈ db.pending ∧ r.jobId ≠ job.jobId := by
  obtain ⟨hr, hs⟩ := List.mem_filter.mp h
  obtain ⟨q, hq, rfl⟩ := List.mem_map.mp hr
  by_cases same : q.jobId = job.jobId
  · simp [same, Db.JobPatch.on] at hs
  · simp only [same, decide_false, Bool.false_eq_true, ↓reduceIte] at hs ⊢
    exact ⟨List.mem_filter.mpr ⟨hq, hs⟩, same⟩

theorem pending_dispatchedDb_length (ctx : Ctx) (w : WorkerId) {job : Job} {db : Db}
    (h : job ∈ db.pending) :
    (dispatchedDb ctx w job db).pending.length + 1 = db.pending.length := by
  obtain ⟨hr, hs⟩ := mem_pending.mp h
  exact Table.count_update (p := fun r => r.status = .pending)
    (f := Db.JobPatch.on ⟨.dispatched, none, ctx.pgNowMs⟩) (fun _ => rfl) hr (by simp [hs]) rfl

theorem dispatchedDb_leased (ctx : Ctx) (w : WorkerId) {job : Job} {db : Db}
    (h : job ∈ db.pending) (hl : db.leases.lookup job.jobId = none) :
    (dispatchedDb ctx w job db).statusOf job.jobId = some .dispatched ∧
      (dispatchedDb ctx w job db).holds job.jobId w (db.fencingSeq + 1) = true := by
  have row : (db.view job.jobId).job = some job := (mem_pending.mp h).1
  have now := dispatchedDb_view ctx w hl job.jobId
  rw [if_pos rfl] at now
  constructor
  · refine (congrArg JobView.status now).trans ?_
    simp [JobView.status, JobView.after, JobEvent.apply, row, Db.JobPatch.on]
  · have lease : (dispatchedDb ctx w job db).leases.lookup job.jobId = some _ :=
      congrArg JobView.lease now
    simp [Db.holds, lease]

/-- A pending job is none of those dispatched before. -/
theorem Drained.fresh {db₀ db : Db} {ds : List (WorkerId × Dispatched)} (h : Drained db₀ db ds)
    {job : Job} (head : job ∈ db.pending) : ∀ d ∈ ds, d.2.jobId ≠ job.jobId := by
  intro d hd same
  have dispatched := (h.leased d hd).2.1
  rw [same, pending_status head] at dispatched
  cases dispatched

/-- One more dispatch takes the head of the queue. -/
theorem Drained.dispatch {ctx : Ctx} {w : WorkerId} {job : Job} {db₀ db : Db}
    {ds : List (WorkerId × Dispatched)} (h : Drained db₀ db ds)
    (hq : oldest db.pending = some job) (hl : db.leases.lookup job.jobId = none) :
    Drained db₀ (dispatchedDb ctx w job db)
      (ds ++ [(w, ⟨job.jobId, db.fencingSeq + 1, job.payload⟩)]) := by
  have head := oldest_mem hq
  have view := dispatchedDb_view ctx w hl
  have fresh := h.fresh head
  have kept : ∀ d ∈ ds, (dispatchedDb ctx w job db).view d.2.jobId = db.view d.2.jobId := by
    intro d hd
    rw [view, if_neg (fresh d hd)]
    rfl
  have before : db.view job.jobId = db₀.view job.jobId := h.others job.jobId fresh
  have createdAt : db₀.createdAt job.jobId = some job.createdAt := by
    have row : db₀.jobs.lookup job.jobId = some job :=
      (congrArg JobView.job before).symm.trans (mem_pending.mp head).1
    simp [Db.createdAt, row]
  constructor
  case once =>
    rw [List.map_append, List.nodup_append]
    refine ⟨h.once, List.nodup_singleton _, ?_⟩
    intro j hj k hk
    obtain ⟨d, hd, rfl⟩ := List.mem_map.mp hj
    rw [List.mem_singleton.mp hk]
    exact fresh d hd
  case leased =>
    intro d hd
    rcases List.mem_append.mp hd with hd | hd
    · obtain ⟨pending, dispatched, held⟩ := h.leased d hd
      have lease : (dispatchedDb ctx w job db).leases.lookup d.2.jobId =
        db.leases.lookup d.2.jobId := congrArg JobView.lease (kept d hd)
      refine ⟨pending, (congrArg JobView.status (kept d hd)).trans dispatched, ?_⟩
      rw [Db.holds, lease]
      exact held
    · rw [List.mem_singleton.mp hd]
      exact ⟨(congrArg JobView.status before).symm.trans (pending_status head),
        dispatchedDb_leased ctx w head hl⟩
  case tokens =>
    rw [List.map_append, h.tokens, List.length_append, List.length_singleton, List.range_succ,
      List.map_append, h.seq]
    simp only [List.map_cons, List.map_nil, Nat.add_right_comm db₀.fencingSeq]
  case seq =>
    have seq : (dispatchedDb ctx w job db).fencingSeq = db.fencingSeq + 1 := rfl
    rw [seq, h.seq, List.length_append, List.length_singleton]
    omega
  case others =>
    intro j hj
    have other : j ≠ job.jobId := Ne.symm (hj _ (List.mem_append_right _ List.mem_cons_self))
    rw [view, if_neg other]
    exact h.others j fun d hd => hj d (List.mem_append_left _ hd)
  case sorted =>
    rw [List.pairwise_append]
    refine ⟨h.sorted, List.pairwise_singleton _ _, ?_⟩
    intro d hd d' hd' a ha a' ha'
    rw [List.mem_singleton.mp hd', createdAt] at ha'
    cases ha'
    exact h.older d hd a ha job head
  case older =>
    intro d hd a ha r hr
    obtain ⟨hr, _⟩ := pending_dispatchedDb hr
    rcases List.mem_append.mp hd with hd | hd
    · exact h.older d hd a ha r hr
    · rw [List.mem_singleton.mp hd, createdAt] at ha
      cases ha
      exact oldest_le hq r hr
  case queue =>
    have one := pending_dispatchedDb_length ctx w head
    have queue := h.queue
    rw [List.length_append, List.length_singleton]
    omega

namespace Hub

/-- `limit - inFlight`, where that is positive. -/
def free (hub : Hub) (r : StateRef) : Nat :=
  ((hub.states[r]?).map fun state => (state.concurrencyLimit - state.inFlight).toNat).getD 0

/-- A captured worker is the registered one, on an OPEN socket. -/
theorem available_spec {hub : Hub} {isOpen : SocketId → Bool} {r : StateRef}
    (h : r ∈ hub.getAvailableWorkers isOpen) : ∃ state, hub.states[r]? = some state ∧
      hub.get state.workerId = some r ∧ isOpen state.ws = true := by
  obtain ⟨hr, hp⟩ := List.mem_filter.mp h
  obtain ⟨p, hm, rfl⟩ := List.mem_map.mp hr
  obtain ⟨state, hs, hp⟩ := (Option.any_eq_true _ _).mp hp
  have name := hub.named p hm
  rw [hs, Option.map_some, Option.some.injEq] at name
  exact ⟨state, hs, name ▸ get_of_mem hm, (Bool.and_eq_true_iff.mp hp).1⟩

/-- Two workers never share a `WorkerState`. -/
theorem available_nodup (hub : Hub) (isOpen : SocketId → Bool) :
    (hub.getAvailableWorkers isOpen).Nodup := by
  refine List.Nodup.filter _ ?_
  refine (List.nodup_map_iff_inj_on (List.Nodup.of_map _ hub.workers.unique)).mpr ?_
  intro p hp q hq same
  have names : some p.1 = some q.1 := by rw [← hub.named p hp, ← hub.named q hq, same]
  exact Prod.ext (Option.some.inj names) same

end Hub

def WorkerState.holding (n : Nat) (state : WorkerState) : WorkerState :=
  { state with inFlight := state.inFlight + n }

/-- What the tick has done to the hub and the database is what dealing the queue
among the available workers gives each of them. -/
structure TickDeal (isOpen : SocketId → Bool) (db₀ : Db) (hub₀ : Hub) (deal : Deal StateRef)
    (s : Tick) : Prop where
  drained : Drained db₀ s.db s.dispatched
  queue : deal.queue = s.db.pending.length
  workers : s.hub.workers = hub₀.workers
  states : ∀ r, s.hub.states[r]? = (hub₀.states[r]?).map (WorkerState.holding (deal.given r))
  received : ∀ r ∈ hub₀.getAvailableWorkers isOpen, ∀ state, hub₀.states[r]? = some state →
    s.dispatched.countP (fun d => d.1 = state.workerId) = deal.given r
  sent : s.sent.map (fun m => (some m.1, m.2)) = s.dispatched.map fun d =>
    (hub₀.socketOf d.1, .jobDispatch ⟨d.2.jobId, d.2.token, d.2.payload, DISPATCH_LEASE_TTL_MS⟩)

theorem TickDeal.start (isOpen : SocketId → Bool) (db : Db) (hub : Hub) :
    TickDeal isOpen db hub ⟨db.pending.length, fun _ => 0⟩ (.start db hub) := by
  refine ⟨.refl db, rfl, rfl, fun r => ?_, fun _ _ _ _ => rfl, rfl⟩
  cases h : hub.states[r]? <;> simp [Tick.start, WorkerState.holding, h]

section tick

variable {isOpen : SocketId → Bool} {db₀ : Db} {hub₀ : Hub} {deal : Deal StateRef} {s : Tick}
  {ctx : Nat → Ctx} {r : StateRef} {state : WorkerState}

theorem TickDeal.unleased (h : TickDeal isOpen db₀ hub₀ deal s)
    (unleased : ∀ r ∈ db₀.pending, db₀.leases.lookup r.jobId = none) :
    ∀ r ∈ s.db.pending, s.db.leases.lookup r.jobId = none := by
  intro r hr
  have same := h.drained.others r.jobId (h.drained.fresh hr)
  have row : db₀.jobs.lookup r.jobId = some r :=
    (congrArg JobView.job same).symm.trans (mem_pending.mp hr).1
  exact (congrArg JobView.lease same).trans
    (unleased r (mem_pending.mpr ⟨row, (mem_pending.mp hr).2⟩))

/-- An empty queue ends the tick. -/
theorem TickDeal.empty (h : TickDeal isOpen db₀ hub₀ deal s) (empty : deal.queue = 0)
    (unlocked : ∀ n j, (ctx n).locked j = false) (workerId : WorkerId) :
    Tick.tryDispatchOne ctx isOpen workerId s = .ok (false, s) := by
  have none : s.db.pending = [] := List.length_eq_zero_iff.mp (h.queue ▸ empty)
  simp only [Tick.tryDispatchOne, tryDispatchOneTx_eq, headOfQueue_unlocked (unlocked _), none,
    oldest]

theorem tryDispatchOne_sent {job : Job} {workerId : WorkerId}
    (hq : headOfQueue (ctx s.dispatched.length) s.db = some job)
    (hl : s.db.leases.lookup job.jobId = none)
    (entry : s.hub.openState isOpen workerId = some (r, state)) :
    Tick.tryDispatchOne ctx isOpen workerId s = .ok (true,
      { db := dispatchedDb (ctx s.dispatched.length) workerId job s.db
        hub := s.hub.modify r (fun state => { state with inFlight := state.inFlight + 1 })
          fun _ => rfl
        sent := s.sent ++ [(state.ws, .jobDispatch
          ⟨job.jobId, s.db.fencingSeq + 1, job.payload, DISPATCH_LEASE_TTL_MS⟩)]
        dispatched := s.dispatched ++
          [(workerId, ⟨job.jobId, s.db.fencingSeq + 1, job.payload⟩)] }) := by
  simp only [Tick.tryDispatchOne, tryDispatchOneTx_eq, hq, hl, Option.isSome_none,
    Bool.false_eq_true, ↓reduceIte, Hub.sendJob, entry]

/-- A turn of the loop is a turn of the deal. -/
theorem TickDeal.give (h : TickDeal isOpen db₀ hub₀ deal s)
    (unleased : ∀ r ∈ db₀.pending, db₀.leases.lookup r.jobId = none)
    (unlocked : ∀ n j, (ctx n).locked j = false) (hr : r ∈ hub₀.getAvailableWorkers isOpen)
    (hs : hub₀.states[r]? = some state) (queue : deal.queue = n + 1) : ∃ s',
    Tick.tryDispatchOne ctx isOpen state.workerId s = .ok (true, s') ∧
      TickDeal isOpen db₀ hub₀ (deal.give r n) s' := by
  obtain ⟨state', hs', known, isOpen'⟩ := Hub.available_spec hr
  cases Option.some.inj (hs.symm.trans hs')
  obtain ⟨job, hq⟩ : ∃ job, oldest s.db.pending = some job := by
    rw [← Option.ne_none_iff_exists']
    intro none
    have length := h.queue
    rw [oldest_none none, queue] at length
    cases length
  have lease := h.unleased unleased job (oldest_mem hq)
  have now : s.hub.states[r]? = some (state.holding (deal.given r)) := by
    rw [h.states, hs]
    rfl
  have entry : s.hub.openState isOpen state.workerId =
      some (r, state.holding (deal.given r)) := by
    have get : s.hub.get state.workerId = some r := by
      rw [← known, Hub.get, h.workers]
      rfl
    simp [Hub.openState, get, now, WorkerState.holding, isOpen']
  have head : headOfQueue (ctx s.dispatched.length) s.db = some job :=
    (headOfQueue_unlocked (unlocked _) s.db).trans hq
  refine ⟨_, tryDispatchOne_sent head lease entry, ?_⟩
  constructor
  case drained => exact h.drained.dispatch hq lease
  case queue =>
    have one := pending_dispatchedDb_length (ctx s.dispatched.length) state.workerId
      (oldest_mem hq)
    have before := h.queue
    simp only [Deal.give]
    omega
  case workers => exact h.workers
  case states =>
    intro r'
    simp only [Hub.modify, List.getElem?_modify, h.states, Deal.give]
    by_cases same : r = r'
    · subst same
      simp only [hs, Function.update_self]
      rfl
    · simp only [same, ↓reduceIte, Function.update_of_ne (Ne.symm same)]
      cases hub₀.states[r']? <;> rfl
  case received =>
    intro r' hr' other ho
    rw [List.countP_append, h.received r' hr' other ho, List.countP_singleton]
    by_cases same : r = r'
    · subst same
      cases Option.some.inj (hs.symm.trans ho)
      simp [Deal.give]
    · have names : state.workerId ≠ other.workerId := by
        intro equal
        obtain ⟨_, ho', known', _⟩ := Hub.available_spec hr'
        cases Option.some.inj (ho.symm.trans ho')
        rw [← equal, known] at known'
        exact same (Option.some.inj known')
      simp [Deal.give, Function.update_of_ne (Ne.symm same), names]
  case sent =>
    have socket : hub₀.socketOf state.workerId = some state.ws := by
      simp [Hub.socketOf, known, hs]
    simp [h.sent, socket, WorkerState.holding]

/-- The `for` loop is a pass of the deal. -/
theorem TickDeal.pass (unleased : ∀ r ∈ db₀.pending, db₀.leases.lookup r.jobId = none)
    (unlocked : ∀ n j, (ctx n).locked j = false) {rest : List StateRef}
    (within : rest ⊆ hub₀.getAvailableWorkers isOpen) (anyDispatched : Bool)
    (h : TickDeal isOpen db₀ hub₀ deal s) : ∃ s',
    Tick.forWorkers ctx isOpen rest anyDispatched s =
      .ok ((RoundRobin.pass hub₀.free rest anyDispatched deal).1, s') ∧
    TickDeal isOpen db₀ hub₀ (RoundRobin.pass hub₀.free rest anyDispatched deal).2 s' := by
  induction rest generalizing anyDispatched deal s with
  | nil => exact ⟨s, rfl, h⟩
  | cons r rest ih =>
    obtain ⟨hr, within⟩ := List.cons_subset.mp within
    obtain ⟨state, hs, known, _⟩ := Hub.available_spec hr
    have now : s.hub.states[r]? = some (state.holding (deal.given r)) := by
      rw [h.states, hs]
      rfl
    have limit : hub₀.free r ≤ deal.given r ↔ state.concurrencyLimit ≤
        ((state.holding (deal.given r)).inFlight : Int) := by
      simp only [Hub.free, hs, Option.map_some, Option.getD_some, WorkerState.holding]
      omega
    simp only [Tick.forWorkers, now, RoundRobin.pass]
    by_cases full : hub₀.free r ≤ deal.given r
    · have full' := limit.mp full
      simp only [WorkerState.holding] at full' ⊢
      simp only [full, full', ↓reduceIte]
      exact ih within anyDispatched h
    · have full' : ¬ state.concurrencyLimit ≤
          ((state.holding (deal.given r)).inFlight : Int) := fun hl => full (limit.mpr hl)
      simp only [WorkerState.holding] at full' ⊢
      simp only [full, full', ↓reduceIte]
      cases hq : deal.queue with
      | zero =>
        rw [h.empty hq unlocked]
        exact ⟨s, rfl, h⟩
      | succ n =>
        obtain ⟨s', sent, given⟩ := h.give unleased unlocked hr hs hq
        rw [sent]
        exact ih within true given

/-- The `do ... while` loop deals as the passes of the deal do, fuel for fuel. -/
theorem TickDeal.loop (unleased : ∀ r ∈ db₀.pending, db₀.leases.lookup r.jobId = none)
    (unlocked : ∀ n j, (ctx n).locked j = false) {fuel : Nat} {deal' : Deal StateRef}
    (h : TickDeal isOpen db₀ hub₀ deal s)
    (dealt : RoundRobin.deal hub₀.free (hub₀.getAvailableWorkers isOpen) fuel deal = some deal') :
    ∃ s', Tick.doWhile ctx isOpen (hub₀.getAvailableWorkers isOpen) fuel s = some (.ok s') ∧
      TickDeal isOpen db₀ hub₀ deal' s' := by
  induction fuel generalizing deal s with
  | zero => cases dealt
  | succ fuel ih =>
    obtain ⟨s', loop, given⟩ := h.pass unleased unlocked (List.Subset.refl _) false
    unfold RoundRobin.deal at dealt
    simp only [Tick.doWhile, loop]
    generalize RoundRobin.pass hub₀.free (hub₀.getAvailableWorkers isOpen) false deal = p
      at dealt given
    obtain ⟨p, deal''⟩ := p
    cases p with
    | returned =>
      cases dealt
      exact ⟨s', rfl, given⟩
    | done anyDispatched =>
      cases anyDispatched with
      | true => exact ih given dealt
      | false =>
        cases dealt
        exact ⟨s', rfl, given⟩

/-- More fuel changes nothing once the tick has ended. -/
theorem doWhile_more {available : List StateRef} {fuel fuel' : Nat} {out : Except PgError Tick}
    (h : Tick.doWhile ctx isOpen available fuel s = some out) (more : fuel ≤ fuel') :
    Tick.doWhile ctx isOpen available fuel' s = some out := by
  induction fuel generalizing s fuel' with
  | zero => cases h
  | succ fuel ih =>
    obtain ⟨fuel', rfl⟩ := Nat.exists_eq_add_one_of_ne_zero (Nat.ne_of_gt (Nat.zero_lt_of_lt more))
    simp only [Tick.doWhile] at h ⊢
    split at h
    · exact h
    · exact h
    · exact ih h (Nat.le_of_succ_le_succ more)
    · exact h

end tick

def Tick.received (s : Tick) (hub : Hub) (r : StateRef) : Nat :=
  s.dispatched.countP fun d => (hub.states[r]?).any fun state => d.1 = state.workerId

/-- What a tick alone makes of the queue of `db` and the workers of `hub`. -/
structure FairTick (isOpen : SocketId → Bool) (db : Db) (hub : Hub) (s : Tick) : Prop where
  /-- As many jobs as are pending or as there are free slots. -/
  count : s.dispatched.length =
    min db.pending.length ((hub.getAvailableWorkers isOpen).map hub.free).sum
  /-- Each to one worker, with its own lease, the oldest first. -/
  drained : Drained db s.db s.dispatched
  sent : s.sent.map (fun m => (some m.1, m.2)) = s.dispatched.map fun d =>
    (hub.socketOf d.1, .jobDispatch ⟨d.2.jobId, d.2.token, d.2.payload, DISPATCH_LEASE_TTL_MS⟩)
  /-- In rounds, the last of which may have served only the workers `ahead`. -/
  rounds : ∃ k ahead behind, ahead ++ behind = hub.getAvailableWorkers isOpen ∧
    (∀ r ∈ ahead, s.received hub r = min (hub.free r) (k + 1)) ∧
    ∀ r ∈ behind, s.received hub r = min (hub.free r) k
  counted : ∀ r ∈ hub.getAvailableWorkers isOpen,
    s.hub.states[r]? = (hub.states[r]?).map (WorkerState.holding (s.received hub r))
  /-- No job is left, or every worker is at its limit. -/
  filled : s.db.pending = [] ∨ ∀ r ∈ hub.getAvailableWorkers isOpen, ∀ state,
    s.hub.states[r]? = some state → (state.inFlight : Int) = state.concurrencyLimit

/-- A finished deal is a fair tick. -/
theorem TickDeal.fair {isOpen : SocketId → Bool} {db₀ : Db} {hub₀ : Hub} {deal : Deal StateRef}
    {s : Tick} (h : TickDeal isOpen db₀ hub₀ deal s)
    (dealt : Dealt hub₀.free (hub₀.getAvailableWorkers isOpen) db₀.pending.length deal) :
    FairTick isOpen db₀ hub₀ s := by
  have received : ∀ r ∈ hub₀.getAvailableWorkers isOpen, s.received hub₀ r = deal.given r := by
    intro r hr
    obtain ⟨state, hs, _⟩ := Hub.available_spec hr
    rw [← h.received r hr state hs]
    simp [Tick.received, hs]
  refine ⟨?_, h.drained, h.sent, ?_, ?_, ?_⟩
  · have count := dealt.count
    have left := dealt.left
    have queue := h.queue
    have drained := h.drained.queue
    omega
  · obtain ⟨k, ahead, behind, split, round⟩ := dealt.rounds
    refine ⟨k, ahead, behind, split, ?_, ?_⟩
    · intro r hr
      rw [received r (split ▸ List.mem_append_left _ hr)]
      exact round.ahead r hr
    · intro r hr
      rw [received r (split ▸ List.mem_append_right _ hr)]
      exact round.behind r hr
  · intro r hr
    rw [received r hr]
    exact h.states r
  · rcases dealt.filled with empty | full
    · exact .inl (List.length_eq_zero_iff.mp (h.queue ▸ empty))
    · right
      intro r hr state hs
      obtain ⟨hm, hp⟩ := List.mem_filter.mp hr
      obtain ⟨state₀, hs₀, room⟩ := (Option.any_eq_true _ _).mp hp
      have limit := full r hr
      rw [h.states, hs₀, Option.map_some, Option.some.injEq] at hs
      subst hs
      simp only [Hub.free, hs₀, Option.map_some, Option.getD_some] at limit
      have below := of_decide_eq_true (Bool.and_eq_true_iff.mp room).2
      simp only [WorkerState.holding]
      omega

/-- A tick run alone ends, and deals the queue fairly. -/
theorem fair_tick {c : Cluster} (reached : Reachable Cluster.step .init c) (hub : Hub)
    (isOpen : SocketId → Bool) (ctx : Nat → Ctx) (unlocked : ∀ n j, (ctx n).locked j = false) :
    ∃ s, FairTick isOpen c.db hub s ∧ ∀ fuel, c.db.pending.length < fuel →
      Tick.tick false false ctx isOpen fuel (.start c.db hub) = some (.ok s) := by
  have unleased : ∀ r ∈ c.db.pending, c.db.leases.lookup r.jobId = none :=
    fun r hr => ((Cluster.consistent_reachable reached r.jobId).pending (pending_status hr)).1
  have nodup := Hub.available_nodup hub isOpen
  have round : Round hub.free 0 [] (hub.getAvailableWorkers isOpen)
      ⟨c.db.pending.length, fun _ => 0⟩ :=
    ⟨fun _ hr => absurd hr List.not_mem_nil, fun r _ => (Nat.min_zero _).symm⟩
  have total : (⟨c.db.pending.length, fun _ => 0⟩ : Deal StateRef).total
      (hub.getAvailableWorkers isOpen) = c.db.pending.length := by
    simp [Deal.total]
  obtain ⟨deal, dealt, ended⟩ := deal_dealt nodup round total
  obtain ⟨s, loop, given⟩ := (TickDeal.start isOpen c.db hub).loop unleased unlocked
    (ended (c.db.pending.length + 1) (Nat.lt_succ_self _))
  cases none : hub.getAvailableWorkers isOpen with
  | nil =>
    refine ⟨.start c.db hub, (TickDeal.start isOpen c.db hub).fair ?_, ?_⟩
    · rw [none] at round total ⊢
      exact dealt_of_round round rfl total (.inr fun _ hr => absurd hr List.not_mem_nil)
    · intro fuel _
      simp [Tick.tick, Tick.start, none]
  | cons r rest =>
    refine ⟨s, given.fair dealt, ?_⟩
    intro fuel hf
    have enough := doWhile_more loop hf
    rw [none] at enough
    simpa [Tick.tick, Tick.start, none] using enough

/-- Three jobs, of which the first to be submitted is the newest. -/
def threeJobs : List Action :=
  [.post "c1" (some (.str "a")) (some (.obj [])), .resume 0 (.quiet "c1" 3), .resume 0 (.quiet "c1" 3),
    .post "c1" (some (.str "b")) (some (.obj [])), .resume 0 (.quiet "c1" 1), .resume 0 (.quiet "c1" 1),
    .post "c1" (some (.str "c")) (some (.obj [])), .resume 0 (.quiet "c1" 2), .resume 0 (.quiet "c1" 2)]

/-- "w1" has one slot, "w2" has three left. -/
def twoWorkers : Hub :=
  (Hub.init.set ⟨1, "w1", 1, 0⟩).set ⟨2, "w2", 4, 1⟩

theorem fair_tick_threeJobs : ∃ c s, exec Cluster.step .init threeJobs = some c ∧
    Tick.tick false false (fun _ => .quiet "c1" 5) (fun _ => true) 4 (.start c.db twoWorkers) =
      some (.ok s) ∧
    s.dispatched.map (fun d => (d.1, d.2.jobId)) = [("w1", 1), ("w2", 2), ("w2", 3)] ∧
    FairTick (fun _ => true) c.db twoWorkers s := by
  obtain ⟨c, hc, hp⟩ : ∃ c, exec Cluster.step .init threeJobs = some c ∧
      (decide (c.db.pending.length < 4) &&
        (Tick.tick false false (fun _ => .quiet "c1" 5) (fun _ => true) 4
          (.start c.db twoWorkers)).any fun out => out.toOption.any fun s => decide
            (s.dispatched.map (fun d => (d.1, d.2.jobId)) = [("w1", 1), ("w2", 2), ("w2", 3)]))
        = true := exec_any (by decide)
  obtain ⟨short, ended⟩ := Bool.and_eq_true_iff.mp hp
  obtain ⟨s, fair, tick⟩ := fair_tick (reachable_of_exec threeJobs hc) twoWorkers (fun _ => true)
    (fun _ => .quiet "c1" 5) fun _ _ => rfl
  have now := tick 4 (of_decide_eq_true short)
  obtain ⟨out, hout, dispatched⟩ := (Option.any_eq_true _ _).mp ended
  cases Option.some.inj (now.symm.trans hout)
  exact ⟨c, s, hc, now, of_decide_eq_true dispatched, fair⟩

end Dispatcher
