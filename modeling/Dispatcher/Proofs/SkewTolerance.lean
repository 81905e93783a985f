import Dispatcher.Chaos.Faults
import Dispatcher.Proofs.HeartbeatSafety

namespace Dispatcher
open Tables Runs

namespace Chaotic

variable {lo hi startMs : Int} {s s' : Chaotic} {es : List (Event Chaotic ChaoticAction)} {j : JobId}

/-- A `clock_skew` fault stays within these milliseconds. -/
def skewsWithin (lo hi : Int) : ChaoticAction → Bool
  | .chaos _ (some (.str name)) params => name ≠ ChaosAction.clockSkew.text ||
    lo ≤ params.seconds.getD 0 * 1000 && params.seconds.getD 0 * 1000 ≤ hi
  | _ => true

def jobEvent (e : Event Chaotic ChaoticAction) (j : JobId) : Option JobEvent :=
  match e.action with
  | .cluster b => e.before.cluster.event b j
  | _ => none

/-- The heartbeat that a coordinator hears in this step, with the expiry it computes. -/
def hears (e : Event Chaotic ChaoticAction) : Option (CoordinatorId × JobHeartbeat × Int) :=
  match e.action with
  | .cluster (.receive c k ctx) => match e.before.cluster.wire[k]? with
    | some (_, .jobHeartbeat msg) => some (c, msg, heartbeatExpiry ctx)
    | _ => none
  | _ => none

def updates (e : Event Chaotic ChaoticAction) : Option (CoordinatorId × JobHeartbeat × Int) :=
  match e.action with
  | .cluster (.resume i _) => match e.before.cluster.tasks[i]? with
    | some (c, .heartbeatUpdate _ msg newExpiry) => some (c, msg, newExpiry)
    | _ => none
  | _ => none

/-- The coordinator whose reaper begins a tick in this step, with the time it compares to. -/
def ticks (e : Event Chaotic ChaoticAction) : Option (CoordinatorId × Int) :=
  match e.action with
  | .cluster (.reaperTick c ctx) => some (c, ctx.nowMs + ctx.skewMs)
  | _ => none

def renews (e : Option JobEvent) : Bool := e.any fun
  | .dispatched .. | .extended _ => true
  | _ => false

/-- The expiry of the lease of `j` was last computed when the wall clock showed
`reading`, to be `ttl` later. -/
inductive Renewed (j : JobId) : List (Event Chaotic ChaoticAction) → Int → Int → Prop where
  | issued {es : List (Event Chaotic ChaoticAction)} {e : Event Chaotic ChaoticAction} {ctx : Ctx}
      {workerId : WorkerId} {token : Token}
      (dispatched : jobEvent e j = some (.dispatched ctx workerId token)) :
      Renewed j (es ++ [e]) e.before.nowMs DISPATCH_LEASE_TTL_MS
  | extended {es : List (Event Chaotic ChaoticAction)} {e f : Event Chaotic ChaoticAction}
      {newExpiry : Int}
      (extended : jobEvent e j = some (.extended newExpiry)) (earlier : f ∈ es)
      (heard : hears f = updates e) : Renewed j (es ++ [e]) f.before.nowMs HEARTBEAT_LEASE_TTL_MS
  | kept {es : List (Event Chaotic ChaoticAction)} {e : Event Chaotic ChaoticAction}
      {reading ttl : Int} (before : Renewed j es reading ttl)
      (aside : renews (jobEvent e j) = false) : Renewed j (es ++ [e]) reading ttl

/-- As a clock with a skew between `lo` and `hi` shows it. -/
def Around (lo hi exact shown : Int) : Prop := exact + lo ≤ shown ∧ shown ≤ exact + hi

/-- What the skewed clocks have left in the system. -/
structure Skewed (lo hi : Int) (es : List (Event Chaotic ChaoticAction)) (s : Chaotic) : Prop where
  skews : ∀ c, lo ≤ (s.chaos c).clockSkewMs ∧ (s.chaos c).clockSkewMs ≤ hi
  heartbeats : ∀ c workerId msg newExpiry,
    (c, .heartbeatUpdate workerId msg newExpiry) ∈ s.cluster.tasks → ∃ f ∈ es,
      hears f = some (c, msg, newExpiry) ∧
      Around lo hi (f.before.nowMs + HEARTBEAT_LEASE_TTL_MS) newExpiry
  ticked : ∀ c now, (c, .reaperTx now) ∈ s.cluster.tasks → ∃ f ∈ es, ticks f = some (c, now) ∧
    Around lo hi f.before.nowMs now
  leases : ∀ j l, s.cluster.db.leases.lookup j = some l → ∃ reading ttl, Renewed j es reading ttl ∧
    Around lo hi (reading + ttl) l.expiresAt

theorem step_skews (around : lo ≤ 0 ∧ 0 ≤ hi) {a : ChaoticAction} (h : step s a = some s')
    (within : skewsWithin lo hi a = true)
    (skews : ∀ c, lo ≤ (s.chaos c).clockSkewMs ∧ (s.chaos c).clockSkewMs ≤ hi) (c : CoordinatorId) :
    lo ≤ (s'.chaos c).clockSkewMs ∧ (s'.chaos c).clockSkewMs ≤ hi := by
  have moved := step_chaos h c
  generalize s'.chaos c = chaos at moved
  cases moved with
  | same => exact skews c
  | applied action params =>
    cases action with
    | clockSkew => simpa [skewsWithin, ChaosService.apply] using within
    | pauseDispatch | resumeDispatch | dropAcks | partitionDb | restoreDb => exact skews c
  | accepted =>
    unfold ChaosService.consumeDropAck
    split <;> exact skews c
  | stopped => exact around

theorem source_heartbeat {u : Cluster} {b : Action} {c : CoordinatorId} {workerId : WorkerId}
    {msg : JobHeartbeat} {newExpiry : Int} (h : u.Source b (c, .heartbeatUpdate workerId msg newExpiry)) :
    (c, .heartbeatUpdate workerId msg newExpiry) ∈ u.tasks ∨ ∃ k ctx ws, b = .receive c k ctx ∧
      u.wire[k]? = some (ws, .jobHeartbeat msg) ∧ newExpiry = heartbeatExpiry ctx := by
  cases h with
  | before hp => exact .inl hp
  | follows _ follows => cases follows
  | @received _ k ctx ws m _ hk ht =>
    cases m with
    | jobHeartbeat m =>
      obtain ⟨w, _, same⟩ := List.mem_map.mp ht
      cases same
      exact .inr ⟨k, ctx, ws, rfl, hk, rfl⟩
    | jobResult m =>
      obtain ⟨w, _, same⟩ := List.mem_map.mp ht
      cases same
    | workerHello | jobFailed => cases List.mem_singleton.mp ht
    | pong => cases ht

theorem source_tick {u : Cluster} {b : Action} {c : CoordinatorId} {now : Int}
    (h : u.Source b (c, .reaperTx now)) : (c, .reaperTx now) ∈ u.tasks ∨
      ∃ ctx, b = .reaperTick c ctx ∧ now = ctx.nowMs + ctx.skewMs := by
  cases h with
  | before hp => exact .inl hp
  | follows _ follows => cases follows
  | @received _ _ _ _ m _ _ ht =>
    cases m with
    | jobHeartbeat | jobResult =>
      obtain ⟨w, _, same⟩ := List.mem_map.mp ht
      cases same
    | workerHello | jobFailed => cases List.mem_singleton.mp ht
    | pong => cases ht
  | @ticked _ ctx => exact .inr ⟨ctx, rfl, rfl⟩

theorem reads_around {ctx : Ctx} {c : CoordinatorId} (reads : s.reads c ctx = true)
    (skews : ∀ c, lo ≤ (s.chaos c).clockSkewMs ∧ (s.chaos c).clockSkewMs ≤ hi) :
    Around lo hi s.nowMs (ctx.nowMs + ctx.skewMs) := by
  simp only [Chaotic.reads, Bool.and_eq_true, decide_eq_true_eq] at reads
  have bounds := skews c
  rw [reads.1, reads.2]
  exact ⟨Int.add_le_add_left bounds.1 _, Int.add_le_add_left bounds.2 _⟩

/-- What happens to a job reads the clock of the step. -/
theorem event_reads {b : Action} {e : JobEvent} (allowed : s.permits b = true)
    (h : s.cluster.event b j = some e) : ∃ i ctx c t, b = .resume i ctx ∧
      s.cluster.tasks[i]? = some (c, t) ∧ t.event { ctx with coordinatorId := c } s.cluster.db j = some e ∧
      s.reads c ctx = true := by
  obtain ⟨⟨ctx', t⟩, resumed, event⟩ := Option.bind_eq_some_iff.mp h
  cases b with
  | resume i ctx =>
    obtain ⟨⟨c, t⟩, hi, same⟩ := Option.map_eq_some_iff.mp resumed
    cases same
    simp only [permits, hi, Option.all_some, Bool.and_eq_true] at allowed
    exact ⟨i, ctx, c, t, rfl, hi, event, allowed.1⟩
  | _ => cases resumed

/-- The expiry of a lease is as old as the contact that it was last computed at. -/
theorem renewed_step {a : ChaoticAction} (known : Skewed lo hi es s) (h : step s a = some s')
    {l : Lease} (hl : s'.cluster.db.leases.lookup j = some l) : ∃ reading ttl,
      Renewed j (es ++ [⟨s, a, s'⟩]) reading ttl ∧ Around lo hi (reading + ttl) l.expiresAt := by
  have kept (before : s.cluster.db.leases.lookup j = some l)
      (aside : renews (jobEvent ⟨s, a, s'⟩ j) = false) : ∃ reading ttl,
      Renewed j (es ++ [⟨s, a, s'⟩]) reading ttl ∧ Around lo hi (reading + ttl) l.expiresAt := by
    obtain ⟨reading, ttl, renewed, rest⟩ := known.leases j l before
    exact ⟨reading, ttl, renewed.kept aside, rest⟩
  rcases step_db h with ⟨same, other⟩ | ⟨b, u, rfl, taken, same⟩
  · refine kept (same ▸ hl) ?_
    cases a with
    | cluster b => exact absurd rfl (other b)
    | _ => rfl
  obtain ⟨_, allowed, _⟩ := cluster_step h
  have view := congrArg JobView.lease (Cluster.step_view taken j)
  change u.db.leases.lookup j = _ at view
  rw [← same, hl] at view
  cases he : s.cluster.event b j with
  | none =>
    rw [he] at view
    exact kept view.symm (by simp [jobEvent, he, renews])
  | some e =>
    rw [he] at view
    obtain ⟨i, ctx, c, t, rfl, hi, event, reads⟩ := event_reads allowed he
    cases event_cases event with
    | dispatched =>
      cases view
      refine ⟨_, _, .issued he, ?_⟩
      have shown := reads_around reads known.skews
      simp only [Around] at shown ⊢
      omega
    | @extended workerId msg newExpiry _ _ =>
      obtain ⟨before, _, rfl⟩ := Option.map_eq_some_iff.mp view.symm
      obtain ⟨f, hf, heard, rest⟩ := known.heartbeats c workerId msg newExpiry (List.mem_of_getElem? hi)
      exact ⟨_, _, .extended he hf (by simp [heard, updates, hi]), rest⟩
    | submitted | cancelled => exact kept view.symm (by simp [jobEvent, he, renews])
    | accepted | discarded | requeued | failed | reaped => cases view

/-- No skew takes a reading out of its bounds. -/
theorem Skewed.step {a : ChaoticAction} (around : lo ≤ 0 ∧ 0 ≤ hi) (known : Skewed lo hi es s)
    (h : step s a = some s') (within : skewsWithin lo hi a = true) :
    Skewed lo hi (es ++ [⟨s, a, s'⟩]) s' := by
  have last : (⟨s, a, s'⟩ : Event Chaotic ChaoticAction) ∈ es ++ [⟨s, a, s'⟩] :=
    List.mem_append_right _ (List.mem_singleton_self _)
  refine ⟨step_skews around h within known.skews, ?_, ?_, fun j l hl => renewed_step known h hl⟩
  · intro c workerId msg newExpiry ht
    have before (ht : (c, .heartbeatUpdate workerId msg newExpiry) ∈ s.cluster.tasks) :=
      known.heartbeats c workerId msg newExpiry ht
    rcases step_tasks h ht with ht | ⟨b, rfl, source⟩
    · obtain ⟨f, hf, rest⟩ := before ht
      exact ⟨f, List.mem_append_left _ hf, rest⟩
    · rcases source_heartbeat source with ht | ⟨k, ctx, ws, rfl, hk, rfl⟩
      · obtain ⟨f, hf, rest⟩ := before ht
        exact ⟨f, List.mem_append_left _ hf, rest⟩
      · obtain ⟨_, allowed, _⟩ := cluster_step h
        refine ⟨_, last, by simp [hears, hk], ?_⟩
        have shown := reads_around allowed known.skews
        simp only [Around, heartbeatExpiry] at shown ⊢
        omega
  · intro c now ht
    rcases step_tasks h ht with ht | ⟨b, rfl, source⟩
    · obtain ⟨f, hf, rest⟩ := known.ticked c now ht
      exact ⟨f, List.mem_append_left _ hf, rest⟩
    · rcases source_tick source with ht | ⟨ctx, rfl, rfl⟩
      · obtain ⟨f, hf, rest⟩ := known.ticked c now ht
        exact ⟨f, List.mem_append_left _ hf, rest⟩
      · obtain ⟨_, allowed, _⟩ := cluster_step h
        exact ⟨_, last, rfl, reads_around (Bool.and_eq_true_iff.mp allowed).2 known.skews⟩

end Chaotic

end Dispatcher
