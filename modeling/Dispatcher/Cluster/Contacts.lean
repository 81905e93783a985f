import Dispatcher.Cluster.Messages

namespace Dispatcher
open Tables Runs

/-- The clock readings that a lease owes its expiry to: the one of its issue, and
those of the heartbeats applied to it, in the order of their updates. -/
structure Contacts where
  issue : Int
  heartbeats : List Int

/-- What the two writers of `ExpiresAt` make of the readings. -/
def Contacts.due (c : Contacts) : Int :=
  match c.heartbeats.getLast? with
  | some reading => reading + HEARTBEAT_LEASE_TTL_MS
  | none => c.issue + DISPATCH_LEASE_TTL_MS

/-- The contacts of a job's lease after an event; `none` while the job has no lease. -/
def JobEvent.contacts (c : Option Contacts) : JobEvent → Option Contacts
  | .dispatched ctx _ _ => some ⟨ctx.nowMs, []⟩
  | .extended expiresAt => c.map fun c =>
    { c with heartbeats := c.heartbeats ++ [expiresAt - HEARTBEAT_LEASE_TTL_MS] }
  | .accepted .. | .discarded | .requeued _ | .failed _ | .reaped _ => none
  | .submitted .. | .cancelled _ => c

def contactsOf (j : JobId) (es : List (Event Cluster Action)) : Option Contacts :=
  es.foldl (fun c e => (e.before.event e.action j).elim c (·.contacts c)) none

def Action.skewMs : Action → Int
  | .receive _ _ ctx | .reaperTick _ ctx | .resume _ ctx => ctx.skewMs
  | .post .. | .delete .. | .workerSend .. | .deregister .. | .dispatchTick .. | .fail .. | .crash _
  | .skipTokens _ => 0

theorem contactsOf_snoc (j : JobId) (es : List (Event Cluster Action)) (e : Event Cluster Action) :
    contactsOf j (es ++ [e]) =
      (e.before.event e.action j).elim (contactsOf j es) (·.contacts (contactsOf j es)) := by
  simp only [contactsOf, List.foldl_append, List.foldl_cons, List.foldl_nil]

theorem due_heartbeat (c : Contacts) (expiresAt : Int) :
    ({ c with heartbeats := c.heartbeats ++ [expiresAt - HEARTBEAT_LEASE_TTL_MS] } : Contacts).due =
      expiresAt := by
  simp [Contacts.due]

/-- Every event keeps the expiry to what the contacts say. -/
theorem apply_expiry {v : JobView} {c : Option Contacts} {e : JobEvent} {j : JobId}
    (unskewed : ∀ ctx, e.ctx = some ctx → ctx.skewMs = 0)
    (h : v.lease.map Lease.expiresAt = c.map Contacts.due) :
    (e.apply j v).lease.map Lease.expiresAt = (e.contacts c).map Contacts.due := by
  cases e with
  | dispatched ctx w t =>
    have skew := unskewed ctx rfl
    simp [JobEvent.apply, JobEvent.contacts, Contacts.due, skew]
  | extended expiresAt =>
    have both : v.lease.isSome = c.isSome := by
      rw [← Option.isSome_map (f := Lease.expiresAt), h, Option.isSome_map]
    cases hl : v.lease <;> cases hc : c <;> simp [hl, hc] at both
    · simp [JobEvent.apply, JobEvent.contacts, hl]
    · simp [JobEvent.apply, JobEvent.contacts, hl, due_heartbeat]
  | submitted | cancelled => exact h
  | accepted | discarded | requeued | failed | reaped => rfl

theorem resumed_skew {s : Cluster} {a : Action} {ctx : Ctx} {t : Task}
    (h : s.resumed a = some (ctx, t)) : ctx.skewMs = a.skewMs := by
  cases a with
  | resume i ctx' =>
    obtain ⟨p, _, hp⟩ := Option.map_eq_some_iff.mp h
    cases hp
    rfl
  | _ => cases h

namespace Cluster

/-- An event reads the skew of the step that it comes from. -/
theorem event_unskewed {s : Cluster} {a : Action} {j : JobId} {e : JobEvent}
    (h : s.event a j = some e) (unskewed : a.skewMs = 0) :
    ∀ ctx, e.ctx = some ctx → ctx.skewMs = 0 := by
  intro c hc
  obtain ⟨⟨ctx, t⟩, hr, he⟩ := Option.bind_eq_some_iff.mp h
  rw [event_ctx he hc]
  exact (resumed_skew hr).trans unskewed

/-- With skew 0 everywhere, a job has a lease when it has contacts, and the lease
expires when they say. -/
theorem lease_expiry {es : List (Event Cluster Action)} {s : Cluster} (h : Run step init es s)
    (unskewed : ∀ e ∈ es, e.action.skewMs = 0) (j : JobId) :
    (s.db.leases.lookup j).map Lease.expiresAt = (contactsOf j es).map Contacts.due := by
  induction h with
  | nil => rfl
  | @snoc es s a t run taken ih =>
    have before := ih fun e he => unskewed e (List.mem_append_left _ he)
    have now := unskewed ⟨s, a, t⟩ (List.mem_append_right _ (List.mem_singleton_self _))
    have view := congrArg JobView.lease (step_view taken j)
    change t.db.leases.lookup j = _ at view
    rw [contactsOf_snoc, view]
    cases he : s.event a j with
    | none => exact before
    | some e => exact apply_expiry (event_unskewed he now) before

end Cluster

/-- Only the update of a matching heartbeat extends a lease. -/
theorem extended_origin {t : Task} {ctx : Ctx} {db : Db} {k : JobId} {expiresAt : Int}
    (h : t.event ctx db k = some (.extended expiresAt)) : ∃ workerId msg,
      t = .heartbeatUpdate workerId msg expiresAt ∧ msg.jobId = k ∧
      db.holds k workerId msg.token = true := by
  cases event_cases h with
  | @extended workerId msg _ named held => exact ⟨workerId, msg, rfl, named, held⟩

/-- No handler goes on to a heartbeat update. -/
theorem resume_not_heartbeat {t : Task} {ctx : Ctx} {wsOf : WorkerId → Option SocketId} {db : Db}
    {workerId : WorkerId} {msg : JobHeartbeat} {newExpiry : Int} :
    .heartbeatUpdate workerId msg newExpiry ∉ (t.resume ctx wsOf db).next := by
  intro ht
  have heard := resume_heard ht rfl
  cases t with
  | heartbeatUpdate => cases ht
  | _ => cases heard

theorem fail_not_heartbeat {t : Task} {error : String} {db : Db} {workerId : WorkerId}
    {msg : JobHeartbeat} {newExpiry : Int} :
    .heartbeatUpdate workerId msg newExpiry ∉ (t.fail db error).next := by
  intro ht
  have heard := fail_heard ht rfl
  cases t with
  | heartbeatUpdate => cases ht
  | _ => cases heard

namespace Cluster

theorem started_heartbeat {s : Cluster} {a : Action} {workerId : WorkerId} {msg : JobHeartbeat}
    {newExpiry : Int} (h : .heartbeatUpdate workerId msg newExpiry ∈ s.started a) :
    ∃ c k ctx, a = .receive c k ctx ∧ newExpiry = heartbeatExpiry ctx := by
  cases started_starts h with
  | @received c k ctx ws m _ hk ht =>
    refine ⟨c, k, ctx, rfl, ?_⟩
    cases m with
    | jobHeartbeat m =>
      obtain ⟨w, _, he⟩ := List.mem_map.mp ht
      cases he
      rfl
    | jobResult m =>
      obtain ⟨w, _, he⟩ := List.mem_map.mp ht
      cases he
    | jobFailed | workerHello => cases List.mem_singleton.mp ht
    | pong => cases ht
  | resumed _ ht => exact absurd ht resume_not_heartbeat
  | failed _ ht => exact absurd ht fail_not_heartbeat

/-- A coordinator has read this time when a message came in. -/
def ReadAt (es : List (Event Cluster Action)) (reading : Int) : Prop :=
  ∃ e ∈ es, ∃ c k ctx, e.action = .receive c k ctx ∧ reading = ctx.nowMs

theorem ReadAt.mono {es fs : List (Event Cluster Action)} {reading : Int} (h : ReadAt es reading) :
    ReadAt (es ++ fs) reading := by
  obtain ⟨e, he, rest⟩ := h
  exact ⟨e, List.mem_append_left _ he, rest⟩

/-- A heartbeat that waits for its update was heard in the run, at the reading that its
expiry was computed from. -/
theorem task_readings {es : List (Event Cluster Action)} {s : Cluster} (h : Run step init es s)
    (unskewed : ∀ e ∈ es, e.action.skewMs = 0) : ∀ p ∈ s.tasks, ∀ workerId msg newExpiry,
      p.2 = .heartbeatUpdate workerId msg newExpiry →
      ReadAt es (newExpiry - HEARTBEAT_LEASE_TTL_MS) := by
  induction h with
  | nil =>
    intro p hp
    cases hp
  | @snoc es s a t run taken ih =>
    intro p hp workerId msg newExpiry he
    rcases step_tasks taken hp with hp | hp
    · exact (ih (fun e he => unskewed e (List.mem_append_left _ he)) p hp _ _ _ he).mono
    · obtain ⟨c, k, ctx, rfl, rfl⟩ := started_heartbeat (he ▸ hp)
      have skew : ctx.skewMs = 0 := unskewed _ (List.mem_append_right _ (List.mem_singleton_self _))
      refine ⟨_, List.mem_append_right _ (List.mem_singleton_self _), c, k, ctx, rfl, ?_⟩
      simp only [heartbeatExpiry, skew]
      omega

/-- The heartbeats among the contacts are clock readings of the run. -/
theorem heartbeat_readings {es : List (Event Cluster Action)} {s : Cluster} (h : Run step init es s)
    (unskewed : ∀ e ∈ es, e.action.skewMs = 0) {j : JobId} :
    ∀ c, contactsOf j es = some c → ∀ reading ∈ c.heartbeats, ReadAt es reading := by
  induction h with
  | nil =>
    intro c hc
    cases hc
  | @snoc es s a t run taken ih =>
    have before := ih fun e he => unskewed e (List.mem_append_left _ he)
    intro c hc reading hr
    rw [contactsOf_snoc] at hc
    cases he : s.event a j with
    | none =>
      rw [he] at hc
      exact (before c hc reading hr).mono
    | some e =>
      rw [he] at hc
      cases e with
      | dispatched ctx w t =>
        cases hc
        cases hr
      | extended expiresAt =>
        obtain ⟨c', hc', rfl⟩ := Option.map_eq_some_iff.mp hc
        rcases List.mem_append.mp hr with hr | hr
        · exact (before c' hc' reading hr).mono
        · cases List.mem_singleton.mp hr
          obtain ⟨⟨ctx, task⟩, hres, ht⟩ := Option.bind_eq_some_iff.mp he
          obtain ⟨workerId, msg, rfl, _⟩ := extended_origin ht
          obtain ⟨co, hm⟩ := resumed_task hres
          exact (task_readings run (fun e he => unskewed e (List.mem_append_left _ he)) _ hm _ _ _
            rfl).mono
      | submitted | cancelled => exact (before c hc reading hr).mono
      | accepted | discarded | requeued | failed | reaped => cases hc

end Cluster

end Dispatcher
