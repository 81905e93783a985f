import Dispatcher.Cluster.Contacts
import Dispatcher.Model.Clocked
import Dispatcher.Proofs.CommitSafety

namespace Dispatcher
open Tables Runs Clocks

def untimed (es : List (Event Clocked (At Action))) : List (Event Cluster Action) :=
  es.map (Event.map Timed.state At.action)

def Task.newExpiry : Task → Option Int
  | .heartbeatUpdate _ _ newExpiry => some newExpiry
  | _ => none

def Task.tickedAt : Task → Option Int
  | .reaperTx now => some now
  | _ => none

theorem tickedAt_eq {t : Task} {now : Int} (h : t.tickedAt = some now) : t = .reaperTx now := by
  cases t <;> cases h
  rfl

/-- The update of a heartbeat, if the step runs one, is made at the clock reading
that its expiry was computed from. -/
def UpdatesAtOnce (e : Event Clocked (At Action)) : Prop :=
  ∀ ctx t newExpiry, e.before.state.resumed e.action.action = some (ctx, t) →
    t.newExpiry = some newExpiry →
    showsMs e.before.clock e.after.clock (newExpiry - HEARTBEAT_LEASE_TTL_MS) = true

/-- A tick at `now` comes within the window of the last contact before it. -/
def Contacts.Fresh (c : Contacts) (now : Int) : Prop :=
  (∃ reading ∈ c.heartbeats, reading ≤ now ∧ now ≤ reading + HEARTBEAT_LEASE_TTL_MS) ∨
  ((∀ reading ∈ c.heartbeats, now < reading) ∧ now ≤ c.issue + DISPATCH_LEASE_TTL_MS)

/-- The heartbeats of a lease in the order of their readings, up to now. -/
structure Contacts.InOrder (c : Contacts) (clock : Nat) : Prop where
  sorted : c.heartbeats.Pairwise (· ≤ ·)
  past : ∀ reading ∈ c.heartbeats, reading ≤ ((clock / 1000 : Nat) : Int)

theorem Contacts.InOrder.later {c : Contacts} {before after : Nat} (h : c.InOrder before)
    (forward : before ≤ after) : c.InOrder after := by
  refine ⟨h.sorted, ?_⟩
  intro reading hr
  have past := h.past reading hr
  have mono : before / 1000 ≤ after / 1000 := Nat.div_le_div_right forward
  omega

theorem Contacts.InOrder.heartbeat {c : Contacts} {before after : Nat} {reading : Int}
    (h : c.InOrder before) (forward : before ≤ after) (now : showsMs before after reading = true) :
    ({ c with heartbeats := c.heartbeats ++ [reading] } : Contacts).InOrder after := by
  simp only [showsMs, Bool.and_eq_true, decide_eq_true_eq] at now
  constructor
  · refine List.pairwise_append.mpr ⟨h.sorted, List.pairwise_singleton _ _, ?_⟩
    intro r hr q hq
    cases List.mem_singleton.mp hq
    have past := h.past r hr
    omega
  · intro r hr
    rcases List.mem_append.mp hr with hr | hr
    · exact (h.later forward).past r hr
    · cases List.mem_singleton.mp hr
      exact now.2

/-- In a sorted list the last element is not below the others. -/
theorem le_last {rs : List Int} (h : rs.Pairwise (· ≤ ·)) (hr : r ∈ rs) (hl : rs.getLast? = some q) :
    r ≤ q := by
  obtain ⟨init, rfl⟩ := List.getLast?_eq_some_iff.mp hl
  rcases List.mem_append.mp hr with hr | hr
  · exact (List.pairwise_append.mp h).2.2 r hr q (List.mem_singleton_self q)
  · cases List.mem_singleton.mp hr
    exact Int.le_refl _

/-- Within the window of its last contact a lease has not expired. -/
theorem Contacts.Fresh.not_due {c : Contacts} {clock : Nat} {now : Int} (h : c.Fresh now)
    (ordered : c.InOrder clock) : now ≤ c.due := by
  unfold Contacts.due
  cases hl : c.heartbeats.getLast? with
  | none =>
    have silent : c.heartbeats = [] := List.getLast?_eq_none_iff.mp hl
    rcases h with ⟨reading, hr, _⟩ | ⟨_, issue⟩
    · rw [silent] at hr
      cases hr
    · exact issue
  | some last =>
    rcases h with ⟨reading, hr, _, window⟩ | ⟨later, _⟩
    · have newest := le_last ordered.sorted hr hl
      simp only
      omega
    · have after := later last (List.mem_of_getLast? hl)
      simp only [HEARTBEAT_LEASE_TTL_MS]
      omega

/-- The reaper takes nothing from a job whose lease has not expired at its tick. -/
theorem unexpired_kept {db : Db} {j : JobId} {l : Lease} (ctx : Ctx) {now : Int}
    (hl : db.leases.lookup j = some l) (unexpired : now ≤ l.expiresAt) :
    (reaperTx ctx now db).view j = db.view j := by
  rw [reaperTx_view, if_neg]
  · rfl
  · intro reaped
    obtain ⟨l', hl', expired, _⟩ := mem_reapedIds.mp reaped
    cases Option.some.inj (hl.symm.trans hl')
    omega

namespace Clocked

section

variable {start : Nat} {es : List (Event Clocked (At Action))} {s : Clocked}

theorem unskewed_of_all (h : es.all (fun e => e.action.action.skewMs = 0) = true) :
    ∀ e ∈ es, e.action.action.skewMs = 0 :=
  fun e he => of_decide_eq_true (List.all_eq_true.mp h e he)

theorem untimed_unskewed (unskewed : ∀ e ∈ es, e.action.action.skewMs = 0) :
    ∀ e ∈ untimed es, e.action.skewMs = 0 := by
  intro e he
  obtain ⟨e', he', rfl⟩ := List.mem_map.mp he
  exact unskewed e' he'

/-- Without skew, the row says what its contacts say. -/
theorem lease_due (run : Run step (init start) es s)
    (unskewed : ∀ e ∈ es, e.action.action.skewMs = 0) (j : JobId) :
    (s.state.db.leases.lookup j).map Lease.expiresAt =
      (contactsOf j (untimed es)).map Contacts.due :=
  Cluster.lease_expiry (run_untimed run) (untimed_unskewed unskewed) j

theorem lease_contacts (run : Run step (init start) es s)
    (unskewed : ∀ e ∈ es, e.action.action.skewMs = 0) {j : JobId} {l : Lease}
    (hl : s.state.db.leases.lookup j = some l) :
    ∃ c, contactsOf j (untimed es) = some c ∧ l.expiresAt = c.due := by
  have due := lease_due run unskewed j
  rw [hl] at due
  obtain ⟨c, hc, hd⟩ := Option.map_eq_some_iff.mp due.symm
  exact ⟨c, hc, hd.symm⟩

theorem contacts_lease (run : Run step (init start) es s)
    (unskewed : ∀ e ∈ es, e.action.action.skewMs = 0) {j : JobId} {c : Contacts}
    (hc : contactsOf j (untimed es) = some c) :
    ∃ l, s.state.db.leases.lookup j = some l ∧ l.expiresAt = c.due := by
  have due := lease_due run unskewed j
  rw [hc] at due
  exact Option.map_eq_some_iff.mp due

end

/-- Where updates are made at once, they take effect in the order of their readings. -/
theorem contacts_in_order {start : Nat} {es : List (Event Clocked (At Action))} {s : Clocked}
    (h : Run step (init start) es s) (atOnce : ∀ e ∈ es, UpdatesAtOnce e) {j : JobId} :
    ∀ c, contactsOf j (untimed es) = some c → c.InOrder s.clock := by
  induction h with
  | nil =>
    intro c hc
    cases hc
  | @snoc es s a t run taken ih =>
    have before := ih fun e he => atOnce e (List.mem_append_left _ he)
    have now := atOnce ⟨s, a, t⟩ (List.mem_append_right _ (List.mem_singleton_self _))
    have forward := (timed_step taken).2.1
    intro c hc
    have split : untimed (es ++ [⟨s, a, t⟩]) = untimed es ++ [⟨s.state, a.action, t.state⟩] :=
      List.map_append
    rw [split, contactsOf_snoc] at hc
    cases he : s.state.event a.action j with
    | none =>
      simp only [he, Option.elim_none] at hc
      exact (before c hc).later forward
    | some e =>
      simp only [he, Option.elim_some] at hc
      cases e with
      | dispatched ctx w token =>
        cases hc
        exact ⟨.nil, fun r hr => by cases hr⟩
      | extended expiresAt =>
        obtain ⟨c', hc', rfl⟩ := Option.map_eq_some_iff.mp hc
        obtain ⟨⟨ctx, task⟩, hr, ht⟩ := Option.bind_eq_some_iff.mp he
        obtain ⟨workerId, msg, rfl, _⟩ := extended_origin ht
        exact (before c' hc').heartbeat forward (now ctx _ expiresAt hr rfl)
      | submitted | cancelled => exact (before c hc).later forward
      | accepted | discarded | requeued | failed | reaped => cases hc

/-- A heartbeating worker never loses its lease to the reaper: with no skew, one
shared clock and each heartbeat applied at the time it was read, the transaction of
a tick that was taken at most 15000 ms after the last matching heartbeat before it,
or 60000 ms after the issue if there was none, leaves the lease and its job alone. -/
theorem heartbeating_kept {start : Nat} {es : List (Event Clocked (At Action))} {s s' : Clocked}
    {a : At Action} (run : Run step (init start) es s)
    (unskewed : ∀ e ∈ es, e.action.action.skewMs = 0) (atOnce : ∀ e ∈ es, UpdatesAtOnce e)
    (taken : step s a = some s') {ctx : Ctx} {now : Int}
    (tick : s.state.resumed a.action = some (ctx, .reaperTx now)) {j : JobId} {l : Lease}
    (lease : s.state.db.leases.lookup j = some l) :
    ∃ c, contactsOf j (untimed es) = some c ∧ (c.Fresh now →
      s'.state.db.leases.lookup j = some l ∧ s'.state.db.statusOf j = s.state.db.statusOf j) := by
  obtain ⟨c, hc, expiry⟩ := lease_contacts run unskewed lease
  refine ⟨c, hc, ?_⟩
  intro fresh
  have unexpired := fresh.not_due (contacts_in_order run atOnce c hc)
  rw [← expiry] at unexpired
  have event : s'.state.db.view j = s.state.db.view j := by
    rw [Cluster.step_view (timed_step taken).1 j]
    have kept := unexpired_kept ctx lease unexpired
    rw [reaperTx_view] at kept
    simpa [Cluster.event, tick, Task.event] using kept
  exact ⟨(congrArg JobView.lease event).trans lease, congrArg JobView.status event⟩

/-- A job dispatched at 3 ms with one heartbeat, at 50000 ms; then a tick at 65000 ms. -/
def heartbeatRun : List (At Action) :=
  List.zipWith atMs [1, 1, 1, 1, 2, 2, 2, 3, 3, 3, 50000, 50000, 65000] (Cluster.resultRun.take 9 ++
    [.workerSend 1 (.jobHeartbeat ⟨1, 1⟩), .receive "c1" 1 (.quiet "c1" 50000),
      .resume 0 (.quiet "c1" 50000), .reaperTick "c2" (.quiet "c2" 65000)])

theorem heartbeating_kept_heartbeatRun : ∃ s s' l, exec step (init 0) heartbeatRun = some s ∧
    step s (atMs 65000 (.resume 0 (.quiet "c2" 65000))) = some s' ∧
    s.state.db.leases.lookup 1 = some l ∧ s'.state.db.leases.lookup 1 = some l := by
  obtain ⟨s, hs, hp⟩ : ∃ s, exec step (init 0) heartbeatRun = some s ∧
      ((step s (atMs 65000 (.resume 0 (.quiet "c2" 65000)))).isSome &&
        (s.state.db.leases.lookup 1).isSome &&
        (s.state.resumed (.resume 0 (.quiet "c2" 65000))).any fun p => p.2.tickedAt = some 65000) =
      true := exec_any (by decide)
  obtain ⟨both, ticked⟩ := Bool.and_eq_true_iff.mp hp
  obtain ⟨enabled, leased⟩ := Bool.and_eq_true_iff.mp both
  obtain ⟨s', taken⟩ := Option.isSome_iff_exists.mp enabled
  obtain ⟨l, lease⟩ := Option.isSome_iff_exists.mp leased
  obtain ⟨⟨ctx, t⟩, hr, ht⟩ := (Option.any_eq_true _ _).mp ticked
  have tick := tickedAt_eq (of_decide_eq_true ht)
  simp only at tick
  subst tick
  have unskewed : ∀ e ∈ trace step (init 0) heartbeatRun, e.action.action.skewMs = 0 :=
    unskewed_of_all (by decide)
  have atOnce : ∀ e ∈ trace step (init 0) heartbeatRun, UpdatesAtOnce e := by
    have readings : (trace step (init 0) heartbeatRun).all (fun e =>
        (e.before.state.resumed e.action.action).all fun p => p.2.newExpiry.all fun newExpiry =>
          showsMs e.before.clock e.after.clock (newExpiry - HEARTBEAT_LEASE_TTL_MS)) = true := by
      decide
    intro e he ctx t newExpiry hr hx
    have checked := List.all_eq_true.mp readings e he
    simpa [hr, hx] using checked
  obtain ⟨c, hc, kept⟩ := heartbeating_kept (run_of_exec heartbeatRun hs) unskewed atOnce taken hr lease
  have log : (contactsOf 1 (untimed (trace step (init 0) heartbeatRun))).map Contacts.heartbeats =
    some [50000] := by decide
  rw [hc, Option.map_some, Option.some.injEq] at log
  have fresh : c.Fresh 65000 := .inl ⟨50000, by simp [log], by decide, by decide⟩
  exact ⟨s, s', l, hs, taken, lease, (kept fresh).1⟩

end Clocked

end Dispatcher
