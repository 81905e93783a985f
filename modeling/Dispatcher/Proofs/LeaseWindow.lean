import Dispatcher.Proofs.HeartbeatSafety

namespace Dispatcher
open Tables Runs Clocks

/-- The latest reading among the issue and the applied heartbeats of a lease. -/
def Contacts.IsLatest (c : Contacts) (reading : Int) : Prop :=
  reading ∈ c.issue :: c.heartbeats ∧ ∀ r ∈ c.issue :: c.heartbeats, r ≤ reading

/-- Every lease expires 15000 ms after its last contact. -/
def Windowed (es : List (Event Clocked (At Action))) (s : Clocked) : Prop :=
  ∀ j l, s.state.db.leases.lookup j = some l → ∃ c reading, contactsOf j (untimed es) = some c ∧
    c.IsLatest reading ∧ l.expiresAt = reading + HEARTBEAT_LEASE_TTL_MS

/-- Every lease has had a heartbeat, and the one applied last has read the clock last. -/
def LastIsLatest (es : List (Event Clocked (At Action))) : Prop :=
  ∀ j c, contactsOf j (untimed es) = some c →
    ∃ reading, c.heartbeats.getLast? = some reading ∧ c.IsLatest reading

/-- The two constants agree on no window: without a heartbeat it is four times as long. -/
theorem due_latest_iff (c : Contacts) :
    (∃ reading, c.IsLatest reading ∧ c.due = reading + HEARTBEAT_LEASE_TTL_MS) ↔
      ∃ reading, c.heartbeats.getLast? = some reading ∧ c.IsLatest reading := by
  unfold Contacts.due
  cases hl : c.heartbeats.getLast? with
  | none =>
    have silent : c.heartbeats = [] := List.getLast?_eq_none_iff.mp hl
    constructor
    · rintro ⟨reading, ⟨hm, _⟩, hd⟩
      rw [silent, List.mem_singleton] at hm
      simp only [hm, DISPATCH_LEASE_TTL_MS, HEARTBEAT_LEASE_TTL_MS] at hd
      omega
    · rintro ⟨reading, h, _⟩
      cases h
  | some last =>
    constructor
    · rintro ⟨reading, latest, hd⟩
      simp only at hd
      have same : last = reading := by omega
      exact ⟨last, rfl, same ▸ latest⟩
    · rintro ⟨reading, h, latest⟩
      cases h
      exact ⟨last, latest, rfl⟩

namespace Clocked

/-- In a run without skew, the leases expire 15000 ms after their last contacts in
exactly the states in which each has had a heartbeat and the last one to be written
is the last one to be read. -/
theorem lease_window_iff {start : Nat} {es : List (Event Clocked (At Action))} {s : Clocked}
    (run : Run step (init start) es s) (unskewed : ∀ e ∈ es, e.action.action.skewMs = 0) :
    Windowed es s ↔ LastIsLatest es := by
  constructor
  · intro windowed j c hc
    obtain ⟨l, hl, due⟩ := contacts_lease run unskewed hc
    obtain ⟨c', reading, hc', latest, he⟩ := windowed j l hl
    cases Option.some.inj (hc.symm.trans hc')
    exact (due_latest_iff c).mp ⟨reading, latest, due.symm.trans he⟩
  · intro last j l hl
    obtain ⟨c, hc, due⟩ := lease_contacts run unskewed hl
    obtain ⟨reading, latest, he⟩ := (due_latest_iff c).mpr (last j c hc)
    exact ⟨c, reading, hc, latest, due.trans he⟩

/-- A job dispatched at 3 ms; its worker is killed before it sends anything. -/
def silentRun : List (At Action) :=
  List.zipWith atMs [1, 1, 1, 1, 2, 2, 2, 3] (Cluster.resultRun.take 8)

theorem silentRun_unwindowed : ∃ s, Run step (init 0) (trace step (init 0) silentRun) s ∧
    (∀ e ∈ trace step (init 0) silentRun, e.action.action.skewMs = 0) ∧
    ¬ Windowed (trace step (init 0) silentRun) s := by
  obtain ⟨s, hs, hp⟩ : ∃ s, exec step (init 0) silentRun = some s ∧
      decide ((s.state.db.leases.lookup 1).map Lease.expiresAt = some 60003) = true :=
    exec_any (by decide)
  obtain ⟨l, hl, expiry⟩ := Option.map_eq_some_iff.mp (of_decide_eq_true hp)
  refine ⟨s, run_of_exec silentRun hs, unskewed_of_all (by decide), ?_⟩
  intro windowed
  obtain ⟨c, reading, hc, ⟨hm, _⟩, he⟩ := windowed 1 l hl
  have log : (contactsOf 1 (untimed (trace step (init 0) silentRun))).map
    (fun c => (c.issue, c.heartbeats)) = some (3, []) := by decide
  rw [hc, Option.map_some, Option.some.injEq, Prod.mk.injEq] at log
  rw [log.1, log.2, List.mem_singleton] at hm
  rw [expiry, hm] at he
  cases he

theorem lease_window_heartbeatRun : ∃ s, Run step (init 0) (trace step (init 0) heartbeatRun) s ∧
    s.state.db.leases.rows.map Lease.jobId = [1] ∧
    Windowed (trace step (init 0) heartbeatRun) s := by
  obtain ⟨s, hs, hp⟩ : ∃ s, exec step (init 0) heartbeatRun = some s ∧
      decide (s.state.db.leases.rows.map Lease.jobId = [1]) = true := exec_any (by decide)
  have rows := of_decide_eq_true hp
  have run := run_of_exec heartbeatRun hs
  have unskewed : ∀ e ∈ trace step (init 0) heartbeatRun, e.action.action.skewMs = 0 :=
    unskewed_of_all (by decide)
  refine ⟨s, run, rows, (lease_window_iff run unskewed).mpr ?_⟩
  intro j c hc
  obtain ⟨l, leased, _⟩ := contacts_lease run unskewed hc
  have one : j = 1 := by
    have key := Table.mem_keys.mpr (Option.isSome_of_eq_some leased)
    rw [rows, List.mem_singleton] at key
    exact key
  subst one
  have log : (contactsOf 1 (untimed (trace step (init 0) heartbeatRun))).map
    (fun c => (c.issue, c.heartbeats)) = some (3, [50000]) := by decide
  rw [hc, Option.map_some, Option.some.injEq, Prod.mk.injEq] at log
  refine ⟨50000, by rw [log.2]; rfl, ?_, ?_⟩
  · simp [log]
  · intro r hr
    simp only [log, List.mem_cons, List.not_mem_nil, or_false] at hr
    omega

end Clocked

end Dispatcher
