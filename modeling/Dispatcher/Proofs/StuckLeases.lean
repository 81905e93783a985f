import Dispatcher.Model.Stats
import Dispatcher.Proofs.HeartbeatSafety

namespace Dispatcher
open Tables Runs Clocks

namespace Contacts

/-- Issued more than 30 s before `now`. -/
def old (c : Contacts) (now : Int) : Bool := c.issue + 30000 < now

/-- What the report takes for the same. -/
def stuck (c : Contacts) (now : Int) : Bool := c.due < now + STATS_LEASE_TTL_MS - 30000

/-- Younger, and extended by a heartbeat that was read less than 15 s after `now`. -/
def mistaken (c : Contacts) (now : Int) : Bool :=
  !c.old now && c.heartbeats.getLast?.any fun reading => reading < now + 15000

/-- Older, and extended by a heartbeat that was read 15 s after `now`, or later. -/
def missed (c : Contacts) (now : Int) : Bool :=
  c.old now && c.heartbeats.getLast?.any fun reading => now + 15000 ≤ reading

/-- Without a heartbeat the report is right. -/
theorem stuck_silent {c : Contacts} (silent : c.heartbeats.getLast? = none) (now : Int) :
    c.stuck now = c.old now := by
  simp only [stuck, old, due, silent, DISPATCH_LEASE_TTL_MS, STATS_LEASE_TTL_MS]
  exact decide_eq_decide.mpr (by omega)

/-- With one it says only when that was read. -/
theorem stuck_extended {c : Contacts} {reading : Int} (last : c.heartbeats.getLast? = some reading)
    (now : Int) : c.stuck now = decide (reading < now + 15000) := by
  simp only [stuck, due, last, HEARTBEAT_LEASE_TTL_MS, STATS_LEASE_TTL_MS]
  exact decide_eq_decide.mpr (by omega)

theorem stuck_not_old (c : Contacts) (now : Int) : (c.stuck now && !c.old now) = c.mistaken now := by
  unfold mistaken
  cases last : c.heartbeats.getLast? with
  | none => simp [stuck_silent last]
  | some reading => simp [stuck_extended last, Bool.and_comm]

theorem old_not_stuck (c : Contacts) (now : Int) : (c.old now && !c.stuck now) = c.missed now := by
  unfold missed
  cases last : c.heartbeats.getLast? with
  | none => simp [stuck_silent last]
  | some reading =>
    rw [stuck_extended last, Option.any_some, ← decide_not]
    simp

end Contacts

/-- A report whose queries succeed counts the leases that expire early. -/
theorem getStats_stuck {q : StatsRequest} (succeeded : ∀ kind, q.thrown kind = none) :
    ∃ report, getStats q = .ok report ∧ report.stuckLeases = (q.db .stuckLeases).leases.count
      fun l => l.expiresAt < q.now + STATS_LEASE_TTL_MS - 30000 := by
  have answered : getStats q = .ok (q.report
      (q.workerReg.filter fun w => q.workersAtMs - WORKER_ALIVE_MS < w.lastSeenAt)
      (q.db .allLeases).leases.rows) := by
    simp [getStats, succeeded, query, BaseRepo.getAll]
  refine ⟨_, answered, ?_⟩
  simp [StatsRequest.report, StatsRequest.count, succeeded, query, BaseRepo.count]

namespace Clocked

def leasesWith (es : List (Event Clocked (At Action))) (s : Clocked) (p : Contacts → Bool) : Nat :=
  s.state.db.leases.count fun l => (contactsOf l.jobId (untimed es)).any p

section

variable {start : Nat} {es : List (Event Clocked (At Action))} {s : Clocked}

/-- No heartbeat is applied before it is read. -/
theorem contacts_past (run : Run step (init start) es s)
    (unskewed : ∀ e ∈ es, e.action.action.skewMs = 0) {j : JobId} {c : Contacts}
    (hc : contactsOf j (untimed es) = some c) :
    ∀ reading ∈ c.heartbeats, reading ≤ ((s.clock / 1000 : Nat) : Int) := by
  intro reading hr
  obtain ⟨_, mapped, co, k, ctx, action, rfl⟩ :=
    Cluster.heartbeat_readings (run_untimed run) (untimed_unskewed unskewed) c hc reading hr
  obtain ⟨e, he, rfl⟩ := List.mem_map.mp mapped
  have reads := (timed_step (run.event he).2).2.2
  rw [show e.action.action = .receive co k ctx from action] at reads
  simp only [Action.reads, showsMs, Bool.and_eq_true, decide_eq_true_eq] at reads
  have finished : e.after.clock / 1000 ≤ s.clock / 1000 := Nat.div_le_div_right (run_clock run e he)
  omega

/-- The figure of the report counts contacts, though it reads expiries. -/
theorem stuck_leasesWith (run : Run step (init start) es s)
    (unskewed : ∀ e ∈ es, e.action.action.skewMs = 0) (now : Int) :
    (s.state.db.leases.count fun l => l.expiresAt < now + STATS_LEASE_TTL_MS - 30000) =
      leasesWith es s (·.stuck now) := by
  refine Table.count_congr ?_
  intro l hl
  obtain ⟨c, hc, expiry⟩ := lease_contacts run unskewed (Table.lookup_of_mem hl)
  simp [hc, expiry, Contacts.stuck]

/-- What one predicate holds of and another does not, lease by lease. -/
theorem leasesWith_diff (run : Run step (init start) es s)
    (unskewed : ∀ e ∈ es, e.action.action.skewMs = 0) {p q d : Contacts → Bool}
    (diff : ∀ c, (p c && !q c) = d c) : (s.state.db.leases.count fun l =>
      (contactsOf l.jobId (untimed es)).any p && !(contactsOf l.jobId (untimed es)).any q) =
      leasesWith es s d := by
  refine Table.count_congr ?_
  intro l hl
  obtain ⟨c, hc, _⟩ := lease_contacts run unskewed (Table.lookup_of_mem hl)
  simp [hc, diff]

/-- The leases of the run are its contacts. -/
theorem leasesWith_eq_zero (run : Run step (init start) es s)
    (unskewed : ∀ e ∈ es, e.action.action.skewMs = 0) {p : Contacts → Bool} :
    leasesWith es s p = 0 ↔ ∀ j c, contactsOf j (untimed es) = some c → p c = false := by
  rw [leasesWith, Table.count_eq_zero]
  constructor
  · intro none j c hc
    obtain ⟨l, hl, _⟩ := contacts_lease run unskewed hc
    obtain ⟨hm, rfl⟩ := Table.lookup_eq_some.mp hl
    simpa [hc] using none l hm
  · intro none l hl
    obtain ⟨c, hc, _⟩ := lease_contacts run unskewed (Table.lookup_of_mem hl)
    simpa [hc] using none l.jobId c hc

/-- A request that is answered within 15 s misses no lease. -/
theorem none_missed (run : Run step (init start) es s)
    (unskewed : ∀ e ∈ es, e.action.action.skewMs = 0) {now : Int}
    (soon : ((s.clock / 1000 : Nat) : Int) < now + 15000) : leasesWith es s (·.missed now) = 0 := by
  refine (leasesWith_eq_zero run unskewed).mpr ?_
  intro j c hc
  have past := contacts_past run unskewed hc
  unfold Contacts.missed
  cases last : c.heartbeats.getLast? with
  | none => simp
  | some reading =>
    have read := past reading (List.mem_of_getLast? last)
    have before : ¬ now + 15000 ≤ reading := by omega
    simp [before]

/-- It mistakes the extended leases that are younger than 30 s, and no others. -/
theorem none_mistaken_iff (run : Run step (init start) es s)
    (unskewed : ∀ e ∈ es, e.action.action.skewMs = 0) {now : Int}
    (soon : ((s.clock / 1000 : Nat) : Int) < now + 15000) : leasesWith es s (·.mistaken now) = 0 ↔
      ∀ j c, contactsOf j (untimed es) = some c → c.heartbeats ≠ [] → c.old now = true := by
  rw [leasesWith_eq_zero run unskewed]
  refine forall_congr' fun j => forall_congr' fun c => imp_congr_right fun hc => ?_
  have past := contacts_past run unskewed hc
  unfold Contacts.mistaken
  cases last : c.heartbeats.getLast? with
  | none => simp [List.getLast?_eq_none_iff.mp last]
  | some reading =>
    have read := past reading (List.mem_of_getLast? last)
    have extended : c.heartbeats ≠ [] := List.ne_nil_of_mem (List.mem_of_getLast? last)
    have before : reading < now + 15000 := by omega
    simp [before, extended]

/-- With no skew, one shared clock and no failed query, the figure of the report is
the number of leases issued more than 30 s before its request in exactly the states
in which it mistakes as many extended leases as it misses. Up to 15 s after the
request has read the clock: in which every extended lease is that old. -/
theorem stuck_figure_iff (run : Run step (init start) es s)
    (unskewed : ∀ e ∈ es, e.action.action.skewMs = 0) {q : StatsRequest} (noSkew : q.skewMs = 0)
    (seen : q.db .stuckLeases = s.state.db) (succeeded : ∀ kind, q.thrown kind = none) :
    ∃ report, getStats q = .ok report ∧
      (report.stuckLeases = leasesWith es s (·.old q.nowMs) ↔
        leasesWith es s (·.mistaken q.nowMs) = leasesWith es s (·.missed q.nowMs)) ∧
      (((s.clock / 1000 : Nat) : Int) < q.nowMs + 15000 →
        (report.stuckLeases = leasesWith es s (·.old q.nowMs) ↔
          ∀ j c, contactsOf j (untimed es) = some c → c.heartbeats ≠ [] →
            c.old q.nowMs = true)) := by
  obtain ⟨report, answered, figure⟩ := getStats_stuck succeeded
  have now : q.now = q.nowMs := by rw [StatsRequest.now, noSkew, Int.add_zero]
  rw [seen, now, stuck_leasesWith run unskewed] at figure
  have same : report.stuckLeases = leasesWith es s (·.old q.nowMs) ↔
      leasesWith es s (·.mistaken q.nowMs) = leasesWith es s (·.missed q.nowMs) := by
    rw [figure, leasesWith, leasesWith, Table.count_eq_iff,
      leasesWith_diff run unskewed (Contacts.stuck_not_old · q.nowMs),
      leasesWith_diff run unskewed (Contacts.old_not_stuck · q.nowMs)]
  refine ⟨report, answered, same, fun soon => ?_⟩
  rw [same, none_missed run unskewed soon]
  exact none_mistaken_iff run unskewed soon

end

/-- A job dispatched at 3 ms, with a heartbeat at 10003 ms. -/
def earlyRun : List (At Action) :=
  List.zipWith atMs [1, 1, 1, 1, 2, 2, 2, 3, 3, 3, 10003, 10003] (Cluster.resultRun.take 9 ++
    [.workerSend 1 (.jobHeartbeat ⟨1, 1⟩), .receive "c1" 1 (.quiet "c1" 10003),
      .resume 0 (.quiet "c1" 10003)])

/-- One coordinator asks at once: a lease of ten seconds is reported as stuck. -/
theorem earlyRun_misreported : ∃ s report, Run step (init 0) (trace step (init 0) earlyRun) s ∧
    (∀ e ∈ trace step (init 0) earlyRun, e.action.action.skewMs = 0) ∧ s.clock / 1000 = 10003 ∧
    getStats (.quiet s.state.db 10003) = .ok report ∧ report.stuckLeases = 1 ∧
    leasesWith (trace step (init 0) earlyRun) s (·.old 10003) = 0 := by
  obtain ⟨s, hs, hp⟩ : ∃ s, exec step (init 0) earlyRun = some s ∧
      (decide (s.clock / 1000 = 10003) &&
        decide ((s.state.db.leases.count fun l => l.expiresAt < 10003 + STATS_LEASE_TTL_MS - 30000) = 1) &&
        decide (leasesWith (trace step (init 0) earlyRun) s (·.old 10003) = 0)) = true :=
    exec_any (by decide)
  simp only [Bool.and_eq_true, decide_eq_true_eq] at hp
  obtain ⟨⟨clock, early⟩, young⟩ := hp
  obtain ⟨report, answered, figure⟩ := getStats_stuck (q := .quiet s.state.db 10003) fun _ => rfl
  exact ⟨s, report, run_of_exec earlyRun hs, unskewed_of_all (by decide), clock, answered,
    figure.trans early, young⟩

/-- A heartbeat at 35000 ms extends the lease of the first job; a second job is
dispatched at 36000 ms. -/
def mixedRun : List (At Action) :=
  List.zipWith atMs [1, 1, 1, 1, 2, 2, 2, 3, 3, 3, 35000, 35000, 35000, 35000, 35000, 36000, 36000]
    (Cluster.resultRun.take 9 ++
      [.workerSend 1 (.jobHeartbeat ⟨1, 1⟩), .receive "c1" 1 (.quiet "c1" 35000),
        .resume 0 (.quiet "c1" 35000), .post "c1" (some (.str "l")) (some (.obj [])),
        .resume 0 (.quiet "c1" 35000), .resume 0 (.quiet "c1" 35000), .dispatchTick "c1" "w1",
        .resume 0 (.quiet "c1" 36000)])

theorem stuck_figure_mixedRun : ∃ s report, exec step (init 0) mixedRun = some s ∧
    s.state.db.leases.rows.map Lease.expiresAt = [50000, 96000] ∧
    getStats (.quiet s.state.db 40000) = .ok report ∧
    report.stuckLeases = leasesWith (trace step (init 0) mixedRun) s (·.old 40000) := by
  obtain ⟨s, hs, hp⟩ : ∃ s, exec step (init 0) mixedRun = some s ∧
      (decide (s.state.db.leases.rows.map Lease.expiresAt = [50000, 96000]) &&
        decide (leasesWith (trace step (init 0) mixedRun) s (·.mistaken 40000) =
          leasesWith (trace step (init 0) mixedRun) s (·.missed 40000))) = true :=
    exec_any (by decide)
  obtain ⟨rows, balanced⟩ := Bool.and_eq_true_iff.mp hp
  have unskewed : ∀ e ∈ trace step (init 0) mixedRun, e.action.action.skewMs = 0 :=
    unskewed_of_all (by decide)
  obtain ⟨report, answered, figure, _⟩ := stuck_figure_iff (q := .quiet s.state.db 40000)
    (run_of_exec mixedRun hs) unskewed rfl rfl fun _ => rfl
  exact ⟨s, report, hs, of_decide_eq_true rows, answered,
    figure.mpr (of_decide_eq_true balanced)⟩

end Clocked

end Dispatcher
