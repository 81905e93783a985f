import Dispatcher.Deployment.Rounds
import Dispatcher.Proofs.FairTick
import Dispatcher.Proofs.Recoverable

namespace Dispatcher
open Tables Runs

/-- Since `db₀` a final job has stayed as it was, and any other waits or has this result. -/
structure Since (results : JobId → Json) (db₀ db : Db) : Prop where
  absent : ∀ j, db₀.jobs.lookup j = none → db.jobs.lookup j = none
  final : ∀ j row, db₀.jobs.lookup j = some row → row.status.terminal = true →
    db.jobs.lookup j = some row
  other : ∀ j row, db₀.jobs.lookup j = some row → row.status.terminal = false →
    ∃ row', db.jobs.lookup j = some row' ∧
      (row'.status = .pending ∨ row'.status = .succeeded ∧ row'.result = some (results j))

/-- The queue is empty, so each job that was not final has succeeded with its result;
what is left of the leases is what cancelled jobs had left behind. -/
structure Completed (results : JobId → Json) (db₀ db : Db) : Prop where
  empty : db.pending = []
  since : Since results db₀ db
  leases : ∀ j l, db.leases.lookup j = some l → db₀.statusOf j = some .cancelled

theorem pending_nodup (db : Db) : (db.pending.map Job.jobId).Nodup :=
  db.jobs.unique.sublist (List.filter_sublist.map _)

/-- Where one job stops waiting and none begins to, fewer wait. -/
theorem pending_less {db db' : Db} {r : Job} (hr : r ∈ db.pending)
    (kept : ∀ k ≠ r.jobId, db'.jobs.lookup k = db.jobs.lookup k)
    (done : db'.statusOf r.jobId ≠ some .pending) : db'.pending.length < db.pending.length := by
  have gone : r.jobId ∉ db'.pending.map Job.jobId := by
    intro still
    obtain ⟨q, hq, same⟩ := List.mem_map.mp still
    obtain ⟨row, pending⟩ := mem_pending.mp hq
    exact done (by simp [Db.statusOf, ← same, row, pending])
  have more : (r.jobId :: db'.pending.map Job.jobId).Nodup := List.nodup_cons.mpr ⟨gone, pending_nodup db'⟩
  have before : ∀ id ∈ r.jobId :: db'.pending.map Job.jobId, id ∈ db.pending.map Job.jobId := by
    intro id hid
    rcases List.mem_cons.mp hid with rfl | hid
    · exact List.mem_map_of_mem hr
    · obtain ⟨q, hq, rfl⟩ := List.mem_map.mp hid
      obtain ⟨row, pending⟩ := mem_pending.mp hq
      have other : q.jobId ≠ r.jobId := fun same => gone (same ▸ hid)
      exact List.mem_map_of_mem (mem_pending.mpr ⟨kept _ other ▸ row, pending⟩)
  have bound := (List.subperm_of_subset more before).length_le
  rwa [List.length_cons, List.length_map, List.length_map] at bound

/-- A reaper that finds every lease expired and no row locked puts all that is
DISPATCHED back. -/
theorem reaped_since {db : Db} {ctx : Ctx} {now : Int} (results : JobId → Json)
    (consistent : ∀ j, Consistent db.fencingSeq (db.view j)) (free : ∀ j, ctx.locked j = false)
    (expired : ∀ l ∈ db.leases.rows, l.expiresAt < now) : Since results db (reaperTx ctx now db) := by
  have view := reaperTx_view ctx now db
  have kept : ∀ j, db.statusOf j ≠ some .dispatched →
      (reaperTx ctx now db).jobs.lookup j = db.jobs.lookup j := by
    intro j other
    have out : j ∉ reapedIds ctx now db := fun hm => other (by
      obtain ⟨_, _, _, dispatched, _⟩ := mem_reapedIds.mp hm
      exact dispatched)
    have same := view j
    rw [if_neg out] at same
    exact congrArg JobView.job same
  have back : ∀ j, db.statusOf j = some .dispatched →
      (reaperTx ctx now db).statusOf j = some .pending := by
    intro j dispatched
    obtain ⟨l, hl⟩ := Option.isSome_iff_exists.mp ((consistent j).dispatched dispatched)
    have reaped : j ∈ reapedIds ctx now db :=
      mem_reapedIds.mpr ⟨l, hl, expired l (Table.lookup_mem hl), dispatched, free j⟩
    have changed := view j
    rw [if_pos reaped] at changed
    exact (congrArg JobView.status changed).trans (reaped_view (v := db.view j) dispatched ctx j).1
  constructor
  case absent =>
    intro j none
    rw [kept j (by simp [Db.statusOf, none]), none]
  case final =>
    intro j row found terminal
    rw [kept j fun dispatched => ?_, found]
    have status : row.status = .dispatched := by simpa [Db.statusOf, found] using dispatched
    rw [status] at terminal
    cases terminal
  case other =>
    intro j row found open_
    by_cases dispatched : row.status = .dispatched
    · have pending := back j (by simp [Db.statusOf, found, dispatched])
      obtain ⟨row', found', pending⟩ := Option.map_eq_some_iff.mp pending
      exact ⟨row', found', .inl pending⟩
    · refine ⟨row, (kept j (by simpa [Db.statusOf, found] using dispatched)).trans found, .inl ?_⟩
      cases status : row.status with
      | pending => rfl
      | dispatched => exact absurd status dispatched
      | succeeded | failed | cancelled =>
        rw [status] at open_
        cases open_

/-- One waiting job succeeds, and no other is touched. -/
theorem Since.served {results : JobId → Json} {db₀ db db' : Db} (h : Since results db₀ db) {j : JobId}
    (waits : db.statusOf j = some .pending)
    (kept : ∀ k ≠ j, db'.jobs.lookup k = db.jobs.lookup k)
    (done : ∃ row, db'.jobs.lookup j = some row ∧ row.status = .succeeded ∧
      row.result = some (results j)) : Since results db₀ db' := by
  constructor
  case absent =>
    intro k none
    rcases eq_or_ne k j with rfl | other
    · simp [Db.statusOf, h.absent k none] at waits
    · rw [kept k other]
      exact h.absent k none
  case final =>
    intro k row found terminal
    rcases eq_or_ne k j with rfl | other
    · have status : row.status = .pending := by
        simpa [Db.statusOf, h.final k row found terminal] using waits
      rw [status] at terminal
      cases terminal
    · rw [kept k other]
      exact h.final k row found terminal
  case other =>
    intro k row found open_
    rcases eq_or_ne k j with rfl | other
    · obtain ⟨row', found', succeeded⟩ := done
      exact ⟨row', found', .inr succeeded⟩
    · rw [kept k other]
      exact h.other k row found open_

/-- Only a job that was CANCELLED still has a lease. -/
theorem Since.leases {results : JobId → Json} {db₀ db : Db} (h : Since results db₀ db) {j : JobId}
    {n : Nat} (consistent : Consistent n (db.view j)) {l : Lease} (hl : db.leases.lookup j = some l) :
    db₀.statusOf j = some .cancelled := by
  have status : db.statusOf j = some .dispatched ∨ db.statusOf j = some .cancelled :=
    (consistent.leased l hl).1
  cases found : db₀.jobs.lookup j with
  | none => simp [Db.statusOf, h.absent j found] at status
  | some row =>
    cases terminal : row.status.terminal with
    | true =>
      simp only [Db.statusOf, h.final j row found terminal, Option.map_some, Option.some.injEq] at status
      rcases status with dispatched | cancelled
      · rw [dispatched] at terminal
        cases terminal
      · simp [Db.statusOf, found, cancelled]
    | false =>
      obtain ⟨row', found', waits | ⟨succeeded, _⟩⟩ := h.other j row found terminal
      · simp [Db.statusOf, found', waits] at status
      · simp [Db.statusOf, found', succeeded] at status

/-- With a job in the queue, a dispatch takes one, and its result comes in. -/
theorem served {db : Db} {ctx : Ctx} (workerId : WorkerId)
    (consistent : ∀ j, Consistent db.fencingSeq (db.view j)) (free : ∀ j, ctx.locked j = false)
    (waits : 0 < db.pending.length) : ∃ job db', job.jobId ∈ db.pending.map Job.jobId ∧
      tryDispatchOneTx ctx workerId db = .ok (some job, db') ∧
      db'.holds job.jobId workerId job.token = true ∧ db'.statusOf job.jobId = some .dispatched ∧
      ∀ ctx' result, let db'' := (onResultTx ctx' workerId ⟨job.jobId, job.token, result⟩ db').2
        (∀ k ≠ job.jobId, db''.jobs.lookup k = db.jobs.lookup k) ∧
        ∃ row, db''.jobs.lookup job.jobId = some row ∧ row.status = .succeeded ∧
          row.result = some result := by
  obtain ⟨row, hq⟩ : ∃ row, oldest db.pending = some row := by
    cases hq : oldest db.pending with
    | none =>
      rw [oldest_none hq] at waits
      cases waits
    | some row => exact ⟨row, rfl⟩
  have head : row ∈ db.pending := oldest_mem hq
  have unleased := ((consistent row.jobId).pending (pending_status head)).1
  have takes : tryDispatchOneTx ctx workerId db =
      .ok (some ⟨row.jobId, db.fencingSeq + 1, row.payload⟩, dispatchedDb ctx workerId row db) := by
    rw [tryDispatchOneTx_eq, headOfQueue_unlocked free, hq]
    have none : db.leases.lookup row.jobId = none := unleased
    simp only [none, Option.isSome_none, Bool.false_eq_true, ↓reduceIte]
  obtain ⟨dispatched, held⟩ := dispatchedDb_leased ctx workerId head unleased
  refine ⟨_, _, List.mem_map_of_mem head, takes, held, dispatched, fun ctx' result => ?_⟩
  have before := dispatchedDb_view ctx workerId unleased
  have after := onResultTx_view ctx' workerId ⟨row.jobId, db.fencingSeq + 1, result⟩
    (dispatchedDb ctx workerId row db)
  constructor
  · intro k other
    have first := before k
    have second := after k
    rw [if_neg other] at first second
    exact congrArg JobView.job (second.trans first)
  · have accepted := after row.jobId
    rw [if_pos rfl, resultEvent, if_pos held, if_pos dispatched] at accepted
    obtain ⟨q, found, status⟩ := Option.map_eq_some_iff.mp dispatched
    have job : ((dispatchedDb ctx workerId row db).view row.jobId).job = some q := found
    have written := congrArg JobView.job accepted
    simp only [JobView.after, JobEvent.apply, JobView.patchDispatched, job, status, Option.map_some,
      ↓reduceIte] at written
    exact ⟨_, written, rfl, rfl⟩

namespace Deployment

theorem consistent_reachable {s : Deployment} (known : Reachable step init s) (j : JobId) :
    Consistent s.base.db.fencingSeq (s.base.db.view j) := by
  obtain ⟨es, run⟩ := known
  obtain ⟨fs, u, run, _, tracks⟩ := tracks_step.run run tracks_init
  rw [← tracks.db]
  exact Cluster.consistent_reachable ⟨fs, run⟩ j

/-- The worker takes a job of the queue and returns its result. -/
theorem leads_served {s : Deployment} (known : Reachable step init s) {c : CoordinatorId} {ws : SocketId}
    {now : Int} {workerId : WorkerId} (serving : (s.enter c).Serving ws workerId 0) (results : JobId → Json)
    (more : 0 < s.base.db.pending.length) : Leads step (By c ws now) s fun t =>
      (t.enter c).Serving ws workerId 0 ∧ t.base.db.pending.length < s.base.db.pending.length ∧
        ∀ db₀, Since results db₀ s.base.db → Since results db₀ t.base.db := by
  let ctx := Ctx.quiet c now
  have free : ∀ j, ctx.locked j = false := fun _ => rfl
  obtain ⟨job, db, waits, takes, held, dispatched, concludes⟩ :=
    served workerId (consistent_reachable known) free more
  obtain ⟨row, hr, same⟩ := List.mem_map.mp waits
  have pending : s.base.db.statusOf job.jobId = some .pending := same ▸ pending_status hr
  obtain ⟨kept, done⟩ := concludes ctx (results job.jobId)
  have gives : Leads step (By c ws now) s fun t =>
      (t.enter c).Serving ws workerId 1 ∧ (t.enter c).hub.db = db := leads_dispatched serving takes
  refine gives.trans fun t => ?_
  rintro ⟨serving, stored⟩
  refine (leads_concluded serving ⟨job.jobId, job.token, results job.jobId⟩ (stored ▸ held)
    (stored ▸ dispatched)).mono fun u => ?_
  rintro ⟨serving, concluded⟩
  have db : u.base.db = _ := concluded
  rw [stored] at db
  refine ⟨serving, ?_, fun db₀ since => ?_⟩
  · rw [db]
    refine pending_less hr (same ▸ kept) ?_
    obtain ⟨row', found, succeeded, _⟩ := done
    intro waiting
    rw [same] at waiting
    have now := (congrArg (Option.map Job.status) found).symm.trans waiting
    rw [Option.map_some, succeeded] at now
    cases now
  · rw [db]
    exact since.served pending kept done

/-- Whatever has happened, once the leases have expired, one coordinator that is started
again and one worker with one slot can bring every job to its end. -/
theorem drains {s : Deployment} (known : Reachable step init s) (c : CoordinatorId) (ws : SocketId)
    (workerId : WorkerId) (results : JobId → Json) {now : Int}
    (expired : ∀ l ∈ s.base.db.leases.rows, l.expiresAt < now) :
    Leads step (By c ws now) s fun t => Completed results s.base.db t.base.db := by
  let Stands (t : Deployment) : Prop := Reachable step init t ∧
    (t.enter c).Serving ws workerId 0 ∧ Since results s.base.db t.base.db
  have starts : Leads step (By c ws now) s Stands := by
    refine Leads.reachable ?_ known
    refine (leads_restarted s c ws now).trans fun t => ?_
    rintro ⟨workerReg, entered⟩
    refine (leads_greeted workerId entered).mono fun u => ?_
    rintro ⟨serving, stored⟩
    have db : u.base.db = _ := stored
    rw [Int.add_zero] at db
    exact ⟨serving, db ▸ reaped_since results (consistent_reachable known) (fun _ => rfl) expired⟩
  have serves : ∀ t, Stands t → 0 < t.base.db.pending.length →
      Leads step (By c ws now) t fun u => Stands u ∧ u.base.db.pending.length < t.base.db.pending.length := by
    rintro t ⟨reached, serving, since⟩ more
    refine ((leads_served reached serving results more).reachable reached).mono fun u => ?_
    rintro ⟨reached, serving, less, later⟩
    exact ⟨⟨reached, serving, later _ since⟩, less⟩
  refine starts.trans fun t stands => ?_
  refine (Leads.exhausts (fun t => t.base.db.pending.length) serves stands).mono fun u => ?_
  rintro ⟨⟨reached, _, since⟩, none⟩
  exact ⟨List.eq_nil_of_length_eq_zero none, since, fun j l hl =>
    since.leases (consistent_reachable reached j) hl⟩

/-- A job is dispatched by a coordinator that crashes before it sends it, another one
waits, and a third is cancelled. -/
def abandonedRun : List Action :=
  [.base (.post "c1" (some (.str "k")) (some (.obj []))), .base (.resume 0 (.quiet "c1" 1)),
    .base (.resume 0 (.quiet "c1" 1)), .base (.workerSend 1 (.workerHello "w1" 4)),
    .process "c1" (.hub (.connection 1)), .receive "c1" 0 (.quiet "c1" 2),
    .process "c1" (.hub (.write 0)), .process "c1" (.hub (.resume 0 (.quiet "c1" 2))),
    .tick "c1" false false, .process "c1" (.commit (.quiet "c1" 3)), .crash "c1",
    .base (.post "c2" (some (.str "l")) (some (.obj []))), .base (.resume 0 (.quiet "c2" 4)),
    .base (.resume 0 (.quiet "c2" 4)), .base (.post "c2" (some (.str "m")) (some (.obj []))),
    .base (.resume 0 (.quiet "c2" 5)), .base (.resume 0 (.quiet "c2" 5)), .base (.delete "c2" 5),
    .base (.resume 0 (.quiet "c2" 6)), .base (.resume 0 (.quiet "c2" 6))]

theorem drains_abandonedRun : ∃ s, exec step init abandonedRun = some s ∧
    s.base.db.statusOf 1 = some .dispatched ∧ s.base.db.statusOf 4 = some .pending ∧
    s.base.db.statusOf 5 = some .cancelled ∧
    Leads step (By "c1" 2 60004) s fun t => Completed (fun _ => .obj []) s.base.db t.base.db := by
  obtain ⟨s, hs, hp⟩ : ∃ s, exec step init abandonedRun = some s ∧
      decide (s.base.db.statusOf 1 = some .dispatched ∧ s.base.db.statusOf 4 = some .pending ∧
        s.base.db.statusOf 5 = some .cancelled ∧
        ∀ l ∈ s.base.db.leases.rows, l.expiresAt < 60004) = true := exec_any (by decide)
  obtain ⟨first, second, third, expired⟩ := of_decide_eq_true hp
  exact ⟨s, hs, first, second, third,
    drains (reachable_of_exec abandonedRun hs) "c1" 2 "w2" (fun _ => .obj []) expired⟩

end Deployment

end Dispatcher
