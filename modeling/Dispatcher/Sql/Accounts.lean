import Dispatcher.Sql.Conclusions

namespace Dispatcher
open Tables ReadCommitted

namespace Write

def issued (j : JobId) : List Write → List LeaseHistory := List.filterMap fun
  | .insertHistory row => if row.jobId = j then some row else none
  | _ => none

def logged (j : JobId) : List Write → List JobTransition := List.filterMap fun
  | .insertTransition row => if row.jobId = j then some row else none
  | _ => none

def committed (j : JobId) : List Write → List CommitAttempt := List.filterMap fun
  | .insertCommit row => if row.jobId = j then some row else none
  | _ => none

end Write

def into (status : JobStatus) (rows : List JobTransition) : List JobTransition :=
  rows.filter fun t => t.toStatus = status

/-- What the audit tables say about a job adds up: a LeaseHistory row for each
dispatch that was logged, an accepted CommitAttempts row for each success, at its
time, and a log of the status that the job has. -/
structure JobView.Audited (v : JobView) : Prop where
  leases : v.history.length = (into .dispatched v.transitions).length
  commits : v.commits.map CommitAttempt.atMs = (into .succeeded v.transitions).map JobTransition.atMs
  submitted : v.job.isSome → .pending ∈ v.transitions.map JobTransition.toStatus
  status : ∀ st, v.status = some st → st ∈ v.transitions.map JobTransition.toStatus

/-- The same of what a transaction writes. A job that is handed back is not
logged again as PENDING. -/
structure Balanced (ws : List Write) : Prop where
  leases : ∀ j, (Write.issued j ws).length = (into .dispatched (Write.logged j ws)).length
  commits : ∀ j, (Write.committed j ws).map CommitAttempt.atMs =
    (into .succeeded (Write.logged j ws)).map JobTransition.atMs
  submitted : ∀ row, .insertJob row ∈ ws → row.status = .pending ∧
    .pending ∈ (Write.logged row.jobId ws).map JobTransition.toStatus
  patched : ∀ j patch, .patchJob j patch ∈ ws →
    patch.status = .pending ∨ patch.status ∈ (Write.logged j ws).map JobTransition.toStatus

variable {ws vs rest : List Write} {w : Write} {db : Db} {j : JobId}

theorem issued_append (j : JobId) (ws vs : List Write) :
    Write.issued j (ws ++ vs) = Write.issued j ws ++ Write.issued j vs := List.filterMap_append

theorem logged_append (j : JobId) (ws vs : List Write) :
    Write.logged j (ws ++ vs) = Write.logged j ws ++ Write.logged j vs := List.filterMap_append

theorem committed_append (j : JobId) (ws vs : List Write) :
    Write.committed j (ws ++ vs) = Write.committed j ws ++ Write.committed j vs := List.filterMap_append

theorem into_append (status : JobStatus) (rows more : List JobTransition) :
    into status (rows ++ more) = into status rows ++ into status more := List.filter_append ..

theorem Balanced.nil : Balanced [] :=
  ⟨fun _ => rfl, fun _ => rfl, fun _ h => (by cases h), fun _ _ h => by cases h⟩

theorem logged_left {st : JobStatus} (h : st ∈ (Write.logged j ws).map JobTransition.toStatus) :
    st ∈ (Write.logged j (ws ++ vs)).map JobTransition.toStatus := by
  rw [logged_append, List.map_append]
  exact List.mem_append_left _ h

theorem logged_right {st : JobStatus} (h : st ∈ (Write.logged j vs).map JobTransition.toStatus) :
    st ∈ (Write.logged j (ws ++ vs)).map JobTransition.toStatus := by
  rw [logged_append, List.map_append]
  exact List.mem_append_right _ h

theorem Balanced.append (h : Balanced ws) (h' : Balanced vs) : Balanced (ws ++ vs) := by
  constructor
  · intro j
    rw [issued_append, logged_append, into_append, List.length_append, List.length_append, h.leases,
      h'.leases]
  · intro j
    rw [committed_append, logged_append, into_append, List.map_append, List.map_append, h.commits,
      h'.commits]
  · intro row hw
    rcases List.mem_append.mp hw with hw | hw
    · exact ⟨(h.submitted row hw).1, logged_left (h.submitted row hw).2⟩
    · exact ⟨(h'.submitted row hw).1, logged_right (h'.submitted row hw).2⟩
  · intro j patch hw
    rcases List.mem_append.mp hw with hw | hw
    · exact (h.patched j patch hw).imp_right logged_left
    · exact (h'.patched j patch hw).imp_right logged_right

/-- A write that leaves the accounts balanced, given what is written after it. -/
inductive Write.Covered (rest : List Write) : Write → Prop where
  | insertJob {row : Job} (pending : row.status = .pending)
      (logged : .pending ∈ (Write.logged row.jobId rest).map JobTransition.toStatus) :
      Covered rest (.insertJob row)
  | patchJob {j : JobId} {patch : Db.JobPatch} (logged : patch.status = .pending ∨
      patch.status ∈ (Write.logged j rest).map JobTransition.toStatus) : Covered rest (.patchJob j patch)
  | insertLease {row : Lease} : Covered rest (.insertLease row)
  | extendLease {j : JobId} {expiresAt : Int} : Covered rest (.extendLease j expiresAt)
  | deleteLease {j : JobId} : Covered rest (.deleteLease j)
  | terminate {j : JobId} {fence : Token} {atMs : Int} : Covered rest (.terminate j fence atMs)
  | insertTransition {row : JobTransition} (dispatched : row.toStatus ≠ .dispatched)
      (succeeded : row.toStatus ≠ .succeeded) : Covered rest (.insertTransition row)

theorem Write.Covered.silent (h : w.Covered rest) (j : JobId) : Write.issued j [w] = [] ∧
    Write.committed j [w] = [] ∧ into .dispatched (Write.logged j [w]) = [] ∧
      into .succeeded (Write.logged j [w]) = [] := by
  cases h with
  | @insertTransition row dispatched succeeded =>
    by_cases own : row.jobId = j <;>
      simp [Write.issued, Write.committed, Write.logged, into, own, dispatched, succeeded]
  | _ => exact ⟨rfl, rfl, rfl, rfl⟩

/-- A covered write may stand between what was written and what will be. -/
theorem Balanced.cover (h : Balanced (ws ++ rest)) (covered : w.Covered rest) :
    Balanced ((ws ++ [w]) ++ rest) := by
  have more : ∀ {j st}, st ∈ (Write.logged j (ws ++ rest)).map JobTransition.toStatus →
      st ∈ (Write.logged j ((ws ++ [w]) ++ rest)).map JobTransition.toStatus := by
    intro j st hst
    rw [logged_append, List.map_append] at hst
    exact (List.mem_append.mp hst).elim (fun hst => logged_left (logged_left hst)) logged_right
  have split : ∀ {v}, v ∈ (ws ++ [w]) ++ rest → v ∈ ws ++ rest ∨ v = w := by
    intro v hv
    simp only [List.mem_append, List.mem_singleton] at hv ⊢
    tauto
  constructor
  · intro j
    obtain ⟨issued, _, dispatched, _⟩ := covered.silent j
    have before := h.leases j
    simp only [issued_append, logged_append, into_append, issued, dispatched, List.append_nil] at before ⊢
    exact before
  · intro j
    obtain ⟨_, committed, _, succeeded⟩ := covered.silent j
    have before := h.commits j
    simp only [committed_append, logged_append, into_append, committed, succeeded,
      List.append_nil] at before ⊢
    exact before
  · intro row hv
    rcases split hv with hv | rfl
    · exact ⟨(h.submitted row hv).1, more (h.submitted row hv).2⟩
    · cases covered with
      | insertJob pending logged => exact ⟨pending, logged_right logged⟩
  · intro j patch hv
    rcases split hv with hv | rfl
    · exact (h.patched j patch hv).imp_right more
    · cases covered with
      | patchJob logged => exact logged.imp_right logged_right

theorem Balanced.covers (h : Balanced (ws ++ rest)) (covered : ∀ w ∈ vs, w.Covered rest) :
    Balanced ((ws ++ vs) ++ rest) := by
  induction vs generalizing ws with
  | nil => rwa [List.append_nil]
  | cons v vs ih =>
    have first := h.cover (covered v List.mem_cons_self)
    have all := ih first fun w hw => covered w (List.mem_cons_of_mem _ hw)
    rwa [List.append_assoc ws [v] vs] at all

theorem view_trail (db : Db) (ws : List Write) (j : JobId) :
    ((sqlMachine.view db ws).view j).history.length =
        (db.view j).history.length + (Write.issued j ws).length ∧
      ((sqlMachine.view db ws).view j).transitions = (db.view j).transitions ++ Write.logged j ws ∧
      ((sqlMachine.view db ws).view j).commits = (db.view j).commits ++ Write.committed j ws := by
  induction ws using List.reverseRecOn with
  | nil => simp [Write.issued, Write.logged, Write.committed]
  | append_singleton ws w ih =>
    obtain ⟨history, transitions, commits⟩ := ih
    rw [view_snoc, issued_append, logged_append, committed_append]
    by_cases own : w.subject = j
    · rw [if_pos own]
      cases w with
      | insertHistory row | insertTransition row | insertCommit row =>
        have key : row.jobId = j := own
        simp [Write.on, Write.issued, Write.logged, Write.committed, history, transitions, commits, key,
          Nat.add_assoc]
      | _ => simp [Write.on, Write.issued, Write.logged, Write.committed, history, transitions, commits]
    · rw [if_neg own]
      cases w with
      | insertHistory row | insertTransition row | insertCommit row =>
        have other : row.jobId ≠ j := own
        simp [Write.issued, Write.logged, Write.committed, history, transitions, commits, other]
      | _ => simp [Write.issued, Write.logged, Write.committed, history, transitions, commits]

/-- Where the row and the status of a job come from. -/
theorem view_status (ws : List Write) (db : Db) (j : JobId) :
    (((sqlMachine.view db ws).view j).job.isSome →
      (db.view j).job.isSome ∨ ∃ row, .insertJob row ∈ ws ∧ row.jobId = j) ∧
    ∀ st, ((sqlMachine.view db ws).view j).status = some st → (db.view j).status = some st ∨
      (∃ row, .insertJob row ∈ ws ∧ row.jobId = j ∧ row.status = st) ∨
      ∃ patch, .patchJob j patch ∈ ws ∧ patch.status = st := by
  induction ws using List.reverseRecOn with
  | nil => exact ⟨.inl, fun st h => .inl h⟩
  | append_singleton ws w ih =>
    have there : ((sqlMachine.view db ws).view j).job.isSome →
        (db.view j).job.isSome ∨ ∃ row, .insertJob row ∈ ws ++ [w] ∧ row.jobId = j :=
      fun h => (ih.1 h).imp_right fun ⟨row, hw, key⟩ => ⟨row, List.mem_append_left _ hw, key⟩
    have stays : ∀ st, ((sqlMachine.view db ws).view j).status = some st →
        (db.view j).status = some st ∨
        (∃ row, .insertJob row ∈ ws ++ [w] ∧ row.jobId = j ∧ row.status = st) ∨
        ∃ patch, .patchJob j patch ∈ ws ++ [w] ∧ patch.status = st := by
      intro st h
      refine (ih.2 st h).imp_right (Or.imp ?_ ?_)
      · rintro ⟨row, hw, rest⟩
        exact ⟨row, List.mem_append_left _ hw, rest⟩
      · rintro ⟨patch, hw, rest⟩
        exact ⟨patch, List.mem_append_left _ hw, rest⟩
    have last : w ∈ ws ++ [w] := List.mem_append_right _ List.mem_cons_self
    rw [view_snoc]
    split
    next own =>
      cases w with
      | insertJob row =>
        cases hj : ((sqlMachine.view db ws).view j).job with
        | some r =>
          have same : (Write.insertJob row).on ((sqlMachine.view db ws).view j) =
              (sqlMachine.view db ws).view j := by
            rw [Write.on, hj, Option.getD_some, ← hj]
          rw [same]
          exact ⟨there, stays⟩
        | none =>
          refine ⟨fun _ => .inr ⟨row, last, own⟩, fun st h => .inr (.inl ⟨row, last, own, ?_⟩)⟩
          simpa [Write.on, JobView.status, hj] using h
      | patchJob i patch =>
        cases own
        refine ⟨fun h => there (by simpa [Write.on] using h), fun st h => .inr (.inr ⟨patch, last, ?_⟩)⟩
        obtain ⟨r, hr, status⟩ := Option.map_eq_some_iff.mp h
        obtain ⟨q, _, rfl⟩ := Option.map_eq_some_iff.mp hr
        exact status
      | _ => exact ⟨there, stays⟩
    next => exact ⟨there, stays⟩

/-- A balanced transaction keeps the trail of every job. -/
theorem Balanced.audited (h : Balanced ws) (audited : (db.view j).Audited) :
    ((sqlMachine.view db ws).view j).Audited := by
  obtain ⟨history, transitions, commits⟩ := view_trail db ws j
  obtain ⟨there, status⟩ := view_status ws db j
  have old : ∀ {st}, st ∈ (db.view j).transitions.map JobTransition.toStatus →
      st ∈ ((db.view j).transitions ++ Write.logged j ws).map JobTransition.toStatus := by
    intro st hst
    rw [List.map_append]
    exact List.mem_append_left _ hst
  have new : ∀ {st}, st ∈ (Write.logged j ws).map JobTransition.toStatus →
      st ∈ ((db.view j).transitions ++ Write.logged j ws).map JobTransition.toStatus := by
    intro st hst
    rw [List.map_append]
    exact List.mem_append_right _ hst
  have submitted : ((sqlMachine.view db ws).view j).job.isSome →
      .pending ∈ ((db.view j).transitions ++ Write.logged j ws).map JobTransition.toStatus := by
    intro some
    rcases there some with before | ⟨row, hw, rfl⟩
    · exact old (audited.submitted before)
    · exact new (h.submitted row hw).2
  constructor
  · rw [history, transitions, into_append, List.length_append, audited.leases, h.leases]
  · rw [commits, transitions, into_append, List.map_append, List.map_append, audited.commits, h.commits]
  · rw [transitions]
    exact submitted
  · intro st hst
    rw [transitions]
    have here := Option.isSome_map ▸ Option.isSome_of_eq_some hst
    rcases status st hst with before | ⟨row, hw, rfl, rfl⟩ | ⟨patch, hw, rfl⟩
    · exact old (audited.status st before)
    · rw [(h.submitted row hw).1]
      exact new (h.submitted row hw).2
    · rcases h.patched j patch hw with pending | logged
      · rw [pending]
        exact submitted here
      · exact new logged

end Dispatcher
