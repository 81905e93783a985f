import Dispatcher.Model.Routes

namespace Dispatcher

/-- What `_audit_one` makes of the answer to `GET /audit`. -/
inductive AuditReport where
  | unreachable (err : String)
  | ok (trail : AuditTrail)

/-- A line of `_verify`. -/
inductive Violation where
  | dedup (key : String) (ids : List JobId)
  | auditUnreachable (jobId : JobId) (err : String)
  | lost (jobId : JobId)
  | doubleCommit (jobId : JobId) (accepted : Nat)
  | fencingNonmonotonicPerJob (jobId : JobId) (tokens : List Token)
  | staleCommitAccepted (jobId : JobId) (fence max : Token)
  | fencingGlobalNonmonotonic (ts : Int) (jobId : JobId) (fence : Token) (prev : Int)
  deriving DecidableEq

def Violation.text : Violation → String
  | dedup key ids => s!"dedup: idempotency_key {key} produced {ids.length} job_ids: {ids}"
  | auditUnreachable jobId err => s!"audit_unreachable: {jobId} ({err})"
  | lost jobId => s!"lost: {jobId} has no terminal state and no accepted commit"
  | doubleCommit jobId accepted => s!"double_commit: {jobId} accepted {accepted} commits"
  | fencingNonmonotonicPerJob jobId tokens =>
    s!"fencing_nonmonotonic_per_job: {jobId} tokens={tokens}"
  | staleCommitAccepted jobId fence max =>
    s!"stale_commit_accepted: {jobId} commit fence={fence} but max issued={max}"
  | fencingGlobalNonmonotonic ts jobId fence prev =>
    s!"fencing_global_nonmonotonic: at ts={ts} job={jobId} fence={fence} <= prev={prev}"

namespace Harness

/-- The idempotency keys that came back with more than one job; `tracked` is `_J`. -/
def dedupLines (tracked : List (JobId × String)) : List Violation :=
  (tracked.map Prod.snd).eraseDups.filterMap fun key =>
    let ids := (tracked.filter fun t => t.2 = key).map Prod.fst
    if 1 < ids.length then some (.dedup key (orderBy id ids)) else none

def lostLines (jobId : JobId) (trail : AuditTrail) : List Violation :=
  if (trail.commits.filter AuditCommit.accepted).length = 0 &&
      !(trail.transitions.any fun t => t.toStatus.terminal) then [.lost jobId]
  else []

def doubleLines (jobId : JobId) (trail : AuditTrail) : List Violation :=
  let successful := trail.commits.filter AuditCommit.accepted
  if 1 < successful.length then [.doubleCommit jobId successful.length] else []

def tokens (trail : AuditTrail) : List Token := trail.leaseHistory.map AuditLease.fence

def orderLines (jobId : JobId) (trail : AuditTrail) : List Violation :=
  if (tokens trail) ≠ orderBy id (tokens trail) then [.fencingNonmonotonicPerJob jobId (tokens trail)]
  else []

def staleLines (jobId : JobId) (trail : AuditTrail) : List Violation :=
  trail.commits.filterMap fun c =>
    if !c.accepted then none
    else (tokens trail).max?.bind fun max =>
      if c.fence < max then some (.staleCommitAccepted jobId c.fence max) else none

def jobLines (p : JobId × AuditReport) : List Violation :=
  match p.2 with
  | .unreachable err => [.auditUnreachable p.1 err]
  | .ok trail => lostLines p.1 trail ++ doubleLines p.1 trail ++ orderLines p.1 trail ++
      staleLines p.1 trail

def allFences (audits : List (JobId × AuditReport)) : List (Int × Token × JobId) :=
  audits.flatMap fun p => match p.2 with
    | .unreachable _ => []
    | .ok trail => trail.leaseHistory.map fun l => (l.issuedAtMs, l.fence, p.1)

/-- The loop over `all_fences`, which stops at the first violation. -/
def globalLines : Int → List (Int × Token × JobId) → List Violation
  | _, [] => []
  | last, (ts, f, jobId) :: rest =>
    if (f : Int) ≤ last then [.fencingGlobalNonmonotonic ts jobId f last] else globalLines f rest

def verify (tracked : List (JobId × String)) (audits : List (JobId × AuditReport)) :
    List Violation :=
  dedupLines tracked ++ audits.flatMap jobLines ++
    globalLines (-1) (orderBy Prod.fst (allFences audits))

end Harness

end Dispatcher
