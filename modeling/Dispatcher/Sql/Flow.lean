import Dispatcher.Sql.Programs

namespace Dispatcher
open ReadCommitted

namespace Prog

/-- Where a statement leads, by the rows it affected. -/
inductive Leads : Prog → List Row → Prog → Prop where
  | submitJob : Leads (submitJob ctx key payload) rows (submitTransition ctx)
  | submitTransition : Leads (submitTransition ctx) rows done
  | cancelJob : Leads (cancelJob ctx j) rows (cancelTransition ctx j)
  | cancelTransition : Leads (cancelTransition ctx j) rows done
  | selected : Leads (dispatchSelect ctx w b) (.job j :: rest) (dispatchLock ctx w b j)
  | queueEmpty : Leads (dispatchSelect ctx w b) rows done
  | dispatchLock : Leads (dispatchLock ctx w b j) rows (dispatchRead ctx w b j)
  | dispatchLease : Leads (dispatchLease g) rows (dispatchStatus g)
  | dispatchStatus : Leads (dispatchStatus g) rows (dispatchHistory g)
  | dispatchHistory : Leads (dispatchHistory g) rows (dispatchTransition g)
  | dispatchTransition : Leads (dispatchTransition g) rows done
  | leaseDeleted : Leads (resultLease ctx w msg) rows (resultJob ctx w msg)
  | noLease : Leads (resultLease ctx w msg) [] done
  | resultJob : Leads (resultJob ctx w msg) rows (resultCommit ctx w msg)
  | notDispatched : Leads (resultJob ctx w msg) [] done
  | resultCommit : Leads (resultCommit ctx w msg) rows (resultHistory ctx msg.jobId)
  | resultHistory : Leads (resultHistory ctx j) rows (resultTransition ctx j)
  | resultTransition : Leads (resultTransition ctx j) rows done
  | failedLease : Leads (failedLease ctx msg) rows (failedJob ctx msg)
  | failedJob : Leads (failedJob ctx msg) rows (failedHistory ctx msg)
  | requeued : Leads (failedHistory ctx msg) rows done
  | failedHistory : Leads (failedHistory ctx msg) rows (failedTransition ctx msg)
  | failedTransition : Leads (failedTransition ctx msg) rows done
  | heartbeatLease : Leads (heartbeatLease w msg newExpiry) rows done
  | expired : Leads (reaperSelect ctx now b) rows (reaperLeases ctx (rows.filterMap Row.leased))
  | nothingExpired : Leads (reaperSelect ctx now b) [] done
  | reaperLeases : Leads (reaperLeases ctx ids) rows (reaperJobs ctx ids)
  | reaperJobs : Leads (reaperJobs ctx ids) rows (reaperHistory ctx ids)
  | reaperHistory : Leads (reaperHistory ctx ids) rows (reaperTransitions ctx ids)
  | reaperTransitions : Leads (reaperTransitions ctx ids) rows done

theorem leads {p : Prog} {st : Sql.Stmt} {next : List Row → Prog} (cmd : p.code = .sql st next)
    (rows : List Row) : p.Leads rows (next rows) := by
  cases p with
  | dispatchSelect =>
    cases cmd
    simp only
    split
    · exact .selected
    · exact .queueEmpty
  | resultLease | resultJob | reaperSelect =>
    cases cmd
    cases rows <;> constructor
  | failedHistory ctx msg =>
    cases cmd
    simp only
    split
    · exact .requeued
    · exact .failedHistory
  | dispatchRead | dispatchClock | dispatchToken | done => cases cmd
  | _ =>
    cases cmd
    constructor

inductive Reads : Prog → Env → Env → Prog → Prop where
  | clockFirst : Reads (dispatchRead ctx w true j) e e (dispatchToken ctx w j e.clockUs)
  | tokenFirst : Reads (dispatchRead ctx w false j) e (nextval e).1
      (dispatchClock ctx w j (nextval e).2)
  | clock : Reads (dispatchClock ctx w j token) e e (dispatchLease ⟨ctx, w, j, token, e.clockUs⟩)
  | token : Reads (dispatchToken ctx w j issuedAtMs) e (nextval e).1
      (dispatchLease ⟨ctx, w, j, (nextval e).2, issuedAtMs⟩)

theorem reads {p : Prog} {f : Env → Env × Prog} (cmd : p.code = .call f) (e : Env) :
    p.Reads e (f e).1 (f e).2 := by
  cases p with
  | dispatchRead ctx w b j =>
    cases cmd
    cases b <;> constructor
  | dispatchClock | dispatchToken =>
    cases cmd
    constructor
  | _ => cases cmd

end Prog

end Dispatcher
