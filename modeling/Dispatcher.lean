import Dispatcher.Proofs.OrphanLeases
import Dispatcher.Proofs.Recoverable
import Dispatcher.Proofs.TransitionLog
import Dispatcher.Proofs.MessageFencing
import Dispatcher.Proofs.Submission
import Dispatcher.Lib.Outlines
import Dispatcher.Proofs.FencingOrder
import Dispatcher.Sql.Flow
import Dispatcher.Sql.Atomic
import Dispatcher.Sql.Dispatching
import Dispatcher.Sql.Reaping
import Dispatcher.Proofs.PendingUnleased
import Dispatcher.Proofs.Exclusivity
import Dispatcher.Proofs.Atomicity
import Dispatcher.Model.Fleet
import Dispatcher.Proofs.AckDurability
import Dispatcher.Proofs.HistoryMirror
import Dispatcher.Lib.Clocks
import Dispatcher.Model.Clocked
import Dispatcher.Proofs.LeaseTerms
import Dispatcher.Proofs.CommonSkew
import Dispatcher.Cluster.Contacts
import Dispatcher.Proofs.HeartbeatSafety
import Dispatcher.Proofs.LeaseWindow
import Dispatcher.Proofs.DuplicateResults
import Dispatcher.Model.Dispatch
import Dispatcher.Proofs.FairTick
import Dispatcher.Proofs.InFlightCount
import Dispatcher.Lib.Fifo
import Dispatcher.Lib.Overwrites
import Dispatcher.Model.Link
import Dispatcher.Hub.Control
import Dispatcher.Hub.Registration
import Dispatcher.Link.InStep
import Dispatcher.Proofs.LimitViews
import Dispatcher.Proofs.NewestConnection
import Dispatcher.Proofs.NewestToken
import Dispatcher.Proofs.ReapConfluence
import Dispatcher.Proofs.ResultAtomicity
import Dispatcher.Proofs.StaleRuns
import Dispatcher.Proofs.WorkerSlots
import Dispatcher.Proofs.MidTick
import Dispatcher.Proofs.TickAlone
import Dispatcher.Proofs.FailedReads
import Dispatcher.Proofs.StuckLeases
import Dispatcher.Cluster.Loads
import Dispatcher.Proofs.SingleExecution
import Dispatcher.Proofs.ResultOrigin
import Dispatcher.Proofs.BoundedWaiting
import Dispatcher.Sql.Concluding
import Dispatcher.Proofs.InterleavedCommits
import Dispatcher.Model.Harness
import Dispatcher.Proofs.HarnessVerdict
import Dispatcher.Chaos.Faults
import Dispatcher.Proofs.ChaosFaults
import Dispatcher.Proofs.SkewTolerance
import Dispatcher.Proofs.TruthfulStream
import Dispatcher.Proofs.DeploymentRefinement
import Dispatcher.Deployment.Rounds
import Dispatcher.Link.Connections
import Dispatcher.Proofs.Draining
import Dispatcher.Proofs.Reconnection
