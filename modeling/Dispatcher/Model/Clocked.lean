import Dispatcher.Lib.Clocks
import Dispatcher.Model.Cluster

namespace Dispatcher
open Clocks

/-- A value of `Date.now()` while a clock in microseconds goes from `before` to `after`. -/
def showsMs (before after : Nat) (ms : Int) : Bool :=
  ((before / 1000 : Nat) : Int) ≤ ms && ms ≤ ((after / 1000 : Nat) : Int)

/-- What a step reads when all coordinators and Postgres share one clock. The
expiry of a dispatch and the `UpdatedAt` of a result may be computed from an
earlier reading than the moment of their commit. -/
def Action.reads (a : Action) (before after : Nat) : Bool :=
  match a with
  | .receive _ _ ctx | .reaperTick _ ctx => showsMs before after ctx.nowMs
  | .resume _ ctx =>
    ctx.nowMs ≤ ((after / 1000 : Nat) : Int) && showsMs before after ctx.laterMs &&
      showsMs before after ctx.pgNowMs && before ≤ ctx.pgClockUs && ctx.pgClockUs ≤ after
  | .post .. | .delete .. | .workerSend .. | .deregister .. | .dispatchTick .. | .fail .. | .crash _
  | .skipTokens _ => true

/-- The cluster under one shared clock, in microseconds. -/
abbrev Clocked := Timed Cluster

namespace Clocked

def step : Runs.Step Clocked (At Action) := timed Cluster.step Action.reads

def init (clock : Nat) : Clocked := ⟨.init, clock⟩

/-- An action of `Ctx.quiet` contexts, at this millisecond. -/
def atMs (ms : Nat) (a : Action) : At Action := ⟨a, ms * 1000⟩

end Clocked

end Dispatcher
