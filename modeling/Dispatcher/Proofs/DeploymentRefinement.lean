import Dispatcher.Deployment.Tracking

namespace Dispatcher
open Runs

namespace Deployment

/-- Every run of the deployment is a run of the cluster with the same inputs. -/
theorem refines_cluster {es : List (Event Deployment Action)} {s : Deployment}
    (run : Run step init es s) : ∃ fs u, Run Cluster.step Cluster.init fs u ∧
      visible Cluster.input fs = visible input es ∧ s.Tracks u :=
  tracks_step.run run tracks_init

/-- A worker registers, gets the job of the queue and returns its result. -/
def hubRun : List Action :=
  [.base (.post "c1" (some (.str "k")) (some (.obj []))), .base (.resume 0 (.quiet "c1" 1)),
    .base (.resume 0 (.quiet "c1" 1)), .base (.workerSend 1 (.workerHello "w1" 4)),
    .process "c1" (.hub (.connection 1)), .receive "c1" 0 (.quiet "c1" 2),
    .process "c1" (.hub (.write 0)), .process "c1" (.hub (.resume 0 (.quiet "c1" 2))),
    .tick "c1" false false, .process "c1" (.commit (.quiet "c1" 3)), .process "c1" .resume,
    .base (.workerSend 1 (.jobResult ⟨1, 1, .obj []⟩)), .receive "c1" 1 (.quiet "c1" 4),
    .process "c1" (.hub (.resume 0 (.quiet "c1" 5))), .process "c1" (.hub (.resume 0 (.quiet "c1" 6)))]

theorem refines_cluster_hubRun : ∃ s, exec step init hubRun = some s ∧
    s.base.db.statusOf 1 = some .succeeded ∧ ∃ fs u, Run Cluster.step Cluster.init fs u ∧
      visible Cluster.input fs = visible input (trace step init hubRun) ∧ s.Tracks u := by
  obtain ⟨s, hs, hp⟩ : ∃ s, exec step init hubRun = some s ∧
      decide (s.base.db.statusOf 1 = some .succeeded) = true := exec_any (by decide)
  exact ⟨s, hs, of_decide_eq_true hp, refines_cluster (run_of_exec hubRun hs)⟩

end Deployment

end Dispatcher
