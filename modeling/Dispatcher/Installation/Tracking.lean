import Dispatcher.Installation.Executions

namespace Dispatcher
open Tables Runs

namespace Deployment

variable {s : Deployment} {u : Cluster}

/-- What the workers write comes in at the cluster, message by message. -/
theorem Tracks.hears (h : Tracks s u) (msgs : List (SocketId × WorkerToCoordMsg)) :
    ∃ es v, Run Cluster.step u es v ∧
      visible Cluster.input es = msgs.map (fun m => .workerSend m.1 m.2) ∧ Tracks (s.hears msgs) v := by
  induction msgs generalizing s u with
  | nil =>
    refine ⟨[], u, .nil, rfl, ?_⟩
    rw [Deployment.hears, List.append_nil]
    exact h
  | cons m rest ih =>
    obtain ⟨ws, msg⟩ := m
    have written : Cluster.step s.base (.workerSend ws msg) =
        some { s.base with wire := s.base.wire ++ [(ws, msg)] } := rfl
    obtain ⟨b, v, same, taken, tracks⟩ := h.base rfl written
    obtain ⟨es, w, run, others, tracks⟩ := ih tracks
    refine ⟨_, w, (Run.one taken).append run, ?_, ?_⟩
    · rw [visible_append, visible_singleton, others]
      exact congrArg (· ++ _) same
    · rw [Deployment.hears, List.append_assoc] at tracks
      exact tracks

end Deployment

namespace Installation

variable {configs : List (WorkerId × Int)} {es : List (Event Installation Action)} {s : Installation}
  {u : Cluster}

def input (e : Event Installation Action) : List Dispatcher.Action :=
  match e.action with
  | .deployment a => Deployment.input ⟨e.before.deployment, a, e.after.deployment⟩
  | .worker .. | .deliver .. => (e.after.deployment.base.wire.drop
      e.before.deployment.base.wire.length).map fun m => .workerSend m.1 m.2

/-- The coordinators of an installation do what a cluster can do on the same inputs. -/
theorem tracks_step :
    Simulates step Cluster.step input Cluster.input fun s u => s.deployment.Tracks u := by
  intro s a s' u h taken
  cases step_moves taken with
  | deployment moved => exact Deployment.tracks_step _ _ _ u h moved
  | @worker i e w w' sends | @delivered i k ws msg w w' sends =>
    obtain ⟨es, v, run, same, tracks⟩ := h.hears (Fleet.emitted w' sends)
    refine ⟨es, v, run, same.trans ?_, tracks⟩
    rw [input, Deployment.hears, List.drop_left]

/-- The cluster that a run of the installation is a run of. -/
theorem tracked (run : Run step (init configs) es s) : ∃ fs u, Run Cluster.step Cluster.init fs u ∧
    visible Cluster.input fs = visible input es ∧ s.deployment.Tracks u :=
  tracks_step.run run Deployment.tracks_init

theorem load_aboutJob {m : CoordToWorkerMsg} (h : m.aboutJob = false) : m.load = none := by
  cases m with
  | jobDispatch | jobAck => cases h
  | setConcurrency | ping => rfl

/-- The cluster that is tracked sends the same jobs. -/
theorem sent_loads (tracks : s.deployment.Tracks u) : u.sent.filterMap (fun m => m.2.load) =
    s.deployment.base.sent.filterMap fun m => m.2.load := by
  rw [tracks.sent, List.filterMap_filter]
  apply List.filterMap_congr
  intro m _
  split
  · rfl
  case isFalse other => exact (load_aboutJob (Bool.eq_false_of_not_eq_true other)).symm

theorem sentLoad_loads (tracks : s.deployment.Tracks u) {k : Nat} {d : Dispatched}
    (h : s.sentLoad k = some d) : d ∈ u.loads := by
  obtain ⟨m, hm, hd⟩ := Option.bind_eq_some_iff.mp h
  refine List.mem_append_right _ ?_
  rw [sent_loads tracks]
  exact List.mem_filterMap.mpr ⟨m, List.mem_of_getElem? hm, hd⟩

/-- A token is sent once. -/
theorem sentLoad_inj (tracks : s.deployment.Tracks u) (loaded : u.Loaded) {k k' : Nat}
    {d d' : Dispatched} (h : s.sentLoad k = some d) (h' : s.sentLoad k' = some d')
    (same : d.token = d'.token) : k = k' := by
  have once := loaded.once
  rw [Cluster.loads, sent_loads tracks, List.map_append, List.map_filterMap, List.map_filterMap] at once
  refine filterMap_index (List.nodup_append.mp once).2.1 (b := d.token) ?_ ?_
  · obtain ⟨m, hm, hd⟩ := Option.bind_eq_some_iff.mp h
    exact Option.bind_eq_some_iff.mpr ⟨m, hm, by simp [hd]⟩
  · obtain ⟨m, hm, hd⟩ := Option.bind_eq_some_iff.mp h'
    exact Option.bind_eq_some_iff.mpr ⟨m, hm, by simp [hd, same]⟩

end Installation

end Dispatcher
