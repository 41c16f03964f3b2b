import AdkRust.Graph.Messages

/-!
# Saving and restoring an executor

`buildCheckpoint` is what a run saves of its executor and `restore` what a resumed run makes of it
(`executor.rs`). `restore_buildCheckpoint`: everything a super-step reads comes back, the fan-in
trackers through their encoding in the checkpoint's metadata.
-/

namespace Adk

/-- Checkpoint metadata naming the nodes a dynamic pause stopped. -/
def pausedNodesMetadataKey : String := "adk.graph.paused_nodes"

namespace Exec

variable (g : CompiledGraph) (config : ExecutionConfig)

def checkpointMetadata (e : Exec) (now : Clock) : Dict Value :=
  let metadata : Dict Value :=
    match FanInSnapshot.capture e.pendingDeferred e.deferredStartTimes e.abandonedArrivals now with
    | some snapshot => Std.ExtTreeMap.insert ∅ fanInMetadataKey snapshot.toValue
    | none => ∅
  if e.pausedNodes.isEmpty then metadata
  else metadata.insert pausedNodesMetadataKey (.ofStrings e.pausedNodes.toList)

/-- The checkpoint of the executor as it stands, one version past the head. -/
def checkpoint (e : Exec) (now : Clock) (checkpointId : String) (createdAt : Utc) : Checkpoint where
  threadId := config.threadId
  checkpointId := checkpointId
  state := e.state
  step := e.step
  pendingNodes := e.pendingNodes
  metadata := checkpointMetadata e now
  createdAt := createdAt
  clearedInterrupt := e.clearedInterrupt
  attempts := e.attempts
  childLedger := e.childLedger
  version := e.headVersion + 1
  pendingWrites := e.pendingWrites

/-- Builds the checkpoint; the executor's head moves to its version. -/
def buildCheckpoint (e : Exec) (now : Clock) (checkpointId : String) (createdAt : Utc) :
    Exec × Checkpoint :=
  ({ e with headVersion := e.headVersion + 1 }, checkpoint config e now checkpointId createdAt)

def restoreFanIn (e : Exec) (metadata : Dict Value) (now : Clock) : Except GraphError Exec := do
  match ← FanInSnapshot.fromMetadata metadata with
  | none => return e
  | some snapshot =>
    let restored := snapshot.restore g.getUpstreamNodes now
    return { e with
      pendingDeferred := restored.trackers
      deferredStartTimes := restored.started
      abandonedArrivals := restored.abandoned }

def restorePaused (e : Exec) (metadata : Dict Value) : Except GraphError Exec :=
  match metadata[pausedNodesMetadataKey]? with
  | none => .ok e
  | some paused =>
    match paused.asStrings with
    | some names => .ok { e with pausedNodes := Names.ofList names }
    | none => .error (.jsonError "invalid type: expected a sequence of strings")

/-- Continues from a checkpoint. `head` is the highest version known of the thread. A thread that
finished starts again from its entry nodes when `restartCompleted` is set. -/
def restore (restartCompleted : Bool) (cp : Checkpoint) (head : Nat) (input : State) (now : Clock)
    (e : Exec) : Except GraphError Exec := do
  let e := { e with headVersion := head, state := cp.state, step := cp.step }
  let e ←
    if cp.pendingNodes.isEmpty && restartCompleted && config.resumeFrom.isNone then do
      let (e, frontier) ← entryFrontier g e now
      pure { e with pendingNodes := frontier, runStartStep := cp.step }
    else do
      let e := { e with
        pendingNodes := cp.pendingNodes
        clearedInterrupt := cp.clearedInterrupt
        attempts := cp.attempts
        childLedger := cp.childLedger
        pendingWrites := cp.pendingWrites }
      let e ← restoreFanIn g e cp.metadata now
      restorePaused e cp.metadata
  return { e with state := g.schema.applyUpdates e.state input.toList }

def start (state : State) (now : Clock) (e : Exec) : Except GraphError Exec := do
  let (e, frontier) ← entryFrontier g { e with state } now
  return { e with pendingNodes := frontier }

/-- The state of a fresh start: the declared defaults, or the state of a checkpoint, with the input
merged on top. -/
def initializeState (loaded : Option Checkpoint) (input : State) : State :=
  let state := match loaded with
    | some cp => cp.state
    | none => g.schema.initializeState
  g.schema.applyUpdates state input.toList

/-! ## What comes back -/

/-- What a checkpoint relies on: the trackers expect the graph's predecessors, and no node is left
with nothing to drop. -/
structure Saveable (e : Exec) : Prop where
  expected : ∀ (node : String) (tracker : FanInTracker), e.pendingDeferred[node]? = some tracker →
    tracker.expected = Names.ofList (g.getUpstreamNodes node)
  abandoned : ∀ node : String, e.abandonedArrivals[node]? ≠ some ∅

variable {g config}

theorem metadata_fanIn (e : Exec) (now : Clock) :
    (checkpointMetadata e now)[fanInMetadataKey]? =
      (FanInSnapshot.capture e.pendingDeferred e.deferredStartTimes e.abandonedArrivals now).map
        FanInSnapshot.toValue := by
  have hne : pausedNodesMetadataKey ≠ fanInMetadataKey := by decide
  rw [checkpointMetadata]
  cases FanInSnapshot.capture e.pendingDeferred e.deferredStartTimes e.abandonedArrivals now <;>
    split <;> simp only [Std.ExtTreeMap.getElem?_insert] <;> simp [hne]

theorem metadata_paused (e : Exec) (now : Clock) :
    (checkpointMetadata e now)[pausedNodesMetadataKey]? =
      if e.pausedNodes.isEmpty then none else some (.ofStrings e.pausedNodes.toList) := by
  have hne : fanInMetadataKey ≠ pausedNodesMetadataKey := by decide
  rw [checkpointMetadata]
  cases FanInSnapshot.capture e.pendingDeferred e.deferredStartTimes e.abandonedArrivals now <;>
    split <;> simp [hne]

/-- The waiting joins come back, but for the readings of the clock they wait since. -/
theorem restoreFanIn_checkpoint {e e₀ : Exec} (hs : Saveable g e) (now now' : Clock)
    (hd : e₀.pendingDeferred = ∅) (ha : e₀.abandonedArrivals = ∅) :
    ∃ started, restoreFanIn g e₀ (checkpointMetadata e now) now' = .ok { e₀ with
      pendingDeferred := e.pendingDeferred
      abandonedArrivals := e.abandonedArrivals
      deferredStartTimes := started } := by
  cases hc : FanInSnapshot.capture e.pendingDeferred e.deferredStartTimes e.abandonedArrivals now with
  | none =>
    have hm := metadata_fanIn e now
    rw [hc, Option.map_none] at hm
    have hemp : e.pendingDeferred = ∅ ∧ e.abandonedArrivals = ∅ := by
      rw [FanInSnapshot.capture] at hc
      split at hc
      · rename_i h
        simp only [Bool.and_eq_true, List.all_eq_true, Std.ExtTreeMap.isEmpty_iff,
          Std.ExtTreeSet.isEmpty_iff] at h
        refine ⟨h.1, Std.ExtTreeMap.ext_getElem? fun node => ?_⟩
        cases hn : e.abandonedArrivals[node]? with
        | none => simp
        | some sources =>
          have := h.2 (node, sources) (Std.ExtTreeMap.mem_toList_iff_getElem?_eq_some.mpr hn)
          exact absurd (hn.trans (congrArg some this)) (hs.abandoned node)
      · cases hc
    refine ⟨e₀.deferredStartTimes, ?_⟩
    simp only [restoreFanIn, FanInSnapshot.fromMetadata, hm, hemp.1, hemp.2, ← hd, ← ha]
    rfl
  | some snapshot =>
    have hm := metadata_fanIn e now
    rw [hc, Option.map_some] at hm
    have hf := FanInSnapshot.fromMetadata_toValue (FanInSnapshot.capture_version hc) hm
    refine ⟨(snapshot.restore g.getUpstreamNodes now').started, ?_⟩
    rw [restoreFanIn, hf]
    change Except.ok _ = _
    rw [FanInSnapshot.restore_capture_trackers hc hs.expected,
      FanInSnapshot.restore_capture_abandoned hc hs.abandoned]

theorem restorePaused_checkpoint {e e₀ : Exec} (now : Clock) (hp : e₀.pausedNodes = ∅) :
    restorePaused e₀ (checkpointMetadata e now) = .ok { e₀ with pausedNodes := e.pausedNodes } := by
  rw [restorePaused, metadata_paused]
  by_cases h : e.pausedNodes.isEmpty
  · have : e.pausedNodes = ∅ := Std.ExtTreeSet.isEmpty_iff.mp h
    simp [this, ← hp]
  · simp [h]

/-- **A resumed executor is the one that was saved**, with the input merged into its state. Its
clock readings, its head, its journal and what it asks of its caller start anew. -/
theorem restore_buildCheckpoint {e : Exec} (hs : Saveable g e) {restartCompleted : Bool}
    (hr : restartCompleted = false ∨ e.pendingNodes ≠ [] ∨ config.resumeFrom.isSome)
    (saved : ExecutionConfig) (now now' : Clock) (id : String) (createdAt : Utc) (head : Nat)
    (input : State) :
    ∃ started, restore g config restartCompleted (buildCheckpoint saved e now id createdAt).2 head
        input now' {} = .ok { e with
      state := g.schema.applyUpdates e.state input.toList
      deferredStartTimes := started
      headVersion := head
      gotoParent := none
      runStartStep := 0
      unsaved := false
      journal := [] } := by
  have hcond : (e.pendingNodes.isEmpty && restartCompleted && config.resumeFrom.isNone) = false := by
    rcases hr with rfl | hr | hr
    · simp
    · simp [hr]
    · simp [hr]
  let e₀ : Exec := {
    state := e.state, step := e.step, headVersion := head, pendingNodes := e.pendingNodes
    clearedInterrupt := e.clearedInterrupt, attempts := e.attempts, childLedger := e.childLedger
    pendingWrites := e.pendingWrites }
  obtain ⟨started, hf⟩ := restoreFanIn_checkpoint hs now now' (show e₀.pendingDeferred = ∅ from rfl) rfl
  refine ⟨started, ?_⟩
  simp only [restore, buildCheckpoint, checkpoint, hcond, Bool.false_eq_true, if_false]
  rw [hf]
  change (restorePaused _ _ >>= _) = _
  rw [restorePaused_checkpoint now rfl]
  rfl

theorem restore_checkpoint {e : Exec} (config : ExecutionConfig) (hs : Saveable g e)
    (saved : ExecutionConfig) (now now' : Clock) (id : String) (createdAt : Utc) (head : Nat)
    (input : State) :
    ∃ started, restore g config false (checkpoint saved e now id createdAt) head input now' {} =
      .ok { e with
        state := g.schema.applyUpdates e.state input.toList
        deferredStartTimes := started
        headVersion := head
        gotoParent := none
        runStartStep := 0
        unsaved := false
        journal := [] } :=
  restore_buildCheckpoint hs (.inl rfl) saved now now' id createdAt head input

end Exec

end Adk
