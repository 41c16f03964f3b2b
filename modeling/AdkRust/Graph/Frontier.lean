import AdkRust.Graph.Dispatch

/-!
# The executor's frontier

The executor's state, the static gates, and how the frontier advances through fan-in nodes
(`executor.rs`). Functions that read the clock take one reading of it.

The executor keeps a `journal` of what its fan-in nodes received and released. Nothing in the model
reads it; the theorems about joins are about it.
-/

namespace Adk

inductive ReleaseRule where
  /-- No predecessor that has not arrived can still run. -/
  | reachability
  /-- Its `fan_in_timeout` expired. -/
  | timeout
  /-- Nothing else could run. -/
  | stall
deriving DecidableEq

/-- What happened at a fan-in node. -/
inductive FanInEvent where
  /-- An arrival was recorded. -/
  | arrived (join source : String) (output : Value)
  /-- An arrival was dropped, the join having been released without it. -/
  | ignored (join source : String)
  | released (join : String) (rule : ReleaseRule) (tracker : FanInTracker)

/-- The state of a running executor. The handle of its background checkpoint write is not part of it:
the world the executor runs in holds the write. -/
structure Exec where
  state : State := ∅
  step : Nat := 0
  pendingNodes : List String := []
  gotoParent : Option (List String) := none
  /-- Deferred nodes waiting for their predecessors. -/
  pendingDeferred : Dict FanInTracker := ∅
  /-- When each deferred node started to wait. -/
  deferredStartTimes : Dict Nat := ∅
  /-- Predecessors a timeout released a node without. -/
  abandonedArrivals : Dict Names := ∅
  /-- Attempts already spent per node. -/
  attempts : Dict Nat := ∅
  childLedger : Dict Value := ∅
  /-- The node whose static interrupt this run has already answered. -/
  clearedInterrupt : Option String := none
  runStartStep : Nat := 0
  /-- The highest checkpoint version this run knows of for its thread. -/
  headVersion : Nat := 0
  /-- Writes of the nodes that finished in a super-step that has not completed. -/
  pendingWrites : Dict PendingWrite := ∅
  /-- Whether a completed super-step has not been checkpointed. -/
  unsaved : Bool := false
  /-- Nodes that paused with a dynamic interrupt and have not run since. -/
  pausedNodes : Names := ∅
  /-- What the fan-in nodes received and released; see the module's introduction. -/
  journal : List FanInEvent := []

structure SuperStepResult where
  executedNodes : List String := []
  /-- Every pause of the step with the node it stopped. -/
  interrupts : List (String × Interrupt) := []
  events : List StreamEvent := []
  /-- Nodes that named their own successors. -/
  goto : Dict (List String) := ∅
  /-- Each executed node's own updates. -/
  updates : Dict (Dict Value) := ∅

/-- Adds a name that is not there yet. -/
def pushName (names : List String) (name : String) : List String :=
  if name ∈ names then names else names ++ [name]

/-- What a predecessor hands a fan-in node: the value it wrote to a channel named after itself, or
else every update it wrote. -/
def arrivalOutput (node : String) (updates : Option (Dict Value)) : Value :=
  match updates with
  | none => .object []
  | some updates => updates[node]?.getD (.ofDict updates)

namespace Exec

variable (g : CompiledGraph)

/-! ## Static gates -/

def gateBefore (e : Exec) (pending : List String) : Option (String × Interrupt) :=
  (pending.find? fun node =>
    g.interruptBefore.contains node && decide (e.clearedInterrupt ≠ some node)).map
    fun node => (node, .before node)

def gateAfter (executed : List String) : Option (String × Interrupt) :=
  (executed.find? fun node => g.interruptAfter.contains node).map fun node => (node, .after node)

/-! ## The next frontier -/

/-- Adds one target of a node's `goto`. -/
def followGoto (next : List String × List Route) (route : Route) :
    Except GraphError (List String × List Route) :=
  if route.2 = END then .ok next
  else if route.2 ∉ g.nodes then .error (.unknownRouteTarget
    s!"node '{route.1}' routed to '{route.2}', which is not a node in this graph")
  else .ok (pushName next.1 route.2, next.2 ++ [route])

/-- The frontier after a step, and each route taken. A node's `goto` stands in for its edges. -/
def nextFrontier (e : Exec) (executed : List String) (goto : Dict (List String)) :
    Except GraphError (List String × List Route) := do
  let followedEdges := executed.filter fun node => !goto.contains node
  let routes ← g.routesFrom followedEdges e.state
  let next := routes.foldl (fun next route => pushName next route.2) []
  let routed := goto.toList.flatMap fun entry => entry.2.map fun target => (entry.1, target)
  routed.foldlM (followGoto g) (next, routes)

/-! ## Arrivals at fan-in nodes -/

/-- The sources among the routes that arrive at `candidate`, those dropped because the candidate
was released without them, and the sources it is still to drop. -/
def takeArrivals (candidate : String) (routes : List Route) (abandoned : Names) :
    List String × List String × Names :=
  routes.foldl (fun (arrivals, dropped, abandoned) (source, target) =>
    if target ≠ candidate then (arrivals, dropped, abandoned)
    else if source ∈ abandoned then (arrivals, dropped ++ [source], abandoned.erase source)
    else (arrivals ++ [source], dropped, abandoned)) ([], [], abandoned)

/-- Records the arrivals at a waiting node, which starts to wait if it does not yet. -/
def recordAt (e : Exec) (join : String) (arrivals : List (String × Value)) (now : Clock) : Exec :=
  let tracker := e.pendingDeferred.getD join (.new (g.getUpstreamNodes join))
  { e with
    pendingDeferred := e.pendingDeferred.insert join (tracker.recordAll arrivals)
    deferredStartTimes := e.deferredStartTimes.insertIfNew join now.instant
    journal := e.journal ++ arrivals.map fun arrival => .arrived join arrival.1 arrival.2 }

/-- Takes one candidate: a node that is not deferred is ready, and a deferred one records the
arrivals of this step. -/
def takeCandidate (routes : List Route) (updates : Dict (Dict Value)) (now : Clock)
    (acc : Exec × List String) (candidate : String) : Exec × List String :=
  let (e, ready) := acc
  if !g.deferredConfigs.contains candidate then (e, ready ++ [candidate])
  else
    let (arrivals, dropped, abandoned) :=
      takeArrivals candidate routes (e.abandonedArrivals.getD candidate ∅)
    let e := { e with
      abandonedArrivals := e.abandonedArrivals.insert candidate abandoned
      journal := e.journal ++ dropped.map fun source => .ignored candidate source }
    if arrivals.isEmpty && !e.pendingDeferred.contains candidate then (e, ready)
    else
      let arrivals := arrivals.map fun source => (source, arrivalOutput source updates[source]?)
      (recordAt g e candidate arrivals now, ready)

/-- Takes every candidate, and forgets the nodes that have nothing left to drop. -/
def takeCandidates (e : Exec) (candidates : List String) (routes : List Route)
    (updates : Dict (Dict Value)) (now : Clock) : Exec × List String :=
  let (e, ready) := candidates.foldl (takeCandidate g routes updates now) (e, [])
  ({ e with abandonedArrivals := e.abandonedArrivals.filter fun _ sources => !sources.isEmpty },
    ready)

/-! ## Releasing joins -/

/-- Releases a waiting join, merging its arrivals into `{join}_fan_in`. -/
def releaseJoin (e : Exec) (rule : ReleaseRule) (join : String) (checkMinimum : Bool) :
    Except GraphError Exec :=
  match e.pendingDeferred[join]? with
  | none => .ok e
  | some tracker =>
    let e := { e with
      pendingDeferred := e.pendingDeferred.erase join
      deferredStartTimes := e.deferredStartTimes.erase join
      abandonedArrivals := e.abandonedArrivals.erase join }
    match g.deferredConfigs[join]? with
    | none => .ok e
    | some config =>
      let required := config.minPredecessors.getD 0
      if checkMinimum && !tracker.isReady && decide (tracker.receivedCount < required) then
        .error (.fanInIncomplete join tracker.receivedCount required)
      else .ok { e with
        state := g.schema.applyUpdate e.state s!"{join}_fan_in" (tracker.merge config.mergeStrategy)
        journal := e.journal ++ [.released join rule tracker] }

/-- The nodes that cannot run before `join`: itself, and any deferred node waiting on it. -/
def blocked (join node : String) : Bool :=
  node == join || g.deferredConfigs.contains node && (g.getUpstreamNodes node).contains join

/-- The nodes that can still run before `join`, `sources` being those that run next. -/
def reachableFor (join : String) (sources : List String) : List String :=
  Reach.reachable g.successors (blocked g join) g.successorMap.keys
    (sources.filter fun node => !blocked g join node)

/-- Whether a predecessor that has not arrived can still run. -/
def stillExpected (tracker : FanInTracker) (reachable : List String) : Bool :=
  tracker.pendingSources.any reachable.contains

/-- Checks one waiting join: it is to be released when nothing it expects can still run, and it is
released at once when its timeout has expired with enough arrivals. -/
def checkJoin (inFlight waiting : List String) (now : Clock)
    (acc : Exec × List String × List String) (join : String) :
    Except GraphError (Exec × List String × List String) := do
  let (e, ready, released) := acc
  let some tracker := e.pendingDeferred[join]? | return acc
  let reachable := reachableFor g join (ready ++ inFlight ++ waiting)
  if !stillExpected tracker reachable then return (e, ready, released ++ [join])
  let some config := g.deferredConfigs[join]? | return acc
  let some timeout := config.fanInTimeout | return acc
  if now.instant - e.deferredStartTimes.getD join now.instant < timeout then return acc
  if tracker.receivedCount < max (config.minPredecessors.getD 1) 1 then
    throw (.fanInTimedOut join tracker.receivedCount tracker.expectedCount)
  let abandoned := Names.ofList (tracker.pendingSources.filter reachable.contains)
  let e ← releaseJoin g e .timeout join false
  let e := if abandoned.isEmpty then e
    else { e with abandonedArrivals := e.abandonedArrivals.insert join abandoned }
  return (e, ready ++ [join], released)

def releaseInto (rule : ReleaseRule) (acc : Exec × List String) (join : String) :
    Except GraphError (Exec × List String) := do
  let e ← releaseJoin g acc.1 rule join true
  return (e, acc.2 ++ [join])

/-- Releases every waiting join when nothing else can run. -/
def releaseStalled (e : Exec) (ready inFlight : List String) :
    Except GraphError (Exec × List String) :=
  if ready.isEmpty && inFlight.isEmpty then
    e.pendingDeferred.keys.foldlM (releaseInto g .stall) (e, ready)
  else .ok (e, ready)

/-- Holds back the candidates that still wait for a predecessor. -/
def filterDeferredNodes (e : Exec) (candidates : List String) (routes : List Route)
    (updates : Dict (Dict Value)) (inFlight : List String) (now : Clock) :
    Except GraphError (Exec × List String) := do
  let (e, ready) := takeCandidates g e candidates routes updates now
  if e.pendingDeferred.isEmpty then return (e, ready)
  let waiting := e.pendingDeferred.keys
  let (e, ready, released) ← waiting.foldlM (checkJoin g inFlight waiting now) (e, ready, [])
  let (e, ready) ← released.foldlM (releaseInto g .reachability) (e, ready)
  releaseStalled g e ready inFlight

/-- The next frontier of a finished super-step. `inFlight` names the nodes that run again. -/
def advanceFrontier (e : Exec) (result : SuperStepResult) (inFlight : List String) (now : Clock) :
    Except GraphError (Exec × List String) := do
  let (candidates, routes) ← nextFrontier g e result.executedNodes result.goto
  filterDeferredNodes g e candidates routes result.updates inFlight now

/-- Starts to wait at a join that is an entry node. -/
def awaitEntry (now : Clock) (e : Exec) (join : String) : Exec :=
  { e with
    pendingDeferred := e.pendingDeferred.insert join (.new (g.getUpstreamNodes join))
    deferredStartTimes := e.deferredStartTimes.insert join now.instant }

/-- The nodes a run starts with. -/
def entryFrontier (e : Exec) (now : Clock) : Except GraphError (Exec × List String) := do
  let isJoin node := g.deferredConfigs.contains node && !(g.getUpstreamNodes node).isEmpty
  let joins := g.getEntryNodes.filter isJoin
  let ready := g.getEntryNodes.filter fun node => !isJoin node
  if joins.isEmpty then return (e, ready)
  let e := joins.foldl (awaitEntry g now) e
  let (e, released) ← filterDeferredNodes g e [] [] ∅ ready now
  return (e, ready ++ released)

/-! ## After a super-step -/

/-- Keeps only the child-ledger entries of nodes that will run this step again. -/
def settleChildLedger (e : Exec) (rerun : List String) : Exec :=
  let kept := rerun.map fun node => ChildInvoker.activationPrefix node e.step
  { e with
    childLedger := e.childLedger.filter fun path _ =>
      kept.any fun start => start.toList.isPrefixOf path.toList }

/-- A gate answered earlier re-arms once its node has run. -/
def rearmGate (e : Exec) (executed : List String) : Exec :=
  if e.clearedInterrupt.any executed.contains then { e with clearedInterrupt := none } else e

def completeStep (e : Exec) (result : SuperStepResult) (now : Clock) : Except GraphError Exec := do
  let e := e.rearmGate result.executedNodes
  let (e, frontier) ← advanceFrontier g e result [] now
  let e := { e with pendingNodes := frontier }.settleChildLedger []
  return { e with
    pausedNodes := e.pausedNodes.filter fun node => !result.executedNodes.contains node
    step := e.step + 1 }

def pauseFrontier (e : Exec) (result : SuperStepResult) (now : Clock) : Except GraphError Exec :=
  match result.interrupts with
  | [] => .ok e
  -- The gated node has not run.
  | (_, .before node) :: _ => .ok { e with clearedInterrupt := some node }
  -- The gated node has applied its updates.
  | (_, .after _) :: _ => do
    let (e, frontier) ← advanceFrontier g e result [] now
    let e := { e with pendingNodes := frontier }.settleChildLedger []
    return e.rearmGate result.executedNodes
  -- The nodes that paused run again.
  | (_, .dynamic ..) :: _ => do
    let paused := e.pendingNodes.filter fun node => !result.executedNodes.contains node
    let (e, frontier) ← advanceFrontier g e result paused now
    let e := e.settleChildLedger paused
    let e := { e with
      pausedNodes := Names.ofList paused
      pendingNodes := paused.foldl pushName frontier }
    return e.rearmGate result.executedNodes

end Exec

end Adk
