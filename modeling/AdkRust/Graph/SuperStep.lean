import AdkRust.Graph.Frontier

/-!
# A super-step

`execute_super_step` in three parts (`executor.rs`): the plan (`plan`, which answers nodes from
pending writes and from the node cache), the dispatch of the nodes that are left (`toDispatch`), and
what becomes of their outputs (`collectSuperStep`). `SuperStepIn` puts them together: the step as a
relation, with the order in which the nodes' futures resolve left open.

What the node cache answers is a parameter of the step; the default build has no node cache. The
children a node invoked have recorded their outputs in the child ledger by the time the outputs are
collected.
-/

namespace Adk

/-- A step while its outputs are collected. -/
structure Collected where
  exec : Exec
  result : SuperStepResult := {}
  /-- Each node's updates, applied at the end of the step. -/
  allUpdates : List (String × Dict Value) := []
  /-- Each successful node's output, kept as a pending write if the step fails. -/
  stepWrites : Dict PendingWrite := ∅
  interrupts : List (String × Interrupt) := []
  failure : Option GraphError := none

namespace Collected

def addEvents (c : Collected) (events : List StreamEvent) : Collected :=
  { c with result := { c.result with events := c.result.events ++ events } }

def finish (c : Collected) (node : String) (write : PendingWrite) : Collected :=
  { c with
    exec := { c.exec with gotoParent := write.gotoParent.or c.exec.gotoParent }
    result := { c.result with
      executedNodes := c.result.executedNodes ++ [node]
      goto := match write.goto with
        | some targets => c.result.goto.insert node targets
        | none => c.result.goto
      updates := c.result.updates.insert node write.updates }
    allUpdates := c.allUpdates ++ [(node, write.updates)]
    stepWrites := c.stepWrites.insert node write }

def describe (node : String) : GraphError → GraphError
  | .agentFailed failed source =>
    .agentFailed (if failed = node then failed else s!"{node}.{failed}") source
  | .nodeExecutionFailed failed message =>
    if failed = node then .nodeExecutionFailed failed message
    else .nodeExecutionFailed node (.ofError (.nodeExecutionFailed failed message))
  | .nodeTimedOut failed elapsed =>
    if failed = node then .nodeTimedOut failed elapsed
    else .nodeExecutionFailed node (.ofError (.nodeTimedOut failed elapsed))
  | error => .nodeExecutionFailed node (.ofError error)

def fail (c : Collected) (node : String) (error : GraphError) : Collected :=
  { c with failure := c.failure.or (some (describe node error)) }

end Collected

namespace Exec

variable (g : CompiledGraph) (config : ExecutionConfig)

def nodeContext (e : Exec) (node : String) : NodeContext where
  state := e.state
  config := config
  step := e.step
  parentSchema := g.schema
  children := {
    ledger := e.childLedger
    activation := ChildInvoker.activationPrefix node e.step }
  -- Only a node resuming its own pause gets an answer.
  resumeValue := if e.pausedNodes.contains node then config.resumeValues[node]? else none

/-- Rejects an update of a channel the schema does not declare, when the graph asks for it. -/
def ensureChannelsDeclared (node : String) (keys : List String) : Except GraphError Unit :=
  if !g.strictChannels then .ok ()
  else
    match g.schema.firstUndeclared keys with
    | some channel => .error (.undeclaredChannel node channel)
    | none => .ok ()

/-! ## The plan -/

def answerPending (acc : Collected × List String) (node : String) : Collected × List String :=
  match acc.1.exec.pendingWrites[node]? with
  | some write => (acc.1.finish node write, acc.2)
  | none => (acc.1, acc.2 ++ [node])

/-- Answers a node from the cache, or leaves it to run. A cached value is the map of the node's
updates; anything else is unusable. -/
def answerCached (cached : Dict Value) (acc : Collected × List String) (node : String) :
    Collected × List String :=
  match cached[node]? with
  | some (.object updates) =>
    ((acc.1.addEvents [.nodeEnd node acc.1.exec.step]).finish node
      { updates := Dict.ofList updates }, acc.2)
  | _ => (acc.1, acc.2 ++ [node])

/-- The step before anything runs, and the nodes that are to run, sorted. -/
def plan (cached : Dict Value) (e : Exec) : Collected × List String :=
  let (c, toRun) := e.pendingNodes.foldl answerPending ({ exec := e }, [])
  let (c, toRun) := toRun.foldl (answerCached cached) (c, [])
  (c, toRun.insertionSort (· ≤ ·))

/-! ## The dispatch -/

/-- What the future of a node captures. -/
def activation (e : Exec) (name : String) (node : Node) : Activation where
  name := name
  node := node
  ctx := nodeContext g config e name
  timeout := g.timeoutPolicyFor name
  retry := g.retryPolicyFor name
  spent := e.attempts.getD name 0
  recoverable := (g.errorHandlerFor name).isSome

/-- The futures of the step. -/
def toDispatch (cached : Dict Value) (e : Exec) : List Activation :=
  (plan cached e).2.filterMap fun name => g.nodes[name]?.map (activation g config e name)

/-- The bound on the futures in flight. -/
def concurrency (cached : Dict Value) (e : Exec) : Nat :=
  let count := (plan cached e).2.length
  max ((g.maxConcurrency.map (min · count)).getD count) 1

/-! ## The outputs -/

/-- Collects the output of a node. An error is that of an error handler, which ends the step with
the executor as it is then. -/
def collectOutput (c : Collected) (output : Output) : Except (Exec × GraphError) Collected :=
  match output.result with
  -- Not started, because the step had already failed.
  | none => .ok c
  | some (.ok out) =>
    let c := { c with exec := { c.exec with attempts := c.exec.attempts.erase output.name } }
    let c := c.addEvents [.nodeEnd output.name c.exec.step]
    match out.interrupt with
    | some interrupt => .ok { c with interrupts := c.interrupts ++ [(output.name, interrupt)] }
    | none => .ok ((c.addEvents out.events).finish output.name
        { updates := out.updates, goto := out.goto, gotoParent := out.gotoParent })
  | some (.error error) =>
    let c := { c with
      exec := { c.exec with attempts := c.exec.attempts.insert output.name output.attempts } }
    let c := c.addEvents [.nodeEnd output.name c.exec.step]
    match g.errorHandlerFor output.name with
    | none => .ok (c.fail output.name error)
    | some handler =>
      if error.isInterrupted then .ok (c.fail output.name error)
      else
        match handler output.name error c.exec.state with
        | .error error => .error (c.exec, error)
        | .ok recovery => .ok (c.finish output.name
            { updates := recovery.updates, goto := recovery.goto })

def applyNodeUpdates (e : Exec) (entry : String × Dict Value) : Except (Exec × GraphError) Exec :=
  match ensureChannelsDeclared g entry.1 entry.2.keys with
  | .error error => .error (e, error)
  | .ok () => .ok { e with state := g.schema.applyUpdates e.state entry.2.toList }

/-- Ends the step: a failed step keeps what finished as pending writes, and any other applies the
updates in node-name order. -/
def finishStep (c : Collected) : Exec × Except GraphError SuperStepResult :=
  match c.failure with
  | some error => ({ c.exec with pendingWrites := c.stepWrites }, .error error)
  | none =>
    let ordered := c.allUpdates.insertionSort fun a b => a.1 ≤ b.1
    match ordered.foldlM (applyNodeUpdates g) { c.exec with pendingWrites := ∅ } with
    | .error (e, error) => (e, .error error)
    | .ok e =>
      let interrupts :=
        if c.interrupts.isEmpty then (gateAfter g c.result.executedNodes).toList else c.interrupts
      (e, .ok { c.result with interrupts })

/-- What becomes of the outputs, sorted by node name, and of the children recorded. -/
def collectSuperStep (cached : Dict Value) (outputs : List Output)
    (recorded : List (String × Value)) (e : Exec) : Exec × Except GraphError SuperStepResult :=
  let c := (plan cached e).1
  let ledger := recorded.foldl (fun ledger entry => ledger.insert entry.1 entry.2) e.childLedger
  let c := { c with exec := { c.exec with childLedger := ledger } }
  match (outputs.insertionSort fun a b => a.name ≤ b.name).foldlM (collectOutput g) c with
  | .error (e, error) => (e, .error error)
  | .ok c => finishStep g c

/-- **Execute one super-step**: the executions of the nodes meet the world as in `env`, and the
futures resolve to `outputs` in this order. -/
def SuperStepIn (cached : Dict Value) (env : Attempts) (recorded : List (String × Value)) (e : Exec)
    (outputs : List Output) (outcome : Exec × Except GraphError SuperStepResult) : Prop :=
  match gateBefore g e e.pendingNodes with
  | some gate => outputs = [] ∧ outcome = (e, .ok { interrupts := [gate] })
  | none =>
    DispatchedIn (concurrency g cached e) env (toDispatch g config cached e) outputs ∧
      outcome = collectSuperStep g cached outputs recorded e

end Exec

end Adk
