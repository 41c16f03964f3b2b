import AdkRust.Graph.SuperStep

/-!
# A super-step of a message stream

`StreamMode::Messages` does not call `execute_super_step`: the nodes run one after another in frontier
order, each through `execute_stream`, and each applies its updates before the next one starts
(`executor.rs`, the Messages loop of `run_stream`). `messagesSuperStep` is that loop.
-/

namespace Adk

/-- What the executor has read off a node's stream. The route and the pause of an attempt that timed
out are kept; its events and updates are not. -/
structure Streamed where
  events : List StreamEvent := []
  updates : List (Dict Value) := []
  goto : Option (String × List String) := none
  interrupt : Option Interrupt := none
  /-- The message events forwarded to the caller. -/
  yielded : List StreamEvent := []
  failure : Option GraphError := none
  timedOut : Option Duration := none

namespace Streamed

def item (s : Streamed) (event : StreamEvent) : Streamed :=
  let s := { s with events := s.events ++ [event] }
  match event with
  | .message .. => { s with yielded := s.yielded ++ [event] }
  | .updates _ updates => { s with updates := s.updates ++ [updates] }
  | .routeDispatched source targets => { s with goto := some (source, targets) }
  | .nodeInterrupt _ message data => { s with interrupt := some (.dynamic message data) }
  | _ => s

def consume (s : Streamed) : List (Except GraphError StreamEvent) → Streamed
  | [] => s
  | .ok event :: items => (s.item event).consume items
  | .error error :: _ => { s with failure := some error }

/-- Whether a policy sets a limit on the next item. -/
def limits (policy : Option TimeoutPolicy) : Bool :=
  policy.any fun policy => policy.runTimeout.isSome || policy.idleTimeout.isSome

def attempt (s : Streamed) (node : Node) (ctx : NodeContext) (policy : Option TimeoutPolicy)
    (attempt : Attempt) : Streamed :=
  let s := { s with events := [], updates := [], timedOut := none }
  let items := node.executeStream ctx attempt.moment
  match limits policy, attempt.timedOut with
  | true, some (count, elapsed) =>
    if items.length < count then s.consume items
    else
      let s := s.consume (items.take count)
      if s.failure.isSome then s else { s with timedOut := some elapsed }
  | _, _ => s.consume items

/-- Streams a node until an attempt does not time out, with at most `retries` more attempts. -/
def attempts (node : Node) (ctx : NodeContext) (policy : Option TimeoutPolicy)
    (env : Nat → Attempt) : Nat → Nat → Streamed → Streamed
  | 0, tick, s => s.attempt node ctx policy (env tick)
  | retries + 1, tick, s =>
    let s := s.attempt node ctx policy (env tick)
    if s.failure.isNone && s.timedOut.isSome then attempts node ctx policy env retries (tick + 1) s
    else s

def node (node : Node) (ctx : NodeContext) (policy : Option TimeoutPolicy)
    (env : Nat → Attempt) : Streamed :=
  let retries := match policy.map TimeoutPolicy.onTimeout with
    | some (.retry maxAttempts) => maxAttempts - 1
    | _ => 0
  attempts node ctx policy env retries 0 {}

end Streamed

/-- A step of a message stream while its nodes run. -/
structure Messages where
  exec : Exec
  result : SuperStepResult := {}
  stepWrites : Dict PendingWrite := ∅
  yielded : List StreamEvent := []

/-- How a step of a message stream fails. -/
inductive MessagesFailure where
  /-- A node failed; the failed step is checkpointed. -/
  | failed (error : GraphError)
  /-- An undeclared channel ends the stream at once. -/
  | aborted (error : GraphError)

def MessagesFailure.error : MessagesFailure → GraphError
  | .failed error => error
  | .aborted error => error

namespace Exec

variable (g : CompiledGraph) (config : ExecutionConfig)

/-- A node that finished in an earlier attempt at the step applies its pending write. -/
def streamPending (m : Messages) (node : String) (write : PendingWrite) : Messages :=
  { m with
    exec := { m.exec with
      gotoParent := write.gotoParent.or m.exec.gotoParent
      state := g.schema.applyUpdates m.exec.state write.updates.toList }
    result := { m.result with
      executedNodes := m.result.executedNodes ++ [node]
      goto := match write.goto with
        | some targets => m.result.goto.insert node targets
        | none => m.result.goto
      updates := m.result.updates.insert node write.updates }
    stepWrites := m.stepWrites.insert node write }

/-- The executor a failed step leaves: the state the step started from, and what finished as pending
writes. -/
def failMessages (start : State) (m : Messages) : Messages :=
  { m with exec := { m.exec with state := start, pendingWrites := m.stepWrites } }

def applyStreamed (node : String) (m : Messages) (updates : Dict Value) :
    Except (Messages × MessagesFailure) Messages :=
  match ensureChannelsDeclared g node updates.keys with
  | .error error => .error (m, .aborted error)
  | .ok () => .ok { m with
      exec := { m.exec with state := g.schema.applyUpdates m.exec.state updates.toList } }

/-- All the updates of a node as one map. -/
def mergeStreamed (updates : List (Dict Value)) : Dict Value :=
  updates.foldl (fun merged updates =>
    updates.toList.foldl (fun merged entry => merged.insert entry.1 entry.2) merged) ∅

def endStreamed (m : Messages) (name : String) (s : Streamed) :
    Except (Messages × MessagesFailure) Messages :=
  let m := { m with result := { m.result with
    events := m.result.events ++ [StreamEvent.nodeEnd name m.exec.step] ++ s.events } }
  match s.interrupt with
  | some interrupt =>
    .ok { m with result := { m.result with
      interrupts := m.result.interrupts ++ [(name, interrupt)] } }
  | none =>
    let write : PendingWrite := { updates := mergeStreamed s.updates, goto := s.goto.map (·.2) }
    let m := { m with
      result := { m.result with
        executedNodes := m.result.executedNodes ++ [name]
        goto := match s.goto with
          | some (source, targets) => m.result.goto.insert source targets
          | none => m.result.goto
        updates := m.result.updates.insert name write.updates }
      stepWrites := m.stepWrites.insert name write }
    s.updates.foldlM (applyStreamed g name) m

/-- Runs one node of the step. -/
def streamNode (env : Attempts) (start : State) (m : Messages) (name : String) :
    Except (Messages × MessagesFailure) Messages :=
  match m.exec.pendingWrites[name]? with
  | some write => .ok (streamPending g m name write)
  | none =>
    match g.nodes[name]? with
    | none => .ok m
    | some node =>
      let policy := g.timeoutPolicyFor name
      let s := Streamed.node node (nodeContext g config m.exec name) policy (env name)
      let m := { m with yielded := m.yielded ++ s.yielded }
      match s.failure, s.timedOut, policy.map TimeoutPolicy.onTimeout with
      | some error, _, _ => .error (failMessages start m, .failed error)
      | none, none, _ => endStreamed g m name s
      | none, some _, some OnTimeout.skip => endStreamed g m name { s with updates := [] }
      | none, some elapsed, _ => .error (failMessages start m, .failed (.nodeTimedOut name elapsed))

/-- **Execute one super-step of a message stream.** Returns the events forwarded, the executor, and
the result. -/
def messagesSuperStep (env : Attempts) (recorded : List (String × Value)) (e : Exec) :
    List StreamEvent × Exec × Except MessagesFailure SuperStepResult :=
  match gateBefore g e e.pendingNodes with
  -- A gate stops the step before any node runs.
  | some gate => ([], e, .ok { interrupts := [gate] })
  | none =>
    let ledger := recorded.foldl (fun ledger entry => ledger.insert entry.1 entry.2) e.childLedger
    match e.pendingNodes.foldlM (streamNode g config env e.state) { exec := e } with
    | .error (m, failure) => (m.yielded, { m.exec with childLedger := ledger }, .error failure)
    | .ok m =>
      let interrupts := m.result.interrupts.insertionSort fun a b => a.1 ≤ b.1
      let interrupts :=
        if interrupts.isEmpty then (gateAfter g m.result.executedNodes).toList else interrupts
      (m.yielded ++ m.result.events.filter fun event =>
          match event with
          | .nodeEnd .. => true
          | _ => false,
        { m.exec with childLedger := ledger }, .ok { m.result with interrupts })

end Exec

end Adk
