import AdkRust.Graph.Checkpoint

/-!
# Nodes

What a node is given, what it returns, and the retry and timeout policies its executions are under
(`node.rs`, `retry.rs`, `timeout.rs`, `stream.rs`).

A node is an arbitrary program. What it returns depends on its context and on everything else in
the world at the moment it is executed, so `Node` takes that moment besides the context; a
pure node ignores it. Delays and durations of events are real time and are left out.
-/

namespace Adk

structure ExecutionConfig where
  threadId : String
  resumeFrom : Option String := none
  resumeValues : Dict Value := ∅
  recursionLimit : Option Nat := none
  metadata : Dict Value := ∅
  durability : Durability := .sync

/-- The machinery a node invokes other nodes with: the outputs already recorded, keyed by child
path, and the prefix of the paths it records under. -/
structure ChildInvoker where
  ledger : Dict Value
  activation : String

/-- The prefix of every ledger path the activation of `parent` at `step` records. -/
def ChildInvoker.activationPrefix (parent : String) (step : Nat) : String :=
  s!"{parent}@{step}/"

structure NodeContext where
  state : State
  config : ExecutionConfig
  step : Nat
  parentSchema : StateSchema
  children : ChildInvoker
  resumeValue : Option Value := none

/-- What a stream of a run reports. -/
inductive StreamMode where
  | values
  | updates
  | messages
  | custom
  | debug
deriving DecidableEq

/-- How a stream of a run reports what happens. -/
inductive StreamEvent where
  | state (state : State) (step : Nat)
  | updates (node : String) (updates : Dict Value)
  | message (node content : String) (isFinal : Bool)
  | custom (node eventType : String) (data : Value)
  | debug (eventType : String) (data : Value)
  | nodeStart (node : String) (step : Nat)
  | nodeEnd (node : String) (step : Nat)
  | stepComplete (step : Nat) (nodesExecuted : List String)
  | interrupted (node message : String)
  | nodeInterrupt (node message : String) (data : Option Value)
  | resumed (step : Nat) (pendingNodes : List String)
  | done (state : State) (totalSteps : Nat)
  | error (message : String) (node : Option String)
  | routeDispatched (source : String) (targets : List String)

structure NodeOutput where
  updates : Dict Value := ∅
  interrupt : Option Interrupt := none
  events : List StreamEvent := []
  goto : Option (List String) := none
  gotoParent : Option (List String) := none

/-- A moment at which a node is executed. -/
abbrev Moment : Type := Nat

/-- The events `Node::execute_stream` yields by default: those of one `execute`, then its route,
its pause, and its updates. -/
def streamOf (name : String) : Except GraphError NodeOutput → List (Except GraphError StreamEvent)
  | .error e => [.error e]
  | .ok output =>
    output.events.map .ok ++
      (output.goto.map (fun targets => .ok (.routeDispatched name targets))).toList ++
      (output.interrupt.map (fun interrupt =>
        match interrupt with
        | .dynamic message data => .ok (.nodeInterrupt name message data)
        | other => .ok (.nodeInterrupt name other.toString none))).toList ++
      [.ok (.updates name output.updates)]

structure Node where
  name : String
  execute : NodeContext → Moment → Except GraphError NodeOutput
  executeStream : NodeContext → Moment → List (Except GraphError StreamEvent) :=
    fun ctx moment => streamOf name (execute ctx moment)
  validate : Except GraphError Unit := .ok ()
  validateAgainst : StateSchema → Except GraphError Unit := fun _ => .ok ()

/-- Turns a node's failure into state and a route. -/
abbrev NodeErrorHandler : Type := String → GraphError → State → Except GraphError NodeOutput

/-! ## Retries -/

inductive RetryOn where
  | any
  | timeout
  | custom (predicate : GraphError → Bool)

def RetryOn.shouldRetry (self : RetryOn) (error : GraphError) : Bool :=
  if error.isInterrupted then false
  else
    match self with
    | .any => true
    | .timeout => error.isTimedOut
    | .custom predicate => predicate error

structure RetryPolicy where
  maxAttempts : Nat := 10
  retryOn : RetryOn := .any

/-- Whether a node that was attempted `attemptsSoFar` times may be attempted again. -/
def RetryPolicy.allowsAnotherAttempt (self : RetryPolicy) (attemptsSoFar : Nat) : Bool :=
  decide (attemptsSoFar < self.maxAttempts)

/-! ## Timeouts -/

/-- What to do when a node times out. -/
inductive OnTimeout where
  | fail
  | retry (maxAttempts : Nat)
  | skip

structure TimeoutPolicy where
  runTimeout : Option Duration := none
  idleTimeout : Option Duration := none
  onTimeout : OnTimeout := .fail

/-- How one execution of a node meets the world: the moment it happens at, and, when a timeout of
its policy fires first, how many stream items it had yielded by then and how long it had run. -/
structure Attempt where
  moment : Moment
  timedOut : Option (Nat × Duration) := none

def executeOnceWithTimeout (node : Node) (ctx : NodeContext) (attempt : Attempt) :
    Except GraphError NodeOutput :=
  match attempt.timedOut with
  | some (_, elapsed) => .error (.nodeTimedOut node.name elapsed)
  | none => node.execute ctx attempt.moment

/-- Executes a node until it does not time out, at most `retries` times more than once. Returns
the result and the number of executions made so far, `tick` of them before. -/
def retryTimeouts (node : Node) (ctx : NodeContext) (attempts : Nat → Attempt) (tick : Nat) :
    Nat → Except GraphError NodeOutput × Nat
  | 0 => (executeOnceWithTimeout node ctx (attempts tick), tick + 1)
  | retries + 1 =>
    match executeOnceWithTimeout node ctx (attempts tick) with
    | .error (.nodeTimedOut _ _) => retryTimeouts node ctx attempts (tick + 1) retries
    | result => (result, tick + 1)

def executeWithTimeout (node : Node) (ctx : NodeContext) (policy : TimeoutPolicy)
    (attempts : Nat → Attempt) (tick : Nat) : Except GraphError NodeOutput × Nat :=
  if policy.runTimeout.isNone && policy.idleTimeout.isNone then
    (node.execute ctx (attempts tick).moment, tick + 1)
  else
    match policy.onTimeout with
    | .fail => retryTimeouts node ctx attempts tick 0
    | .retry maxAttempts => retryTimeouts node ctx attempts tick (maxAttempts - 1)
    | .skip =>
      match retryTimeouts node ctx attempts tick 0 with
      | (.error (.nodeTimedOut _ _), tick) => (.ok {}, tick)
      | other => other

end Adk
