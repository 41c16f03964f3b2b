import AdkRust.Core.Time
import AdkRust.Graph.State

/-!
# Interrupts and errors

* `Interrupt`: why a run pauses (`interrupt.rs`).
* `GraphError`: how a run fails (`error.rs`). An error that wraps another one by its text holds the
  wrapped error in place of the rendered text.
-/

namespace Adk

/-- Why a run pauses. -/
inductive Interrupt where
  /-- A static gate, raised before the node runs. -/
  | before (node : String)
  /-- A static gate, raised after the node ran. -/
  | after (node : String)
  /-- A pause the node asked for itself. -/
  | dynamic (message : String) (data : Option Value)
deriving DecidableEq

/-- The text of an interrupt (its `Display`). -/
def Interrupt.toString : Interrupt → String
  | .before node => s!"Interrupt before '{node}'"
  | .after node => s!"Interrupt after '{node}'"
  | .dynamic message _ => s!"Dynamic interrupt: {message}"

/-- A run that paused, and the checkpoint it can resume from. -/
structure InterruptedExecution where
  threadId : String
  checkpointId : String
  interrupt : Interrupt
  interrupts : List Interrupt
  state : State
  step : Nat

def InterruptedExecution.new (threadId checkpointId : String) (interrupt : Interrupt)
    (state : State) (step : Nat) : InterruptedExecution :=
  { threadId, checkpointId, interrupt, interrupts := [interrupt], state, step }

/-- Every pause of the step; the first one is the one reported. -/
def InterruptedExecution.withInterrupts (self : InterruptedExecution)
    (interrupts : List Interrupt) : InterruptedExecution :=
  match interrupts with
  | [] => self
  | first :: _ => { self with interrupt := first, interrupts }

mutual

/-- How a graph operation fails. -/
inductive GraphError where
  | invalidGraph (reason : String)
  | nodeNotFound (node : String)
  | edgeTargetNotFound (node : String)
  | noEntryPoint
  | recursionLimitExceeded (steps : Nat)
  | interrupted (execution : InterruptedExecution)
  | nodeExecutionFailed (node : String) (message : ErrorText)
  | agentFailed (node : String) (source : String)
  | nodeTimedOut (node : String) (elapsed : Duration)
  | fanInTimedOut (node : String) (received expected : Nat)
  | fanInIncomplete (node : String) (received required : Nat)
  | serializationError (reason : String)
  | checkpointError (reason : String)
  | checkpointConflict (threadId : String) (version head : Nat)
  | undeclaredChannel (node channel : String)
  | subgraphChannelMismatch (subgraph channel side : String)
  | unknownRouteTarget (reason : String)
  | ioError (reason : String)
  | jsonError (reason : String)
  | suspended (continuationKey message : String)
  | cancelled
  | other (message : String)

/-- The text of an error: written out, or that of another error. -/
inductive ErrorText where
  | text (s : String)
  | ofError (e : GraphError)

end

namespace GraphError

def isInterrupted : GraphError → Bool
  | .interrupted _ => true
  | _ => false

def isTimedOut : GraphError → Bool
  | .nodeTimedOut .. => true
  | _ => false

end GraphError

end Adk
