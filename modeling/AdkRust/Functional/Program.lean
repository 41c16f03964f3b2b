import AdkRust.Functional.Log
import AdkRust.Functional.TaskId
import AdkRust.Graph.Checkpoint

/-!
# Functional workflows

A workflow is a deterministic function that calls `#[task]` functions, interrupts, and reads and
writes the state of its `TaskContext` (`functional/context.rs`, and the wrappers that the macros
`#[entrypoint]` and `#[task]` generate). A run of it is the steps of a `Machine`.

* `Program`: a workflow, by what it does next.
* `TaskContext.answerTo`, `TaskContext.cachedResult`: what a run resumed takes from its log.
* `Machine.step`: one step of a run, with the operation that it was.
* `invoke`, `Machine.finish`: the checkpoints around the workflow; `resume` starts from one.

The run is the only writer of its thread and its checkpoints have ids of their own, so that every
save is taken: `saved` lists them.
-/

namespace Adk

/-- The attributes of a `#[task]`. -/
structure TaskAttrs where
  name : String
  maxAttempts : Nat := 1
  rerunOnResume : Bool := false
deriving DecidableEq

/-- A workflow, or the body of a task: what it does next, given the results so far. -/
inductive Program where
  | done (result : Except GraphError Value)
  | get (key : String) (next : Option Value → Program)
  | set (key : String) (value : Value) (next : Program)
  | call (task : TaskAttrs) (argHash : Option UInt64) (body : Program)
    (next : Except GraphError Value → Program)
  /-- Interrupts; `mismatch` says why a value does not deserialize into the type that is expected. -/
  | interrupt (message : String) (mismatch : Value → Option String)
    (next : Except GraphError Value → Program)

/-- Whether an error stops a task rather than failing it. -/
def GraphError.haltsTask : GraphError → Bool
  | .suspended .. | .cancelled | .interrupted _ => true
  | _ => false

/-- What a run takes from outside. -/
structure Environment where
  /-- The id of the checkpoint of a version, and when it is built. -/
  checkpointId : Nat → String
  createdAt : Nat → Utc
  /-- The time that a change of the log after a version notes. -/
  now : Nat → String
  /-- The text of an error. -/
  text : GraphError → String

structure TaskContext where
  threadId : String
  state : State
  log : ExecutionLog := {}
  resumeValues : Dict Value := ∅
  interruptOrdinal : Nat := 0
  taskCallCounters : Dict Nat := ∅
  /-- The thread's newest version. -/
  headVersion : Nat := 0
  /-- What the run has saved, oldest first. -/
  saved : List Checkpoint := []

namespace TaskContext

variable (env : Environment) (ctx : TaskContext)

/-- Saves a checkpoint of the state and the log as the thread's next version. -/
def saveCheckpoint (metadata : List (String × Value)) : TaskContext :=
  let version := ctx.headVersion + 1
  let checkpoint : Checkpoint := {
    threadId := ctx.threadId
    checkpointId := env.checkpointId version
    state := ctx.state
    step := ctx.log.currentStep
    pendingNodes := []
    metadata := (Dict.ofList metadata).insert "execution_log" ctx.log.toValue
    createdAt := env.createdAt version
    version }
  { ctx with headVersion := version, saved := ctx.saved ++ [checkpoint] }

/-- How many calls of a task the run has made. -/
def callsOf (name : String) : Nat := ctx.taskCallCounters.getD name 0

def nextTaskCall (task : TaskAttrs) (argHash : Option UInt64) : Call × TaskContext :=
  ({ name := task.name, ordinal := ctx.callsOf task.name, argHash },
    { ctx with
      taskCallCounters := ctx.taskCallCounters.insert task.name (ctx.callsOf task.name + 1) })

/-- The recorded result of a call; the wrapper of a task that reruns on resume does not ask for it. -/
def cachedResult (results : String → Option Value) (task : TaskAttrs) (call : Call) : Option Value :=
  if task.rerunOnResume then none else results call.key

def recordCompletion (call : Call) (result : Value) : TaskContext :=
  let log := (ctx.log.recordCompletion (env.now ctx.headVersion) call.key result).advanceStep
  { ctx with log }.saveCheckpoint env [("completed_task", .string call.key)]

def recordFailure (call : Call) (error : GraphError) : TaskContext :=
  let log := ctx.log.recordFailure (env.now ctx.headVersion) call.key (env.text error)
  { ctx with log }.saveCheckpoint env
    [("failed_task", .string call.key), ("error", .string (env.text error))]

def recordInterruptAnswer (continuationKey : String) (value : Value) : TaskContext :=
  let log := ctx.log.recordInterruptAnswer (env.now ctx.headVersion) continuationKey value
  { ctx with log }.saveCheckpoint env [("answered_interrupt", .string continuationKey)]

/-- Checkpoints an interrupt that has no answer, and marks it in the log. -/
def suspend (continuationKey message : String) : TaskContext :=
  let ctx := ctx.saveCheckpoint env
    [("interrupt_message", .string message), ("continuation_key", .string continuationKey)]
  let record : TaskRecord :=
    { status := .interrupted, startedAt := env.now ctx.headVersion, attempt := 1 }
  { ctx with log := { ctx.log with tasks := ctx.log.tasks.insertIfNew "__interrupt__" record } }

/-- The error of an answer that does not deserialize into the type that is expected. -/
def typeMismatch (continuationKey message : String) : GraphError :=
  .other (s!"interrupt resume type mismatch for task '{continuationKey}': the value supplied for " ++
    s!"{continuationKey} does not deserialize into the type this interrupt expects: {message}")

/-- The answer to an interrupt: one that an earlier run recorded wins, then a value supplied for it;
without either the run is suspended. -/
def answerTo (results : String → Option Value) (resumeValues : Dict Value)
    (continuationKey message : String) (mismatch : Value → Option String) : Except GraphError Value :=
  match (results continuationKey).or resumeValues[continuationKey]? with
  | none => .error (.suspended continuationKey message)
  | some value =>
    match mismatch value with
    | none => .ok value
    | some reason => .error (typeMismatch continuationKey reason)

/-- Interrupts. A supplied value that answers is recorded; an interrupt without one is checkpointed. -/
def interrupt (message : String) (mismatch : Value → Option String) :
    Except GraphError Value × TaskContext :=
  let ctx := { ctx with interruptOrdinal := ctx.interruptOrdinal + 1 }
  let key := interruptKey ctx.interruptOrdinal
  let answer := answerTo ctx.log.interruptAnswer ctx.resumeValues key message mismatch
  match ctx.log.interruptAnswer key, ctx.resumeValues[key]? with
  | some _, _ => (answer, ctx)
  | none, some supplied =>
    (answer, if (mismatch supplied).isNone then ctx.recordInterruptAnswer env key supplied else ctx)
  | none, none => (answer, ctx.suspend env key message)

end TaskContext

/-- A task call in progress. -/
structure Frame where
  call : Call
  task : TaskAttrs
  body : Program
  next : Except GraphError Value → Program
  /-- How many attempts have started. -/
  attempts : Nat

/-- An operation of a run. -/
inductive Op where
  | get (key : String) (value : Option Value)
  | set (key : String) (value : Value)
  /-- A call that the log holds the result of: its body does not run. -/
  | skip (call : Call) (result : Value)
  | enter (task : TaskAttrs) (call : Call)
  | retry (call : Call)
  /-- A call completes; on a resume it is skipped. -/
  | complete (call : Call) (result : Value)
  /-- A call ends that on a resume runs again: it failed, was halted, or its task reruns. -/
  | leave (call : Call) (result : Except GraphError Value)
  /-- The `ordinal`-th interrupt. -/
  | ask (ordinal : Nat) (answer : Except GraphError Value)

/-- A run of a workflow. -/
structure Machine where
  ctx : TaskContext
  program : Program
  /-- The calls in progress, innermost first. -/
  frames : List Frame := []

namespace Machine

/-- One step of a run, and the operation that it was; `none` once the workflow has returned. -/
def step (env : Environment) (m : Machine) : Option (Op × Machine) :=
  match m.program, m.frames with
  | .done _, [] => none
  | .done (.ok value), f :: frames =>
    let ctx := m.ctx.recordCompletion env f.call value
    let op := if f.task.rerunOnResume then .leave f.call (.ok value) else .complete f.call value
    some (op, { ctx, program := f.next (.ok value), frames })
  | .done (.error error), f :: frames =>
    if error.haltsTask then
      some (.leave f.call (.error error), { m with program := f.next (.error error), frames })
    else if f.attempts < f.task.maxAttempts then
      some (.retry f.call,
        { m with program := f.body, frames := { f with attempts := f.attempts + 1 } :: frames })
    else
      let ctx := m.ctx.recordFailure env f.call error
      some (.leave f.call (.error error), { ctx, program := f.next (.error error), frames })
  | .get key next, frames =>
    let value := m.ctx.state[key]?
    some (.get key value, { m with program := next value, frames })
  | .set key value next, frames =>
    let ctx := { m.ctx with state := m.ctx.state.insert key value }
    some (.set key value, { ctx, program := next, frames })
  | .call task argHash body next, frames =>
    let (call, ctx) := m.ctx.nextTaskCall task argHash
    match TaskContext.cachedResult ctx.log.getResult task call with
    | some result => some (.skip call result, { ctx, program := next (.ok result), frames })
    | none =>
      let frame : Frame := { call, task, body, next, attempts := 1 }
      some (.enter task call, { ctx, program := body, frames := frame :: frames })
  | .interrupt message mismatch next, frames =>
    let (answer, ctx) := m.ctx.interrupt env message mismatch
    some (.ask ctx.interruptOrdinal answer, { ctx, program := next answer, frames })

/-- The checkpoint after the workflow has returned. A cancelled run writes none. -/
def finish (env : Environment) (m : Machine) : TaskContext :=
  match m.program with
  | .done (.ok _) => m.ctx.saveCheckpoint env [("phase", .string "completed")]
  | .done (.error .cancelled) => m.ctx
  | .done (.error error) =>
    m.ctx.saveCheckpoint env [("phase", .string "failed"), ("error", .string (env.text error))]
  | _ => m.ctx

end Machine

/-- The start of a run: the checkpoint before it. -/
def invoke (env : Environment) (threadId : String) (state : State) (log : ExecutionLog)
    (resumeValues : Dict Value) (headVersion : Nat) (workflow : Program) : Machine :=
  let ctx : TaskContext := { threadId, state, log, resumeValues, headVersion }
  { ctx := ctx.saveCheckpoint env [("phase", .string "pre_execution")], program := workflow }

def loadResumePoint (cp : Checkpoint) : Option (State × ExecutionLog) :=
  match cp.metadata["execution_log"]? with
  | none => some (cp.state, {})
  | some value => (ExecutionLog.fromValue value).map fun log => (cp.state, log)

/-- The start of a run resumed from a checkpoint of its thread. -/
def resume (env : Environment) (cp : Checkpoint) (resumeValues : Dict Value) (headVersion : Nat)
    (workflow : Program) : Option Machine :=
  (loadResumePoint cp).map fun (state, log) =>
    invoke env cp.threadId state log resumeValues headVersion workflow

end Adk
