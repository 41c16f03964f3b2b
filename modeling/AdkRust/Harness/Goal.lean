import AdkRust.Harness.Mode
import AdkRust.Lib.Text
import AdkRust.Runs.Store

/-!
# Harness goals

A goal iterates until the operator's command exits 0 or its iterations run out (`goal.rs`). Starting a goal writes
its record, and then enqueues a durable run or runs the first turn; a check reads the record, runs the command and
writes the record back.

* `GoalSpec.validate`, `GoalRecord.start`: a goal that starts.
* `Harness.startGoal`, `Harness.check`: the two calls, over `GoalOp`.
* `GoalWorld.laws`: how the goal store and the rest answer.
* `start_local`, `check_local`: what each call stores.
-/

namespace Adk

open ProcPool

/-! ## Goals -/

/-- A loop-until goal. -/
structure GoalSpec where
  /-- What to achieve. -/
  goal : String
  /-- The operator's check command; exit 0 means done. -/
  until_ : String
  maxIterations : Nat
  checkTimeout : Duration
deriving DecidableEq

def invalidGoal (message : String) : AdkError where
  component := .agent
  category := .invalidInput
  code := "harness.goal.invalid"
  message

namespace GoalSpec

/-- The message that starts the goal's run. -/
def prompt (spec : GoalSpec) : String :=
  s!"Goal: {spec.goal}\n\nWork toward the goal. After each of your turns the harness runs " ++
    s!"`{spec.until_}`; the goal is reached when it exits 0, and you get at most {spec.maxIterations} " ++
    "iterations. Read the check's output from the previous iteration before you continue."

/-- Checks that a goal is complete. -/
def validate (spec : GoalSpec) : Except AdkError Unit :=
  if isBlank spec.goal then .error (invalidGoal "a goal needs a goal")
  else if isBlank spec.until_ then .error (invalidGoal "a goal needs an until command")
  else if spec.maxIterations = 0 then .error (invalidGoal "a goal needs at least one iteration")
  else if spec.checkTimeout = 0 then .error (invalidGoal "a goal's check needs a timeout")
  else .ok ()

theorem validate_pos {spec : GoalSpec} (h : spec.validate = .ok ()) : 0 < spec.maxIterations := by
  unfold validate at h
  split at h
  · cases h
  split at h
  · cases h
  split at h
  · cases h
  next hzero => exact Nat.pos_of_ne_zero hzero

end GoalSpec

inductive GoalStatus where
  | running
  /-- The check passed. -/
  | done
  /-- The iteration cap was reached. -/
  | exhausted
  | cancelled
deriving DecidableEq

/-- The name of a status on the wire. -/
def GoalStatus.asStr : GoalStatus → String
  | .running => "running"
  | .done => "done"
  | .exhausted => "exhausted"
  | .cancelled => "cancelled"

/-- The name of a status in a text (its `Debug`). -/
def GoalStatus.debug : GoalStatus → String
  | .running => "Running"
  | .done => "Done"
  | .exhausted => "Exhausted"
  | .cancelled => "Cancelled"

structure GoalState where
  goal : String
  until_ : String
  iteration : Nat
  maxIterations : Nat
  status : GoalStatus
  lastCheck : Option Int
  updatedAt : Utc
deriving DecidableEq

/-- A session's goal as the store keeps it. -/
structure GoalRecord where
  spec : GoalSpec
  state : GoalState
  /-- Identifies this start of the goal. -/
  runId : String
deriving DecidableEq

def GoalRecord.start (spec : GoalSpec) (now : Utc) (runId : String) : GoalRecord where
  spec
  state := {
    goal := spec.goal
    until_ := spec.until_
    iteration := 0
    maxIterations := spec.maxIterations
    status := .running
    lastCheck := none
    updatedAt := now }
  runId

/-- An event of the harness or of a check, with what it carries of a goal. -/
structure GoalEvent where
  author : String
  branch : String := ""
  content : Option String := none
  /-- Whether the loop ends. -/
  escalate : Bool := false
  /-- What it writes under `harness:goal`. -/
  goal : Option GoalState := none
  /-- The durable run it names, under `harness.goal.run_id`. -/
  runId : Option String := none

/-- What a start returns: the stream of the goal's first turn, or one event. -/
inductive GoalStream where
  | turn
  | event (event : GoalEvent)

/-! ## The calls -/

/-- The accesses of a start and of a check. -/
inductive GoalOp where
  /-- Whether governance allows work. -/
  | checkGovernance
  /-- The session's mode. -/
  | mode
  | get
  | set (record : GoalRecord)
  | now
  | newRunId
  | appendEvent (event : GoalEvent)
  | enqueue (run : NewRun)
  /-- The goal's first turn. -/
  | run (prompt : String)
  /-- Writes an audit record. -/
  | audit (action : String) (args : Option Value) (ext : Value)
  /-- Runs a command. -/
  | execute (callId : String) (args : Value) (timeout : Duration)
  /-- How long the command took, in milliseconds. -/
  | elapsed

abbrev GoalOp.Ret : GoalOp → Type
  | .checkGovernance => Except AdkError Unit
  | .mode => Except AdkError HarnessMode
  | .get => Except AdkError (Option GoalRecord)
  | .set _ => Except AdkError Unit
  | .now => Utc
  | .newRunId => String
  | .appendEvent _ => Except AdkError Unit
  | .enqueue _ => Except AdkError Enqueued
  | .run _ => Except AdkError Unit
  | .audit .. => Except AdkError Unit
  | .execute .. => Except AdkError Value
  | .elapsed => Nat

abbrev GoalProg : Type → Type := ExceptT AdkError (Prog GoalOp GoalOp.Ret)

def GoalProg.perform (op : GoalOp) : GoalProg op.Ret := ExceptT.lift (Prog.perform op)

/-- The result of an access that may fail. -/
def GoalProg.ofResult {α : Type} : Except AdkError α → GoalProg α
  | .ok a => pure a
  | .error error => throw error

/-- What a harness knows of itself and of a session. -/
structure Harness where
  appName : String
  userId : String
  sessionId : String
  /-- The name of the harness agent. -/
  agent : String
  /-- Whether it has a run store. -/
  durable : Bool
  goalQueue : String
  /-- The name of what launches commands. -/
  isolation : String
  /-- Whether runs are audited. -/
  audited : Bool
  /-- The SHA-256 of a goal's canonical JSON. -/
  digest : GoalSpec → String

def goalModeError (mode : HarnessMode) : AdkError where
  component := .agent
  category := .forbidden
  code := "harness.goal.mode"
  message := s!"a goal runs only in ask or auto mode; the session is in {mode.asStr} mode"

/-- Starts a goal: validates it, requires Ask or Auto, and writes the goal's record. -/
def begin_ (mode : HarnessMode) (spec : GoalSpec) : GoalProg GoalRecord := do
  GoalProg.ofResult spec.validate
  if ¬(mode = .ask ∨ mode = .auto) then
    throw (goalModeError mode)
  let now ← GoalProg.perform .now
  let runId ← GoalProg.perform .newRunId
  let record := GoalRecord.start spec now runId
  GoalProg.ofResult (← GoalProg.perform (.set record))
  return record

/-- Why a goal that already ran does not start. -/
def goalDuplicate (runId : String) : AdkError where
  component := .agent
  category := .conflict
  code := "harness.goal.duplicate"
  message := s!"this goal already ran in the session as durable run {runId}; change the goal or use another session"

/-- Why a goal does not start in a session that another run holds. -/
def goalRejected (blockingRunId : String) : AdkError where
  component := .agent
  category := .conflict
  code := "harness.goal.rejected"
  message := s!"run {blockingRunId} holds the session"

namespace Harness

def newRun (harness : Harness) (spec : GoalSpec) : NewRun where
  queue := harness.goalQueue
  appName := harness.appName
  userId := harness.userId
  target := "harness.goal"
  input := .object [("text", .string spec.prompt)]
  sessionId := some harness.sessionId
  idempotencyKey := some s!"goal:{harness.sessionId}:{harness.digest spec}"
  concurrencyKey := some harness.sessionId
  onConflict := .enqueue

def runEvent (harness : Harness) (run : RunRecord) (note : String) : GoalEvent where
  author := harness.agent
  content := some s!"The goal runs as durable run {run.runId} ({note})."
  runId := some run.runId

/-- What a start makes of the run store's answer. -/
def enqueuedGoal (harness : Harness) (record : GoalRecord) : Enqueued → GoalProg GoalStream
  | .created run => return .event (harness.runEvent run "enqueued")
  | .existing run =>
    if run.state.isTerminal = false then
      return .event (harness.runEvent run "already enqueued")
    else do
      let cancelled := { record with state := { record.state with status := .cancelled } }
      GoalProg.ofResult (← GoalProg.perform (.set cancelled))
      throw (goalDuplicate run.runId)
  | .rejected blockingRunId => throw (goalRejected blockingRunId)

def startGoal (harness : Harness) (spec : GoalSpec) : GoalProg GoalStream := do
  let mode ← GoalProg.ofResult (← GoalProg.perform .mode)
  let record ← begin_ mode spec
  let mirror : GoalEvent := { author := harness.agent, goal := some record.state }
  GoalProg.ofResult (← GoalProg.perform (.appendEvent mirror))
  if harness.durable = false then
    GoalProg.ofResult (← GoalProg.perform (.run record.spec.prompt))
    return .turn
  let enqueued ← GoalProg.ofResult (← GoalProg.perform (.enqueue (harness.newRun record.spec)))
  harness.enqueuedGoal record enqueued

end Harness

/-! ## The check -/

/-- Why a session without a goal is not checked. -/
def goalMissing : AdkError where
  component := .agent
  category := .notFound
  code := "harness.goal.missing"
  message := "the session has no goal to check"

/-- An `i64` as an `i32`. -/
def asI32 (n : Int) : Int := n.bmod (2 ^ 32)

/-- The exit code of a command's output: an integer that fits in 64 bits. -/
def exitCode (value : Value) : Option Int :=
  (((value.get? "exit_code").bind Value.asInt).filter fun n => -2 ^ 63 ≤ n ∧ n < 2 ^ 63).map asI32

def printed (value : Value) : String :=
  ["stdout", "stderr"].foldl (fun output stream =>
    output ++ ((value.get? stream).bind Value.asStr).getD "") ""

/-- The last `max` bytes of a text, on a character boundary. -/
def tailChars (max : Nat) : List Char → List Char
  | [] => []
  | c :: cs => if (c :: cs).foldl (fun size c => size + c.utf8Size) 0 ≤ max then c :: cs else tailChars max cs

/-- The last `max` bytes of a text, on a character boundary. -/
def tail (text : String) (max : Nat) : String := String.ofList (tailChars max text.toList)

structure Checked where
  exitCode : Option Int
  output : String
  timedOut : Bool

/-- What a check makes of the command's outcome. -/
def Checked.ofOutcome : Except AdkError Value → Checked
  | .ok value => ⟨Adk.exitCode value, printed value, false⟩
  | .error error => ⟨none, error.display, (splitOnce "timeout".toList error.code.toList).isSome⟩

def statusAfter (exitCode : Option Int) (state : GoalState) : GoalStatus :=
  if exitCode = some 0 then .done
  else if state.maxIterations ≤ state.iteration then .exhausted
  else .running

def GoalRecord.checked (record : GoalRecord) (exitCode : Option Int) (now : Utc) : GoalRecord :=
  { record with state := { record.state with
      lastCheck := exitCode
      updatedAt := now
      status := statusAfter exitCode record.state } }

def summary (record : GoalRecord) (found : Checked) : String :=
  let exit := match found.exitCode with
    | none => "none"
    | some code => toString code
  let tail := tail found.output 4096
  match record.state.status with
  | .done =>
    s!"Goal check `{record.spec.until_}` passed on iteration {record.state.iteration}. The goal is done."
  | .exhausted =>
    s!"Goal check `{record.spec.until_}` failed (exit {exit}) on iteration {record.state.iteration} of " ++
      s!"{record.state.maxIterations}; no iterations are left.\n{tail}"
  | .running | .cancelled =>
    s!"Goal check `{record.spec.until_}` failed (exit {exit}) on iteration {record.state.iteration} of " ++
      s!"{record.state.maxIterations}. Its output:\n{tail}"

namespace Harness

def auditGoal (harness : Harness) (action : String) (args : Option Value) (ext : Value) : GoalProg Unit :=
  if harness.audited then do
    GoalProg.ofResult (← GoalProg.perform (.audit action args ext))
  else pure ()

/-- Runs the check of a record's current iteration and records it. -/
def finishCheck (harness : Harness) (record : GoalRecord) (event : GoalEvent) : GoalProg GoalEvent := do
  let callId := s!"goal-check-{record.runId}-{record.state.iteration}"
  let args := Value.object [("command", .string record.spec.until_),
    ("timeout_secs", .ofInt (max (record.spec.checkTimeout / 1000000000) 1))]
  harness.auditGoal "harness.bash.begin" (some args) (.object [("enforcer", .string harness.isolation),
    ("functionCallId", .string callId), ("goalCheck", .bool true)])
  let outcome ← GoalProg.perform (.execute callId args record.spec.checkTimeout)
  let duration ← GoalProg.perform .elapsed
  let found := Checked.ofOutcome outcome
  let exit := (found.exitCode.map Value.ofInt).getD .null
  harness.auditGoal "harness.bash.end" none (.object [("durationMs", .ofInt duration), ("exitCode", exit),
    ("functionCallId", .string callId), ("goalCheck", .bool true), ("timedOut", .bool found.timedOut)])
  let now ← GoalProg.perform .now
  let record := record.checked found.exitCode now
  GoalProg.ofResult (← GoalProg.perform (.set record))
  harness.auditGoal "harness.goal.iteration" none (.object [("checkExitCode", exit),
    ("iteration", .ofInt record.state.iteration), ("max", .ofInt record.state.maxIterations),
    ("status", .string record.state.status.asStr)])
  return { event with
    content := some (summary record found)
    goal := some record.state
    escalate := decide (record.state.status ≠ .running) }

/-- Runs one check and records it. -/
def check (harness : Harness) (branch : String) : GoalProg GoalEvent := do
  GoalProg.ofResult (← GoalProg.perform .checkGovernance)
  let found ← GoalProg.ofResult (← GoalProg.perform .get)
  let record ← GoalProg.ofResult (found.elim (.error goalMissing) .ok)
  let event : GoalEvent := { author := "until_check", branch }
  if record.state.status ≠ .running then
    return { event with escalate := true, content := some s!"The goal is {record.state.status.debug}." }
  let record := { record with state := { record.state with iteration := record.state.iteration + 1 } }
  harness.finishCheck record event

end Harness

/-! ## The calls on a session -/

inductive GoalCall where
  | start (spec : GoalSpec)
  | check (branch : String)
deriving DecidableEq

abbrev GoalCall.Res : GoalCall → Type
  | .start _ => Except AdkError GoalStream
  | .check _ => Except AdkError GoalEvent

/-- The goal records of a session, in the order they were stored, and the identifiers that were handed out. -/
structure GoalWorld where
  stored : List GoalRecord := []
  runIds : List String := []

namespace GoalWorld

/-- The session's goal. -/
def current (w : GoalWorld) : Option GoalRecord := w.stored.getLast?

/-- A read answers the goal, and a store replaces it; each may fail and then changes nothing. An identifier is
handed out once. What else is asked answers as it is `allowed` to. -/
def laws (allowed : (op : GoalOp) → op.Ret → Prop) : Laws GoalOp GoalOp.Ret GoalWorld where
  answers
    | .get, w, r, w' => w' = w ∧ ((∃ error, r = .error error) ∨ r = .ok w.current)
    | .set record, w, r, w' =>
      (∃ error, r = .error error) ∧ w' = w ∨ r = .ok () ∧ w' = { w with stored := w.stored ++ [record] }
    | .newRunId, w, r, w' => r ∉ w.runIds ∧ w' = { w with runIds := r :: w.runIds }
    | op, w, r, w' => w' = w ∧ allowed op r
  moves _ _ := False

end GoalWorld

/-- A call in progress, or one that has returned. -/
abbrev GoalProc : Type := Proc GoalCall.Res GoalOp.Ret GoalWorld

/-- The store and the calls. -/
abbrev GoalPool : Type := ProcPool GoalCall.Res GoalOp.Ret GoalWorld

/-- What a run is assumed to do. -/
structure GoalRules where
  allowed : (op : GoalOp) → op.Ret → Prop := fun _ _ => True
  acts : GoalPool → Nat → GoalOp → Prop := fun _ _ _ => True

/-- Any starts and checks on a session. -/
def goalSystem (harness : Harness) (rules : GoalRules) : System GoalCall.Res GoalOp.Ret GoalWorld where
  laws := GoalWorld.laws rules.allowed
  program
    | .start spec => (harness.startGoal spec).run
    | .check branch => (harness.check branch).run
  acts := rules.acts

end Adk
