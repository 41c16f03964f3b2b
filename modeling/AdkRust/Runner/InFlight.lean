import AdkRust.Core.Event
import AdkRust.Tools.ActionLedger

/-!
# Calls in flight

The calls that a run has seen requested and not yet answered (`runner.rs`). A run that is cancelled answers them itself;
those of a process that stopped are answered by a later recovery, from the action ledger.

* `observe`: an event opens calls and answers them.
* `answerWith`: every call in flight is answered, in one event per author, branch and invocation.
* `answerInterrupted`: the answers of a cancelled run.
* `recoverUnansweredCalls`: the answers of a recovery.
-/

namespace Adk

/-- A tool call the run has seen requested but not yet answered. -/
structure InFlightCall where
  id : Option String
  name : String
  args : Value
  author : String
  branch : String
  invocationId : String
deriving DecidableEq

/-- Tracks tool calls from request to response. -/
abbrev InFlightCalls : Type := List InFlightCall

def InFlightCalls.answered (calls : InFlightCalls) (name : String) : Option String → Option Nat
  | some id => calls.findIdx? fun call => call.id = some id
  | none => calls.findIdx? fun call => call.id = none ∧ call.name = name

def InFlightCalls.observePart (event : Event) (calls : InFlightCalls) : Part → InFlightCalls
  | .functionCall name args id _ =>
    calls ++ [{ id, name, args, author := event.author, branch := event.branch, invocationId := event.invocationId }]
  | .functionResponse functionResponse id _ =>
    match calls.answered functionResponse.name id with
    | some index => calls.eraseIdx index
    | none => calls
  | _ => calls

def InFlightCalls.observe (calls : InFlightCalls) (event : Event) : InFlightCalls :=
  if event.isPartial then calls
  else match event.content with
    | none => calls
    | some content => content.parts.foldl (InFlightCalls.observePart event) calls

def inFlightCalls (log : List Event) : InFlightCalls := log.foldl InFlightCalls.observe []

/-! ## Answers -/

def InFlightCall.responsePart (call : InFlightCall) (response : Value) : Part :=
  .functionResponse { name := call.name, response } call.id none

def Event.pushPart (event : Event) (part : Part) : Event :=
  { event with content := event.content.map fun content => { content with parts := content.parts ++ [part] } }

/-- Adds a response to the event of the call's author, branch and invocation, which is made where there is none. -/
def addResponse (now : Utc) (call : InFlightCall) (response : Part) : List Event → List Event
  | [] => [{ timestamp := now, invocationId := call.invocationId, branch := call.branch, author := call.author,
             content := some { role := "function", parts := [response] } }]
  | event :: events =>
    if event.author = call.author ∧ event.branch = call.branch ∧ event.invocationId = call.invocationId then
      event.pushPart response :: events
    else event :: addResponse now call response events

/-- Answers every call still in flight with `respond call`, one event per author, branch, and invocation. -/
def InFlightCalls.answerWith (now : Utc) (respond : InFlightCall → Value) (calls : InFlightCalls) : List Event :=
  calls.foldl (fun events call => addResponse now call (call.responsePart (respond call)) events) []

/-- Builds the function response for a call whose outcome is unknown. -/
def outcomeUnknownResponse (detail : String) : Value := (CallAnswer.outcomeUnknown detail).response

def InFlightCalls.answerInterrupted (now : Utc) (calls : InFlightCalls) : List Event :=
  calls.answerWith now fun call => outcomeUnknownResponse
    (s!"the run was cancelled while '{call.name}' was in flight, so the call may have taken effect; " ++
      "check its result before calling it again")

/-! ## Recovery -/

def recoveredCallResponse (name : String) : Option ActionOutcome → Value
  | some (.succeeded resultDigest) => (CallAnswer.alreadySucceeded resultDigest
      s!"this call to '{name}' completed before the run was recovered; it was not executed again").response
  | some (.failed error) => (CallAnswer.alreadyFailed error
      s!"this call to '{name}' failed before the run was recovered; it was not executed again").response
  | none => outcomeUnknownResponse
      (s!"the process running '{name}' stopped before the call recorded an outcome, so it may have taken effect; " ++
        "check its result before calling it again")

/-- A recovery of the unanswered calls of a session. -/
structure Recovery where
  identity : AdkIdentity
  ledger : Option ActionLedger
  /-- Writes a call and its outcome to the audit trail, if there is one. -/
  audit : Option (InFlightCall → SignedAudit.AuditRecordOutcome → Except AdkError Unit)
  now : Utc

namespace Recovery

variable (r : Recovery)

/-- The record of a call, kept under its id. -/
def lookUp (records : Dict (Option ActionRecord)) (call : InFlightCall) : Dict (Option ActionRecord) :=
  match r.ledger, call.id with
  | some ledger, some id => records.insert id (ledger (idempotencyKey r.identity call.invocationId id))
  | _, _ => records

def records (calls : InFlightCalls) : Dict (Option ActionRecord) := calls.foldl r.lookUp ∅

def recordOf (records : Dict (Option ActionRecord)) (call : InFlightCall) : Option ActionRecord :=
  (call.id.bind fun id => records[id]?).join

/-- What the audit trail says of a call. -/
def auditOutcome : Option ActionOutcome → SignedAudit.AuditRecordOutcome
  | some (.succeeded _) => .succeeded
  | some (.failed _) => .failed
  | none => .outcomeUnknown

/-- Records every call in flight, up to the first that the trail refuses. -/
def auditCalls (outcome : InFlightCall → SignedAudit.AuditRecordOutcome) (calls : InFlightCalls) : Except AdkError Unit :=
  match r.audit with
  | some write => calls.forM fun call => write call (outcome call)
  | none => .ok ()

/-- Answers the calls of a session that a stopped process left unanswered: how many there were, and the log with the
answers. They are audited before, so a refused write leaves them for the next recovery. -/
def recoverUnansweredCalls (log : List Event) : Except AdkError (Nat × List Event) :=
  let calls := inFlightCalls log
  if calls.isEmpty then .ok (0, log)
  else do
    let records := r.records calls
    r.auditCalls (fun call => auditOutcome ((recordOf records call).bind (·.outcome))) calls
    let events := calls.answerWith r.now fun call =>
      recoveredCallResponse call.name ((recordOf records call).bind (·.outcome))
    return (calls.length, log ++ events)

end Recovery

end Adk
