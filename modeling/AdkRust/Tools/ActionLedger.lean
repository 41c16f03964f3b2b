import AdkRust.Core.Identity
import AdkRust.Core.ToolCall
import AdkRust.Lib.ProcPool
import AdkRust.SignedAudit.Record

/-!
# The action ledger

A call of a tool whose effect must not be repeated is begun in a ledger before it runs and completed after
(`action_ledger.rs`, `tool_ledger.rs`). The record of a key answers every later attempt of the call.

* `idempotencyKey`, `heldCallLedgerKey`: the key of a call that runs directly, and of one that is resumed.
* `beginLedgeredCall`: the answer of the ledger, or the call is begun.
* `executeCall`: an attempt of a call, one operation at a time.
* `ledgerSystem`: any attempts of any calls over the in-memory ledger.
-/

namespace Adk

/-! ## Records -/

/-- Eight hex digits for each 32 bits of a number of 128 bits. -/
def hex128 (n : Nat) : String :=
  String.ofList ((List.range 32).reverse.map fun place => Nat.digitChar (n / 16 ^ place % 16))

def jsonDigest [JsonText] (value : Value) : String :=
  let hash := (SignedAudit.asBytes (writeCanonical value)).foldl
    (fun hash byte => (hash ^^^ byte.toNat) * 0x0000000001000000000000000000013b % 2 ^ 128)
    0x6c62272e07bb014262b821756295c58d
  s!"fnv1a128:{hex128 hash}"

/-- The result of a ledgered call. -/
inductive ActionOutcome where
  | succeeded (resultDigest : String)
  | failed (error : String)
deriving DecidableEq

/-- One ledgered call. -/
structure ActionRecord where
  key : String
  toolName : String
  argsDigest : String
  effect : ToolEffect
  startedAt : Utc
  /-- None while the call runs, or after it ended without one. -/
  outcome : Option ActionOutcome := none
  completedAt : Option Utc := none
deriving DecidableEq

def ledgerError (category : ErrorCategory) (code message : String) : AdkError where
  component := .tool
  category
  code
  message

def duplicateKeyError (key : String) : AdkError :=
  ledgerError .invalidInput "tool.action_ledger.duplicate_key"
    s!"action ledger already holds a record for key '{key}'; the call was not executed again"

def missingKeyError (key : String) : AdkError :=
  ledgerError .notFound "tool.action_ledger.not_found"
    s!"action ledger has no record for key '{key}'; call begin before complete"

def alreadyCompletedError (key : String) : AdkError :=
  ledgerError .invalidInput "tool.action_ledger.already_completed"
    s!"action ledger record '{key}' already has an outcome; outcomes are write-once"

abbrev ActionLedger : Type := String → Option ActionRecord

namespace ActionLedger

def put (ledger : ActionLedger) (record : ActionRecord) : ActionLedger :=
  fun key => if key = record.key then some record else ledger key

/-- Records that a call is about to run. -/
def begin_ (ledger : ActionLedger) (record : ActionRecord) : Except AdkError Unit × ActionLedger :=
  if (ledger record.key).isSome then (.error (duplicateKeyError record.key), ledger)
  else (.ok (), ledger.put record)

/-- Records the outcome of a call that was begun. -/
def complete (ledger : ActionLedger) (key : String) (outcome : ActionOutcome) (now : Utc) :
    Except AdkError Unit × ActionLedger :=
  match ledger key with
  | none => (.error (missingKeyError key), ledger)
  | some record =>
    if record.outcome.isSome then (.error (alreadyCompletedError key), ledger)
    else (.ok (), fun other =>
      if other = key then some { record with outcome := some outcome, completedAt := some now } else ledger other)

end ActionLedger

/-! ## Keys -/

/-- A call of a tool: where it was issued, and, when it was held there, what it was held with. -/
structure LedgerCall where
  identity : AdkIdentity
  /-- The invocation that issued it. -/
  invocationId : String
  functionCallId : String
  name : String
  args : Value
  held : Option ToolConfirmationRequest := none

def idempotencyKey (identity : AdkIdentity) (invocationId functionCallId : String) : String :=
  s!"{identity.appName}/{identity.userId}/{identity.sessionId}/{invocationId}/{functionCallId}"

section Keys

variable [JsonText]

def heldCallLedgerKey (identity : AdkIdentity) (functionCallId fingerprint : String) : String :=
  s!"{identity.appName}/{identity.userId}/{identity.sessionId}/held/{functionCallId}/{jsonDigest (.string fingerprint)}"

def LedgerCall.key (call : LedgerCall) : String :=
  match call.held with
  | some held => heldCallLedgerKey call.identity call.functionCallId held.fingerprint
  | none => idempotencyKey call.identity call.invocationId call.functionCallId

end Keys

/-! ## An attempt -/

/-- How the body of a tool ended: with a value, with an error (as the model is told of it), or in the middle, by a
timeout or a panic. -/
inductive ToolRun where
  | returned (value : Value)
  | failed (text : String)
  | interrupted (message : String)

inductive LedgerOp where
  | get (key : String)
  | now
  | begin_ (record : ActionRecord)
  /-- The body of the tool. -/
  | execute (name : String) (args : Value)
  | complete (key : String) (outcome : ActionOutcome)
  /-- The audit of an outcome that is unknown. -/
  | audit (name : String) (args : Value) (cause : String)

abbrev LedgerOp.Ret : LedgerOp → Type
  | .get _ => Except AdkError (Option ActionRecord)
  | .now => Utc
  | .begin_ _ | .complete .. | .audit .. => Except AdkError Unit
  | .execute .. => ToolRun

/-- Whether an operation is the body of the tool. -/
def LedgerOp.isBody : LedgerOp → Bool
  | .execute .. => true
  | _ => false

abbrev LedgerProg : Type → Type := ExceptT AdkError (Prog LedgerOp LedgerOp.Ret)

def askLedger (op : LedgerOp) : LedgerProg op.Ret := ExceptT.lift (Prog.perform op)

inductive CallAnswer where
  | alreadySucceeded (resultDigest detail : String)
  | alreadyFailed (error detail : String)
  | outcomeUnknown (detail : String)
  /-- The call was not begun. -/
  | notExecuted (error : String)
  | returned (value : Value)
  | failed (text : String)

def CallAnswer.response : CallAnswer → Value
  | .alreadySucceeded resultDigest detail =>
    .object [("detail", .string detail), ("result_digest", .string resultDigest), ("status", .string "already_succeeded")]
  | .alreadyFailed error detail =>
    .object [("detail", .string detail), ("error", .string error), ("status", .string "already_failed")]
  | .outcomeUnknown detail => .object [("detail", .string detail), ("status", .string "outcome_unknown")]
  | .notExecuted error => .object [("error", .string error)]
  | .returned value => value
  | .failed text => .object [("error", .string text)]

/-- Whether an answer says that the call ended before, or may have taken effect. -/
def CallAnswer.ofEarlier : CallAnswer → Bool
  | .alreadySucceeded .. | .alreadyFailed .. | .outcomeUnknown _ => true
  | .notExecuted _ | .returned _ | .failed _ => false

/-- An error without its message. -/
def AdkError.redacted (error : AdkError) : String :=
  s!"{error.component.asStr}.{error.category.asStr} ({error.code})"

/-- An operation that may fail, and then ends the run. -/
def orFail : Except AdkError Unit → LedgerProg Unit
  | .ok () => pure ()
  | .error error => throw error

def recordOutcomeUnknown (name : String) (args : Value) (cause : String) : LedgerProg Unit := do
  let recorded ← askLedger (.audit name args cause)
  orFail recorded

def recordedAnswer (name : String) : ActionOutcome → CallAnswer
  | .succeeded resultDigest =>
    .alreadySucceeded resultDigest s!"this call to '{name}' already completed; it was not executed again"
  | .failed error => .alreadyFailed error s!"this call to '{name}' already failed; it was not executed again"

theorem recordedAnswer_inj {name : String} {outcome outcome' : ActionOutcome}
    (h : recordedAnswer name outcome = recordedAnswer name outcome') : outcome = outcome' := by
  cases outcome with
  | succeeded resultDigest =>
    cases outcome' with
    | succeeded resultDigest' => rw [(CallAnswer.alreadySucceeded.inj h).1]
    | failed error => cases h
  | failed error =>
    cases outcome' with
    | succeeded resultDigest => cases h
    | failed error' => rw [(CallAnswer.alreadyFailed.inj h).1]

def answerRecord (name : String) (args : Value) : Option ActionOutcome → LedgerProg CallAnswer
  | some outcome => pure (recordedAnswer name outcome)
  | none => do
    recordOutcomeUnknown name args "began_without_outcome"
    return .outcomeUnknown
      (s!"an earlier attempt of this call to '{name}' began but recorded no outcome, so it may have taken effect; " ++
        "it was not executed again")

def answerBegun (name : String) : Except AdkError Unit → Option CallAnswer
  | .ok () => none
  | .error error => some (.notExecuted
      s!"tool '{name}' was not executed: the action ledger could not record the call: {error.redacted}")

section Attempts

variable [JsonText]

def beginFound (key name : String) (args : Value) (effect : ToolEffect) :
    Except AdkError (Option ActionRecord) → LedgerProg (Option CallAnswer)
  | .ok (some record) => do
    let answer ← answerRecord name args record.outcome
    return some answer
  | .ok none => do
    let startedAt ← askLedger .now
    let begun ← askLedger (.begin_ { key, toolName := name, argsDigest := jsonDigest args, effect, startedAt })
    return answerBegun name begun
  | .error error => return some (.notExecuted
      s!"tool '{name}' was not executed: the action ledger could not be read: {error.redacted}")

/-- Consults the ledger before a call runs. -/
def beginLedgeredCall (effect : ToolEffect) (key name : String) (args : Value) : LedgerProg (Option CallAnswer) :=
  if effect ≠ .nonIdempotent then return none
  else do
    let found ← askLedger (.get key)
    beginFound key name args effect found

/-- Records how a call ended. An error of the ledger is only logged. -/
def completeLedgered (key : String) (outcome : ActionOutcome) : LedgerProg Unit := do
  let _ ← askLedger (.complete key outcome)
  return ()

/-- What follows the body of a call: it is completed, unless it ended in the middle. -/
def finishCall (key name : String) (args : Value) : ToolRun → LedgerProg CallAnswer
  | .returned value => do
    completeLedgered key (.succeeded (jsonDigest value))
    return .returned value
  | .failed text => do
    completeLedgered key (.failed text)
    return .failed text
  | .interrupted message => do
    recordOutcomeUnknown name args "interrupted"
    return .outcomeUnknown
      s!"{message}. The call may have taken effect; check its result before calling it again."

def runBegun (key name : String) (args : Value) : Option CallAnswer → LedgerProg CallAnswer
  | some answer => pure answer
  | none => do
    let run ← askLedger (.execute name args)
    finishCall key name args run

/-- An attempt of a call whose effect must not be repeated; it is not retried by itself. -/
def executeCall (call : LedgerCall) : LedgerProg CallAnswer := do
  let begun ← beginLedgeredCall .nonIdempotent call.key call.name call.args
  runBegun call.key call.name call.args begun

/-! ## The system -/

/-- The in-memory ledger answers; a body and an audit end in any way. -/
def ledgerLaws : Laws LedgerOp LedgerOp.Ret ActionLedger where
  answers
    | .get key, w, found, w' => found = .ok (w key) ∧ w' = w
    | .now, w, _, w' => w' = w
    | .begin_ record, w, begun, w' => begun = (w.begin_ record).1 ∧ w' = (w.begin_ record).2
    | .execute .., w, _, w' => w' = w
    | .complete key outcome, w, completed, w' => ∃ now,
        completed = (w.complete key outcome now).1 ∧ w' = (w.complete key outcome now).2
    | .audit .., w, _, w' => w' = w
  moves _ _ := False

abbrev LedgerEntry : Type := Entry LedgerOp.Ret ActionLedger

abbrev LedgerPool : Type := ProcPool (fun _ : LedgerCall => Except AdkError CallAnswer) LedgerOp.Ret ActionLedger

abbrev LedgerProc : Type := Proc (fun _ : LedgerCall => Except AdkError CallAnswer) LedgerOp.Ret ActionLedger

def ledgerSystem (starts : LedgerPool → LedgerCall → Prop) :
    System (fun _ : LedgerCall => Except AdkError CallAnswer) LedgerOp.Ret ActionLedger where
  laws := ledgerLaws
  program call := (executeCall call).run
  starts

def noAttempts : LedgerPool := { world := fun _ => none }

end Attempts

end Adk
