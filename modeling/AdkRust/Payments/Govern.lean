import AdkRust.Governance.Gate
import AdkRust.Payments.Record

/-!
# Governed payments

The policies of a payment and the operation they govern (`guardrail/policy.rs`, `kernel/governed.rs`).

* `evaluate`: every guardrail is asked, and the strongest outcome is taken from their findings.
* `govern`: the policies, the approval, the audit and the operation, with the holds settled at the end. What a
  guardrail, the approver, the audit sinks and the ledgers answer is free, and so is the operation.
-/

namespace Adk

/-! ## Policies -/

inductive Severity where
  | low
  | medium
  | high
  | critical
deriving DecidableEq

def Severity.rank : Severity → Nat
  | .low => 0
  | .medium => 1
  | .high => 2
  | .critical => 3

structure PaymentPolicyFinding where
  guardrail : String
  reason : String
  severity : Severity
deriving DecidableEq

/-- Outcome of a guardrail or of a set of them. -/
inductive PaymentPolicyDecision where
  | allow
  | escalate (findings : List PaymentPolicyFinding)
  | deny (findings : List PaymentPolicyFinding)
deriving DecidableEq

namespace PaymentPolicyDecision

def denied : PaymentPolicyDecision → List PaymentPolicyFinding
  | .deny findings => findings
  | _ => []

def escalated : PaymentPolicyDecision → List PaymentPolicyFinding
  | .escalate findings => findings
  | _ => []

end PaymentPolicyDecision

/-- What a payment policy is evaluated for. -/
inductive PaymentOperation where
  | createCheckout
  | completeCheckout
  | executePayment
deriving DecidableEq

def PaymentOperation.action : PaymentOperation → String
  | .createCheckout => "payment.create_checkout"
  | .completeCheckout => "payment.complete_checkout"
  | .executePayment => "payment.execute_payment"

/-- Names a spend ledger. -/
abbrev LedgerId : Type := String

/-- Budget that a policy reserved. -/
structure SpendHold where
  ledger : LedgerId
  reservation : String
  amountMicroUsd : Nat
deriving DecidableEq

/-- What a policy sees beside the transaction. -/
structure PaymentPolicyContext where
  operation : PaymentOperation
  spendLedger : Option LedgerId := none
  org : Option String := none
  agent : Option String := none
deriving DecidableEq

/-- The order of findings: by guardrail, then the more severe first, then by reason. -/
def findingLe (left right : PaymentPolicyFinding) : Bool :=
  ((compare left.guardrail right.guardrail).then
    ((compare right.severity.rank left.severity.rank).then (compare left.reason right.reason))) != .gt

def sortFindings (findings : List PaymentPolicyFinding) : List PaymentPolicyFinding :=
  findings.insertionSort fun left right => findingLe left right = true

/-! ## Records of a decision -/

/-- What became of an action. -/
inductive AuditRecordOutcome where
  | notRun
  | succeeded
  | failed
deriving DecidableEq

/-- A payment's audit record before it is written. -/
structure AuditRecordDraft where
  actor : AuditActor
  action : String
  argsDigest : Option String := none
  decision : Option AuditDecision := none
  outcome : Option AuditRecordOutcome := none
  policyRef : Option String := none
  ext : Dict Value := ∅
deriving DecidableEq

/-- What happens when a record cannot be written. -/
inductive AuditFailureMode where
  /-- The action is refused. -/
  | block
  /-- The action goes on without a record. -/
  | warn
deriving DecidableEq

structure AuditTrail where
  failureMode : AuditFailureMode := .block
  digest : Cart → String

/-- Decision about an escalated payment. -/
inductive PaymentApproval where
  | approved
  | denied
  | pending
deriving DecidableEq

/-- Who is paying, and how escalations are decided. -/
structure PaymentCaller where
  org : Option String := none
  agent : Option String := none
  spendLedger : Option LedgerId := none
  approver : Bool := false
  audit : Option (AuditTrail × AuditActor) := none

/-- The identity that an auditor records. -/
structure AuthenticatedPaymentRequest where
  userId : String
  sessionId : Option String := none
  tenantId : Option String := none
  scopes : List String := []
  metadata : Dict Value := ∅
deriving DecidableEq

structure PaymentAuditEvent where
  request : AuthenticatedPaymentRequest
  record : TransactionRecord
  protocol : ProtocolDescriptor
  operation : PaymentOperation
  allowed : Bool
  interventionOccurred : Bool
deriving DecidableEq

/-! ## What is asked -/

/-- The accesses of the governed path. -/
inductive GovernOp where
  /-- Asks a guardrail, known by a number. -/
  | evaluate (guardrail : Nat) (record : TransactionRecord) (protocol : ProtocolDescriptor)
      (context : PaymentPolicyContext)
  | approve (record : TransactionRecord) (findings : List PaymentPolicyFinding)
  | record (draft : AuditRecordDraft)
  /-- Logs an event to the auditor's sink. -/
  | audit (event : PaymentAuditEvent)
  | commit (hold : SpendHold) (amount : Nat)
  | release (hold : SpendHold)

/-- What an access answers. A guardrail answers its decision, and the holds it took. -/
abbrev GovernOp.Ret : GovernOp → Type
  | .evaluate .. => PaymentPolicyDecision × List SpendHold
  | .approve .. => Except AdkError PaymentApproval
  | .record _ => Except AdkError Unit
  | .audit _ => Except String Unit
  | .commit .. => Except AdkError Unit
  | .release _ => Except AdkError Unit

variable {RunOp : Type} {RunRet : RunOp → Type}

/-- The accesses of a governed operation: those of the path, the start of the operation, and its own. -/
inductive GovernedOp (RunOp : Type) where
  | govern (op : GovernOp)
  | run
  | inner (op : RunOp)

abbrev GovernedOp.Ret (RunRet : RunOp → Type) : GovernedOp RunOp → Type
  | .govern op => op.Ret
  | .run => Unit
  | .inner op => RunRet op

abbrev GovernedProg (RunRet : RunOp → Type) : Type → Type :=
  ExceptT AdkError (Prog (GovernedOp RunOp) (GovernedOp.Ret RunRet))

namespace GovernedProg

/-- An access of the governed path. -/
def ask (op : GovernOp) : GovernedProg RunRet op.Ret := ExceptT.lift (Prog.perform (GovernedOp.govern op))

end GovernedProg

/-- A program of the operation, as a part of the governed one. -/
def Prog.inner {α : Type} : Prog RunOp RunRet α → Prog (GovernedOp RunOp) (GovernedOp.Ret RunRet) α
  | .pure a => .pure a
  | .ask o next => .ask (.inner o) fun r => (next r).inner

/-! ## The policy set -/

def askGuardrails (record : TransactionRecord) (protocol : ProtocolDescriptor) (context : PaymentPolicyContext) :
    List Nat → List PaymentPolicyFinding → List PaymentPolicyFinding → List SpendHold →
      GovernedProg RunRet (List PaymentPolicyFinding × List PaymentPolicyFinding × List SpendHold)
  | [], denied, escalated, holds => pure (denied, escalated, holds)
  | guardrail :: guardrails, denied, escalated, holds => do
    let (decision, taken) ← GovernedProg.ask (.evaluate guardrail record protocol context)
    askGuardrails record protocol context guardrails (denied ++ decision.denied) (escalated ++ decision.escalated)
      (holds ++ taken)

def releaseHolds : List SpendHold → GovernedProg RunRet Unit
  | [] => pure ()
  | hold :: holds => do
    let _ ← GovernedProg.ask (.release hold)
    releaseHolds holds

def commitHolds (actual : Option Nat) : List SpendHold → GovernedProg RunRet Unit
  | [] => pure ()
  | hold :: holds => do
    let _ ← GovernedProg.ask (.commit hold (actual.getD hold.amountMicroUsd))
    commitHolds actual holds

/-- Evaluates all guardrails: the strongest outcome, and the holds that are left. A denial releases them. -/
def evaluate (guardrails : List Nat) (record : TransactionRecord) (protocol : ProtocolDescriptor)
    (context : PaymentPolicyContext) : GovernedProg RunRet (PaymentPolicyDecision × List SpendHold) := do
  let (denied, escalated, holds) ← askGuardrails record protocol context guardrails [] [] []
  if sortFindings denied ≠ [] then
    releaseHolds holds
    return (.deny (sortFindings denied), [])
  else if sortFindings escalated ≠ [] then
    return (.escalate (sortFindings escalated), holds)
  else return (.allow, holds)

/-! ## The governor -/

/-- How the holds of an operation are settled once it has returned. -/
inductive Settlement where
  | commit (actual : Option Nat)
  | release
deriving DecidableEq

/-- Policies, spend ledger and auditor of a payment path. -/
structure PaymentGovernor where
  /-- The guardrails, known by numbers. -/
  policies : List Nat
  spendLedger : Option LedgerId := none
  auditor : Bool := false

/-- Error code of a denial. -/
def paymentPolicyDeniedCode : String := "payments.policy.denied"

def paymentApprovalRequiredCode : String := "payments.policy.approval_required"

/-- Error code of an escalation that was refused. -/
def paymentApprovalDeniedCode : String := "payments.policy.approval_denied"

def policyError (code summary : String) (findings : List PaymentPolicyFinding) : AdkError :=
  let reasons := findings.map fun finding => s!"{finding.guardrail}: {finding.reason}"
  let joined := "; ".intercalate reasons
  { component := .guardrail
    category := .forbidden
    code
    message := s!"{summary}: {joined}"
    metadata := Dict.ofList [("findings", .array (reasons.map .string))] }

def auditRecordFailed (action : String) (error : AdkError) : AdkError where
  component := .auth
  category := .unavailable
  code := "audit.record_failed"
  message := s!"'{action}' refused: its audit record could not be written ({error.message}). " ++
    "Restore the audit log, or set AuditFailureMode::Warn to continue without a record"

def auditFailed (error : String) : AdkError where
  component := .auth
  category := .internal
  code := "payments.auth.audit_failed"
  message := error

/-- Writes a record, and applies the failure mode. -/
def AuditTrail.record (trail : AuditTrail) (draft : AuditRecordDraft) :
    GovernedProg RunRet (Except AdkError Unit) := do
  match ← GovernedProg.ask (.record draft) with
  | .ok _ => return .ok ()
  | .error error =>
    match trail.failureMode with
    | .block => return .error (auditRecordFailed draft.action error)
    | .warn => return .ok ()

def settleHolds (holds : List SpendHold) : Settlement → GovernedProg RunRet Unit
  | .commit actual => commitHolds actual holds
  | .release => releaseHolds holds

def finish {T : Type} (settle : T → Settlement) (holds : List SpendHold) : Except AdkError T → GovernedProg RunRet T
  | .ok result => do
    settleHolds holds (settle result)
    return result
  | .error error => do
    releaseHolds holds
    throw error

section Govern

variable (operation : PaymentOperation) (record : TransactionRecord) (protocol : ProtocolDescriptor)
  (caller : PaymentCaller)

/-- The caller's record of an operation, without a decision. -/
def paymentDraft (trail : AuditTrail) (actor : AuditActor) (findings : List PaymentPolicyFinding) :
    AuditRecordDraft where
  actor
  action := operation.action
  argsDigest := some (trail.digest record.cart)
  policyRef := some "payment_policy"
  ext := Dict.ofList ([("transactionId", .string record.transactionId),
      ("merchantId", .string record.merchantOfRecord.merchantId),
      ("currency", .string record.cart.total.currency),
      ("amountMinor", .number (.int record.cart.total.amountMinor)),
      ("scale", .number (.int record.cart.total.scale)), ("protocol", .string protocol.name)] ++
    (if findings.isEmpty then [] else [("guardrails", .array (findings.map fun f => .string f.guardrail))]) ++
    (record.sessionIdentity.map fun identity => ("sessionId", Value.string identity.sessionId)).toList)

def decisionDraft (trail : AuditTrail) (actor : AuditActor) (decision : AuditDecision)
    (findings : List PaymentPolicyFinding) : AuditRecordDraft :=
  let draft := { paymentDraft operation record protocol trail actor findings with decision := some decision }
  if decision = .allowed ∨ decision = .approved then draft else { draft with outcome := some .notRun }

def callerRecord (decision : AuditDecision) (findings : List PaymentPolicyFinding) :
    GovernedProg RunRet (Except AdkError Unit) :=
  match caller.audit with
  | none => pure (.ok ())
  | some (trail, actor) => trail.record (decisionDraft operation record protocol trail actor decision findings)

/-- The audited identity: the session's user when known, else the paying agent. -/
def auditRequest : AuthenticatedPaymentRequest where
  userId := ((record.sessionIdentity.map (·.userId)).or caller.agent).getD record.initiatedBy.actorId
  sessionId := record.sessionIdentity.map (·.sessionId)
  metadata := Dict.ofList ((caller.org.map fun org => ("org", Value.string org)).toList ++
    (caller.agent.map fun agent => ("agent", Value.string agent)).toList)

/-- What the auditor is given of a decision. -/
def auditEvent (allowed escalated : Bool) : PaymentAuditEvent where
  request := auditRequest record caller
  record
  protocol
  operation
  allowed
  interventionOccurred := escalated

variable (governor : PaymentGovernor)

/-- Records a refused payment. A write that fails is logged. -/
def auditRefusal : GovernedProg RunRet Unit :=
  if governor.auditor then do
    let _ ← GovernedProg.ask (.audit (auditEvent operation record protocol caller false false))
    pure ()
  else pure ()

/-- Goes on after a write that succeeded, and releases the holds after one that failed. -/
def orRelease (holds : List SpendHold) (written : Except AdkError Unit) : GovernedProg RunRet Unit :=
  match written with
  | .ok _ => pure ()
  | .error error => do
    releaseHolds holds
    throw error

def policyContext : PaymentPolicyContext where
  operation
  spendLedger := governor.spendLedger.or caller.spendLedger
  org := caller.org
  agent := caller.agent

def askApprover (findings : List PaymentPolicyFinding) : GovernedProg RunRet (Except AdkError PaymentApproval) :=
  if caller.approver then GovernedProg.ask (.approve record findings) else pure (.ok .pending)

/-- Why an escalated payment is refused, and as what it is recorded. -/
def approvalRefusal (findings : List PaymentPolicyFinding) :
    Except AdkError PaymentApproval → Option (AdkError × AuditDecision)
  | .ok .approved => none
  | .ok .denied => some (policyError paymentApprovalDeniedCode "payment approval was denied" findings, .rejected)
  | .ok .pending =>
    some (policyError paymentApprovalRequiredCode "payment requires approval" findings, .approvalRequired)
  | .error error => some (error, .denied)

def refuse (decision : AuditDecision) (findings : List PaymentPolicyFinding) (error : AdkError) :
    GovernedProg RunRet Unit := do
  let _ ← callerRecord operation record protocol caller decision findings
  auditRefusal operation record protocol caller governor
  throw error

def clear (decision : PaymentPolicyDecision) (holds : List SpendHold) : GovernedProg RunRet Bool :=
  match decision with
  | .allow => do
    orRelease holds (← callerRecord operation record protocol caller .allowed [])
    return false
  | .deny findings => do
    refuse operation record protocol caller governor .denied findings
      (policyError paymentPolicyDeniedCode "payment refused by policy" findings)
    return false
  | .escalate findings => do
    match approvalRefusal findings (← askApprover record caller findings) with
    | some (error, decision) =>
      releaseHolds holds
      refuse operation record protocol caller governor decision findings error
      return true
    | none =>
      orRelease holds (← callerRecord operation record protocol caller .approved findings)
      return true

/-- Has the auditor record a decision. -/
def auditAllowed (escalated : Bool) : GovernedProg RunRet (Except AdkError Unit) :=
  if governor.auditor then do
    match ← GovernedProg.ask (.audit (auditEvent operation record protocol caller true escalated)) with
    | .ok _ => return .ok ()
    | .error error => return .error (auditFailed error)
  else pure (.ok ())

/-- Records what became of an operation. A write that fails is logged. -/
def recordOutcome (succeeded : Bool) : GovernedProg RunRet Unit :=
  match caller.audit with
  | none => pure ()
  | some (trail, actor) => do
    let _ ← GovernedProg.ask (.record { paymentDraft operation record protocol trail actor [] with
      outcome := some (if succeeded then .succeeded else .failed) })
    pure ()

/-- **Runs an operation** only after the policies allow it and the decision is recorded. The holds of the policies
are settled when it succeeds, and released when it fails or never starts. -/
def govern {T : Type} (run : ExceptT AdkError (Prog RunOp RunRet) T) (settle : T → Settlement) :
    GovernedProg RunRet T := do
  let (decision, holds) ← evaluate governor.policies record protocol (policyContext operation caller governor)
  let escalated ← clear operation record protocol caller governor decision holds
  orRelease holds (← auditAllowed operation record protocol caller governor escalated)
  ExceptT.lift (Prog.perform GovernedOp.run)
  let result ← (ExceptT.lift run.run.inner : GovernedProg RunRet (Except AdkError T))
  recordOutcome operation record protocol caller result.isOk
  finish settle holds result

end Govern

end Adk
