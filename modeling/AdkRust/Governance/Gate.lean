import AdkRust.Core.AuditActor
import AdkRust.Core.ToolCall
import AdkRust.Governance.Control

/-!
# The governed path of a tool call

`authorize_tool_call` of `governance.rs`: the kill switch, the policy, the screen and the confirmation of one
call, in the order they are asked.

* `PolicyDecision.stricter`, `ToolPolicy`: the policies (`policy.rs`), each a policy that answers for itself or
  a `StrictestPolicy` over others.
* `authorizeToolCall`: the path, over `GateOp`. What a policy, a screen, a handler, the approval store, the
  approval service and the audit trail answer is free.
* `GateWorld.laws`: the kill switch answers by its state, which may change at any time.
-/

namespace Adk

/-! ## Policies -/

inductive PolicyDecision where
  | allow
  | deny (reason : String)
  | requireApproval (reason : String)
deriving DecidableEq

namespace PolicyDecision

/-- How strict a decision is. -/
def severity : PolicyDecision → Nat
  | .allow => 0
  | .requireApproval _ => 1
  | .deny _ => 2

/-- The stricter of two decisions; on a tie the first. -/
def stricter (decision other : PolicyDecision) : PolicyDecision :=
  if decision.severity < other.severity then other else decision

/-- Whether the call must not execute. -/
def isDeny (decision : PolicyDecision) : Bool := decision.severity = 2

/-- Whether the call may execute without an approval. -/
def isAllow (decision : PolicyDecision) : Bool := decision.severity = 0

theorem isDeny_stricter (decision other : PolicyDecision) :
    (decision.stricter other).isDeny = (decision.isDeny || other.isDeny) := by
  cases decision <;> cases other <;> rfl

theorem isAllow_stricter (decision other : PolicyDecision) :
    (decision.stricter other).isAllow = (decision.isAllow && other.isAllow) := by
  cases decision <;> cases other <;> rfl

end PolicyDecision

/-- The facts a policy decides on. -/
structure ToolPolicyRequest where
  toolName : String
  /-- Final arguments the tool would execute with. -/
  args : Value
  effect : ToolEffect
  agentName : String
  appName : String
  userId : String
  sessionId : String
  invocationId : String
  acting : Option ActingContext

/-- How the call came to be asked about. -/
structure PolicyCall where
  origin : Option ToolOrigin
  functionCallId : Option String

/-- A policy: one that answers for itself, known by a number, or the strictest of some layers. -/
inductive ToolPolicy where
  | single (id : Nat) (policyRef : Option String)
  | strictest (layers : List ToolPolicy)

namespace ToolPolicy

mutual

/-- A name or version for audit records. -/
def policyRef : ToolPolicy → Option String
  | .single _ name => name
  | .strictest layers =>
    match layerRefs layers with
    | [] => none
    | names => some ("+".intercalate names)

/-- The references of the named layers. -/
def layerRefs : List ToolPolicy → List String
  | [] => []
  | layer :: layers => (policyRef layer).toList ++ layerRefs layers

end

mutual

/-- The policies that answer for themselves. -/
def singles : ToolPolicy → List Nat
  | .single id _ => [id]
  | .strictest layers => singlesOf layers

def singlesOf : List ToolPolicy → List Nat
  | [] => []
  | layer :: layers => singles layer ++ singlesOf layers

end

end ToolPolicy

/-! ## The gate -/

/-- An audit record of the governed path: of the call's decision, or of the approval it was given. -/
inductive AuditDraft where
  | toolCall (args : Value) (decision : AuditDecision) (policyRef reason : Option String)
  | approval (args : Value) (decision : AuditDecision) (source : String) (edited : Option Value)

/-- A held call, as it is submitted to the approval service. -/
structure ApprovalCall where
  scope : ApprovalScope
  request : ToolConfirmationRequest
  reason : String
  agentName : String
  invocationId : String
  runId : Option String
  acting : Option ActingContext

/-- What the governed path reads of a run's configuration. -/
structure GateConfig where
  /-- The controls that are checked, known by numbers. -/
  governance : List Nat := []
  toolPolicy : Option ToolPolicy := none
  audit : Bool := false
  /-- The decisions for call identifiers, and the fingerprints they are bound to. -/
  toolConfirmationDecisions : Dict ToolConfirmationDecision := ∅
  toolConfirmationFingerprints : Dict String := ∅
  /-- The approvals keyed by fingerprint. -/
  toolApprovals : Dict ToolApproval := ∅
  approvalStore : Bool := false
  approvalService : Bool := false
  toolConfirmationHandler : Bool := false
  toolConfirmationTimeout : Option Duration := some 300000000000
  durableRunId : Option String := none

/-- The run-wide inputs of the governed path. -/
structure ToolGate where
  runConfig : GateConfig
  agentName : String
  invocationId : String
  scope : ApprovalScope
  acting : ActingContext
  screen : Bool := false
  /-- Whether the wait for the handler may be abandoned. -/
  abandon : Bool := false

/-- One call with its final arguments. -/
structure GovernedCall where
  toolName : String
  functionCallId : String
  args : Value
  effect : ToolEffect := .nonIdempotent
  requiresConfirmation : Bool := false
  origin : Option ToolOrigin := none
  /-- The held call that this one resumes. -/
  resumes : Option ToolConfirmationRequest := none

/-- What was concluded for one call. -/
inductive ToolAuthorization where
  | execute (args : Value) (confirmation : Option ToolConfirmationDecision)
  | refuse (reason : String) (confirmation : Option ToolConfirmationDecision)
  | pending (request : ToolConfirmationRequest) (reason : String)

/-- How the wait for a confirmation handler ends. -/
inductive HandlerAnswer where
  | decided (result : Except AdkError ToolApproval)
  | timedOut
  | abandoned

inductive GateOp where
  | check (control : Nat)
  | evaluateCall (policy : Nat) (request : ToolPolicyRequest) (call : PolicyCall)
  | screen (toolName : String) (args : Value)
  | now
  | takeApproval (scope : ApprovalScope) (fingerprint : String)
  | decideApproval (request : ToolConfirmationRequest) (timeout : Option Duration) (abandon : Bool)
  | recordPending (scope : ApprovalScope) (request : ToolConfirmationRequest)
  | submitCall (call : ApprovalCall)
  | record (draft : AuditDraft)

abbrev GateOp.Ret : GateOp → Type
  | .check _ => Except AdkError Unit
  | .evaluateCall .. => PolicyDecision
  | .screen .. => Except String Value
  | .now => Utc
  | .takeApproval .. => Except AdkError (Option ToolApproval)
  | .decideApproval .. => HandlerAnswer
  | .recordPending .. => Except AdkError Unit
  | .submitCall _ => Except AdkError Unit
  | .record _ => Except AdkError Unit

/-- A program of the governed path. -/
abbrev GateProg : Type → Type := ExceptT AdkError (Prog GateOp GateOp.Ret)

namespace GateProg

def ask (op : GateOp) : GateProg op.Ret := ExceptT.lift (Prog.perform op)

/-- Asks what may fail, and fails with it. -/
def attempt {α : Type} (result : GateProg (Except AdkError α)) : GateProg α := do
  match ← result with
  | .ok a => pure a
  | .error error => throw error

end GateProg

/-- `policy_ref` of a decision made by the kill switch. -/
def policyRefGovernance : String := "governance"

/-- `policy_ref` of a decision made by the run's policy. -/
def policyRefToolPolicy : String := "tool_policy"

/-- `policy_ref` of a refusal by the agent's tool screen. -/
def policyRefGuardrail : String := "guardrail"

/-- `policy_ref` of a call decided by its confirmation. -/
def policyRefConfirmation : String := "confirmation"

/-- Why a held call cannot be resumed, if it cannot. -/
def resumeMismatch (held : ToolConfirmationRequest) (acting : ActingContext) (origin : Option ToolOrigin) :
    Option String :=
  match held.acting with
  | none => some "the hold does not record which agent made the call"
  | some heldBy =>
    if heldBy.agent.id ≠ acting.agent.id then
      some s!"it was held for agent '{heldBy.agent.id.asStr}', and '{acting.agent.id.asStr}' is resuming it"
    else
      match held.origin, origin with
      | some heldOrigin, some origin =>
        if heldOrigin.source ≠ origin.source then
          some (s!"it was held for the tool '{heldOrigin.source}' publishes, and the name now resolves to " ++
            s!"'{origin.source}'")
        else if heldOrigin.declarationDigest ≠ origin.declarationDigest then
          some (s!"'{heldOrigin.source}' changed its description, parameters, or annotations after the call " ++
            "was held")
        else none
      | _, _ => some "the hold does not record which tool the call was made to"

section Path

variable [JsonText] (gate : ToolGate)

/-- Checks the kill switches of the run. -/
def checkGovernance : List Nat → GateProg Unit
  | [] => pure ()
  | control :: controls => do
    GateProg.attempt (GateProg.ask (.check control))
    checkGovernance controls

def record (draft : AuditDraft) : GateProg Unit :=
  if gate.runConfig.audit then GateProg.attempt (GateProg.ask (.record draft)) else pure ()

mutual

def evaluateCall (request : ToolPolicyRequest) (call : PolicyCall) : ToolPolicy → GateProg PolicyDecision
  | .single id _ => GateProg.ask (.evaluateCall id request call)
  | .strictest layers => evaluateLayers request call layers .allow

/-- Asks every layer, and keeps the strictest decision. -/
def evaluateLayers (request : ToolPolicyRequest) (call : PolicyCall) :
    List ToolPolicy → PolicyDecision → GateProg PolicyDecision
  | [], decision => pure decision
  | layer :: layers, decision => do
    let other ← evaluateCall request call layer
    evaluateLayers request call layers (decision.stricter other)

end

variable (call : GovernedCall)

/-- What a policy is asked about the call with some arguments. -/
def policyRequest (args : Value) : ToolPolicyRequest where
  toolName := call.toolName
  args := args
  effect := call.effect
  agentName := gate.agentName
  appName := gate.scope.appName
  userId := gate.scope.userId
  sessionId := gate.scope.sessionId
  invocationId := gate.invocationId
  acting := some gate.acting

def policyCall : PolicyCall := { origin := call.origin, functionCallId := some call.functionCallId }

/-- Asks the run's policy about the call with some arguments. -/
def evaluatePolicy (args : Value) : GateProg PolicyDecision :=
  match gate.runConfig.toolPolicy with
  | none => pure .allow
  | some policy => evaluateCall (policyRequest gate call args) (policyCall call) policy

/-- Asks the policy about some arguments, and the screen; asks the policy again about what the screen made of
them. A refusal of the screen is recorded, and given. -/
def evaluateAndScreen (args : Value) : GateProg (Except String (PolicyDecision × Value)) := do
  let decision ← evaluatePolicy gate call args
  if !decision.isDeny && gate.screen then
    match ← GateProg.ask (.screen call.toolName args) with
    | .ok screened =>
      if !screened.same args then
        -- the policy decided on the arguments it saw, not on the rewrite
        let again ← evaluatePolicy gate call screened
        return .ok (decision.stricter again, screened)
      else return .ok (decision, args)
    | .error reason =>
      record gate (.toolCall args .denied (some policyRefGuardrail) none)
      return .error reason
  else return .ok (decision, args)

/-- The request an approver is shown for the call with some arguments. -/
def confirmationRequest (args : Value) : ToolConfirmationRequest where
  toolName := call.toolName
  functionCallId := some call.functionCallId
  args := args
  acting := some gate.acting
  origin := call.origin

/-- A decision without expiry, edits or message. -/
def bareApproval : ToolConfirmationDecision → ToolApproval
  | .approve => .approve
  | .deny => .deny

/-- The decision for the call's identifier, unless it is bound to another fingerprint. -/
def decisionForCall (request : ToolConfirmationRequest) : Option ToolConfirmationDecision :=
  request.functionCallId.bind fun callId =>
    gate.runConfig.toolConfirmationDecisions[callId]?.filter fun _ =>
      gate.runConfig.toolConfirmationFingerprints[callId]?.all (· = request.fingerprint)

/-- Asks the live handler, which may take too long, or be abandoned. -/
def askHandler (request : ToolConfirmationRequest) : GateProg (Option (ToolApproval × String)) := do
  if !gate.runConfig.toolConfirmationHandler then return none
  match ← GateProg.ask (.decideApproval request gate.runConfig.toolConfirmationTimeout gate.abandon) with
  | .decided (.ok approval) => return some (approval, "handler")
  | .decided (.error error) => throw error
  | .timedOut => return some (.deny, "handler_timeout")
  | .abandoned => throw {
      component := .tool
      category := .internal
      code := "tool.legacy"
      message := s!"approval for tool '{request.toolName}' was abandoned because another approval in the " ++
        "same batch failed" }

/-- Takes the decision from the run's approval store, or asks the handler. -/
def takeOrAsk (request : ToolConfirmationRequest) : GateProg (Option (ToolApproval × String)) := do
  if gate.runConfig.approvalStore then
    match ← GateProg.attempt (GateProg.ask (.takeApproval gate.scope request.fingerprint)) with
    | some approval => return some (approval, "approval_store")
    | none => askHandler gate request
  else askHandler gate request

/-- Finds the decision for a request, asking the live handler last. -/
def resolveConfirmation (request : ToolConfirmationRequest) : GateProg (Option (ToolApproval × String)) := do
  match decisionForCall gate request with
  | some decision => return some (bareApproval decision, "call_id")
  | none =>
    match gate.runConfig.toolApprovals[request.fingerprint]? with
    | none => takeOrAsk gate request
    | some approval =>
      let now ← GateProg.ask .now
      if approval.isLive now then return some (approval, "fingerprint")
      takeOrAsk gate request

def recordHeldCall (request : ToolConfirmationRequest) (reason : String) : GateProg Unit := do
  if gate.runConfig.approvalStore then
    GateProg.attempt (GateProg.ask (.recordPending gate.scope request))
  if gate.runConfig.approvalService then
    GateProg.attempt (GateProg.ask (.submitCall {
      scope := gate.scope
      request
      reason
      agentName := gate.agentName
      invocationId := gate.invocationId
      runId := gate.runConfig.durableRunId
      acting := some gate.acting }))

/-- `policy_ref` of a decision of the run's policy, by its name when it has one. -/
def toolPolicyRef : Option String :=
  gate.runConfig.toolPolicy.map fun policy => match policy.policyRef with
    | some name => s!"{policyRefToolPolicy}:{name}"
    | none => policyRefToolPolicy

/-- Authorizes again a call whose approver substituted its arguments. -/
def authorizeEditedArgs (edited : Value) : GateProg ToolAuthorization := do
  match ← evaluateAndScreen gate call edited with
  | .error reason => return .refuse reason (some .approve)
  | .ok (.deny reason, args) =>
    record gate (.toolCall args .denied (toolPolicyRef gate) (some reason))
    return .refuse (s!"Tool '{call.toolName}' with the approver's edited arguments denied by policy: " ++ reason)
      (some .approve)
  | .ok (_, args) =>
    record gate (.toolCall args .allowed (some policyRefConfirmation) none)
    return .execute args (some .approve)

/-- Checks the kill switches, and records a refusal. -/
def checkFrozen (args : Value) : GateProg Unit :=
  tryCatch (checkGovernance gate.runConfig.governance) fun frozen => do
    record gate (.toolCall args .denied (some policyRefGovernance) none)
    throw frozen

/-- What follows from a decision about a call with some arguments. -/
def concludeConfirmed (args : Value) (approval : ToolApproval) (source : String) :
    GateProg ToolAuthorization := do
  match approval.decision with
  | .approve =>
    let edited := approval.editedArgs.filter fun edited => !edited.same args
    record gate (.approval args .approved source edited)
    -- a freeze can land while a person is deciding
    checkFrozen gate args
    match edited with
    | some edited => authorizeEditedArgs gate call edited
    | none =>
      record gate (.toolCall args .allowed (some policyRefConfirmation) none)
      return .execute args (some .approve)
  | .deny =>
    record gate (.approval args .rejected source none)
    record gate (.toolCall args .denied (some policyRefConfirmation) none)
    let reason := match approval.message with
      | some message => s!"Tool '{call.toolName}' was not run; the approver declined it: {message}"
      | none => s!"Tool '{call.toolName}' execution denied by confirmation policy"
    return .refuse reason (some .deny)

/-- Authorizes a call with its final arguments, of which approval may be required. -/
def confirm (args : Value) (approvalReason : Option String) : GateProg ToolAuthorization := do
  if !call.requiresConfirmation && approvalReason.isNone then
    record gate (.toolCall args .allowed (toolPolicyRef gate) none)
    return .execute args none
  let request := confirmationRequest gate call args
  match ← resolveConfirmation gate request with
  | some (approval, source) => concludeConfirmed gate call args approval source
  | none =>
    let heldBy := if approvalReason.isSome then toolPolicyRef gate else some policyRefConfirmation
    record gate (.toolCall args .approvalRequired heldBy approvalReason)
    let reason := match approvalReason with
      | some reason => s!"Tool '{call.toolName}' requires confirmation: {reason}"
      | none => s!"Tool '{call.toolName}' requires confirmation"
    recordHeldCall gate request reason
    return .pending request reason

/-- Runs one tool call through the governed path. -/
def authorizeToolCall : GateProg ToolAuthorization := do
  checkFrozen gate call.args
  match call.resumes.bind fun held => (resumeMismatch held gate.acting call.origin).map (held, ·) with
  | some (held, mismatch) =>
    -- the decision was for the call the approver saw, so it is spent with it
    if gate.runConfig.approvalStore then
      let _ ← GateProg.attempt (GateProg.ask (.takeApproval gate.scope held.fingerprint))
    record gate (.toolCall call.args .denied (some policyRefConfirmation) (some mismatch))
    return .refuse (s!"Tool '{call.toolName}' was not run: {mismatch}. Call it again if it is still needed; " ++
      "the new call needs its own approval.") none
  | none =>
    match ← evaluateAndScreen gate call call.args with
    | .error reason => return .refuse reason none
    | .ok (.deny reason, args) =>
      record gate (.toolCall args .denied (toolPolicyRef gate) (some reason))
      return .refuse s!"Tool '{call.toolName}' denied by policy: {reason}" none
    | .ok (.allow, args) => confirm gate call args none
    | .ok (.requireApproval reason, args) => confirm gate call args (some reason)

end Path

/-! ## The world of the path -/

/-- A kill switch: its state, and how it mirrors its store, when it does. -/
structure GovernanceControl where
  state : ControlState := {}
  mirror : Option GovernanceMirrorConfig := none

/-- What a control is asked. A control without a store is never stale. -/
def GovernanceControl.check (control : GovernanceControl) (now : Nat) : Except AdkError Unit :=
  control.state.check (control.mirror.getD { failOpen := true }) now

/-- The kill switches, and the time. -/
structure GateWorld where
  control : Nat → GovernanceControl
  now : Nat := 0

/-- A kill switch answers by its state; a handler takes too long, or is abandoned, only where it may. -/
def GateWorld.answers : (op : GateOp) → GateWorld → op.Ret → GateWorld → Prop
  | .check control, w, r, w' => r = (w.control control).check w.now ∧ w' = w
  | .decideApproval _ timeout abandon, w, r, w' =>
    (match r with
      | .decided _ => True
      | .timedOut => timeout.isSome = true
      | .abandoned => abandon = true) ∧ w' = w
  | _, w, _, w' => w' = w

/-- The world of the path: between what it asks, kill switches and time may change in any way. -/
def GateWorld.laws : Laws GateOp GateOp.Ret GateWorld where
  answers := GateWorld.answers
  moves _ _ := True

end Adk
