import AdkRust.Core.Error
import AdkRust.Core.ToolCall

/-!
# Approval requests

A held call that waits for approvers, who may approve it, and who may approve for whom (`approval.rs`).

* `ApprovalRequest.isEligible`, `ApprovalRequest.isSelf`: the approvers of a request, and the parties of it.
* `ApprovalDelegation.appliesTo`: a delegation lets its delegate decide a request at a time.
* `authority`: who a decision is made for, or why it is refused.
* `inInbox`: whether a request is in the inbox of an approver, or of groups.
* `inInbox_iff_authority`: **the inbox holds what the approver may decide, except where the first live delegation is the
  requester's and a later one is not.**
-/

namespace Adk

namespace Approvals

/-! ## Requests -/

inductive ApprovalAction where
  | approve
  | edit
  | reject
  | respond
deriving DecidableEq

/-- Who may approve: one subject, or every member of a group. -/
inductive ApproverSelector where
  | subject (subject : SubjectRef)
  | group (group : String)
deriving DecidableEq

/-- Whether `subject`, a member of `groups`, is selected. -/
def ApproverSelector.selects (subject : SubjectRef) (groups : List String) : ApproverSelector → Bool
  | .subject selected => selected = subject
  | .group name => groups.contains name

/-- Approvers that a request gains some time after its creation. -/
structure EscalationStep where
  after : Duration
  to_ : List ApproverSelector
deriving DecidableEq

/-- Who must approve a request. -/
structure ApprovalPolicy where
  approvers : List ApproverSelector
  /-- Refuses decisions by the request's requester or acting agent, directly or through a delegation. -/
  forbidSelfApproval : Bool := true
  escalation : List EscalationStep := []
deriving DecidableEq

/-- Where a request is in its lifecycle. -/
inductive ApprovalState where
  | pending
  | approved
  | rejected
  | responded
  | expired
  | cancelled
deriving DecidableEq

/-- One held call, as its approvers see it. -/
structure ApprovalRequest where
  id : String
  scope : ApprovalScope
  toolName : String
  acting : Option ActingContext := none
  requester : Option SubjectRef := none
  createdAt : Utc
  policy : ApprovalPolicy
  state : ApprovalState := .pending
  escalationsFired : Nat := 0
  outcomeApplied : Bool := false

namespace ApprovalRequest

variable (request : ApprovalRequest)

/-- Whether the request may still change or still has an outcome to apply. -/
def isOpen : Bool := request.state = .pending || !request.outcomeApplied

/-- The approvers of the policy and of the escalation steps that fired. -/
def eligibleApprovers : List ApproverSelector :=
  request.policy.approvers ++ (request.policy.escalation.take request.escalationsFired).flatMap (·.to_)

/-- Whether `subject`, a member of `groups`, may decide the request. -/
def isEligible (subject : SubjectRef) (groups : List String) : Bool :=
  request.eligibleApprovers.any (·.selects subject groups)

/-- Whether two references are of one party. A human and a service of one name are. -/
def sameParty (subject other : SubjectRef) : Bool :=
  other.id = subject.id && (other.kind = subject.kind || other.kind ≠ .agent && subject.kind ≠ .agent)

/-- Whether `subject` is the requester, the subject acted for, or the acting agent. -/
def isSelf (subject : SubjectRef) : Bool :=
  request.requester.any (sameParty subject) ||
    request.acting.any fun acting =>
      acting.onBehalfOf.any (sameParty subject) || SubjectRef.agent acting.agent.id = subject

/-- Whether the policy refuses `subject` as a party of the request. -/
def refusesSelf (subject : SubjectRef) : Bool := request.policy.forbidSelfApproval && request.isSelf subject

end ApprovalRequest

/-! ## Delegations -/

/-- When a delegation holds: from its start up to its end. -/
structure DelegationWindow where
  notBefore : Utc
  notAfter : Utc
deriving DecidableEq

def DelegationWindow.contains (window : DelegationWindow) (time : Utc) : Bool :=
  window.notBefore ≤ time && time < window.notAfter

/-- The requests that a delegation covers: of any application and any tool, where it names none. -/
structure DelegationScope where
  appName : Option String := none
  toolNames : List String := []
deriving DecidableEq

def DelegationScope.covers (scope : DelegationScope) (request : ApprovalRequest) : Bool :=
  (scope.appName.all fun app => app = request.scope.appName) &&
    (scope.toolNames.isEmpty || scope.toolNames.contains request.toolName)

/-- A delegation of one approver's authority to another. -/
structure ApprovalDelegation where
  id : String
  from_ : SubjectRef
  fromGroups : List String := []
  to_ : SubjectRef
  window : DelegationWindow
  scope : DelegationScope := {}
deriving DecidableEq

namespace ApprovalDelegation

variable (delegation : ApprovalDelegation) (request : ApprovalRequest)

/-- Whether the delegation is of somebody who may decide the request, and covers it. -/
def concerns : Bool := delegation.scope.covers request && request.isEligible delegation.from_ delegation.fromGroups

/-- Whether the delegation lets its delegate decide `request` at a time. -/
def appliesTo (time : Utc) : Bool :=
  delegation.window.contains time && delegation.scope.covers request &&
    request.isEligible delegation.from_ delegation.fromGroups

theorem appliesTo_eq (time : Utc) :
    delegation.appliesTo request time = (delegation.window.contains time && delegation.concerns request) := by
  rw [appliesTo, concerns, Bool.and_assoc]

end ApprovalDelegation

/-- The delegations of a store, by their ids. -/
abbrev Delegations : Type := List ApprovalDelegation

/-- The delegations to an approver (`delegations_to`). -/
def Delegations.to (delegations : Delegations) (approver : SubjectRef) : List ApprovalDelegation :=
  delegations.filter fun delegation => delegation.to_ = approver

def liveDelegations (delegations : Delegations) (approver : SubjectRef) (time : Utc) : List ApprovalDelegation :=
  (delegations.to approver).filter fun delegation => delegation.window.contains time

/-! ## Decisions -/

structure ApprovalDecision where
  approver : SubjectRef
  approverGroups : List String := []
  /-- The delegator, where the approver names one. -/
  viaDelegation : Option SubjectRef := none
  kind : ApprovalAction

/-- The error of a decision that is refused. -/
def forbidden (code message : String) : AdkError where
  component := .agent
  category := .forbidden
  code
  message

/-- The authority that a decision is made under at a time, or why not: of the approver, or of a delegator. -/
def authority (delegations : Delegations) (request : ApprovalRequest) (decision : ApprovalDecision) (time : Utc) :
    Except AdkError (Option SubjectRef) :=
  let approver := decision.approver
  if request.refusesSelf approver then
    .error (forbidden "approval.self_approval"
      s!"'{approver.id}' may not approve their own call; ask another approver")
  else if request.isEligible approver decision.approverGroups && decision.viaDelegation.isNone then .ok none
  else
    let candidates := (delegations.to approver).filter fun delegation =>
      (decision.viaDelegation.all fun delegator => delegator = delegation.from_) && delegation.scope.covers request &&
        request.isEligible delegation.from_ delegation.fromGroups
    match candidates.find? fun delegation => delegation.window.contains time with
    | some live =>
      if request.refusesSelf live.from_ then
        .error (forbidden "approval.self_approval"
          s!"'{approver.id}' may not approve on behalf of '{live.from_.id}', the requester")
      else .ok (some live.from_)
    | none =>
      if !candidates.isEmpty then
        .error (forbidden "approval.delegation_inactive"
          s!"the delegation that lets '{approver.id}' approve this request is outside its window")
      else
        .error (forbidden "approval.not_an_approver"
          s!"'{approver.id}' is not an approver of request '{request.id}'")

/-- Whether the inbox of `approver` in `groups`, with `delegations`, holds `request`. -/
def inInbox (request : ApprovalRequest) (approver : Option SubjectRef) (groups : List String)
    (delegations : List ApprovalDelegation) (time : Utc) : Bool :=
  match approver with
  | none => groups.isEmpty || request.eligibleApprovers.any fun selector =>
      match selector with
      | .group name => groups.contains name
      | .subject _ => false
  | some approver =>
    if request.refusesSelf approver then false
    else request.isEligible approver groups || delegations.any fun delegation =>
      delegation.appliesTo request time && !request.refusesSelf delegation.from_

/-! ## The inbox against decisions -/

/-- The delegations to an approver that hold at a time, cover a request and are of somebody who may decide it. -/
def openDelegations (delegations : Delegations) (request : ApprovalRequest) (approver : SubjectRef) (time : Utc) :
    List ApprovalDelegation :=
  (delegations.to approver).filter fun delegation => delegation.appliesTo request time

/-- A request that its approver may decide only through delegations is theirs to decide through the first of these, or
through none. -/
def FirstDecides (delegations : Delegations) (request : ApprovalRequest) (approver : SubjectRef) (groups : List String)
    (time : Utc) : Prop :=
  request.refusesSelf approver = false → request.isEligible approver groups = false →
    ∀ first, (openDelegations delegations request approver time).head? = some first →
      request.refusesSelf first.from_ = true →
        ∀ later ∈ openDelegations delegations request approver time, request.refusesSelf later.from_ = true

variable {delegations : Delegations} {request : ApprovalRequest} {approver : SubjectRef} {groups : List String}
  {time : Utc}

theorem any_liveDelegations : ((liveDelegations delegations approver time).any fun delegation =>
    delegation.appliesTo request time && !request.refusesSelf delegation.from_) = true ↔
      ∃ delegation ∈ openDelegations delegations request approver time,
        request.refusesSelf delegation.from_ = false := by
  rw [List.any_eq_true]
  constructor
  · rintro ⟨delegation, hlive, happlies⟩
    rw [Bool.and_eq_true, Bool.not_eq_true'] at happlies
    exact ⟨delegation, List.mem_filter.mpr ⟨(List.mem_filter.mp hlive).1, happlies.1⟩, happlies.2⟩
  · rintro ⟨delegation, hopen, hoth⟩
    obtain ⟨hto, happlies⟩ := List.mem_filter.mp hopen
    have hwindow := happlies
    rw [ApprovalDelegation.appliesTo_eq, Bool.and_eq_true] at hwindow
    exact ⟨delegation, List.mem_filter.mpr ⟨hto, hwindow.1⟩, by simp [happlies, hoth]⟩

/-- The delegation that decides a request is the first that is open. -/
theorem find_candidates : (((delegations.to approver).filter fun delegation =>
      ((none : Option SubjectRef).all fun delegator => delegator = delegation.from_) &&
        delegation.scope.covers request && request.isEligible delegation.from_ delegation.fromGroups).find?
        fun delegation => delegation.window.contains time) =
      (openDelegations delegations request approver time).head? := by
  rw [← List.head?_filter, List.filter_filter, openDelegations]
  congr 2
  funext delegation
  simp [ApprovalDelegation.appliesTo, Bool.and_assoc]

/-- Whom a decision that names no delegator is made for. -/
theorem authority_isOk (kind : ApprovalAction) :
    (∃ by_, authority delegations request { approver, approverGroups := groups, kind } time = .ok by_) ↔
      request.refusesSelf approver = false ∧ (request.isEligible approver groups = true ∨
        ∃ first, (openDelegations delegations request approver time).head? = some first ∧
          request.refusesSelf first.from_ = false) := by
  unfold authority
  dsimp only
  rw [find_candidates]
  by_cases hself : request.refusesSelf approver = true
  · simp [hself]
  · rw [if_neg hself]
    by_cases helig : request.isEligible approver groups = true
    · simp [helig, hself]
    · rw [if_neg (by simp [helig])]
      cases hfst : (openDelegations delegations request approver time).head? with
      | none =>
        dsimp only
        split <;> simp [helig]
      | some first =>
        by_cases hoth : request.refusesSelf first.from_ = true <;> simp [hself, helig, hoth]

theorem inInbox_approver : inInbox request (some approver) groups (liveDelegations delegations approver time) time =
    true ↔ request.refusesSelf approver = false ∧ (request.isEligible approver groups = true ∨
      ∃ delegation ∈ openDelegations delegations request approver time,
        request.refusesSelf delegation.from_ = false) := by
  unfold inInbox
  by_cases hself : request.refusesSelf approver = true
  · simp [hself]
  · dsimp only
    rw [if_neg hself, Bool.or_eq_true, any_liveDelegations]
    simp [hself]

/-- **The inbox holds exactly what the approver may decide, where the first delegation that is open for the request
decides it or none does.** -/
theorem inInbox_iff_authority (delegations : Delegations) (request : ApprovalRequest) (approver : SubjectRef)
    (groups : List String) (kind : ApprovalAction) (time : Utc) :
    (inInbox request (some approver) groups (liveDelegations delegations approver time) time = true ↔
      ∃ by_, authority delegations request { approver, approverGroups := groups, kind } time = .ok by_) ↔
      FirstDecides delegations request approver groups time := by
  rw [authority_isOk, inInbox_approver]
  constructor
  · intro hsame hself heligible first hfirst hrefused later hlater
    by_cases hother : request.refusesSelf later.from_ = true
    · exact hother
    · -- the inbox holds the request for the later one, so the first decides it
      obtain ⟨-, h⟩ := hsame.mp ⟨hself, .inr ⟨later, hlater, Bool.eq_false_iff.mpr hother⟩⟩
      rcases h with h | ⟨first', hfirst', h⟩
      · rw [heligible] at h
        cases h
      · rw [hfirst] at hfirst'
        cases hfirst'
        rw [hrefused] at h
        cases h
  · intro hfirst
    constructor
    · rintro ⟨hself, heligible | ⟨later, hlater, hother⟩⟩
      · exact ⟨hself, .inl heligible⟩
      · refine ⟨hself, or_iff_not_imp_left.mpr fun heligible => ?_⟩
        obtain ⟨first, hhead⟩ := Option.isSome_iff_exists.mp
          (List.isSome_head?.mpr (List.ne_nil_of_mem hlater))
        refine ⟨first, hhead, Bool.eq_false_iff.mpr fun hrefused => ?_⟩
        rw [hfirst hself (Bool.eq_false_iff.mpr heligible) first hhead hrefused later hlater] at hother
        cases hother
    · rintro ⟨hself, heligible | ⟨first, hhead, hother⟩⟩
      · exact ⟨hself, .inl heligible⟩
      · exact ⟨hself, .inr ⟨first, List.mem_of_mem_head? hhead, hother⟩⟩

/-! A delegation of the requester stands before one of another approver. -/

def anasRequest : ApprovalRequest where
  id := "apr_1"
  scope := { appName := "app", userId := "ana", sessionId := "s" }
  toolName := "pay"
  requester := some { kind := .human, id := "ana" }
  createdAt := 0
  policy := { approvers := [.subject { kind := .human, id := "ana" }, .subject { kind := .human, id := "cho" }] }

def toBen : Delegations :=
  [{ id := "d1", from_ := { kind := .human, id := "ana" }, to_ := { kind := .human, id := "ben" }
     window := { notBefore := 0, notAfter := 10 } },
   { id := "d2", from_ := { kind := .human, id := "cho" }, to_ := { kind := .human, id := "ben" }
     window := { notBefore := 0, notAfter := 10 } }]

theorem not_inInbox_iff_authority : ¬ ∀ delegations request approver groups kind time,
    (inInbox request (some approver) groups (liveDelegations delegations approver time) time = true ↔
      ∃ by_, authority delegations request { approver, approverGroups := groups, kind } time = .ok by_) := by
  intro h
  obtain ⟨by_, hok⟩ := (h toBen anasRequest { kind := .human, id := "ben" } [] .approve 1).mp (by decide +kernel)
  have := (authority_isOk .approve).mp ⟨by_, hok⟩
  revert this
  decide +kernel

end Approvals

end Adk
