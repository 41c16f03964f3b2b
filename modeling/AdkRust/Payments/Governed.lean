import AdkRust.Lib.ProcPool
import AdkRust.Payments.Govern

/-!
# No payment operation escapes its governance

What `govern` does, whatever is answered (`Governing.governed`):

* `Cleared`: the operation starts after every guardrail was asked and none denied with a finding, an approver
  approved what was escalated, and the decision was written.
* `Settled`: the operation is started at most once, and each hold is settled once, as the operation's result says.

The facts of a log (`facts`) are what the guardrails answered, the start of the operation, and what was settled.
-/

namespace Adk

namespace Governing

open ProcPool

variable {RunOp : Type} {RunRet : RunOp → Type} {W : Type} {T : Type}

/-- An access of a governed operation and its answer. -/
abbrev GovernedEntry (RunRet : RunOp → Type) (W : Type) : Type := Entry (GovernedOp.Ret RunRet) W

/-- What a log says of guardrails, the operation and the holds. -/
inductive Fact where
  | asked (guardrail : Nat) (record : TransactionRecord) (protocol : ProtocolDescriptor)
      (context : PaymentPolicyContext) (answer : PaymentPolicyDecision × List SpendHold)
  | started
  | settled (hold : SpendHold) (amount : Option Nat)

def factOf : GovernedEntry RunRet W → Option Fact
  | ⟨_, .govern (.evaluate guardrail record protocol context), answer⟩ =>
    some (.asked guardrail record protocol context answer)
  | ⟨_, .govern (.commit hold amount), _⟩ => some (.settled hold (some amount))
  | ⟨_, .govern (.release hold), _⟩ => some (.settled hold none)
  | ⟨_, .run, _⟩ => some .started
  | _ => none

def facts (log : List (GovernedEntry RunRet W)) : List Fact := log.filterMap factOf

@[simp] theorem facts_nil : facts ([] : List (GovernedEntry RunRet W)) = [] := rfl

theorem facts_append (log log' : List (GovernedEntry RunRet W)) : facts (log ++ log') = facts log ++ facts log' :=
  List.filterMap_append

/-! ## What the guardrails answer -/

def denials (answers : List (PaymentPolicyDecision × List SpendHold)) : List PaymentPolicyFinding :=
  answers.flatMap (·.1.denied)

def escalations (answers : List (PaymentPolicyDecision × List SpendHold)) : List PaymentPolicyFinding :=
  answers.flatMap (·.1.escalated)

def held (answers : List (PaymentPolicyDecision × List SpendHold)) : List SpendHold := answers.flatMap (·.2)

def settleBy (settlement : Settlement) (hold : SpendHold) : Fact :=
  match settlement with
  | .commit actual => .settled hold (some (actual.getD hold.amountMicroUsd))
  | .release => .settled hold none

/-- How the holds of an operation are settled, by its result. -/
def settlementOf (settle : T → Settlement) : Except AdkError T → Settlement
  | .ok result => settle result
  | .error _ => .release

/-- A call of `govern`. -/
structure Call where
  operation : PaymentOperation
  record : TransactionRecord
  protocol : ProtocolDescriptor
  caller : PaymentCaller
  governor : PaymentGovernor

namespace Call

variable (call : Call)

def context : PaymentPolicyContext := policyContext call.operation call.caller call.governor

def asked (guardrails : List Nat) (answers : List (PaymentPolicyDecision × List SpendHold)) : List Fact :=
  List.zipWith (fun guardrail answer => .asked guardrail call.record call.protocol call.context answer) guardrails
    answers

/-- Each guardrail of the set was asked once, in order, and nothing else has happened. -/
structure Asked (answers : List (PaymentPolicyDecision × List SpendHold)) (log : List (GovernedEntry RunRet W)) :
    Prop where
  length : answers.length = call.governor.policies.length
  facts : facts log = call.asked call.governor.policies answers

/-- What was escalated was approved by the caller's approver. -/
def Approved (answers : List (PaymentPolicyDecision × List SpendHold)) (log : List (GovernedEntry RunRet W)) :
    Prop :=
  escalations answers ≠ [] → call.caller.approver = true ∧ ∃ w findings, findings.Perm (escalations answers) ∧
    ⟨w, .govern (.approve call.record findings), .ok .approved⟩ ∈ log

/-- The caller's trail was given the decision to go on, and wrote it when its failure blocks. -/
def Trailed (log : List (GovernedEntry RunRet W)) : Prop :=
  ∀ trail actor, call.caller.audit = some (trail, actor) → ∃ w decision findings result,
    (decision = .allowed ∨ decision = .approved) ∧
    ⟨w, .govern (.record (decisionDraft call.operation call.record call.protocol trail actor decision findings)),
      result⟩ ∈ log ∧ (trail.failureMode = .block → result = .ok ())

/-- The auditor recorded the decision to go on. -/
def Audited (log : List (GovernedEntry RunRet W)) : Prop :=
  call.governor.auditor = true → ∃ w escalated,
    ⟨w, .govern (.audit (auditEvent call.operation call.record call.protocol call.caller true escalated)),
      .ok ()⟩ ∈ log

/-- **When an operation starts**: no guardrail denied, what was escalated is approved, and the decision is
recorded. It has not been started before, and no hold is settled. -/
structure Cleared (log : List (GovernedEntry RunRet W)) : Prop where
  asked : ∃ answers, call.Asked answers log ∧ denials answers = [] ∧ call.Approved answers log
  trailed : call.Trailed log
  audited : call.Audited log

def Before (op : GovernedOp RunOp) (log : List (GovernedEntry RunRet W)) : Prop := op = .run → call.Cleared log

/-- **When `govern` returns**, each hold is settled, in the order they were taken: released when the operation was
not started or failed, and as `settle` says when it succeeded. The result is the operation's. -/
def Settled (run : ExceptT AdkError (Prog RunOp RunRet) T) (settle : T → Settlement) (result : Except AdkError T)
    (log : List (GovernedEntry RunRet W)) : Prop :=
  ∃ answers, answers.length = call.governor.policies.length ∧
    ((∃ error, result = .error error ∧ facts log =
      call.asked call.governor.policies answers ++ (held answers).map (settleBy .release)) ∨
    (∃ before w during after, log = before ++ ⟨w, .run, ()⟩ :: (during ++ after) ∧
      RunsTo run.run.inner during result ∧ facts log = call.asked call.governor.policies answers ++
        .started :: (held answers).map (settleBy (settlementOf settle result))))

end Call

/-! ## What each part leaves -/

section Parts

variable {call : Call} {laws : Laws (GovernedOp RunOp) (GovernedOp.Ret RunRet) W}

/-- What a part adds when it returns, and when it fails. -/
abbrev Part {α : Type} (laws : Laws (GovernedOp RunOp) (GovernedOp.Ret RunRet) W) (call : Call)
    (E : List (GovernedEntry RunRet W) → Prop) (Q : α → List (GovernedEntry RunRet W) → Prop)
    (p : GovernedProg RunRet α) : Prop := Leaves laws call.Before (fun _ => E) Q p

/-- The rule for an access of the governed path. -/
theorem ask_leaves {op : GovernOp} {E : List (GovernedEntry RunRet W) → Prop}
    {Q : op.Ret → List (GovernedEntry RunRet W) → Prop} (h : ∀ w r, Q r [⟨w, .govern op, r⟩]) :
    Part laws call E Q (GovernedProg.ask op) := by
  refine leaves_perform (fun log => ?_) fun w r _ _ => h w r
  rintro ⟨⟩

theorem askGuardrails_leaves (guardrails : List Nat) (denied escalated : List PaymentPolicyFinding)
    (holds : List SpendHold) : Part laws call (fun _ => False) (fun found added => ∃ answers,
      answers.length = guardrails.length ∧ facts added = call.asked guardrails answers ∧
      found = (denied ++ denials answers, escalated ++ escalations answers, holds ++ held answers))
      (askGuardrails call.record call.protocol call.context guardrails denied escalated holds) := by
  induction guardrails generalizing denied escalated holds with
  | nil =>
    refine leaves_pure ⟨[], rfl, rfl, ?_⟩
    simp [denials, escalations, held]
  | cons guardrail guardrails ih =>
    refine Leaves.bind (ask_leaves (E := fun _ => False) (Q := fun answer added => ∃ w,
      added = [⟨w, .govern (.evaluate guardrail call.record call.protocol call.context), answer⟩])
      fun w r => ⟨w, rfl⟩) (fun _ _ h => h) ?_
    rintro ⟨decision, taken⟩ _ ⟨w, rfl⟩
    refine (ih _ _ _).mono (fun _ _ h => h) ?_
    rintro found added ⟨answers, hlen, hfct, rfl⟩
    refine ⟨(decision, taken) :: answers, congrArg (· + 1) hlen, ?_, ?_⟩
    · rw [facts_append, hfct]
      rfl
    · simp [denials, escalations, held]

theorem releaseHolds_leaves (holds : List SpendHold) : Part laws call (fun _ => False)
    (fun _ added => facts added = holds.map (settleBy .release)) (releaseHolds holds) := by
  induction holds with
  | nil => exact leaves_pure rfl
  | cons hold holds ih =>
    refine Leaves.bind (ask_leaves (E := fun _ => False) (Q := fun _ added =>
      facts added = [settleBy .release hold]) fun w r => rfl) (fun _ _ h => h) fun _ added hadd => ?_
    refine ih.mono (fun _ _ h => h) fun _ added' hadd' => ?_
    rw [facts_append, hadd, hadd']
    rfl

theorem commitHolds_leaves (actual : Option Nat) (holds : List SpendHold) : Part laws call (fun _ => False)
    (fun _ added => facts added = holds.map (settleBy (.commit actual))) (commitHolds actual holds) := by
  induction holds with
  | nil => exact leaves_pure rfl
  | cons hold holds ih =>
    refine Leaves.bind (ask_leaves (E := fun _ => False) (Q := fun _ added =>
      facts added = [settleBy (.commit actual) hold]) fun w r => rfl) (fun _ _ h => h) fun _ added hadd => ?_
    refine ih.mono (fun _ _ h => h) fun _ added' hadd' => ?_
    rw [facts_append, hadd, hadd']
    rfl

theorem sortFindings_perm (findings : List PaymentPolicyFinding) : (sortFindings findings).Perm findings :=
  List.perm_insertionSort _ findings

theorem sortFindings_eq_nil {findings : List PaymentPolicyFinding} : sortFindings findings = [] ↔ findings = [] := by
  constructor
  · intro h
    have hperm := sortFindings_perm findings
    rw [h] at hperm
    exact hperm.nil_eq.symm
  · rintro rfl
    rfl

/-- What the policy set answers, and the holds it leaves. -/
def Evaluated (call : Call) (result : PaymentPolicyDecision × List SpendHold)
    (added : List (GovernedEntry RunRet W)) : Prop :=
  ∃ answers, answers.length = call.governor.policies.length ∧
    ((∃ findings, result = (.deny findings, []) ∧ facts added =
      call.asked call.governor.policies answers ++ (held answers).map (settleBy .release)) ∨
    (facts added = call.asked call.governor.policies answers ∧ denials answers = [] ∧ result.2 = held answers ∧
      (result.1 = .allow ∧ escalations answers = [] ∨
        ∃ findings, result.1 = .escalate findings ∧ findings.Perm (escalations answers))))

theorem evaluate_leaves : Part laws call (fun _ => False) (Evaluated call)
    (evaluate call.governor.policies call.record call.protocol call.context) := by
  refine Leaves.bind (askGuardrails_leaves _ [] [] []) (fun _ _ h => h) ?_
  rintro _ added ⟨answers, hlen, hfct, rfl⟩
  simp only [List.nil_append]
  split
  next hdenied =>
    refine Leaves.bind (releaseHolds_leaves _) (fun _ _ h => h) fun _ released hreld => ?_
    refine leaves_pure ⟨answers, hlen, .inl ⟨_, rfl, ?_⟩⟩
    rw [List.append_nil, facts_append, hfct, hreld]
  next hdenied =>
    rw [ne_eq, not_not, sortFindings_eq_nil] at hdenied
    split
    next hesc =>
      refine leaves_pure ⟨answers, hlen, .inr ⟨?_, hdenied, rfl, .inr ⟨_, rfl, sortFindings_perm _⟩⟩⟩
      rw [List.append_nil, hfct]
    next hesc =>
      rw [ne_eq, not_not, sortFindings_eq_nil] at hesc
      refine leaves_pure ⟨answers, hlen, .inr ⟨?_, hdenied, rfl, .inl ⟨rfl, hesc⟩⟩⟩
      rw [List.append_nil, hfct]

/-! ## The records of the decision -/

/-- A write of the caller's trail: what blocks is not written, and what is written was given to the recorder. -/
theorem record_leaves (trail : AuditTrail) (draft : AuditRecordDraft) : Part laws call (fun _ => False)
    (fun result added => facts added = [] ∧ (result = .ok () → ∃ w answer,
      ⟨w, .govern (.record draft), answer⟩ ∈ added ∧ (trail.failureMode = .block → answer = .ok ())))
      (trail.record draft) := by
  unfold AuditTrail.record
  refine Leaves.bind (ask_leaves (E := fun _ => False) (Q := fun answer added => ∃ w,
    added = [⟨w, .govern (.record draft), answer⟩]) fun w r => ⟨w, rfl⟩) (fun _ _ h => h) ?_
  rintro answer _ ⟨w, rfl⟩
  cases answer with
  | ok _ => exact leaves_pure ⟨rfl, fun _ => ⟨w, _, List.mem_cons_self, fun _ => rfl⟩⟩
  | error error =>
    cases hmode : trail.failureMode with
    | block => exact leaves_pure ⟨rfl, fun h => (by cases h)⟩
    | warn => exact leaves_pure ⟨rfl, fun _ => ⟨w, _, List.mem_cons_self, fun h => by cases h⟩⟩

def Given (call : Call) (decision : AuditDecision) (added : List (GovernedEntry RunRet W)) : Prop :=
  ∀ trail actor, call.caller.audit = some (trail, actor) → ∃ w findings result,
    ⟨w, .govern (.record (decisionDraft call.operation call.record call.protocol trail actor decision findings)),
      result⟩ ∈ added ∧ (trail.failureMode = .block → result = .ok ())

theorem callerRecord_leaves (decision : AuditDecision) (findings : List PaymentPolicyFinding) :
    Part laws call (fun _ => False) (fun result added => facts added = [] ∧
      (result = .ok () → Given call decision added))
      (callerRecord call.operation call.record call.protocol call.caller decision findings) := by
  unfold callerRecord
  split
  next hnone =>
    refine leaves_pure ⟨rfl, fun _ trail actor haud => ?_⟩
    rw [hnone] at haud
    cases haud
  next trail actor hsome =>
    refine (record_leaves trail _).mono (fun _ _ h => h) ?_
    rintro result added ⟨hfct, hwrtn⟩
    refine ⟨hfct, fun hok trail' actor' haud => ?_⟩
    obtain ⟨rfl, rfl⟩ := Prod.mk.inj (Option.some.inj (hsome.symm.trans haud))
    obtain ⟨w, answer, hmem, hblock⟩ := hwrtn hok
    exact ⟨w, findings, answer, hmem, hblock⟩

theorem orRelease_leaves (holds : List SpendHold) (written : Except AdkError Unit) :
    Part laws call (fun added => facts added = holds.map (settleBy .release))
      (fun _ added => facts added = [] ∧ written = .ok ()) (orRelease holds written) := by
  cases written with
  | ok _ => exact leaves_pure ⟨rfl, rfl⟩
  | error error =>
    refine Leaves.bind (releaseHolds_leaves holds) (fun _ _ h => h.elim) fun _ added hadd => ?_
    refine leaves_throw ?_
    rw [List.append_nil]
    exact hadd

theorem auditRefusal_leaves : Part laws call (fun _ => False) (fun _ added => facts added = [])
    (auditRefusal call.operation call.record call.protocol call.caller call.governor) := by
  unfold auditRefusal
  split
  · refine Leaves.bind (ask_leaves (E := fun _ => False) (Q := fun _ added => facts added = []) fun w r => rfl)
      (fun _ _ h => h) fun _ added hadd => leaves_pure ?_
    rw [List.append_nil]
    exact hadd
  · exact leaves_pure rfl

theorem refuse_leaves (decision : AuditDecision) (findings : List PaymentPolicyFinding) (error : AdkError) :
    Part laws call (fun added => facts added = []) (fun _ _ => False)
      (refuse call.operation call.record call.protocol call.caller call.governor decision findings error) := by
  unfold refuse
  refine Leaves.bind (callerRecord_leaves decision findings) (fun _ _ h => h.elim) ?_
  rintro _ added ⟨hadd, -⟩
  refine Leaves.bind auditRefusal_leaves (fun _ _ h => h.elim) fun _ added' hadd' => ?_
  refine leaves_throw ?_
  rw [List.append_nil, facts_append, hadd, hadd']
  rfl

variable {decision : PaymentPolicyDecision} {holds : List SpendHold} {log added : List (GovernedEntry RunRet W)}

/-- **What clears a decision**: it is recorded, and an approver approved what was escalated. -/
theorem clear_leaves (hdeny : ∀ findings, decision = .deny findings → holds = []) :
    Part laws call (fun added => facts added = holds.map (settleBy .release))
      (fun _ added => facts added = [] ∧ call.Trailed added ∧ (∀ findings, decision ≠ .deny findings) ∧
        ∀ findings, decision = .escalate findings → call.caller.approver = true ∧
          ∃ w, ⟨w, .govern (.approve call.record findings), .ok .approved⟩ ∈ added)
      (clear call.operation call.record call.protocol call.caller call.governor decision holds) := by
  unfold clear
  cases decision with
  | allow =>
    refine Leaves.bind (callerRecord_leaves .allowed []) (fun _ _ h => h.elim) ?_
    rintro written added ⟨hadd, hgiv⟩
    refine Leaves.bind (orRelease_leaves holds written) ?_ ?_
    · intro _ added' hadd'
      rw [facts_append, hadd, hadd', List.nil_append]
    · rintro _ added' ⟨hadd', hok⟩
      refine leaves_pure ⟨?_, ?_, fun findings h => (by cases h), fun findings h => (by cases h)⟩
      · rw [List.append_nil, facts_append, hadd, hadd']
        rfl
      · intro trail actor haud
        obtain ⟨w, findings, result, hmem, hblock⟩ := hgiv hok trail actor haud
        exact ⟨w, .allowed, findings, result, .inl rfl, List.mem_append_left _ hmem, hblock⟩
  | deny findings =>
    refine Leaves.bind (refuse_leaves .denied findings _) (fun _ added hadd => ?_) fun _ _ h => h.elim
    rw [hdeny findings rfl]
    exact hadd
  | escalate findings =>
    have hask : Part laws call (fun _ => False) (fun approval added => facts added = [] ∧
        (approval = .ok .approved → call.caller.approver = true ∧
          ∃ w, ⟨w, .govern (.approve call.record findings), .ok .approved⟩ ∈ added))
        (askApprover call.record call.caller findings) := by
      unfold askApprover
      split
      next happrover =>
        refine ask_leaves fun w r => ⟨rfl, fun hr => ⟨happrover, w, ?_⟩⟩
        rw [← hr]
        exact List.mem_cons_self
      · exact leaves_pure ⟨rfl, fun h => (by cases h)⟩
    refine Leaves.bind hask (fun _ _ h => h.elim) ?_
    rintro approval added ⟨hadd, happroved⟩
    cases hrefusal : approvalRefusal findings approval with
    | some refusal =>
      obtain ⟨error, decision⟩ := refusal
      refine Leaves.bind (releaseHolds_leaves holds) (fun _ _ h => h.elim) fun _ released hreld => ?_
      refine Leaves.bind (refuse_leaves decision findings error) (fun _ added' hadd' => ?_) fun _ _ h => h.elim
      rw [facts_append, facts_append, hadd, hreld, hadd', List.append_nil, List.nil_append]
    | none =>
      have happr : approval = .ok .approved := by
        cases approval with
        | error error => cases hrefusal
        | ok answer =>
          cases answer with
          | approved => rfl
          | denied => cases hrefusal
          | pending => cases hrefusal
      refine Leaves.bind (callerRecord_leaves .approved findings) (fun _ _ h => h.elim) ?_
      rintro written given ⟨hgiv, hwrtn⟩
      refine Leaves.bind (orRelease_leaves holds written) ?_ ?_
      · intro _ added' hadd'
        rw [facts_append, facts_append, hadd, hgiv, hadd', List.nil_append, List.nil_append]
      · rintro _ added' ⟨hadd', hok⟩
        refine leaves_pure ⟨?_, ?_, fun findings h => (by cases h), ?_⟩
        · rw [List.append_nil, facts_append, facts_append, hadd, hgiv, hadd']
          rfl
        · intro trail actor haud
          obtain ⟨w, findings, result, hmem, hblock⟩ := hwrtn hok trail actor haud
          exact ⟨w, .approved, findings, result, .inr rfl,
            List.mem_append_right _ (List.mem_append_left _ hmem), hblock⟩
        · rintro _ ⟨⟩
          obtain ⟨happrover, w, hmem⟩ := happroved happr
          exact ⟨happrover, w, List.mem_append_left _ hmem⟩

theorem auditAllowed_leaves (escalated : Bool) : Part laws call (fun _ => False)
    (fun result added => facts added = [] ∧ (result = .ok () → call.Audited added))
    (auditAllowed call.operation call.record call.protocol call.caller call.governor escalated) := by
  unfold auditAllowed
  split
  · refine Leaves.bind (ask_leaves (E := fun _ => False) (Q := fun answer added => ∃ w, added = [⟨w, .govern (.audit
      (auditEvent call.operation call.record call.protocol call.caller true escalated)), answer⟩])
      fun w r => ⟨w, rfl⟩) (fun _ _ h => h) ?_
    rintro answer _ ⟨w, rfl⟩
    cases answer with
    | ok _ => exact leaves_pure ⟨rfl, fun _ _ => ⟨w, escalated, List.mem_cons_self⟩⟩
    | error error => exact leaves_pure ⟨rfl, fun h => (by cases h)⟩
  next hno => exact leaves_pure ⟨rfl, fun _ hauditor => absurd hauditor hno⟩

theorem recordOutcome_leaves (succeeded : Bool) : Part laws call (fun _ => False) (fun _ added => facts added = [])
    (recordOutcome call.operation call.record call.protocol call.caller succeeded) := by
  unfold recordOutcome
  split
  · exact leaves_pure rfl
  · refine Leaves.bind (ask_leaves (E := fun _ => False) (Q := fun _ added => facts added = []) fun w r => rfl)
      (fun _ _ h => h) fun _ added hadd => leaves_pure ?_
    rw [List.append_nil]
    exact hadd

theorem inner_holds {α : Type} (p : Prog RunOp RunRet α) (log : List (GovernedEntry RunRet W)) :
    p.inner.Holds (recording laws) call.Before (fun a log' => ∃ during, log' = log ++ during ∧
      facts during = [] ∧ RunsTo p.inner during a) log := by
  induction p generalizing log with
  | pure a => exact holds_pure.mpr ⟨[], (List.append_nil log).symm, rfl, .pure⟩
  | ask op next ih =>
    refine holds_ask.mpr ⟨fun h => (by cases h), fun w r w' _ => ?_⟩
    refine (ih r _).mono ?_
    rintro a _ ⟨during, rfl, hfct, hruns⟩
    refine ⟨⟨w, .inner op, r⟩ :: during, by rw [List.append_assoc]; rfl, ?_, .ask hruns⟩
    exact hfct

theorem finish_leaves (settle : T → Settlement) (holds : List SpendHold) (result : Except AdkError T) :
    Leaves laws call.Before
      (fun error added => result = .error error ∧ facts added = holds.map (settleBy .release))
      (fun t added => result = .ok t ∧ facts added = holds.map (settleBy (settle t)))
      (finish settle holds result : GovernedProg RunRet T) := by
  cases result with
  | error error =>
    refine Leaves.bind (releaseHolds_leaves holds) (fun _ _ h => h.elim) fun _ added hadd => leaves_throw ?_
    rw [List.append_nil]
    exact ⟨rfl, hadd⟩
  | ok t =>
    have hstl : Part laws call (fun _ => False)
        (fun _ added => facts added = holds.map (settleBy (settle t))) (settleHolds holds (settle t)) := by
      cases settle t with
      | commit actual => exact commitHolds_leaves actual holds
      | release => exact releaseHolds_leaves holds
    refine Leaves.bind hstl (fun _ _ h => h.elim) fun _ added hadd => leaves_pure ?_
    rw [List.append_nil]
    exact ⟨rfl, hadd⟩

/-! ## The path as a whole -/

/-- What is known when an operation may start: what the guardrails answered, and the holds they took. -/
structure Ready (call : Call) (answers : List (PaymentPolicyDecision × List SpendHold))
    (log : List (GovernedEntry RunRet W)) : Prop where
  asked : call.Asked answers log
  allowed : denials answers = []
  approved : call.Approved answers log
  trailed : call.Trailed log

theorem Ready.fails {answers : List (PaymentPolicyDecision × List SpendHold)}
    {run : ExceptT AdkError (Prog RunOp RunRet) T}
    {settle : T → Settlement} (h : Ready call answers log) (error : AdkError)
    (hadd : facts added = (held answers).map (settleBy .release)) :
    call.Settled run settle (.error error) (log ++ added) := by
  refine ⟨answers, h.asked.length, .inl ⟨error, rfl, ?_⟩⟩
  rw [facts_append, h.asked.facts, hadd]

/-- More records keep what is known. -/
theorem Ready.append {answers : List (PaymentPolicyDecision × List SpendHold)}
    (h : Ready call answers log) (hadd : facts added = []) :
    Ready call answers (log ++ added) where
  asked := ⟨h.asked.length, by rw [facts_append, hadd, List.append_nil, h.asked.facts]⟩
  allowed := h.allowed
  approved hesc := by
    obtain ⟨happrover, w, findings, hperm, hmem⟩ := h.approved hesc
    exact ⟨happrover, w, findings, hperm, List.mem_append_left _ hmem⟩
  trailed trail actor haud := by
    obtain ⟨w, decision, findings, result, hdec, hmem, hblock⟩ := h.trailed trail actor haud
    exact ⟨w, decision, findings, result, hdec, List.mem_append_left _ hmem, hblock⟩

/-- What the policies allow, once it is cleared. -/
theorem Evaluated.ready (h : Evaluated call (decision, holds) log)
    (hadd : facts added = []) (htrailed : call.Trailed added) (hall : ∀ findings, decision ≠ .deny findings)
    (happroved : ∀ findings, decision = .escalate findings → call.caller.approver = true ∧
      ∃ w, ⟨w, .govern (.approve call.record findings), .ok .approved⟩ ∈ added) :
    ∃ answers, Ready call answers (log ++ added) ∧ held answers = holds := by
  obtain ⟨answers, hlen, ⟨findings, hres, -⟩ | ⟨hfct, hdenials, hhol, hdec⟩⟩ := h
  · exact absurd (Prod.mk.inj hres).1 (hall findings)
  refine ⟨answers, ⟨⟨hlen, ?_⟩, hdenials, fun hesc => ?_, ?_⟩, hhol.symm⟩
  · rw [facts_append, hadd, List.append_nil, hfct]
  · rcases hdec with ⟨-, hnone⟩ | ⟨findings, hescalate, hperm⟩
    · exact absurd hnone hesc
    · obtain ⟨happrover, w, hmem⟩ := happroved findings hescalate
      exact ⟨happrover, w, findings, hperm, List.mem_append_right _ hmem⟩
  · intro trail actor haud
    obtain ⟨w, decision, findings, result, hdec, hmem, hblock⟩ := htrailed trail actor haud
    exact ⟨w, decision, findings, result, hdec, List.mem_append_right _ hmem, hblock⟩

theorem Evaluated.fails {run : ExceptT AdkError (Prog RunOp RunRet) T}
    {settle : T → Settlement} (h : Evaluated call (decision, holds) log) (error : AdkError)
    (hadd : facts added = holds.map (settleBy .release)) :
    call.Settled run settle (.error error) (log ++ added) := by
  obtain ⟨answers, hlen, ⟨findings, hres, hfct⟩ | ⟨hfct, -, hhol, -⟩⟩ := h
  · refine ⟨answers, hlen, .inl ⟨error, rfl, ?_⟩⟩
    obtain ⟨-, rfl⟩ := Prod.mk.inj hres
    rw [facts_append, hadd, hfct]
    exact List.append_nil _
  · refine ⟨answers, hlen, .inl ⟨error, rfl, ?_⟩⟩
    obtain rfl : holds = held answers := hhol
    rw [facts_append, hadd, hfct]

/-- **What `govern` does**, step by step. -/
theorem govern_holds (run : ExceptT AdkError (Prog RunOp RunRet) T) (settle : T → Settlement) :
    Prog.Ensures (recording laws) call.Before (fun error log => call.Settled run settle (.error error) log)
      (fun t log => call.Settled run settle (.ok t) log)
      (govern call.operation call.record call.protocol call.caller call.governor run settle) [] := by
  unfold govern
  refine Prog.Ensures.bind (M := Evaluated call) ?_ ?_
  · refine Prog.Ensures.mono (evaluate_leaves []) ?_ ?_
    · rintro result _ ⟨added, rfl, h⟩
      exact h
    · rintro error _ ⟨added, rfl, h⟩
      exact h.elim
  rintro ⟨decision, holds⟩ log hevaluated
  have hdeny : ∀ findings, decision = .deny findings → holds = [] := by
    obtain ⟨answers, -, ⟨findings, hres, -⟩ | ⟨-, -, -, ⟨hallow, -⟩ | ⟨findings, hescalate, -⟩⟩⟩ := hevaluated
    · exact fun _ _ => (Prod.mk.inj hres).2
    · intro _ h
      cases hallow.symm.trans h
    · intro _ h
      cases hescalate.symm.trans h
  refine Prog.Ensures.bind (M := fun _ log => ∃ answers, Ready call answers log ∧ held answers = holds) ?_ ?_
  · refine Prog.Ensures.mono (clear_leaves hdeny log) ?_ ?_
    · rintro escalated _ ⟨added, rfl, hfct, htrailed, hall, happroved⟩
      exact hevaluated.ready hfct htrailed hall happroved
    · rintro error _ ⟨added, rfl, hfct⟩
      exact hevaluated.fails error hfct
  rintro escalated log ⟨answers, hready, rfl⟩
  refine Prog.Ensures.bind (M := fun written log => Ready call answers log ∧
    (written = .ok () → call.Audited log)) ?_ ?_
  · refine Prog.Ensures.mono (auditAllowed_leaves escalated log) ?_ ?_
    · rintro written _ ⟨added, rfl, hfct, haudited⟩
      refine ⟨hready.append hfct, fun hok hauditor => ?_⟩
      obtain ⟨w, escalated, hmem⟩ := haudited hok hauditor
      exact ⟨w, escalated, List.mem_append_right _ hmem⟩
    · rintro error _ ⟨added, rfl, h⟩
      exact h.elim
  rintro written log ⟨hready, haudited⟩
  refine Prog.Ensures.bind (M := fun _ log => Ready call answers log ∧ call.Audited log) ?_ ?_
  · refine Prog.Ensures.mono (orRelease_leaves (held answers) written log) ?_ ?_
    · rintro _ _ ⟨added, rfl, hfct, hok⟩
      refine ⟨hready.append hfct, fun hauditor => ?_⟩
      obtain ⟨w, escalated, hmem⟩ := haudited hok hauditor
      exact ⟨w, escalated, List.mem_append_left _ hmem⟩
    · rintro error _ ⟨added, rfl, hfct⟩
      exact hready.fails error hfct
  rintro _ log ⟨hready, haudited⟩
  -- the operation
  have hcleared : call.Cleared log := ⟨⟨answers, hready.asked, hready.allowed, hready.approved⟩, hready.trailed, haudited⟩
  refine Prog.Ensures.bind (M := fun _ log' => ∃ w, log' = log ++ [⟨w, .run, ()⟩]) ?_ ?_
  · exact ensures_perform (fun _ => hcleared) fun w _ _ _ => ⟨w, rfl⟩
  rintro _ _ ⟨w, rfl⟩
  refine Prog.Ensures.bind (M := fun result log' => ∃ during, log' = log ++ [⟨w, .run, ()⟩] ++ during ∧
    facts during = [] ∧ RunsTo run.run.inner during result) ?_ ?_
  · exact Prog.Ensures.lift (inner_holds run.run _)
  rintro result _ ⟨during, rfl, hduring, hruns⟩
  refine Prog.Ensures.bind (M := fun _ log' => ∃ recorded,
    log' = log ++ [⟨w, .run, ()⟩] ++ during ++ recorded ∧ facts recorded = []) ?_ ?_
  · refine Prog.Ensures.mono (recordOutcome_leaves result.isOk _) ?_ ?_
    · rintro _ _ ⟨added, rfl, hfct⟩
      exact ⟨added, rfl, hfct⟩
    · rintro error _ ⟨added, rfl, h⟩
      exact h.elim
  rintro _ _ ⟨recorded, rfl, hrecd⟩
  -- what is settled
  have hset : ∀ added, facts added = (held answers).map (settleBy (settlementOf settle result)) →
      call.Settled run settle result (log ++ [⟨w, .run, ()⟩] ++ during ++ recorded ++ added) := by
    intro added hadd
    refine ⟨answers, hready.asked.length, .inr ⟨log, w, during, recorded ++ added, ?_, hruns, ?_⟩⟩
    · simp only [List.append_assoc, List.cons_append, List.nil_append]
    · rw [facts_append, facts_append, facts_append, facts_append, hready.asked.facts, hduring, hrecd, hadd]
      simp [facts, factOf]
  refine Prog.Ensures.mono (finish_leaves settle (held answers) result _) ?_ ?_
  · rintro t _ ⟨added, rfl, rfl, hadd⟩
    exact hset added hadd
  · rintro error _ ⟨added, rfl, rfl, hadd⟩
    exact hset added hadd

/-- **No payment operation escapes its governance.** Whatever guardrails, approver, audit sinks, ledgers and the
operation answer: the operation starts only when it is cleared, and the holds are settled when `govern` returns. -/
theorem governed {run : ExceptT AdkError (Prog RunOp RunRet) T} {settle : T → Settlement}
    {p : Prog (GovernedOp RunOp) (GovernedOp.Ret RunRet) (Except AdkError T)} {log : List (GovernedEntry RunRet W)}
    (hreach : Prog.Reaches (recording laws) ((govern call.operation call.record call.protocol call.caller
      call.governor run settle).run, []) (p, log)) :
    (∀ before entry later, log = before ++ entry :: later → entry.op = .run → call.Cleared before) ∧
      ∀ result, p = .pure result → call.Settled run settle result log := by
  have hholds : Prog.Ensures (recording laws) call.Before (fun error log => call.Settled run settle (.error error) log)
      (fun t log => call.Settled run settle (.ok t) log)
      (govern call.operation call.record call.protocol call.caller call.governor run settle) [] := govern_holds run settle
  refine ⟨fun before entry later hlog hstart => ?_, fun result hp => ?_⟩
  · obtain ⟨added, rfl, hentries⟩ := holds_entries hholds hreach
    exact hentries before entry later hlog hstart
  · subst hp
    cases result with
    | ok t => exact hholds.returned hreach
    | error error => exact hholds.failed hreach

end Parts

/-! ## Runs -/

section Runs

/-- Anything is answered. -/
def free : Laws (GovernedOp Empty) (GovernedOp.Ret fun op => op.elim) Unit where
  answers _ _ _ _ := True
  moves _ _ := False

/-- An operation that is done at once. -/
def paid : ExceptT AdkError (Prog Empty fun op => op.elim) Nat := pure 7

/-- An entry of the log of a payment that asks nothing beyond its governance. -/
abbrev PaidEntry : Type := @GovernedEntry Empty (fun op => op.elim) Unit

def Call.answered (call : Call) (answer : (op : GovernedOp Empty) → GovernedOp.Ret (fun op => op.elim) op) :
    Except AdkError Nat × List PaidEntry :=
  replay answer () (govern call.operation call.record call.protocol call.caller call.governor paid
    fun _ => .commit none).run []

theorem Call.reaches_answered (call : Call)
    (answer : (op : GovernedOp Empty) → GovernedOp.Ret (fun op => op.elim) op) :
    Prog.Reaches (recording free) ((govern call.operation call.record call.protocol call.caller call.governor paid
      fun _ => .commit none).run, []) (.pure (call.answered answer).1, (call.answered answer).2) :=
  reaches_replay (fun _ => ⟨(), trivial⟩) _ _

/-- A guardrail that answers each question the same way, with one access of each kind that succeeds, but for the
recorder. -/
def answering (decision : PaymentPolicyDecision) (recorded : Except AdkError Unit) :
    (op : GovernedOp Empty) → GovernedOp.Ret (fun op => op.elim) op
  | .govern (.evaluate ..) => (decision, [{ ledger := "spend", reservation := "r-1", amountMicroUsd := 5 }])
  | .govern (.approve ..) => .ok .approved
  | .govern (.record _) => recorded
  | .govern (.audit _) => .ok ()
  | .govern (.commit ..) => .ok ()
  | .govern (.release _) => .ok ()
  | .run => ()
  | .inner op => op.elim

/-- A shopper's payment of fifteen dollars. -/
def shopping : TransactionRecord :=
  .new "tx-1" { actorId := "shopper", role := .agentSurface } { merchantId := "merchant-1", legalName := "Merchant" }
    .humanPresent { cartId := none, lines := [], subtotal := none, adjustments := [],
                    total := { currency := "USD", amountMinor := 1500, scale := 2 } } 0

def payment (caller : PaymentCaller) : Call where
  operation := .executePayment
  record := shopping
  protocol := { name := "ap2", version := none }
  caller
  governor := { policies := [0] }

/-- A payment that is escalated, and approved. -/
def approvedRun : Except AdkError Nat × List PaidEntry :=
  (payment { approver := true }).answered (answering (.escalate [⟨"amount", "large", .high⟩]) (.ok ()))

/-- The payment starts once it is approved, and its hold is committed. -/
theorem governed_approved : (payment { approver := true }).Settled paid (fun _ => .commit none) approvedRun.1
    approvedRun.2 ∧ approvedRun.1 = .ok 7 :=
  have hgoverned : (payment { approver := true }).Settled paid (fun _ => .commit none) approvedRun.1 approvedRun.2 :=
    (governed ((payment { approver := true }).reaches_answered
      (answering (.escalate [⟨"amount", "large", .high⟩]) (.ok ())))).2 _ rfl
  ⟨hgoverned, rfl⟩

/-- No guardrail answered a denial. -/
def Undenied (log : List (GovernedEntry RunRet W)) : Prop :=
  ∀ w guardrail record protocol context findings holds,
    ⟨w, .govern (.evaluate guardrail record protocol context), (.deny findings, holds)⟩ ∉ log

/-- The caller's trail recorded something. -/
def Recorded (call : Call) (log : List (GovernedEntry RunRet W)) : Prop :=
  call.caller.audit.isSome = true → ∃ w draft, ⟨w, .govern (.record draft), .ok ()⟩ ∈ log

/-- A trail that goes on without a record. -/
def warning : PaymentCaller where
  audit := some ({ failureMode := .warn, digest := fun _ => "" }, {})

/-- What an unreachable recorder answers. -/
def unreachable : AdkError where
  component := .auth
  category := .unavailable
  code := "audit.unreachable"
  message := "the recorder is unreachable"

/-- A payment starts without its record where the trail only warns, and after a denial that names no finding. -/
theorem escapes :
    (¬ ∀ (call : Call) (p : Prog (GovernedOp Empty) (GovernedOp.Ret fun op => op.elim) (Except AdkError Nat))
      (log : List PaidEntry),
      Prog.Reaches (recording free) ((govern call.operation call.record call.protocol call.caller call.governor paid
        fun _ => .commit none).run, []) (p, log) →
      ∀ before entry later, log = before ++ entry :: later → entry.op = .run → Recorded call before) ∧
    (¬ ∀ (call : Call) (p : Prog (GovernedOp Empty) (GovernedOp.Ret fun op => op.elim) (Except AdkError Nat))
      (log : List PaidEntry),
      Prog.Reaches (recording free) ((govern call.operation call.record call.protocol call.caller call.governor paid
        fun _ => .commit none).run, []) (p, log) →
      ∀ before entry later, log = before ++ entry :: later → entry.op = .run → Undenied before) := by
  refine ⟨fun h => ?unrecorded, fun h => ?denied⟩
  case unrecorded =>
    have hlog : ∃ first second third fourth, ((payment warning).answered (answering .allow (.error unreachable))).2 =
        [first, ⟨(), .govern (.record second), .error unreachable⟩] ++ ⟨(), .run, ()⟩ :: [third, fourth] ∧
        first = ⟨(), .govern (.evaluate 0 shopping { name := "ap2", version := none } (payment warning).context),
          (.allow, [{ ledger := "spend", reservation := "r-1", amountMicroUsd := 5 }])⟩ :=
      ⟨_, _, _, _, rfl, rfl⟩
    obtain ⟨first, second, third, fourth, hlog, hfirst⟩ := hlog
    obtain ⟨w, draft, hmem⟩ := h _ _ _ ((payment warning).reaches_answered _) _ _ _ hlog rfl rfl
    rcases List.mem_cons.mp hmem with hmem | hmem
    · rw [hfirst] at hmem
      cases hmem
    · cases List.mem_singleton.mp hmem
  case denied =>
    have hlog : ∃ first second, ((payment {}).answered (answering (.deny []) (.ok ()))).2 =
        [⟨(), .govern (.evaluate 0 shopping { name := "ap2", version := none } (payment {}).context),
          (.deny [], first)⟩] ++ ⟨(), .run, ()⟩ :: [second] := ⟨_, _, rfl⟩
    obtain ⟨first, second, hlog⟩ := hlog
    have hundenied := h _ _ _ ((payment {}).reaches_answered _) _ _ _ hlog rfl
    exact hundenied _ _ _ _ _ _ _ (List.mem_singleton_self _)

end Runs

end Governing

end Adk
