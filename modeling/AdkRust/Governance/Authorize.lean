import AdkRust.Governance.Gate

/-!
# A tool call executes only when everything that governs it agrees

What each part of the governed path has asked, and was answered, when it returns (`Adds`), from the kill
switches to the whole path (`authorizeToolCall_adds`).

* `Settled`: the policy was asked about the arguments, and the screen let them through.
* `Obtained`: an approval of a request, from one of the sources.
* `Governed`: what holds of a call that executes.
-/

namespace Adk
namespace GateRun

open ProcPool (Adds)

/-- What the path asked, and was answered. -/
abbrev GateEntry : Type := Entry GateOp.Ret GateWorld

def denies : GateEntry → Bool
  | ⟨_, .evaluateCall .., decision⟩ => decision.isDeny
  | _ => false

/-- Whether a policy allowed without an approval, or no policy was asked. -/
def passes : GateEntry → Bool
  | ⟨_, .evaluateCall .., decision⟩ => decision.isAllow
  | _ => true

def foundFrozen : GateEntry → Bool
  | ⟨w, .check control, _⟩ => (w.control control).state.isFrozen
  | _ => false

/-- Nothing that was asked was answered by a freeze or by a denial. -/
def Clear (log : List GateEntry) : Prop := ∀ entry ∈ log, foundFrozen entry = false ∧ denies entry = false

/-- Nor did a policy require an approval. -/
def Plain (log : List GateEntry) : Prop := Clear log ∧ ∀ entry ∈ log, passes entry = true

theorem Clear.nil : Clear [] := List.forall_mem_nil _

variable {log log' : List GateEntry}

theorem Clear.append (h : Clear log) (h' : Clear log') : Clear (log ++ log') := by
  intro entry hent
  rcases List.mem_append.mp hent with hent | hent
  · exact h entry hent
  · exact h' entry hent

theorem Plain.nil : Plain [] := ⟨.nil, List.forall_mem_nil _⟩

theorem Plain.append (h : Plain log) (h' : Plain log') : Plain (log ++ log') := by
  refine ⟨h.1.append h'.1, fun entry hent => ?_⟩
  rcases List.mem_append.mp hent with hent | hent
  · exact h.2 entry hent
  · exact h'.2 entry hent

theorem Plain.single {entry : GateEntry} (hfrz : foundFrozen entry = false) (hdenies : denies entry = false)
    (hpasses : passes entry = true) : Plain [entry] := by
  refine ⟨fun e he => ?_, fun e he => ?_⟩
  · obtain rfl := List.mem_singleton.mp he
    exact ⟨hfrz, hdenies⟩
  · obtain rfl := List.mem_singleton.mp he
    exact hpasses

section Policies

variable {gate : ToolGate} {call : GovernedCall}

/-! ## The kill switches and the records -/

theorem attempt_adds {α : Type} {Q : α → List GateEntry → Prop} {p : GateProg (Except AdkError α)}
    (h : Adds GateWorld.laws (fun r added => ∀ a, r = .ok a → Q a added) p) :
    Adds GateWorld.laws Q (GateProg.attempt p) := by
  refine ProcPool.Adds.bind h fun r added hr => ?_
  cases r with
  | ok a =>
    refine ProcPool.adds_pure ?_
    rw [List.append_nil]
    exact hr a rfl
  | error error => exact ProcPool.adds_throw

theorem check_ok {control : GovernanceControl} {now : Nat} (h : control.check now = .ok ()) :
    control.state.isFrozen = false := by
  by_cases hfrz : control.state.isFrozen = true
  · obtain ⟨error, herr⟩ :=
      ControlState.check_of_frozen (control.mirror.getD { failOpen := true }) now hfrz
    unfold GovernanceControl.check at h
    rw [herr] at h
    cases h
  · exact Bool.eq_false_iff.mpr hfrz

theorem checkGovernance_adds (controls : List Nat) :
    Adds GateWorld.laws (fun _ added => Plain added ∧
      ∀ control ∈ controls, ∃ w, ⟨w, .check control, .ok ()⟩ ∈ added) (checkGovernance controls) := by
  induction controls with
  | nil => exact ProcPool.adds_pure ⟨.nil, List.forall_mem_nil _⟩
  | cons control controls ih =>
    have hone : Adds GateWorld.laws (fun _ added => ∃ w : GateWorld,
        (w.control control).state.isFrozen = false ∧ added = [⟨w, .check control, .ok ()⟩])
        (GateProg.attempt (GateProg.ask (.check control))) := by
      refine attempt_adds (ProcPool.adds_perform ?_)
      rintro w r w' ⟨hr, -⟩ ⟨⟩ rfl
      exact ⟨w, check_ok hr.symm, rfl⟩
    refine ProcPool.Adds.bind hone ?_
    rintro _ _ ⟨w, hfrz, rfl⟩
    refine ih.mono ?_
    rintro _ added ⟨hpln, hchk⟩
    have hent : Plain [⟨w, .check control, .ok ()⟩] := .single hfrz rfl rfl
    refine ⟨hent.append hpln, fun c hc => ?_⟩
    rcases List.mem_cons.mp hc with rfl | hc
    · exact ⟨w, List.mem_cons_self⟩
    · obtain ⟨w', hw'⟩ := hchk c hc
      exact ⟨w', List.mem_cons_of_mem _ hw'⟩

theorem record_adds (draft : AuditDraft) :
    Adds GateWorld.laws (fun _ added => Plain added) (record gate draft) := by
  unfold record
  by_cases haud : gate.runConfig.audit = true
  · rw [if_pos haud]
    refine attempt_adds (ProcPool.adds_perform ?_)
    rintro w r w' - a rfl
    exact .single rfl rfl rfl
  · rw [if_neg haud]
    exact ProcPool.adds_pure .nil

/-- The kill switches are checked, and pass. -/
theorem checkFrozen_adds (gate : ToolGate) (args : Value) :
    Adds GateWorld.laws (fun _ added => Plain added ∧
      ∀ control ∈ gate.runConfig.governance, ∃ w, ⟨w, .check control, .ok ()⟩ ∈ added)
      (checkFrozen gate args) := by
  refine ProcPool.Adds.tryCatch (checkGovernance_adds _) fun error => ?_
  exact ProcPool.Adds.bind (record_adds _) fun _ _ _ => ProcPool.adds_throw

/-! ## The policy and the screen -/

/-- What a policy was asked: each policy that answers for itself about exactly the request, and the decision is
as strict as the strictest of their answers. -/
def Asked (request : ToolPolicyRequest) (policyCall : PolicyCall) (ids : List Nat) (decision : PolicyDecision)
    (log : List GateEntry) : Prop :=
  (∀ id ∈ ids, ∃ w decision, ⟨w, .evaluateCall id request policyCall, decision⟩ ∈ log) ∧
  (∀ entry ∈ log, foundFrozen entry = false) ∧
  (decision.isDeny = false → ∀ entry ∈ log, denies entry = false) ∧
  (decision.isAllow = true → ∀ entry ∈ log, passes entry = true)

theorem Asked.append {request : ToolPolicyRequest} {policyCall : PolicyCall} {ids ids' : List Nat}
    {decision other : PolicyDecision} {log log' : List GateEntry} (h : Asked request policyCall ids decision log)
    (h' : Asked request policyCall ids' other log') :
    Asked request policyCall (ids ++ ids') (decision.stricter other) (log ++ log') := by
  obtain ⟨hids, hfrz, hdeny, hallow⟩ := h
  obtain ⟨hids', hfrz', hdeny', hallow'⟩ := h'
  refine ⟨fun id hid => ?_, fun entry hent => ?_, fun hboth entry hent => ?_, fun hboth entry hent => ?_⟩
  · rcases List.mem_append.mp hid with hid | hid
    · obtain ⟨w, d, hmem⟩ := hids id hid
      exact ⟨w, d, List.mem_append_left _ hmem⟩
    · obtain ⟨w, d, hmem⟩ := hids' id hid
      exact ⟨w, d, List.mem_append_right _ hmem⟩
  · rcases List.mem_append.mp hent with hent | hent
    · exact hfrz entry hent
    · exact hfrz' entry hent
  · rw [PolicyDecision.isDeny_stricter, Bool.or_eq_false_iff] at hboth
    rcases List.mem_append.mp hent with hent | hent
    · exact hdeny hboth.1 entry hent
    · exact hdeny' hboth.2 entry hent
  · rw [PolicyDecision.isAllow_stricter, Bool.and_eq_true] at hboth
    rcases List.mem_append.mp hent with hent | hent
    · exact hallow hboth.1 entry hent
    · exact hallow' hboth.2 entry hent

theorem Asked.allow (request : ToolPolicyRequest) (policyCall : PolicyCall) :
    Asked request policyCall [] .allow [] :=
  ⟨List.forall_mem_nil _, List.forall_mem_nil _, fun _ => List.forall_mem_nil _, fun _ => List.forall_mem_nil _⟩

theorem Asked.single (request : ToolPolicyRequest) (policyCall : PolicyCall) (id : Nat) (w : GateWorld)
    (decision : PolicyDecision) :
    Asked request policyCall [id] decision [⟨w, .evaluateCall id request policyCall, decision⟩] := by
  refine ⟨fun i hi => ?_, fun entry hent => ?_, fun hdeny entry hent => ?_, fun hallow entry hent => ?_⟩
  · obtain rfl := List.mem_singleton.mp hi
    exact ⟨w, decision, List.mem_cons_self⟩
  · obtain rfl := List.mem_singleton.mp hent
    rfl
  · obtain rfl := List.mem_singleton.mp hent
    exact hdeny
  · obtain rfl := List.mem_singleton.mp hent
    exact hallow

mutual

theorem evaluateCall_adds (request : ToolPolicyRequest) (policyCall : PolicyCall) : (policy : ToolPolicy) →
    Adds GateWorld.laws (Asked request policyCall policy.singles) (evaluateCall request policyCall policy)
  | .single id name => by
    rw [evaluateCall, ToolPolicy.singles]
    exact ProcPool.adds_perform fun w decision w' _ => Asked.single request policyCall id w decision
  | .strictest layers => by
    rw [evaluateCall, ToolPolicy.singles]
    exact evaluateLayers_adds request policyCall layers (Asked.allow request policyCall)

theorem evaluateLayers_adds (request : ToolPolicyRequest) (policyCall : PolicyCall) :
    (layers : List ToolPolicy) → {ids : List Nat} → {decision : PolicyDecision} → {log : List GateEntry} →
      (h : Asked request policyCall ids decision log) → Adds GateWorld.laws (fun all added =>
        Asked request policyCall (ids ++ ToolPolicy.singlesOf layers) all (log ++ added))
        (evaluateLayers request policyCall layers decision)
  | [], ids, decision, log, h => by
    rw [evaluateLayers, ToolPolicy.singlesOf, List.append_nil]
    refine ProcPool.adds_pure ?_
    rw [List.append_nil]
    exact h
  | layer :: layers, ids, decision, log, h => by
    rw [evaluateLayers, ToolPolicy.singlesOf]
    refine ProcPool.Adds.bind (evaluateCall_adds request policyCall layer) fun other added hoth => ?_
    refine (evaluateLayers_adds request policyCall layers (h.append hoth)).mono fun all added' hall => ?_
    rw [List.append_assoc, List.append_assoc] at hall
    exact hall

end

/-! ## The screen -/

/-- The policy was asked about the arguments, and the screen gave them or accepted them. -/
structure Settled (gate : ToolGate) (call : GovernedCall) (given args : Value) (log : List GateEntry) :
    Prop where
  asked : ∀ policy, gate.runConfig.toolPolicy = some policy → ∀ id ∈ policy.singles, ∃ w decision,
    ⟨w, .evaluateCall id (policyRequest gate call args) (policyCall call), decision⟩ ∈ log
  screened : gate.screen = true → ∃ w screened, ⟨w, .screen call.toolName given, .ok screened⟩ ∈ log ∧
    (args = screened ∨ (args = given ∧ screened.same given = true))
  unscreened : gate.screen = false → args = given

theorem Settled.mono {given args : Value} (h : Settled gate call given args log)
    (hsub : ∀ entry ∈ log, entry ∈ log') : Settled gate call given args log' where
  asked policy hpolicy id hid := by
    obtain ⟨w, decision, hmem⟩ := h.asked policy hpolicy id hid
    exact ⟨w, decision, hsub _ hmem⟩
  screened hscreen := by
    obtain ⟨w, screened, hmem, hargs⟩ := h.screened hscreen
    exact ⟨w, screened, hsub _ hmem, hargs⟩
  unscreened := h.unscreened

theorem evaluatePolicy_adds (gate : ToolGate) (call : GovernedCall) (args : Value) :
    Adds GateWorld.laws (fun decision added => ∃ ids, Asked (policyRequest gate call args) (policyCall call) ids
      decision added ∧ ∀ policy, gate.runConfig.toolPolicy = some policy → ids = policy.singles)
      (evaluatePolicy gate call args) := by
  unfold evaluatePolicy
  cases hpolicy : gate.runConfig.toolPolicy with
  | none =>
    refine ProcPool.adds_pure ⟨[], Asked.allow _ _, ?_⟩
    rintro policy ⟨⟩
  | some policy =>
    refine (evaluateCall_adds _ _ policy).mono fun decision added hask => ⟨_, hask, ?_⟩
    rintro _ ⟨⟩
    rfl

theorem Asked.settles {ids : List Nat} {args : Value} {decision : PolicyDecision}
    (hask : Asked (policyRequest gate call args) (policyCall call) ids decision log)
    (hids : ∀ policy, gate.runConfig.toolPolicy = some policy → ids = policy.singles)
    (hsub : ∀ entry ∈ log, entry ∈ log') :
    ∀ policy, gate.runConfig.toolPolicy = some policy → ∀ id ∈ policy.singles, ∃ w decision,
      ⟨w, .evaluateCall id (policyRequest gate call args) (policyCall call), decision⟩ ∈ log' := by
  intro policy hpolicy id hid
  obtain ⟨w, d, hmem⟩ := hask.1 id (hids policy hpolicy ▸ hid)
  exact ⟨w, d, hsub _ hmem⟩

/-- What was asked about some arguments, when the decision is none to deny. -/
def Screened (gate : ToolGate) (call : GovernedCall) (given : Value) (result : PolicyDecision × Value)
    (log : List GateEntry) : Prop :=
  result.1.isDeny = false → Settled gate call given result.2 log ∧ Clear log ∧
    (result.1.isAllow = true → ∀ entry ∈ log, passes entry = true)

theorem Asked.clear {request : ToolPolicyRequest} {policyCall : PolicyCall} {ids : List Nat}
    {decision : PolicyDecision} (h : Asked request policyCall ids decision log)
    (hdeny : decision.isDeny = false) : Clear log :=
  fun entry hent => ⟨h.2.1 entry hent, h.2.2.1 hdeny entry hent⟩

/-- **The policy is asked about what the screen makes of the arguments.** -/
theorem evaluateAndScreen_adds (given : Value) :
    Adds GateWorld.laws (fun result added => ∀ settled, result = .ok settled →
      Screened gate call given settled added) (evaluateAndScreen gate call given) := by
  unfold evaluateAndScreen
  refine ProcPool.Adds.bind (evaluatePolicy_adds gate call given) ?_
  rintro decision asked ⟨ids, hask, hids⟩
  by_cases hscreen : (!decision.isDeny && gate.screen) = true
  · rw [if_pos hscreen]
    obtain ⟨hdeny, hscreen⟩ := Bool.and_eq_true_iff.mp hscreen
    refine ProcPool.Adds.bind (ProcPool.adds_perform (Q := fun result added => ∃ w : GateWorld,
      added = [⟨w, .screen call.toolName given, result⟩]) fun w result _ _ => ⟨w, rfl⟩) ?_
    rintro result _ ⟨w, rfl⟩
    have hans : Plain [⟨w, .screen call.toolName given, result⟩] := .single rfl rfl rfl
    cases result with
    | error reason =>
      refine ProcPool.Adds.bind (record_adds _) fun _ _ _ => ProcPool.adds_pure ?_
      rintro settled ⟨⟩
    | ok screened =>
      by_cases hsame : screened.same given = true
      · -- the screen accepts the arguments
        simp only [hsame, Bool.not_true, Bool.false_eq_true, if_false]
        refine ProcPool.adds_pure ?_
        rintro _ ⟨⟩ hallowed
        have hdeny : decision.isDeny = false := hallowed
        rw [List.append_nil]
        refine ⟨⟨hask.settles hids fun _ h => List.mem_append_left _ h, fun _ => ⟨w, screened, ?_, .inr ⟨rfl,
          hsame⟩⟩, fun hno => absurd hscreen (by simp [hno])⟩, (hask.clear hdeny).append hans.1, ?_⟩
        · exact List.mem_append_right _ List.mem_cons_self
        · intro hallow entry hent
          rcases List.mem_append.mp hent with hent | hent
          · exact hask.2.2.2 hallow entry hent
          · exact hans.2 entry hent
      · simp only [hsame, Bool.not_false, if_true]
        refine ProcPool.Adds.bind (evaluatePolicy_adds gate call screened) ?_
        rintro again asked' ⟨ids', hask', hids'⟩
        refine ProcPool.adds_pure ?_
        rintro _ ⟨⟩ hallowed
        rw [PolicyDecision.isDeny_stricter, Bool.or_eq_false_iff] at hallowed
        obtain ⟨hdeny, hdeny'⟩ := hallowed
        rw [List.append_nil]
        refine ⟨⟨hask'.settles hids' fun _ h => ?_, fun _ => ⟨w, screened, ?_, .inl rfl⟩,
          fun hno => absurd hscreen (by simp [hno])⟩,
          (hask.clear hdeny).append (hans.1.append (hask'.clear hdeny')), ?_⟩
        · exact List.mem_append_right _ (List.mem_append_right _ h)
        · exact List.mem_append_right _ (List.mem_append_left _ List.mem_cons_self)
        · intro hallow entry hent
          rw [PolicyDecision.isAllow_stricter, Bool.and_eq_true] at hallow
          rcases List.mem_append.mp hent with hent | hent
          · exact hask.2.2.2 hallow.1 entry hent
          rcases List.mem_append.mp hent with hent | hent
          · exact hans.2 entry hent
          · exact hask'.2.2.2 hallow.2 entry hent
  · rw [if_neg hscreen]
    refine ProcPool.adds_pure ?_
    rintro _ ⟨⟩ hallowed
    have hdeny : decision.isDeny = false := hallowed
    have hno : gate.screen = false := by simpa [hdeny] using hscreen
    rw [List.append_nil]
    exact ⟨⟨hask.settles hids fun _ h => h, fun hyes => absurd hyes (by simp [hno]), fun _ => rfl⟩,
      hask.clear hdeny, hask.2.2.2⟩

end Policies

section Confirmations

variable [JsonText] {gate : ToolGate} {call : GovernedCall}

/-! ## The confirmation -/

/-- An approval of a request: the decision for the call's identifier where it is bound to no other
fingerprint, a live one for the fingerprint, one taken from the store, or the handler's. -/
def Obtained (gate : ToolGate) (request : ToolConfirmationRequest) (approval : ToolApproval)
    (log : List GateEntry) : Prop :=
  (∃ callId decision, request.functionCallId = some callId ∧
      gate.runConfig.toolConfirmationDecisions[callId]? = some decision ∧
      (∀ expected, gate.runConfig.toolConfirmationFingerprints[callId]? = some expected →
        expected = request.fingerprint) ∧ approval = bareApproval decision) ∨
  (gate.runConfig.toolApprovals[request.fingerprint]? = some approval ∧
    ∃ w now, ⟨w, .now, now⟩ ∈ log ∧ approval.isLive now = true) ∨
  (∃ w, ⟨w, .takeApproval gate.scope request.fingerprint, .ok (some approval)⟩ ∈ log) ∨
  (∃ w timeout abandon, ⟨w, .decideApproval request timeout abandon, .decided (.ok approval)⟩ ∈ log)

theorem Obtained.mono {request : ToolConfirmationRequest} {approval : ToolApproval}
    {log log' : List GateEntry} (h : Obtained gate request approval log)
    (hsub : ∀ entry ∈ log, entry ∈ log') : Obtained gate request approval log' := by
  rcases h with h | ⟨happroval, w, now, hmem, hlive⟩ | ⟨w, hmem⟩ | ⟨w, timeout, abandon, hmem⟩
  · exact .inl h
  · exact .inr (.inl ⟨happroval, w, now, hsub _ hmem, hlive⟩)
  · exact .inr (.inr (.inl ⟨w, hsub _ hmem⟩))
  · exact .inr (.inr (.inr ⟨w, timeout, abandon, hsub _ hmem⟩))

theorem decisionForCall_eq {request : ToolConfirmationRequest} {decision : ToolConfirmationDecision}
    (h : decisionForCall gate request = some decision) (log : List GateEntry) :
    Obtained gate request (bareApproval decision) log := by
  left
  obtain ⟨callId, hcall, h⟩ := Option.bind_eq_some_iff.mp h
  obtain ⟨hdec, hbd⟩ := Option.filter_eq_some_iff.mp h
  refine ⟨callId, decision, hcall, hdec, fun expected hexpected => ?_, rfl⟩
  rw [hexpected] at hbd
  exact of_decide_eq_true hbd

/-- What the confirmation asked: nothing of a kill switch or a policy; and an approval is one obtained. -/
def Resolved (gate : ToolGate) (request : ToolConfirmationRequest) (result : Option (ToolApproval × String))
    (log : List GateEntry) : Prop :=
  Plain log ∧ ∀ approval source, result = some (approval, source) → approval.decision = .approve →
    Obtained gate request approval log

theorem askHandler_adds (request : ToolConfirmationRequest) :
    Adds GateWorld.laws (Resolved gate request) (askHandler gate request) := by
  unfold askHandler
  by_cases hhand : (!gate.runConfig.toolConfirmationHandler) = true
  · rw [if_pos hhand]
    refine ProcPool.adds_pure ⟨.nil, ?_⟩
    rintro _ _ ⟨⟩
  · rw [if_neg hhand]
    refine ProcPool.Adds.bind (ProcPool.adds_perform (Q := fun answer added => ∃ w : GateWorld, added =
      [⟨w, .decideApproval request gate.runConfig.toolConfirmationTimeout gate.abandon, answer⟩])
      fun w _ _ _ => ⟨w, rfl⟩) ?_
    rintro answer _ ⟨w, rfl⟩
    have hpln : Plain [⟨w, .decideApproval request gate.runConfig.toolConfirmationTimeout gate.abandon,
      answer⟩] := .single rfl rfl rfl
    cases answer with
    | abandoned => exact ProcPool.adds_throw
    | timedOut =>
      refine ProcPool.adds_pure ⟨hpln, ?_⟩
      rintro _ _ ⟨⟩ ⟨⟩
    | decided result =>
      cases result with
      | error error => exact ProcPool.adds_throw
      | ok approval =>
        refine ProcPool.adds_pure ⟨hpln, ?_⟩
        rintro _ _ ⟨⟩ -
        exact .inr (.inr (.inr ⟨w, _, _, List.mem_cons_self⟩))

theorem takeOrAsk_adds (request : ToolConfirmationRequest) :
    Adds GateWorld.laws (Resolved gate request) (takeOrAsk gate request) := by
  unfold takeOrAsk
  by_cases hsto : gate.runConfig.approvalStore = true
  · rw [if_pos hsto]
    have htake : Adds GateWorld.laws (fun taken added => ∃ w : GateWorld,
        added = [⟨w, .takeApproval gate.scope request.fingerprint, .ok taken⟩])
        (GateProg.attempt (GateProg.ask (.takeApproval gate.scope request.fingerprint))) := by
      refine attempt_adds (ProcPool.adds_perform ?_)
      rintro w r w' - taken rfl
      exact ⟨w, rfl⟩
    refine ProcPool.Adds.bind htake ?_
    rintro taken _ ⟨w, rfl⟩
    have hpln : Plain [⟨w, .takeApproval gate.scope request.fingerprint, .ok taken⟩] := .single rfl rfl rfl
    cases taken with
    | some approval =>
      refine ProcPool.adds_pure ⟨hpln, ?_⟩
      rintro _ _ ⟨⟩ -
      exact .inr (.inr (.inl ⟨w, List.mem_cons_self⟩))
    | none =>
      refine (askHandler_adds request).mono fun result added hresolved => ?_
      refine ⟨hpln.append hresolved.1, fun approval source hres happr => ?_⟩
      exact (hresolved.2 approval source hres happr).mono fun _ h => List.mem_append_right _ h
  · rw [if_neg hsto]
    exact askHandler_adds request

/-- **A decision is bound to the call**: by its identifier or its fingerprint. -/
theorem resolveConfirmation_adds (request : ToolConfirmationRequest) :
    Adds GateWorld.laws (Resolved gate request) (resolveConfirmation gate request) := by
  unfold resolveConfirmation
  cases hdec : decisionForCall gate request with
  | some decision =>
    refine ProcPool.adds_pure ⟨.nil, ?_⟩
    rintro _ _ ⟨⟩ -
    exact decisionForCall_eq hdec []
  | none =>
    cases happroval : gate.runConfig.toolApprovals[request.fingerprint]? with
    | none => exact takeOrAsk_adds request
    | some approval =>
      refine ProcPool.Adds.bind (ProcPool.adds_perform (Q := fun now added => ∃ w : GateWorld,
        added = [⟨w, .now, now⟩]) fun w _ _ _ => ⟨w, rfl⟩) ?_
      rintro now _ ⟨w, rfl⟩
      have hpln : Plain [⟨w, .now, now⟩] := .single rfl rfl rfl
      by_cases hlive : approval.isLive now = true
      · rw [if_pos hlive]
        refine ProcPool.adds_pure ⟨hpln, ?_⟩
        rintro _ _ ⟨⟩ -
        exact .inr (.inl ⟨happroval, w, now, List.mem_cons_self, hlive⟩)
      · rw [if_neg hlive]
        refine (takeOrAsk_adds request).mono fun result added hresolved => ?_
        refine ⟨hpln.append hresolved.1, fun approval source hres happr => ?_⟩
        exact (hresolved.2 approval source hres happr).mono fun _ h => List.mem_append_right _ h

/-! ## The whole path -/

/-- Why a call may execute with some arguments, after its own arguments were let through: no approval was
needed of it, or one was given, which may have edited them. -/
def Approved (gate : ToolGate) (call : GovernedCall) (own args : Value) (log : List GateEntry) : Prop :=
  ∃ approval, approval.decision = .approve ∧
    Obtained gate (confirmationRequest gate call own) approval log ∧
    (args = own ∨ ∃ edited, approval.editedArgs = some edited ∧ Settled gate call edited args log)

/-- What holds of a call that executes. -/
structure Governed (gate : ToolGate) (call : GovernedCall) (args : Value) (log : List GateEntry) : Prop where
  /-- Each kill switch was checked, and none that was checked was frozen. -/
  unfrozen : (∀ control ∈ gate.runConfig.governance, ∃ w, ⟨w, .check control, .ok ()⟩ ∈ log) ∧
    ∀ entry ∈ log, foundFrozen entry = false
  /-- The policy was asked about exactly the arguments. -/
  asked : ∀ policy, gate.runConfig.toolPolicy = some policy → ∀ id ∈ policy.singles, ∃ w decision,
    ⟨w, .evaluateCall id (policyRequest gate call args) (policyCall call), decision⟩ ∈ log
  /-- No policy denied. -/
  undenied : ∀ entry ∈ log, denies entry = false
  screened : gate.screen = true → ∃ w given screened, ⟨w, .screen call.toolName given, .ok screened⟩ ∈ log ∧
    (args = screened ∨ (args = given ∧ screened.same given = true))
  /-- The call's own arguments were let through, and an approval of them was obtained where one is needed. -/
  approved : ∃ own, Settled gate call call.args own log ∧
    (call.requiresConfirmation = true ∨ (∃ entry ∈ log, passes entry = false) ∨ args ≠ own →
      Approved gate call own args log)
  resumed : ∀ held, call.resumes = some held → ∃ acting heldOrigin origin, held.acting = some acting ∧
    acting.agent.id = gate.acting.agent.id ∧ held.origin = some heldOrigin ∧ call.origin = some origin ∧
    heldOrigin.source = origin.source ∧ heldOrigin.declarationDigest = origin.declarationDigest

theorem Approved.mono {own args : Value} {log log' : List GateEntry} (h : Approved gate call own args log)
    (hsub : ∀ entry ∈ log, entry ∈ log') : Approved gate call own args log' := by
  obtain ⟨approval, happr, hobtained, hargs⟩ := h
  refine ⟨approval, happr, hobtained.mono hsub, ?_⟩
  rcases hargs with hargs | ⟨edited, hedited, hset⟩
  · exact .inl hargs
  · exact .inr ⟨edited, hedited, hset.mono hsub⟩

omit [JsonText] in
/-- Edited arguments pass the policy and the screen again. -/
theorem authorizeEditedArgs_adds (edited : Value) :
    Adds GateWorld.laws (fun result added => ∀ args confirmation, result = .execute args confirmation →
      Settled gate call edited args added ∧ Clear added) (authorizeEditedArgs gate call edited) := by
  unfold authorizeEditedArgs
  refine ProcPool.Adds.bind (evaluateAndScreen_adds edited) fun result asked hask => ?_
  have hexecutes : ∀ (args : Value) (added : List GateEntry) (c : Option ToolConfirmationDecision),
      Settled gate call edited args asked → Clear asked → Plain added →
      ∀ args' c', ToolAuthorization.execute args c = .execute args' c' →
        Settled gate call edited args' (asked ++ added) ∧ Clear (asked ++ added) := by
    rintro args added c hset hclr hpln _ _ ⟨⟩
    exact ⟨hset.mono fun _ h => List.mem_append_left _ h, hclr.append hpln.1⟩
  match result, hask with
  | .error reason, _ =>
    refine ProcPool.adds_pure ?_
    rintro _ _ ⟨⟩
  | .ok (.deny reason, args), _ =>
    refine ProcPool.Adds.bind (record_adds _) fun _ _ _ => ProcPool.adds_pure ?_
    rintro _ _ ⟨⟩
  | .ok (.allow, args), hask =>
    refine ProcPool.Adds.bind (record_adds _) fun _ added hpln => ProcPool.adds_pure ?_
    rw [List.append_nil]
    obtain ⟨hset, hclr, -⟩ := hask _ rfl rfl
    exact hexecutes args added _ hset hclr hpln
  | .ok (.requireApproval reason, args), hask =>
    refine ProcPool.Adds.bind (record_adds _) fun _ added hpln => ProcPool.adds_pure ?_
    rw [List.append_nil]
    obtain ⟨hset, hclr, -⟩ := hask _ rfl rfl
    exact hexecutes args added _ hset hclr hpln

omit [JsonText] in
theorem concludeConfirmed_adds (own : Value) (approval : ToolApproval) (source : String) :
    Adds GateWorld.laws (fun result added => ∀ args confirmation, result = .execute args confirmation →
      approval.decision = .approve ∧ Clear added ∧
        (args = own ∨ ∃ edited, approval.editedArgs = some edited ∧ Settled gate call edited args added))
      (concludeConfirmed gate call own approval source) := by
  unfold concludeConfirmed
  cases hdec : approval.decision with
  | deny =>
    refine ProcPool.Adds.bind (record_adds _) fun _ _ _ =>
      ProcPool.Adds.bind (record_adds _) fun _ _ _ => ProcPool.adds_pure ?_
    rintro _ _ ⟨⟩
  | approve =>
    refine ProcPool.Adds.bind (record_adds _) fun _ recorded hrecd => ?_
    refine ProcPool.Adds.bind (checkFrozen_adds gate own) fun _ checked hchk => ?_
    cases hedited : approval.editedArgs.filter fun edited => !edited.same own with
    | none =>
      refine ProcPool.Adds.bind (record_adds _) fun _ added hpln => ProcPool.adds_pure ?_
      rintro _ _ ⟨⟩
      rw [List.append_nil]
      exact ⟨rfl, hrecd.1.append (hchk.1.1.append hpln.1), .inl rfl⟩
    | some edited =>
      refine (authorizeEditedArgs_adds edited).mono fun result added hadd => ?_
      intro args confirmation hres
      obtain ⟨hset, hclr⟩ := hadd args confirmation hres
      refine ⟨rfl, hrecd.1.append (hchk.1.1.append hclr), .inr ⟨edited, ?_, ?_⟩⟩
      · exact (Option.filter_eq_some_iff.mp hedited).1
      · exact hset.mono fun _ h => List.mem_append_right _ (List.mem_append_right _ h)

theorem confirm_adds (own : Value) (approvalReason : Option String) :
    Adds GateWorld.laws (fun result added => ∀ args confirmation, result = .execute args confirmation →
      Clear added ∧ ((call.requiresConfirmation = false ∧ approvalReason = none ∧ args = own ∧
        ∀ entry ∈ added, passes entry = true) ∨ Approved gate call own args added))
      (confirm gate call own approvalReason) := by
  unfold confirm
  by_cases hfree : (!call.requiresConfirmation && approvalReason.isNone) = true
  · rw [if_pos hfree]
    obtain ⟨hrequires, hreason⟩ := Bool.and_eq_true_iff.mp hfree
    refine ProcPool.Adds.bind (record_adds _) fun _ added hpln => ProcPool.adds_pure ?_
    rintro _ _ ⟨⟩
    rw [List.append_nil]
    refine ⟨hpln.1, .inl ⟨by simpa using hrequires, Option.isNone_iff_eq_none.mp hreason, rfl, hpln.2⟩⟩
  · rw [if_neg hfree]
    refine ProcPool.Adds.bind (resolveConfirmation_adds _) fun result resolved hresolved => ?_
    match result, hresolved with
    | some (approval, source), hresolved =>
      refine (concludeConfirmed_adds own approval source).mono fun result added hadd => ?_
      intro args confirmation hres
      obtain ⟨happr, hclr, hargs⟩ := hadd args confirmation hres
      refine ⟨hresolved.1.1.append hclr, .inr ⟨approval, happr, ?_, ?_⟩⟩
      · exact (hresolved.2 approval source rfl happr).mono fun _ h => List.mem_append_left _ h
      · rcases hargs with hargs | ⟨edited, hedited, hset⟩
        · exact .inl hargs
        · exact .inr ⟨edited, hedited, hset.mono fun _ h => List.mem_append_right _ h⟩
    | none, _ =>
      refine ProcPool.Adds.bind (record_adds _) fun _ _ _ =>
        ProcPool.Adds.bind (ProcPool.adds_any _) fun _ _ _ => ProcPool.adds_pure ?_
      rintro _ _ ⟨⟩

omit [JsonText] in
theorem resumeMismatch_eq_none {held : ToolConfirmationRequest} {acting : ActingContext}
    {origin : Option ToolOrigin} (h : resumeMismatch held acting origin = none) :
    ∃ heldBy heldOrigin now, held.acting = some heldBy ∧ heldBy.agent.id = acting.agent.id ∧
      held.origin = some heldOrigin ∧ origin = some now ∧ heldOrigin.source = now.source ∧
        heldOrigin.declarationDigest = now.declarationDigest := by
  unfold resumeMismatch at h
  cases hacting : held.acting with
  | none =>
    rw [hacting] at h
    cases h
  | some heldBy =>
    rw [hacting] at h
    by_cases hagent : heldBy.agent.id = acting.agent.id
    · simp only [hagent, ne_eq, not_true_eq_false, if_false] at h
      cases hheld : held.origin with
      | none =>
        rw [hheld] at h
        cases h
      | some heldOrigin =>
        cases hori : origin with
        | none =>
          rw [hheld, hori] at h
          cases h
        | some now =>
          rw [hheld, hori] at h
          by_cases hsrc : heldOrigin.source = now.source
          · by_cases hdigest : heldOrigin.declarationDigest = now.declarationDigest
            · exact ⟨heldBy, heldOrigin, now, rfl, hagent, rfl, rfl, hsrc, hdigest⟩
            · simp [hsrc, hdigest] at h
          · simp [hsrc] at h
    · simp [hagent] at h

theorem Governed.of_parts {own args : Value} {approvalReason : Option String}
    {checked asked confirmed : List GateEntry} (hchk : Plain checked)
    (hall : ∀ control ∈ gate.runConfig.governance, ∃ w, ⟨w, .check control, .ok ()⟩ ∈ checked)
    (hset : Settled gate call call.args own asked) (hclr : Clear asked)
    (hpasses : approvalReason = none → ∀ entry ∈ asked, passes entry = true) (hconfirmed : Clear confirmed)
    (hwhy : (call.requiresConfirmation = false ∧ approvalReason = none ∧ args = own ∧
      ∀ entry ∈ confirmed, passes entry = true) ∨ Approved gate call own args confirmed)
    (hresumed : ∀ held, call.resumes = some held → resumeMismatch held gate.acting call.origin = none) :
    Governed gate call args (checked ++ (asked ++ confirmed)) := by
  have hclearAll : Clear (checked ++ (asked ++ confirmed)) := hchk.1.append (hclr.append hconfirmed)
  have hask : ∀ entry ∈ asked, entry ∈ checked ++ (asked ++ confirmed) :=
    fun _ h => List.mem_append_right _ (List.mem_append_left _ h)
  have hlast : ∀ entry ∈ confirmed, entry ∈ checked ++ (asked ++ confirmed) :=
    fun _ h => List.mem_append_right _ (List.mem_append_right _ h)
  -- the arguments that execute were settled, as the call's own or as the approver's
  have hargs : ∃ given, Settled gate call given args (checked ++ (asked ++ confirmed)) := by
    rcases hwhy with ⟨-, -, rfl, -⟩ | ⟨approval, -, -, rfl | ⟨edited, -, hedited⟩⟩
    · exact ⟨_, hset.mono hask⟩
    · exact ⟨_, hset.mono hask⟩
    · exact ⟨_, hedited.mono hlast⟩
  obtain ⟨given, hargs⟩ := hargs
  refine ⟨⟨fun control hctl => ?_, fun entry hent => (hclearAll entry hent).1⟩, hargs.asked,
    fun entry hent => (hclearAll entry hent).2, fun hscreen => ?_, ?_, fun held hheld => ?_⟩
  · obtain ⟨w, hw⟩ := hall control hctl
    exact ⟨w, List.mem_append_left _ hw⟩
  · obtain ⟨w, screened, hmem, hres⟩ := hargs.screened hscreen
    exact ⟨w, given, screened, hmem, hres⟩
  · refine ⟨own, hset.mono hask, fun hneed => ?_⟩
    rcases hwhy with ⟨hrequires, hreason, hsame, hrest⟩ | happroved
    · exfalso
      rcases hneed with hneed | ⟨entry, hent, hneed⟩ | hneed
      · rw [hrequires] at hneed
        cases hneed
      · have hpass : passes entry = true := by
          rcases List.mem_append.mp hent with hent | hent
          · exact hchk.2 entry hent
          rcases List.mem_append.mp hent with hent | hent
          · exact hpasses hreason entry hent
          · exact hrest entry hent
        rw [hpass] at hneed
        cases hneed
      · exact hneed hsame
    · exact happroved.mono hlast
  · exact resumeMismatch_eq_none (hresumed held hheld)

/-- **The whole path.** -/
theorem authorizeToolCall_adds (gate : ToolGate) (call : GovernedCall) :
    Adds GateWorld.laws (fun result added => ∀ args confirmation, result = .execute args confirmation →
      Governed gate call args added) (authorizeToolCall gate call) := by
  unfold authorizeToolCall
  refine ProcPool.Adds.bind (checkFrozen_adds gate call.args) ?_
  rintro _ checked ⟨hchk, hall⟩
  cases hresumes : call.resumes.bind fun held =>
      (resumeMismatch held gate.acting call.origin).map (held, ·) with
  | some mismatch =>
    obtain ⟨held, mismatch⟩ := mismatch
    by_cases hsto : gate.runConfig.approvalStore = true
    · simp only [hsto, if_true]
      refine ProcPool.Adds.bind (ProcPool.adds_any _) fun _ _ _ =>
        ProcPool.Adds.bind (ProcPool.adds_any _) fun _ _ _ => ProcPool.adds_pure ?_
      rintro _ _ ⟨⟩
    · simp only [hsto, Bool.false_eq_true, if_false]
      refine ProcPool.Adds.bind (ProcPool.adds_any _) fun _ _ _ => ProcPool.adds_pure ?_
      rintro _ _ ⟨⟩
  | none =>
    have hresumed : ∀ held, call.resumes = some held →
        resumeMismatch held gate.acting call.origin = none := by
      intro held hheld
      rw [hheld] at hresumes
      exact Option.map_eq_none_iff.mp hresumes
    refine ProcPool.Adds.bind (evaluateAndScreen_adds call.args) fun result asked hask => ?_
    match result, hask with
    | .error reason, _ =>
      refine ProcPool.adds_pure ?_
      rintro _ _ ⟨⟩
    | .ok (.deny reason, own), _ =>
      refine ProcPool.Adds.bind (ProcPool.adds_any _) fun _ _ _ => ProcPool.adds_pure ?_
      rintro _ _ ⟨⟩
    | .ok (.allow, own), hask =>
      refine (confirm_adds own none).mono fun result confirmed hconfirmed args confirmation hres => ?_
      obtain ⟨hset, hclr, hallow⟩ := hask _ rfl rfl
      obtain ⟨hclr', hwhy⟩ := hconfirmed args confirmation hres
      exact .of_parts hchk hall hset hclr (fun _ => hallow rfl) hclr' hwhy hresumed
    | .ok (.requireApproval reason, own), hask =>
      refine (confirm_adds own (some reason)).mono fun result confirmed hconfirmed args confirmation hres => ?_
      obtain ⟨hset, hclr, -⟩ := hask _ rfl rfl
      obtain ⟨hclr', hwhy⟩ := hconfirmed args confirmation hres
      refine .of_parts hchk hall hset hclr (fun hnone => ?_) hclr' hwhy hresumed
      cases hnone

/-- **A tool call executes only when everything that governs it agrees** on the arguments it executes with. -/
theorem execute_governed (gate : ToolGate) (call : GovernedCall) (args : Value)
    (confirmation : Option ToolConfirmationDecision) (log : List GateEntry)
    (h : Prog.Reaches (ProcPool.recording GateWorld.laws) ((authorizeToolCall gate call).run, [])
      (.pure (.ok (.execute args confirmation)), log)) : Governed gate call args log :=
  (authorizeToolCall_adds gate call).returned h args confirmation rfl

end Confirmations

/-! A payment that the screen rewrites, and that was approved for the call's identifier. -/

/-- The arguments of a payment. -/
def cents (n : Int) : Value := .object [("cents", .number (.int n))]

def buyer : AgentId := { asStr := "buyer", valid := by decide +kernel }

def payGate : ToolGate where
  runConfig := {
    governance := [0]
    toolPolicy := some (.strictest [.single 0 none, .single 1 (some "ops")])
    toolConfirmationDecisions := (∅ : Dict ToolConfirmationDecision).insert "call-1" .approve
    toolConfirmationFingerprints := (∅ : Dict String).insert "call-1"
      "buyer\x1fshop\x1fsha256:7\x1fpay\x1f\x7b\"cents\":4\x7d" }
  agentName := "buyer"
  invocationId := "inv-1"
  scope := { appName := "shop", userId := "u", sessionId := "s" }
  acting := { agent := { id := buyer } }
  screen := true

def payCall : GovernedCall where
  toolName := "pay"
  functionCallId := "call-1"
  args := cents 5
  origin := some { source := "shop", declarationDigest := "sha256:7" }

def payAnswer : (op : GateOp) → op.Ret
  | .check _ => .ok ()
  | .evaluateCall policy _ _ => if policy = 0 then .requireApproval "over the limit" else .allow
  | .screen _ _ => .ok (cents 4)
  | .now => 0
  | .takeApproval _ _ => .ok none
  | .decideApproval _ _ _ => .decided (.ok .deny)
  | .recordPending _ _ => .ok ()
  | .submitCall _ => .ok ()
  | .record _ => .ok ()

def executes : Except AdkError ToolAuthorization → Option (Value × Option ToolConfirmationDecision)
  | .ok (.execute args confirmation) => some (args, confirmation)
  | _ => none

theorem executes_eq_some {result : Except AdkError ToolAuthorization} {args : Value}
    {confirmation : Option ToolConfirmationDecision} (h : executes result = some (args, confirmation)) :
    result = .ok (.execute args confirmation) := by
  cases result with
  | error error => cases h
  | ok authorization =>
    cases authorization with
    | execute args' confirmation' =>
      obtain ⟨rfl, rfl⟩ := Prod.mk.inj (Option.some.inj h)
      rfl
    | refuse reason confirmation' => cases h
    | pending request reason => cases h

theorem execute_governed_pay : ∃ log, @Governed plainText payGate payCall (cents 4) log := by
  let _ : JsonText := plainText
  have hanswer : ∀ op, ∃ w', GateWorld.laws.answers op { control := fun _ => {} } (payAnswer op) w' := by
    intro op
    refine ⟨{ control := fun _ => {} }, ?_⟩
    cases op with
    | check control => exact ⟨rfl, rfl⟩
    | decideApproval request timeout abandon => exact ⟨trivial, rfl⟩
    | _ => rfl
  have hreaches := ProcPool.reaches_replay hanswer (authorizeToolCall payGate payCall).run []
  have hresult : executes (ProcPool.replay payAnswer ({ control := fun _ => {} } : GateWorld)
      (authorizeToolCall payGate payCall).run []).1 = some (cents 4, some .approve) := by decide +kernel
  rw [executes_eq_some hresult] at hreaches
  exact ⟨_, execute_governed payGate payCall (cents 4) (some .approve) _ hreaches⟩

end GateRun
end Adk
