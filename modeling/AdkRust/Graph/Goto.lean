import AdkRust.Graph.StepFrame

/-!
# Graphs without `goto`

* `CompiledGraph.NoGoto`: no node of the graph and no error handler names successors.
* `Executes.noGoto`: a super-step of such a graph has no `goto` to follow, whatever it was resumed
  from.
-/

namespace Adk

/-- No node and no error handler of the graph names its own successors. -/
structure CompiledGraph.NoGoto (g : CompiledGraph) : Prop where
  execute : ∀ (name : String) (node : Node), g.nodes[name]? = some node →
    ∀ ctx moment output, node.execute ctx moment = .ok output → output.goto = none
  stream : ∀ (name : String) (node : Node), g.nodes[name]? = some node →
    ∀ ctx moment source targets,
      Except.ok (StreamEvent.routeDispatched source targets) ∉ node.executeStream ctx moment
  handler : ∀ (name : String) (handler : NodeErrorHandler), g.errorHandlerFor name = some handler →
    ∀ error state output, handler name error state = .ok output → output.goto = none

/-- No write names successors. -/
def NoGotoWrites (writes : Dict PendingWrite) : Prop :=
  ∀ (node : String) (write : PendingWrite), writes[node]? = some write → write.goto = none

theorem NoGotoWrites.empty : NoGotoWrites ∅ := by
  intro node write h
  simp at h

theorem NoGotoWrites.insert {writes : Dict PendingWrite} (h : NoGotoWrites writes) (node : String)
    {write : PendingWrite} (hw : write.goto = none) : NoGotoWrites (writes.insert node write) := by
  intro n w hn
  rw [Std.ExtTreeMap.getElem?_insert] at hn
  split at hn
  · exact Option.some.inj hn ▸ hw
  · exact h n w hn

/-! ## Executions -/

variable {tick : Nat} {output : NodeOutput}

theorem retryTimeouts_ok {node : Node} {ctx : NodeContext} {attempts : Nat → Attempt} {retries : Nat}
    (h : (retryTimeouts node ctx attempts tick retries).1 = .ok output) :
    ∃ moment, node.execute ctx moment = .ok output := by
  have hone : ∀ attempt : Attempt, executeOnceWithTimeout node ctx attempt = .ok output →
      ∃ moment, node.execute ctx moment = .ok output := by
    intro attempt ha
    unfold executeOnceWithTimeout at ha
    split at ha
    · cases ha
    · exact ⟨_, ha⟩
  induction retries generalizing tick with
  | zero => exact hone _ h
  | succ retries ih =>
    rw [retryTimeouts] at h
    split at h
    · exact ih h
    · exact hone _ h

theorem executeWithTimeout_ok {node : Node} {ctx : NodeContext} {policy : TimeoutPolicy}
    {attempts : Nat → Attempt} (h : (executeWithTimeout node ctx policy attempts tick).1 = .ok output) :
    output = {} ∨ ∃ moment, node.execute ctx moment = .ok output := by
  unfold executeWithTimeout at h
  split at h
  · exact .inr ⟨_, h⟩
  · split at h
    · exact .inr (retryTimeouts_ok h)
    · exact .inr (retryTimeouts_ok h)
    · split at h
      · cases h
        exact .inl rfl
      · exact .inr (retryTimeouts_ok h)

theorem Activation.attempt_ok {a : Activation} {env : Attempts} (h : (a.attempt env tick).1 = .ok output) :
    output = {} ∨ ∃ moment, a.node.execute a.ctx moment = .ok output := by
  unfold Activation.attempt at h
  split at h
  · exact executeWithTimeout_ok h
  · exact .inr ⟨_, h⟩

/-! ## The step -/

/-- A step that no node has routed so far. -/
structure Collected.NoGoto (c : Collected) : Prop where
  pendingWrites : NoGotoWrites c.exec.pendingWrites
  stepWrites : NoGotoWrites c.stepWrites
  goto : c.result.goto = ∅

theorem Collected.NoGoto.finish {c : Collected} (h : c.NoGoto) (node : String) {write : PendingWrite}
    (hw : write.goto = none) : (c.finish node write).NoGoto := by
  refine ⟨h.pendingWrites, h.stepWrites.insert node hw, ?_⟩
  simp only [Collected.finish, hw]
  exact h.goto

/-! ## Streams -/

namespace Streamed

variable {node : Node} {ctx : NodeContext} {policy : Option TimeoutPolicy}

theorem item_goto {s : Streamed} {event : StreamEvent}
    (he : ∀ source targets, event ≠ .routeDispatched source targets) : (s.item event).goto = s.goto := by
  cases event with
  | routeDispatched source targets => exact absurd rfl (he source targets)
  | _ => rfl

theorem consume_goto {s : Streamed} {items : List (Except GraphError StreamEvent)}
    (hi : ∀ source targets, .ok (.routeDispatched source targets) ∉ items) :
    (s.consume items).goto = s.goto := by
  induction items generalizing s with
  | nil => rfl
  | cons item items ih =>
    cases item with
    | error error => rfl
    | ok event =>
      rw [consume, ih fun source targets hm => hi source targets (by simp [hm])]
      exact item_goto fun source targets he => hi source targets (by simp [he])

variable (hn : ∀ ctx moment source targets,
  Except.ok (StreamEvent.routeDispatched source targets) ∉ node.executeStream ctx moment)
include hn

theorem attempt_goto (s : Streamed) (attempt : Attempt) :
    (s.attempt node ctx policy attempt).goto = s.goto := by
  have hits := hn ctx attempt.moment
  rw [Streamed.attempt]
  dsimp only
  split
  · split
    · exact consume_goto hits
    · rename_i count _ _ _ _
      have hpre : ∀ source targets, Except.ok (StreamEvent.routeDispatched source targets) ∉
          (node.executeStream ctx attempt.moment).take count :=
        fun source targets hm => hits source targets (List.mem_of_mem_take hm)
      have htake := consume_goto (s := { s with events := [], updates := [], timedOut := none }) hpre
      split
      · exact htake
      · exact htake
  · exact consume_goto hits

theorem node_goto (env : Nat → Attempt) : (Streamed.node node ctx policy env).goto = none := by
  have h : ∀ (retries tick : Nat) (s : Streamed),
      (attempts node ctx policy env retries tick s).goto = s.goto := by
    intro retries
    induction retries with
    | zero => exact fun tick s => attempt_goto hn s _
    | succ retries ih =>
      intro tick s
      rw [attempts]
      split
      · rw [ih, attempt_goto hn]
      · exact attempt_goto hn s _
  exact h _ _ _

end Streamed

/-- A step of a message stream that no node has routed so far. -/
structure Messages.NoGoto (m : Messages) : Prop where
  pendingWrites : NoGotoWrites m.exec.pendingWrites
  stepWrites : NoGotoWrites m.stepWrites
  goto : m.result.goto = ∅

namespace Exec

variable {g : CompiledGraph} {config : ExecutionConfig}

variable {e e' : Exec} {env : Attempts}

/-- The plan answers nodes from writes that name no successors. -/
theorem plan_noGoto {cached : Dict Value} (h : NoGotoWrites e.pendingWrites) :
    (plan cached e).1.NoGoto := by
  have h₁ : ∀ (nodes : List String) (acc : Collected × List String), acc.1.NoGoto →
      (nodes.foldl answerPending acc).1.NoGoto := by
    intro nodes acc hacc
    refine foldl_inv (fun _ (acc : Collected × List String) => acc.1.NoGoto) (fun node items acc hacc => ?_) hacc
    rw [answerPending]
    split
    · exact hacc.finish node (hacc.pendingWrites node _ ‹_›)
    · exact hacc
  have h₂ : ∀ (nodes : List String) (acc : Collected × List String), acc.1.NoGoto →
      (nodes.foldl (answerCached cached) acc).1.NoGoto := by
    intro nodes acc hacc
    refine foldl_inv (fun _ (acc : Collected × List String) => acc.1.NoGoto) (fun node items acc hacc => ?_) hacc
    rw [answerCached]
    split
    · exact Collected.NoGoto.finish (c := acc.1.addEvents _) ⟨hacc.1, hacc.2, hacc.3⟩ node rfl
    · exact hacc
  have h₃ := h₁ e.pendingNodes ({ exec := e }, []) ⟨h, .empty, rfl⟩
  simp only [plan]
  generalize e.pendingNodes.foldl answerPending ({ exec := e }, []) = acc at h₃
  obtain ⟨c, toRun⟩ := acc
  exact h₂ toRun (c, []) h₃

theorem applyNodeUpdates_pendingWrites {entry : String × Dict Value} :
    (applyNodeUpdates g e entry = .ok e' → e'.pendingWrites = e.pendingWrites) ∧
      ∀ error, applyNodeUpdates g e entry = .error (e', error) →
        e'.pendingWrites = e.pendingWrites := by
  rw [applyNodeUpdates]
  split
  · refine ⟨by simp, fun error h => ?_⟩
    cases h
    rfl
  · refine ⟨fun h => ?_, by simp⟩
    cases h
    rfl

theorem finishStep_noGoto {c : Collected} {result : Except GraphError SuperStepResult}
    (hc : c.NoGoto) (h : finishStep g c = (e', result)) :
    NoGotoWrites e'.pendingWrites ∧ ∀ r, result = .ok r → r.goto = ∅ := by
  rw [finishStep] at h
  split at h
  · cases h
    exact ⟨hc.stepWrites, by simp⟩
  · have hstep : ∀ (entry : String × Dict Value) (items : List (String × Dict Value)) (e₁ e₂ : Exec),
        NoGotoWrites e₁.pendingWrites → applyNodeUpdates g e₁ entry = .ok e₂ →
        NoGotoWrites e₂.pendingWrites := by
      intro entry items e₁ e₂ hw ha
      rw [applyNodeUpdates_pendingWrites.1 ha]
      exact hw
    dsimp only at h
    split at h
    · rename_i e₁ error heq
      cases h
      refine ⟨foldlM_error_inv (fun _ e₁ => NoGotoWrites e₁.pendingWrites)
        (Q := fun err => NoGotoWrites err.1.pendingWrites) hstep (fun entry items e₁ err hw ha => ?_)
        NoGotoWrites.empty heq, by simp⟩
      rw [applyNodeUpdates_pendingWrites.2 err.2 ha]
      exact hw
    · rename_i e₁ heq
      cases h
      refine ⟨foldlM_ok_inv (fun _ e₁ => NoGotoWrites e₁.pendingWrites) hstep NoGotoWrites.empty heq,
        fun r hr => ?_⟩
      cases hr
      exact hc.goto

variable (hg : g.NoGoto)
include hg

theorem collectOutput_noGoto {c : Collected} (hc : c.NoGoto) {output : Output}
    (ho : ∀ out, output.result = some (.ok out) → out.goto = none) :
    (∀ c', collectOutput g c output = .ok c' → c'.NoGoto) ∧
      ∀ e error, collectOutput g c output = .error (e, error) → NoGotoWrites e.pendingWrites := by
  rw [collectOutput]
  split
  · refine ⟨fun c' h => ?_, by simp⟩
    cases h
    exact hc
  · rename_i out hout
    dsimp only
    split
    · refine ⟨fun c' h => ?_, by simp⟩
      cases h
      exact ⟨hc.1, hc.2, hc.3⟩
    · refine ⟨fun c' h => ?_, by simp⟩
      cases h
      refine Collected.NoGoto.finish ?_ _ (ho out hout)
      exact ⟨hc.1, hc.2, hc.3⟩
  · dsimp only
    split
    · refine ⟨fun c' h => ?_, by simp⟩
      cases h
      exact ⟨hc.1, hc.2, hc.3⟩
    · rename_i handler hhand
      split
      · refine ⟨fun c' h => ?_, by simp⟩
        cases h
        exact ⟨hc.1, hc.2, hc.3⟩
      · split
        · refine ⟨by simp, fun e error h => ?_⟩
          cases h
          exact hc.1
        · rename_i recovery hrec
          refine ⟨fun c' h => ?_, by simp⟩
          cases h
          refine Collected.NoGoto.finish ?_ _ (hg.handler _ handler hhand _ _ _ hrec)
          exact ⟨hc.1, hc.2, hc.3⟩

/-- What the nodes of a step return names no successors. -/
theorem superStepIn_noGoto {cached : Dict Value} {recorded : List (String × Value)}
    {outputs : List Output} {result : Except GraphError SuperStepResult} (hw : NoGotoWrites e.pendingWrites)
    (h : SuperStepIn g config cached env recorded e outputs (e', result)) :
    NoGotoWrites e'.pendingWrites ∧ ∀ r, result = .ok r → r.goto = ∅ := by
  rw [SuperStepIn] at h
  split at h
  · obtain ⟨-, ho⟩ := h
    cases ho
    exact ⟨hw, fun r hr => by cases hr; rfl⟩
  · obtain ⟨hd, ho⟩ := h
    have hout : ∀ out ∈ outputs, ∀ output, out.result = some (.ok output) → output.goto = none := by
      intro out hmem output hok
      obtain ⟨a, ha, -, tick, hatt⟩ := hd.returned hmem hok
      simp only [toDispatch, List.mem_filterMap, Option.map_eq_some_iff] at ha
      obtain ⟨name, -, node, hnode, rfl⟩ := ha
      rcases Activation.attempt_ok hatt with rfl | ⟨moment, hexec⟩
      · rfl
      · exact hg.execute name node hnode _ _ _ hexec
    have h0 : Collected.NoGoto { (plan cached e).1 with
        exec := { (plan cached e).1.exec with
          childLedger := recorded.foldl (fun ledger entry => ledger.insert entry.1 entry.2)
            e.childLedger } } := by
      have : (plan cached e).1.NoGoto := plan_noGoto hw
      exact ⟨this.1, this.2, this.3⟩
    let P (items : List Output) (c : Collected) : Prop := c.NoGoto ∧ ∀ out ∈ items, out ∈ outputs
    have hstep : ∀ out items c c', P (out :: items) c → collectOutput g c out = .ok c' → P items c' := by
      intro out items c c' hP hc
      exact ⟨(collectOutput_noGoto hg hP.1 (hout out (hP.2 out (by simp)))).1 c' hc,
        fun o hm => hP.2 o (by simp [hm])⟩
    have hmem : ∀ out ∈ outputs.insertionSort (fun a b => a.name ≤ b.name), out ∈ outputs :=
      fun out hm => (List.mem_insertionSort _).mp hm
    simp only [collectSuperStep] at ho
    split at ho
    · rename_i e₁ error heq
      cases ho
      refine ⟨?_, by simp⟩
      exact foldlM_error_inv P (Q := fun err => NoGotoWrites err.1.pendingWrites) hstep
        (fun out items c err hP hc =>
          (collectOutput_noGoto hg hP.1 (hout out (hP.2 out (by simp)))).2 err.1 err.2 hc)
        ⟨h0, hmem⟩ heq
    · rename_i c heq
      obtain ⟨hc, -⟩ := foldlM_ok_inv P hstep ⟨h0, hmem⟩ heq
      exact finishStep_noGoto hc ho.symm

omit hg in
theorem applyStreamed_noGoto {name : String} {updates : List (Dict Value)} {m : Messages}
    (hm : m.NoGoto) :
    (∀ m', updates.foldlM (applyStreamed g name) m = .ok m' → m'.NoGoto) ∧
      ∀ m' failure, updates.foldlM (applyStreamed g name) m = .error (m', failure) →
        NoGotoWrites m'.exec.pendingWrites := by
  have hstep : ∀ (u : Dict Value) (items : List (Dict Value)) (m₁ m₂ : Messages), m₁.NoGoto →
      applyStreamed g name m₁ u = .ok m₂ → m₂.NoGoto := by
    intro u items m₁ m₂ hm h
    rw [applyStreamed] at h
    split at h <;> cases h
    exact ⟨hm.1, hm.2, hm.3⟩
  refine ⟨fun m' h => foldlM_ok_inv (fun _ m => m.NoGoto) hstep hm h, fun m' failure h => ?_⟩
  refine foldlM_error_inv (fun _ m => m.NoGoto) (Q := fun err => NoGotoWrites err.1.exec.pendingWrites)
    hstep (fun u items m₁ err hm h => ?_) hm h
  rw [applyStreamed] at h
  split at h <;> cases h
  exact hm.1

theorem streamNode_noGoto {start : State} {m : Messages} {name : String} (hm : m.NoGoto) :
    (∀ m', streamNode g config env start m name = .ok m' → m'.NoGoto) ∧
      ∀ m' failure, streamNode g config env start m name = .error (m', failure) →
        NoGotoWrites m'.exec.pendingWrites := by
  have hend : ∀ (m₁ : Messages) (s : Streamed), m₁.NoGoto → s.goto = none →
      (∀ m', endStreamed g m₁ name s = .ok m' → m'.NoGoto) ∧
        ∀ m' failure, endStreamed g m₁ name s = .error (m', failure) →
          NoGotoWrites m'.exec.pendingWrites := by
    intro m₁ s hm₁ hs
    rw [endStreamed]
    dsimp only
    split
    · refine ⟨fun m' h => ?_, by simp⟩
      cases h
      exact ⟨hm₁.1, hm₁.2, hm₁.3⟩
    · refine applyStreamed_noGoto ⟨hm₁.1, hm₁.2.insert name ?_, ?_⟩
      · rw [hs]; rfl
      · simp only [hs]
        exact hm₁.3
  rw [streamNode]
  split
  · rename_i write hwrite
    have hw : write.goto = none := hm.pendingWrites name write hwrite
    refine ⟨fun m' h => ?_, by simp⟩
    cases h
    refine ⟨hm.1, hm.2.insert name hw, ?_⟩
    simp only [streamPending, hw]
    exact hm.3
  · split
    · refine ⟨fun m' h => ?_, by simp⟩
      cases h
      exact hm
    · rename_i node hnode
      have hs : (Streamed.node node (nodeContext g config m.exec name) (g.timeoutPolicyFor name)
          (env name)).goto = none := Streamed.node_goto (hg.stream name node hnode) (env name)
      dsimp only
      split
      · refine ⟨by simp, fun m' failure h => ?_⟩
        cases h
        exact hm.2
      · exact hend _ _ ⟨hm.1, hm.2, hm.3⟩ hs
      · exact hend _ _ ⟨hm.1, hm.2, hm.3⟩ hs
      · refine ⟨by simp, fun m' failure h => ?_⟩
        cases h
        exact hm.2

theorem messagesSuperStep_noGoto {recorded : List (String × Value)}
    {yielded : List StreamEvent} {result : Except MessagesFailure SuperStepResult}
    (hw : NoGotoWrites e.pendingWrites) (h : messagesSuperStep g config env recorded e = (yielded, e', result)) :
    NoGotoWrites e'.pendingWrites ∧ ∀ r, result = .ok r → r.goto = ∅ := by
  rw [messagesSuperStep] at h
  split at h
  · cases h
    exact ⟨hw, fun r hr => by cases hr; rfl⟩
  · have hstep : ∀ (name : String) (items : List String) (m₁ m₂ : Messages), m₁.NoGoto →
        streamNode g config env e.state m₁ name = .ok m₂ → m₂.NoGoto :=
      fun name items m₁ m₂ hm h => (streamNode_noGoto hg hm).1 m₂ h
    have h0 : Messages.NoGoto { exec := e } := ⟨hw, .empty, rfl⟩
    dsimp only at h
    split at h
    · rename_i m failure heq
      cases h
      refine ⟨?_, by simp⟩
      exact foldlM_error_inv (fun _ m => m.NoGoto)
        (Q := fun err => NoGotoWrites err.1.exec.pendingWrites) hstep
        (fun name items m₁ err hm h => (streamNode_noGoto hg hm).2 err.1 err.2 h) h0 heq
    · rename_i m heq
      have hm := foldlM_ok_inv (fun _ m => m.NoGoto) hstep h0 heq
      cases h
      exact ⟨hm.1, fun r hr => by cases hr; exact hm.3⟩

end Exec

namespace Timeline

variable {g : CompiledGraph}

/-- **A super-step of a graph without `goto` follows none.** -/
theorem Executes.noGoto (hg : g.NoGoto) {style : Style} {config : ExecutionConfig} {e e' : Exec}
    {result : Except GraphError SuperStepResult} (h : Executes g style config e e' result)
    (hw : NoGotoWrites e.pendingWrites) :
    NoGotoWrites e'.pendingWrites ∧ ∀ r, result = .ok r → r.goto = ∅ := by
  cases h with
  | step hm h => exact Exec.superStepIn_noGoto hg hw h
  | @messages env recorded yielded e' res hm h =>
    obtain ⟨hw', hr⟩ := Exec.messagesSuperStep_noGoto hg hw h
    refine ⟨hw', fun r hres => ?_⟩
    cases res with
    | error failure => cases hres
    | ok r' =>
      cases hres
      exact hr r rfl

end Timeline
end Adk
