import AdkRust.Graph.Timeline
import AdkRust.Lib.Except

/-!
# What a super-step does and leaves alone

* `Exec.flow`: the part of the executor a super-step does not touch.
* `Ran`: a super-step that no gate stopped. The nodes that finished and those that paused are nodes of
  the frontier, each once, and the gate after the step is armed when no node paused.
* `Executes.flow`, `Executes.ok`: both execution paths keep to that.
-/

namespace Adk

/-- Names taken from one list are each in the other as often. -/
private theorem perm_move (as bs cs : List String) (n : String) :
    (as ++ [n] ++ bs ++ cs).Perm (as ++ bs ++ n :: cs) := by
  simp only [List.append_assoc, List.singleton_append]
  exact (List.perm_append_left_iff as).mpr List.perm_middle.symm

theorem nodup_of_subperm {names frontier : List String} (h : names.Subperm frontier)
    (hn : frontier.Nodup) : names.Nodup := by
  obtain ⟨l, hp, hs⟩ := h
  exact hp.nodup_iff.mp (hs.nodup hn)

namespace Exec

/-- The executor but for what the nodes of a super-step write. -/
def flow (e : Exec) : Exec :=
  { e with state := ∅, gotoParent := none, attempts := ∅, childLedger := ∅, pendingWrites := ∅ }

end Exec

/-! ## The plan -/

namespace Collected

/-- The nodes that have finished or paused. -/
def names (c : Collected) : List String := c.result.executedNodes ++ c.interrupts.map (·.1)

@[simp] theorem addEvents_names (c : Collected) (events : List StreamEvent) :
    (c.addEvents events).names = c.names := rfl

@[simp] theorem addEvents_exec (c : Collected) (events : List StreamEvent) :
    (c.addEvents events).exec = c.exec := rfl

theorem finish_names (c : Collected) (node : String) (write : PendingWrite) (more : List String) :
    ((c.finish node write).names ++ more).Perm (c.names ++ node :: more) :=
  perm_move c.result.executedNodes _ more node

@[simp] theorem finish_flow (c : Collected) (node : String) (write : PendingWrite) :
    (c.finish node write).exec.flow = c.exec.flow := rfl

@[simp] theorem fail_names (c : Collected) (node : String) (error : GraphError) :
    (c.fail node error).names = c.names := rfl

@[simp] theorem fail_exec (c : Collected) (node : String) (error : GraphError) :
    (c.fail node error).exec = c.exec := rfl

end Collected

/-- The nodes of a message stream that have finished or paused. -/
def Messages.names (m : Messages) : List String :=
  m.result.executedNodes ++ m.result.interrupts.map (·.1)

namespace Exec

variable {g : CompiledGraph} {config : ExecutionConfig}

private theorem answerPending_spec (c : Collected) (toRun : List String) (node : String)
    (more : List String) :
    (answerPending (c, toRun) node).1.exec.flow = c.exec.flow ∧
      ((answerPending (c, toRun) node).1.names ++ (answerPending (c, toRun) node).2 ++ more).Perm
        (c.names ++ toRun ++ node :: more) := by
  simp only [answerPending]
  split
  · refine ⟨rfl, ?_⟩
    rw [List.append_assoc, List.append_assoc]
    refine (c.finish_names node _ _).trans ((List.perm_append_left_iff _).mpr ?_)
    exact List.perm_middle.symm
  · exact ⟨rfl, by simp⟩

private theorem answerCached_spec (cached : Dict Value) (c : Collected) (toRun : List String)
    (node : String) (more : List String) :
    (answerCached cached (c, toRun) node).1.exec.flow = c.exec.flow ∧
      ((answerCached cached (c, toRun) node).1.names ++ (answerCached cached (c, toRun) node).2 ++
        more).Perm (c.names ++ toRun ++ node :: more) := by
  simp only [answerCached]
  split
  · refine ⟨rfl, ?_⟩
    rw [List.append_assoc, List.append_assoc]
    refine ((c.addEvents _).finish_names node _ _).trans ((List.perm_append_left_iff _).mpr ?_)
    exact List.perm_middle.symm
  · exact ⟨rfl, by simp⟩

private theorem answers_spec {answer : Collected × List String → String → Collected × List String}
    (hone : ∀ (c : Collected) (toRun : List String) (node : String) (more : List String),
      (answer (c, toRun) node).1.exec.flow = c.exec.flow ∧
        ((answer (c, toRun) node).1.names ++ (answer (c, toRun) node).2 ++ more).Perm
          (c.names ++ toRun ++ node :: more))
    (nodes : List String) (c : Collected) (toRun : List String) :
    (nodes.foldl answer (c, toRun)).1.exec.flow = c.exec.flow ∧
      ((nodes.foldl answer (c, toRun)).1.names ++ (nodes.foldl answer (c, toRun)).2).Perm
        (c.names ++ toRun ++ nodes) := by
  induction nodes generalizing c toRun with
  | nil => exact ⟨rfl, by simp⟩
  | cons node nodes ih =>
    obtain ⟨hflow, hperm⟩ := hone c toRun node nodes
    rw [List.foldl_cons]
    generalize answer (c, toRun) node = acc at hflow hperm
    obtain ⟨c', toRun'⟩ := acc
    obtain ⟨hflow', hperm'⟩ := ih c' toRun'
    exact ⟨hflow'.trans hflow, hperm'.trans hperm⟩

/-- **The plan answers some nodes of the frontier and leaves the others to run.** -/
theorem plan_spec (cached : Dict Value) (e : Exec) :
    (plan cached e).1.exec.flow = e.flow ∧
      ((plan cached e).1.names ++ (plan cached e).2).Perm e.pendingNodes := by
  obtain ⟨hf₁, hp₁⟩ := answers_spec answerPending_spec e.pendingNodes { exec := e } []
  simp only [plan]
  generalize e.pendingNodes.foldl answerPending ({ exec := e }, []) = acc at hf₁ hp₁
  obtain ⟨c, toRun⟩ := acc
  obtain ⟨hf₂, hp₂⟩ := answers_spec (answerCached_spec cached) toRun c []
  refine ⟨hf₂.trans hf₁, ?_⟩
  refine ((List.perm_append_left_iff _).mpr (List.perm_insertionSort _ _)).trans (hp₂.trans ?_)
  simpa [Collected.names] using hp₁

/-- The futures of a step are nodes the plan left to run. -/
theorem toDispatch_names (cached : Dict Value) (e : Exec) :
    ((toDispatch g config cached e).map (·.name)).Sublist (plan cached e).2 := by
  rw [toDispatch]
  induction (plan cached e).2 with
  | nil => exact .slnil
  | cons name names ih =>
    rw [List.filterMap_cons]
    split
    · exact .cons name ih
    · rename_i h
      obtain ⟨node, -, rfl⟩ := Option.map_eq_some_iff.mp h
      exact .cons_cons name ih

/-! ## The outputs -/

variable {c : Collected} {e e' : Exec} {name : String} {m : Messages}

theorem collectOutput_spec {c' : Collected} {output : Output} (h : collectOutput g c output = .ok c')
    (more : List String) :
    c'.exec.flow = c.exec.flow ∧ (c'.names ++ more).Subperm (c.names ++ output.name :: more) := by
  have hdrop : (c.names ++ more).Subperm (c.names ++ output.name :: more) :=
    ((List.sublist_cons_self _ _).append_left _).subperm
  have hfinish : ∀ (c₁ : Collected) (write : PendingWrite), c₁.names = c.names →
      ((c₁.finish output.name write).names ++ more).Subperm (c.names ++ output.name :: more) := by
    intro c₁ write hn
    rw [← hn]
    exact (c₁.finish_names output.name write more).subperm
  simp only [collectOutput] at h
  split at h
  · cases h
    exact ⟨rfl, hdrop⟩
  · split at h
    · rename_i interrupt _
      cases h
      refine ⟨rfl, List.Perm.subperm ?_⟩
      simp only [Collected.names, Collected.addEvents, List.map_append, List.map_cons, List.map_nil,
        ← List.append_assoc]
      simp
    · cases h
      exact ⟨rfl, hfinish _ _ rfl⟩
  · split at h
    · cases h
      exact ⟨rfl, hdrop⟩
    · split at h
      · cases h
        exact ⟨rfl, hdrop⟩
      · split at h
        · cases h
        · cases h
          exact ⟨rfl, hfinish _ _ rfl⟩

/-- An error handler that fails leaves the flow alone. -/
theorem collectOutput_error {output : Output} {error : GraphError}
    (h : collectOutput g c output = .error (e, error)) : e.flow = c.exec.flow := by
  simp only [collectOutput] at h
  split at h
  · cases h
  · split at h <;> cases h
  · split at h
    · cases h
    · split at h
      · cases h
      · split at h
        · cases h
          rfl
        · cases h

theorem collectOutputs_spec (outputs : List Output) (c : Collected) :
    (∀ c', outputs.foldlM (collectOutput g) c = .ok c' → c'.exec.flow = c.exec.flow ∧
        c'.names.Subperm (c.names ++ outputs.map (·.name))) ∧
      ∀ e error, outputs.foldlM (collectOutput g) c = .error (e, error) → e.flow = c.exec.flow := by
  let P (items : List Output) (c' : Collected) : Prop := c'.exec.flow = c.exec.flow ∧
    (c'.names ++ items.map (·.name)).Subperm (c.names ++ outputs.map (·.name))
  have hstep : ∀ output items c₁ c₂, P (output :: items) c₁ → collectOutput g c₁ output = .ok c₂ →
      P items c₂ := by
    intro output items c₁ c₂ hP ho
    obtain ⟨hf, hn⟩ := collectOutput_spec ho (items.map (·.name))
    exact ⟨hf.trans hP.1, hn.trans hP.2⟩
  have h0 : P outputs c := ⟨rfl, List.Subperm.refl _⟩
  refine ⟨fun c' h => ?_, fun e error h => ?_⟩
  · simpa [P] using foldlM_ok_inv P hstep h0 h
  · exact foldlM_error_inv P (Q := fun err => err.1.flow = c.exec.flow) hstep
      (fun output items c₁ err hP ho => (collectOutput_error ho).trans hP.1) h0 h

/-! ## The step -/

/-- A super-step that no gate stopped, from `e` to `e'`. `own` are the pauses its nodes asked for
themselves. -/
structure Ran (g : CompiledGraph) (e e' : Exec) (result : SuperStepResult) : Prop where
  flow : e'.flow = e.flow
  pauses : ∃ own, (result.executedNodes ++ own.map Prod.fst).Subperm e.pendingNodes ∧
    result.interrupts = if own.isEmpty then (gateAfter g result.executedNodes).toList else own

theorem applyNodeUpdates_flow (updates : List (String × Dict Value)) (e : Exec) :
    (∀ e', updates.foldlM (applyNodeUpdates g) e = .ok e' → e'.flow = e.flow) ∧
      ∀ e' error, updates.foldlM (applyNodeUpdates g) e = .error (e', error) → e'.flow = e.flow := by
  have hstep : ∀ (entry : String × Dict Value) (items : List (String × Dict Value)) (e₁ e₂ : Exec),
      e₁.flow = e.flow → applyNodeUpdates g e₁ entry = .ok e₂ → e₂.flow = e.flow := by
    intro entry items e₁ e₂ hf h
    simp only [applyNodeUpdates] at h
    split at h <;> cases h
    exact hf
  refine ⟨fun e' h => ?_, fun e' error h => ?_⟩
  · exact foldlM_ok_inv (fun _ e₁ => e₁.flow = e.flow) hstep rfl h
  · refine foldlM_error_inv (fun _ e₁ => e₁.flow = e.flow) (Q := fun err => err.1.flow = e.flow) hstep
      (fun entry items e₁ err hf h => ?_) rfl h
    simp only [applyNodeUpdates] at h
    split at h <;> cases h
    exact hf

theorem finishStep_spec {result : Except GraphError SuperStepResult}
    (h : finishStep g c = (e', result)) :
    e'.flow = c.exec.flow ∧ ∀ r, result = .ok r →
      r.executedNodes = c.result.executedNodes ∧
        r.interrupts = if c.interrupts.isEmpty then (gateAfter g c.result.executedNodes).toList
          else c.interrupts := by
  rw [finishStep] at h
  split at h
  · cases h
    exact ⟨rfl, by simp⟩
  · have hflow := applyNodeUpdates_flow (g := g) (c.allUpdates.insertionSort fun a b => a.1 ≤ b.1)
      { c.exec with pendingWrites := ∅ }
    dsimp only at h
    split at h
    · rename_i heq
      cases h
      exact ⟨hflow.2 _ _ heq, by simp⟩
    · rename_i heq
      cases h
      refine ⟨hflow.1 _ heq, fun r hr => ?_⟩
      cases hr
      exact ⟨rfl, rfl⟩

theorem collectSuperStep_spec {cached : Dict Value} {outputs : List Output}
    {recorded : List (String × Value)} {result : Except GraphError SuperStepResult}
    (hn : (outputs.map (·.name)).Subperm (plan cached e).2)
    (h : collectSuperStep g cached outputs recorded e = (e', result)) :
    e'.flow = e.flow ∧ ∀ r, result = .ok r → Ran g e e' r := by
  obtain ⟨hplan, hperm⟩ := plan_spec cached e
  simp only [collectSuperStep] at h
  generalize hc : ({ (plan cached e).1 with
    exec := { (plan cached e).1.exec with
      childLedger := recorded.foldl (fun ledger entry => ledger.insert entry.1 entry.2)
        e.childLedger } } : Collected) = c at h
  have hflow : c.exec.flow = e.flow := by
    rw [← hc]
    exact hplan
  have hnames : c.names = (plan cached e).1.names := by rw [← hc]; rfl
  have hout := collectOutputs_spec (g := g) (outputs.insertionSort fun a b => a.name ≤ b.name) c
  split at h
  · rename_i heq
    cases h
    exact ⟨(hout.2 _ _ heq).trans hflow, by simp⟩
  · rename_i c' heq
    obtain ⟨hf, hres⟩ := finishStep_spec h
    have hflow' := hf.trans ((hout.1 _ heq).1.trans hflow)
    refine ⟨hflow', fun r hr => ⟨hflow', c'.interrupts, ?_, ?_⟩⟩
    · rw [(hres r hr).1]
      refine (hout.1 _ heq).2.trans (.trans ?_ hperm.subperm)
      rw [hnames]
      refine (List.subperm_append_left _).mpr (.trans ?_ hn)
      exact ((List.perm_insertionSort _ outputs).map _).subperm
    · rw [(hres r hr).2, (hres r hr).1]

/-! ## The step of a message stream -/

theorem applyStreamed_spec {updates : List (Dict Value)} :
    (∀ m', updates.foldlM (applyStreamed g name) m = .ok m' →
        m'.exec.flow = m.exec.flow ∧ m'.result = m.result) ∧
      ∀ m' failure, updates.foldlM (applyStreamed g name) m = .error (m', failure) →
        m'.exec.flow = m.exec.flow := by
  let P (_ : List (Dict Value)) (m' : Messages) : Prop :=
    m'.exec.flow = m.exec.flow ∧ m'.result = m.result
  have hstep : ∀ (u : Dict Value) (items : List (Dict Value)) (m₁ m₂ : Messages), P (u :: items) m₁ →
      applyStreamed g name m₁ u = .ok m₂ → P items m₂ := by
    intro u items m₁ m₂ hP h
    simp only [applyStreamed] at h
    split at h <;> cases h
    exact hP
  refine ⟨fun m' h => foldlM_ok_inv P hstep ⟨rfl, rfl⟩ h, fun m' failure h => ?_⟩
  refine foldlM_error_inv P (Q := fun err => err.1.exec.flow = m.exec.flow) hstep
    (fun u items m₁ err hP h => ?_) ⟨rfl, rfl⟩ h
  simp only [applyStreamed] at h
  split at h <;> cases h
  exact hP.1

theorem endStreamed_spec {s : Streamed} :
    (∀ m', endStreamed g m name s = .ok m' → m'.exec.flow = m.exec.flow ∧
        ∀ more, (m'.names ++ more).Subperm (m.names ++ name :: more)) ∧
      ∀ m' failure, endStreamed g m name s = .error (m', failure) → m'.exec.flow = m.exec.flow := by
  rw [endStreamed]
  dsimp only
  split
  · refine ⟨fun m' h => ?_, fun m' failure h => by cases h⟩
    cases h
    refine ⟨rfl, fun more => List.Perm.subperm ?_⟩
    simp only [Messages.names, List.map_append, List.map_cons, List.map_nil, ← List.append_assoc]
    simp
  · refine ⟨fun m' h => ?_, fun m' failure h => ?_⟩
    case refine_2 =>
      have hf := applyStreamed_spec.2 m' failure h
      exact hf
    obtain ⟨hf, hr⟩ := applyStreamed_spec.1 m' h
    refine ⟨hf, fun more => ?_⟩
    rw [Messages.names, hr]
    exact (perm_move m.result.executedNodes _ more name).subperm

theorem streamNode_spec {env : Attempts} {start : State} :
    (∀ m', streamNode g config env start m name = .ok m' → m'.exec.flow = m.exec.flow ∧
        ∀ more, (m'.names ++ more).Subperm (m.names ++ name :: more)) ∧
      ∀ m' failure, streamNode g config env start m name = .error (m', failure) →
        m'.exec.flow = m.exec.flow := by
  rw [streamNode]
  split
  · refine ⟨fun m' h => ?_, fun m' failure h => by cases h⟩
    cases h
    exact ⟨rfl, fun more => (perm_move m.result.executedNodes _ more name).subperm⟩
  · split
    · refine ⟨fun m' h => ?_, fun m' failure h => by cases h⟩
      cases h
      exact ⟨rfl, fun more => ((List.sublist_cons_self _ _).append_left _).subperm⟩
    · dsimp only
      split
      · refine ⟨by simp, fun m' failure h => ?_⟩
        cases h
        rfl
      · exact endStreamed_spec
      · exact endStreamed_spec
      · refine ⟨by simp, fun m' failure h => ?_⟩
        cases h
        rfl

theorem messagesSuperStep_spec {env : Attempts} {recorded : List (String × Value)}
    {yielded : List StreamEvent} {result : Except MessagesFailure SuperStepResult}
    (hg : gateBefore g e e.pendingNodes = none)
    (h : messagesSuperStep g config env recorded e = (yielded, e', result)) :
    e'.flow = e.flow ∧ ∀ r, result = .ok r → Ran g e e' r := by
  rw [messagesSuperStep, hg] at h
  let P (items : List String) (m : Messages) : Prop := m.exec.flow = e.flow ∧
    (m.names ++ items).Subperm e.pendingNodes
  have hstep : ∀ name items m₁ m₂, P (name :: items) m₁ →
      streamNode g config env e.state m₁ name = .ok m₂ → P items m₂ := by
    intro name items m₁ m₂ hP ho
    obtain ⟨hf, hn⟩ := streamNode_spec.1 m₂ ho
    exact ⟨hf.trans hP.1, (hn items).trans hP.2⟩
  have h0 : P e.pendingNodes { exec := e } := ⟨rfl, List.Subperm.refl _⟩
  dsimp only at h
  split at h
  · rename_i m failure heq
    have hf := foldlM_error_inv P (Q := fun err => err.1.exec.flow = e.flow) hstep
      (fun name items m₁ err hP ho => (streamNode_spec.2 err.1 err.2 ho).trans hP.1) h0 heq
    cases h
    exact ⟨hf, by simp⟩
  · rename_i m heq
    obtain ⟨hf, hn⟩ := foldlM_ok_inv P hstep h0 heq
    cases h
    refine ⟨hf, fun r hr => ?_⟩
    cases hr
    refine ⟨hf, m.result.interrupts.insertionSort fun a b => a.1 ≤ b.1, ?_, rfl⟩
    rw [List.append_nil] at hn
    refine List.Subperm.trans ((List.subperm_append_left _).mpr ?_) hn
    exact ((List.perm_insertionSort _ _).map _).subperm

end Exec

/-! ## Both paths -/

namespace Timeline

variable {g : CompiledGraph} {style : Style} {config : ExecutionConfig} {e e' : Exec}

/-- **A super-step is stopped by a gate or it runs.** -/
theorem Executes.ok {result : SuperStepResult} (h : Executes g style config e e' (.ok result)) :
    (∃ gate, Exec.gateBefore g e e.pendingNodes = some gate ∧ e' = e ∧
        result = { interrupts := [gate] }) ∨
      Exec.gateBefore g e e.pendingNodes = none ∧ Exec.Ran g e e' result := by
  generalize hr : (Except.ok result : Except GraphError SuperStepResult) = r at h
  cases h with
  | @step env recorded outputs e' _ hm h =>
    subst hr
    rw [Exec.SuperStepIn] at h
    split at h
    · rename_i gate hgate
      obtain ⟨-, ho⟩ := h
      cases ho
      exact .inl ⟨gate, hgate, rfl, rfl⟩
    · rename_i hgate
      obtain ⟨hd, ho⟩ := h
      have hn : (outputs.map (·.name)).Subperm (Exec.plan ∅ e).2 :=
        (Dispatched.names_perm ⟨env, hd⟩).subperm.trans (Exec.toDispatch_names ∅ e).subperm
      exact .inr ⟨hgate, (Exec.collectSuperStep_spec hn ho.symm).2 result rfl⟩
  | @messages env recorded yielded e' res hm h =>
    cases res with
    | error failure => cases hr
    | ok r =>
      cases hr
      cases hgate : Exec.gateBefore g e e.pendingNodes with
      | some gate =>
        rw [Exec.messagesSuperStep, hgate] at h
        cases h
        exact .inl ⟨gate, rfl, rfl, rfl⟩
      | none => exact .inr ⟨rfl, (Exec.messagesSuperStep_spec hgate h).2 result rfl⟩

/-- **A super-step leaves the flow alone**, also when it fails. -/
theorem Executes.flow {result : Except GraphError SuperStepResult}
    (h : Executes g style config e e' result) : e'.flow = e.flow := by
  cases h with
  | @step env recorded outputs e' _ hm h =>
    rw [Exec.SuperStepIn] at h
    split at h
    · obtain ⟨-, ho⟩ := h
      cases ho
      rfl
    · obtain ⟨hd, ho⟩ := h
      have hn : (outputs.map (·.name)).Subperm (Exec.plan ∅ e).2 :=
        (Dispatched.names_perm ⟨env, hd⟩).subperm.trans (Exec.toDispatch_names ∅ e).subperm
      exact (Exec.collectSuperStep_spec hn ho.symm).1
  | @messages env recorded yielded e' res hm h =>
    cases hgate : Exec.gateBefore g e e.pendingNodes with
    | some gate =>
      rw [Exec.messagesSuperStep, hgate] at h
      cases h
      rfl
    | none => exact (Exec.messagesSuperStep_spec hgate h).1

end Timeline
end Adk
