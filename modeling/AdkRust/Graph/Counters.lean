import AdkRust.Graph.FanIn
import AdkRust.Graph.StepFrame

/-!
# What a run counts

The numbers and marks a run keeps beside its frontier (`Counters`), and what becomes of them when the
frontier advances, a super-step ends or a run starts.

Each of these functions may fail; none of them fails as the step budget does (`NotBudget`), so that an
error of the step budget comes from the loop of a run or from one of its nodes.
-/

namespace Adk

/-- What a run keeps beside its frontier. -/
structure Counters where
  step : Nat
  runStartStep : Nat
  headVersion : Nat
  unsaved : Bool
  gotoParent : Option (List String)

def GraphError.NotBudget (error : GraphError) : Prop := ∀ n, error ≠ .recursionLimitExceeded n

namespace Exec

def counters (e : Exec) : Counters :=
  ⟨e.step, e.runStartStep, e.headVersion, e.unsaved, e.gotoParent⟩

@[simp] theorem counters_step (e : Exec) : e.counters.step = e.step := rfl
@[simp] theorem counters_runStartStep (e : Exec) : e.counters.runStartStep = e.runStartStep := rfl
@[simp] theorem counters_headVersion (e : Exec) : e.counters.headVersion = e.headVersion := rfl
@[simp] theorem counters_unsaved (e : Exec) : e.counters.unsaved = e.unsaved := rfl
@[simp] theorem counters_gotoParent (e : Exec) : e.counters.gotoParent = e.gotoParent := rfl

@[simp] theorem settle_counters (style : Style) (e : Exec) :
    (style.settle e).counters = e.counters := by
  unfold Style.settle
  split <;> rfl

@[simp] theorem settle_pendingNodes (style : Style) (e : Exec) :
    (style.settle e).pendingNodes = e.pendingNodes := by
  unfold Style.settle
  split <;> rfl

@[simp] theorem rearmGate_counters (e : Exec) (executed : List String) :
    (e.rearmGate executed).counters = e.counters := by
  unfold rearmGate
  split <;> rfl

variable (g : CompiledGraph)

/-- A computation that keeps the core of an executor, and does not fail as the step budget does. -/
abbrev KeepsCore {α : Type} (e : Exec) (exec : α → Exec) : Except GraphError α → Prop :=
  Ends (fun a => (exec a).core = e.core) GraphError.NotBudget

variable {g}

theorem counters_of_core {e e' : Exec} (h : e'.core = e.core) : e'.counters = e.counters := by
  show e'.core.counters = e.core.counters
  rw [h]

/-! ## The frontier -/

theorem routesFrom_notBudget (executed : List String) (state : State) :
    Ends (fun _ => True) GraphError.NotBudget (g.routesFrom executed state) := by
  refine ends_foldlM (fun routes edge _ => ?_) trivial
  unfold CompiledGraph.followEdge
  split
  · split <;> trivial
  · trivial
  · split
    · split
      · trivial
      · trivial
      · intro n h
        cases h
    · trivial
  · trivial

theorem routeDispatches_notBudget (executed : List String) (state : State) :
    Ends (fun _ => True) GraphError.NotBudget (g.routeDispatches executed state) := by
  refine ends_foldlM (fun dispatches edge _ => ?_) trivial
  split
  · split
    · split
      · trivial
      · trivial
      · intro n h
        cases h
    · trivial
  · trivial

theorem nextFrontier_notBudget (e : Exec) (executed : List String) (goto : Dict (List String)) :
    Ends (fun _ => True) GraphError.NotBudget (nextFrontier g e executed goto) := by
  refine (routesFrom_notBudget _ _).bind fun routes _ => ends_foldlM (fun next route _ => ?_) trivial
  unfold followGoto
  split
  · trivial
  · split
    · intro n h
      cases h
    · trivial

theorem takeCandidates_core (e : Exec) (candidates : List String) (routes : List Route)
    (updates : Dict (Dict Value)) (now : Clock) :
    (takeCandidates g e candidates routes updates now).1.core = e.core := by
  have hstep : ∀ (candidate : String) (items : List String) (acc : Exec × List String),
      acc.1.core = e.core → (takeCandidate g routes updates now acc candidate).1.core = e.core := by
    rintro candidate - ⟨e₁, ready⟩ h
    simp only [takeCandidate]
    split
    · exact h
    · split <;> exact h
  exact foldl_inv (f := takeCandidate g routes updates now)
    (fun _ (acc : Exec × List String) => acc.1.core = e.core) hstep rfl

theorem releaseJoin_core (e : Exec) (rule : ReleaseRule) (join : String) (checkMinimum : Bool) :
    KeepsCore e id (releaseJoin g e rule join checkMinimum) := by
  simp only [releaseJoin]
  split
  · rfl
  · split
    · rfl
    · split
      · intro n h
        cases h
      · rfl

theorem checkJoin_core (inFlight waiting : List String) (now : Clock) (e : Exec)
    (acc : Exec × List String × List String) (join : String) (hacc : acc.1.core = e.core) :
    KeepsCore e Prod.fst (checkJoin g inFlight waiting now acc join) := by
  obtain ⟨e₁, ready, released⟩ := acc
  simp only [checkJoin]
  split
  · split
    · exact hacc
    · split
      · split
        · split
          · exact hacc
          · split
            · intro n h
              cases h
            · refine (releaseJoin_core (g := g) _ _ _ _).bind fun e₂ h₂ => ?_
              have hcore : e₂.core = e.core := Eq.trans h₂ hacc
              show Exec.core _ = e.core
              split <;> exact hcore
        · exact hacc
      · exact hacc
  · exact hacc

theorem releaseInto_core (rule : ReleaseRule) (e : Exec) (acc : Exec × List String) (join : String)
    (hacc : acc.1.core = e.core) : KeepsCore e Prod.fst (releaseInto g rule acc join) := by
  refine (releaseJoin_core (g := g) _ _ _ _).bind fun e₂ h₂ => ?_
  show e₂.core = e.core
  exact Eq.trans h₂ hacc

theorem filterDeferredNodes_core (e : Exec) (candidates : List String) (routes : List Route)
    (updates : Dict (Dict Value)) (inFlight : List String) (now : Clock) :
    KeepsCore e Prod.fst (filterDeferredNodes g e candidates routes updates inFlight now) := by
  have htk := takeCandidates_core (g := g) e candidates routes updates now
  simp only [filterDeferredNodes]
  generalize takeCandidates g e candidates routes updates now = taken at htk
  obtain ⟨e₁, ready⟩ := taken
  dsimp only
  split
  · exact htk
  · refine (ends_foldlM (P := fun acc : Exec × List String × List String => acc.1.core = e.core)
      (fun acc join hacc => checkJoin_core _ _ _ e acc join hacc) htk).bind ?_
    rintro ⟨e₂, ready₂, released⟩ h₂
    refine (ends_foldlM (P := fun acc : Exec × List String => acc.1.core = e.core)
      (fun acc join hacc => releaseInto_core _ e acc join hacc) h₂).bind ?_
    rintro ⟨e₃, ready₃⟩ h₃
    simp only [releaseStalled]
    split
    · exact ends_foldlM (P := fun acc : Exec × List String => acc.1.core = e.core)
        (fun acc join hacc => releaseInto_core _ e acc join hacc) h₃
    · exact h₃

theorem advanceFrontier_core (e : Exec) (result : SuperStepResult) (inFlight : List String)
    (now : Clock) : KeepsCore e Prod.fst (advanceFrontier g e result inFlight now) := by
  refine (nextFrontier_notBudget _ _ _).bind fun next _ => ?_
  exact filterDeferredNodes_core _ _ _ _ _ _

theorem entryFrontier_core (e : Exec) (now : Clock) :
    KeepsCore e Prod.fst (entryFrontier g e now) := by
  simp only [entryFrontier]
  split
  · rfl
  · have hawait : ∀ joins : List String, (joins.foldl (awaitEntry g now) e).core = e.core := by
      intro joins
      exact foldl_inv (f := awaitEntry g now) (fun _ e₁ => e₁.core = e.core)
        (fun join items e₁ h => h) rfl
    refine (filterDeferredNodes_core _ _ _ _ _ _).bind ?_
    rintro ⟨e₁, released⟩ h₁
    show e₁.core = e.core
    exact Eq.trans h₁ (hawait _)

/-! ## The end of a super-step -/

theorem completeStep_counters (e : Exec) (result : SuperStepResult) (now : Clock) :
    Ends (fun e' => e'.counters = { e.counters with step := e.step + 1 }) GraphError.NotBudget
      (completeStep g e result now) := by
  refine (advanceFrontier_core (g := g) _ _ _ _).bind ?_
  rintro ⟨e₁, frontier⟩ h₁
  have hctr := (counters_of_core h₁).trans (rearmGate_counters e result.executedNodes)
  show Counters.mk _ _ _ _ _ = Counters.mk _ _ _ _ _
  simp only [counters, Counters.mk.injEq] at hctr ⊢
  exact ⟨congrArg (· + 1) hctr.1, hctr.2⟩

theorem pauseFrontier_counters (e : Exec) (result : SuperStepResult) (now : Clock) :
    Ends (fun e' => e'.counters = e.counters) GraphError.NotBudget
      (pauseFrontier g e result now) := by
  unfold pauseFrontier
  split
  · rfl
  · rfl
  · refine (advanceFrontier_core (g := g) _ _ _ _).bind ?_
    rintro ⟨e₁, frontier⟩ h₁
    have hctr := counters_of_core h₁
    exact (rearmGate_counters _ _).trans hctr
  · refine (advanceFrontier_core (g := g) _ _ _ _).bind ?_
    rintro ⟨e₁, frontier⟩ h₁
    have hctr := counters_of_core h₁
    exact (rearmGate_counters _ _).trans hctr

/-! ## The start of a run -/

/-- Whether a checkpoint's thread starts again at its entry nodes. -/
def restarts (config : ExecutionConfig) (restartCompleted : Bool) (cp : Checkpoint) : Bool :=
  cp.pendingNodes.isEmpty && restartCompleted && config.resumeFrom.isNone

/-- What a resumed run counts from. -/
theorem restore_counters (config : ExecutionConfig) (restartCompleted : Bool) (cp : Checkpoint)
    (head : Nat) (input : State) (now : Clock) :
    Ends (fun e' => e'.counters = {
        step := cp.step, headVersion := head, unsaved := false, gotoParent := none
        runStartStep := if restarts config restartCompleted cp then cp.step else 0 })
      GraphError.NotBudget (restore g config restartCompleted cp head input now {}) := by
  have hif : (cp.pendingNodes.isEmpty && restartCompleted && config.resumeFrom.isNone) =
      restarts config restartCompleted cp := rfl
  cases hr : restarts config restartCompleted cp with
  | true =>
    simp only [restore, hif, hr, if_true]
    refine (entryFrontier_core (g := g) _ _).bind ?_
    rintro ⟨e₁, frontier⟩ h₁
    have hctr := counters_of_core h₁
    simp only [counters, Counters.mk.injEq] at hctr
    show Counters.mk _ _ _ _ _ = Counters.mk _ _ _ _ _
    simp only [Counters.mk.injEq]
    exact ⟨hctr.1, trivial, hctr.2.2⟩
  | false =>
    simp only [restore, hif, hr, Bool.false_eq_true, if_false]
    let Restored (e' : Exec) : Prop := e'.counters = ⟨cp.step, 0, head, false, none⟩
    refine Ends.bind (P := Restored) ?_ fun e' h' => Ends.bind (P := Restored) ?_ fun e'' h'' => h''
    · unfold restoreFanIn
      refine Ends.bind (P := fun _ => True) ?_ fun snapshot _ => ?_
      · unfold FanInSnapshot.fromMetadata
        split
        · trivial
        · split
          · intro n h
            cases h
          · split
            · trivial
            · intro n h
              cases h
      · split <;> rfl
    · unfold restorePaused
      split
      · exact h'
      · split
        · exact h'
        · intro n h
          cases h

/-- What a fresh run counts from. -/
theorem start_counters (state : State) (now : Clock) :
    Ends (fun e' => e'.counters = ⟨0, 0, 0, false, none⟩) GraphError.NotBudget
      (start g state now {}) := by
  refine (entryFrontier_core (g := g) _ _).bind ?_
  rintro ⟨e₁, frontier⟩ h₁
  exact counters_of_core h₁

end Exec

end Adk
