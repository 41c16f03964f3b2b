import AdkRust.Graph.Counters
import AdkRust.Graph.Play

/-!
# Retry budgets

Every activation of a node is to have the attempts its retry policy allows, and to go on with what is
left of them when the super-step is resumed (`executor.rs`). `Tried` follows a thread whose super-steps
run in `execute_super_step` and counts what the executor does not: the attempts of each activation and
the resumes among them (`Tally`).

* `Pool.Run.metered`: how often a future attempts its node.
* `Leaves`: what a super-step makes of the attempts on record.
* `Counted`: how the record and the tally agree; `own_budget` follows.
* `handled_failure_keeps_budget`: a failure its handler recovers from leaves its attempts on record, and
  the next activation of the node starts with them.
-/

namespace Adk

/-! ## The attempts of a future -/

/-- An output of a future that started with `k` attempts and is allowed `limit`. -/
def Output.Metered (o : Output) (k limit : Nat) : Prop :=
  o.result = none ∧ o.attempts = k ∨
    o.result.isSome ∧ k < o.attempts ∧ (o.attempts = k + 1 ∨ o.attempts ≤ limit)

namespace Activation

/-- The attempts a node is allowed: it is executed once whatever its policy. -/
def limit (a : Activation) : Nat := max ((a.retry.map (·.maxAttempts)).getD 1) 1

theorem lt_limit_of_retries {a : Activation} {k : Nat} {r : Except GraphError NodeOutput}
    (h : a.retries k r) : k < a.limit := by
  unfold retries at h
  split at h
  · rename_i error retry hr
    simp only [Bool.and_eq_true, RetryPolicy.allowsAnotherAttempt, decide_eq_true_eq] at h
    simp only [limit, hr, Option.map_some, Option.getD_some]
    omega
  · cases h

/-- The attempts a future has made where it stands. -/
def Within (a : Activation) : Phase → Prop
  | .admitted => True
  | .attempting k _ => k = a.spent ∨ a.spent < k ∧ k < a.limit
  | .backingOff k _ _ => a.spent < k ∧ k < a.limit

end Activation

namespace Pool

variable {acts : List Activation} {limit : Nat} {env : Attempts} {p q : Pool}

/-- Every future made the attempts its budget allows, or one. -/
structure Metered (acts : List Activation) (p : Pool) : Prop where
  within : ∀ f ∈ p.active, f.1.Within f.2
  finished : ∀ o ∈ p.finished, ∃ a ∈ acts, o.name = a.name ∧ o.Metered a.spent a.limit

theorem Metered.move {before after : List (Activation × Phase)} {a : Activation} {ph ph' : Phase}
    (h : Metered acts p) (ha : p.active = before ++ (a, ph) :: after) (hw : a.Within ph') :
    Metered acts (p.move before after a ph') := by
  refine ⟨fun f hf => ?_, h.finished⟩
  have hin := h.within
  simp only [Pool.move, ha, List.mem_append, List.mem_cons] at hf hin
  rcases hf with hf | rfl | hf
  · exact hin f (.inl hf)
  · exact hw
  · exact hin f (.inr (.inr hf))

theorem Metered.resolve {before after : List (Activation × Phase)} {a : Activation} {ph : Phase}
    {r : Option (Except GraphError NodeOutput)} {k : Nat} (h : Metered acts p)
    (ha : p.active = before ++ (a, ph) :: after) (hmem : a ∈ acts)
    (hm : Output.Metered { name := a.name, result := r, attempts := k } a.spent a.limit) :
    Metered acts (p.resolve before after a r k) := by
  refine ⟨fun f hf => h.within f ?_, fun o ho => ?_⟩
  · simp only [Pool.resolve, ha, List.mem_append, List.mem_cons] at hf ⊢
    tauto
  · rcases List.mem_append.mp ho with ho | ho
    · exact h.finished o ho
    · obtain rfl := List.mem_singleton.mp ho
      exact ⟨a, hmem, rfl, hm⟩

theorem Metered.step (h : Metered acts p) (hs : Sound acts p) (hstep : Step limit env p q) :
    Metered acts q := by
  have hin : ∀ {before after a ph}, p.active = before ++ (a, ph) :: after → a ∈ acts ∧ a.Within ph := by
    intro before after a ph ha
    have hmem : (a, ph) ∈ p.active := by simp [ha]
    exact ⟨hs.held a (by simp [held, ha]), h.within _ hmem⟩
  cases hstep with
  | enter hq hl =>
    refine ⟨fun f hf => ?_, h.finished⟩
    rcases List.mem_append.mp hf with hf | hf
    · exact h.within f hf
    · obtain rfl := List.mem_singleton.mp hf
      trivial
  | start before after ha hf => exact h.move ha (.inl rfl)
  | skip before after ha hf => exact h.resolve ha (hin ha).1 (.inl ⟨rfl, rfl⟩)
  | finish before after ha hr =>
    obtain ⟨hmem, hw⟩ := hin ha
    refine h.resolve ha hmem (.inr ⟨rfl, ?_⟩)
    simp only [Activation.Within] at hw
    show _ < _ + 1 ∧ (_ + 1 = _ ∨ _ + 1 ≤ _)
    omega
  | backOff before after ha he hr hf =>
    have hw := (hin ha).2
    have hlt := Activation.lt_limit_of_retries hr
    simp only [Activation.Within] at hw
    exact h.move ha ⟨by omega, hlt⟩
  | wake before after ha => exact h.move ha (.inr (hin ha).2)
  | abandon before after ha hf =>
    obtain ⟨hmem, hlt, hle⟩ := hin ha
    exact h.resolve ha hmem (.inr ⟨rfl, hlt, .inr (Nat.le_of_lt hle)⟩)

theorem Run.metered (h : Run limit env { queue := acts } p) : Metered acts p := by
  induction h with
  | refl => exact ⟨by simp, by simp⟩
  | tail hrun hstep ih => exact ih.step (Sound.run hrun).1 hstep

end Pool

/-! ## The attempts on record -/

/-- Whether an output ends the activation of its node: the node finished, or its failure was recovered. -/
def Output.ends (g : CompiledGraph) (state : State) (o : Output) : Bool :=
  match o.result with
  | none => false
  | some (.ok out) => out.interrupt.isNone
  | some (.error error) => (g.errorHandlerFor o.name).any fun handler =>
    !error.isInterrupted && (handler o.name error state).isOk

/-- The attempts a node's retry policy allows. Every node is attempted once. -/
def CompiledGraph.attemptLimit (g : CompiledGraph) (n : String) : Nat :=
  max (((g.retryPolicyFor n).map (·.maxAttempts)).getD 1) 1

/-- What a super-step that collects the output leaves of the attempts on record, `k` before it. -/
def Output.leaves (o : Output) (k : Nat) : Nat :=
  match o.result with
  | none => k
  | some (.ok _) => 0
  | some (.error _) => o.attempts

def Output.failed (o : Output) : Bool := o.result.any fun r => !r.isOk

def Output.paused (o : Output) : Bool :=
  match o.result with
  | some (.ok out) => out.interrupt.isSome
  | _ => false

/-- An output no error handler is asked about. -/
def Output.unhandled (g : CompiledGraph) (o : Output) : Bool :=
  match o.result with
  | some (.error error) => (g.errorHandlerFor o.name).isNone || error.isInterrupted
  | _ => true

namespace Exec

variable {g : CompiledGraph} {config : ExecutionConfig} {e e' e₁ : Exec} {outputs : List Output}
  {c : Collected} {cached : Dict Value} {env : Attempts} {recorded : List (String × Value)}
  {r : Except GraphError SuperStepResult}

/-- The attempts on record at a node. -/
def spent (e : Exec) (n : String) : Nat := e.attempts.getD n 0

@[simp] theorem activation_spent (e : Exec) (n : String) (node : Node) :
    (activation g config e n node).spent = e.spent n := rfl

theorem spent_congr (h : e'.attempts = e.attempts) (n : String) :
    e'.spent n = e.spent n := by
  simp only [spent, h]

/-- What the outputs of a super-step make of the attempts on record. -/
structure Leaves (e e' : Exec) (outputs : List Output) : Prop where
  own : ∀ o ∈ outputs, e'.spent o.name = o.leaves (e.spent o.name)
  others : ∀ n, n ∉ outputs.map (·.name) → e'.spent n = e.spent n

theorem Leaves.congr (h : Leaves e e' outputs) (ha : e₁.attempts = e'.attempts) :
    Leaves e e₁ outputs :=
  ⟨fun o ho => (spent_congr ha _).trans (h.own o ho), fun n hn => (spent_congr ha n).trans (h.others n hn)⟩

theorem Leaves.start (h : Leaves e e' outputs) (ha : e₁.attempts = e.attempts) :
    Leaves e₁ e' outputs :=
  ⟨fun o ho => (h.own o ho).trans (by rw [spent_congr ha]), fun n hn => (h.others n hn).trans
    (spent_congr ha n).symm⟩

theorem Leaves.perm {outputs' : List Output} (h : Leaves e e' outputs) (hp : outputs.Perm outputs') :
    Leaves e e' outputs' :=
  ⟨fun o ho => h.own o (hp.mem_iff.mpr ho), fun n hn => h.others n fun hm => hn ((hp.map _).mem_iff.mp hm)⟩

theorem collectOutput_attempts {o : Output} (ho : o.unhandled g) :
    ∃ c', collectOutput g c o = .ok c' ∧ c'.exec.spent o.name = o.leaves (c.exec.spent o.name) ∧
      (∀ n, n ≠ o.name → c'.exec.spent n = c.exec.spent n) ∧
      (c'.failure.isSome = (c.failure.isSome || o.failed)) ∧
      (c'.interrupts ≠ [] ↔ c.interrupts ≠ [] ∨ o.paused) := by
  have hne : ∀ (d : Dict Nat) (n : String) (k : Nat), n ≠ o.name →
      (d.insert o.name k).getD n 0 = d.getD n 0 ∧ (d.erase o.name).getD n 0 = d.getD n 0 := by
    intro d n k hn
    simp [Std.ExtTreeMap.getD_insert, Std.ExtTreeMap.getD_erase, Ne.symm hn]
  obtain ⟨name, result, k⟩ := o
  rcases result with - | (error | out)
  · exact ⟨c, rfl, rfl, fun _ _ => rfl, by simp [Output.failed], by simp [Output.paused]⟩
  · let c₁ : Collected := { c with exec := { c.exec with attempts := c.exec.attempts.insert name k } }
    let c₂ := c₁.addEvents [.nodeEnd name c.exec.step]
    have hok : collectOutput g c ⟨name, some (.error error), k⟩ = .ok (c₂.fail name error) := by
      simp only [Output.unhandled, Bool.or_eq_true, Option.isNone_iff_eq_none] at ho
      simp only [collectOutput]
      split
      · rfl
      · rename_i handler hh
        have hi : error.isInterrupted := ho.resolve_left (by simp [hh])
        exact if_pos hi
    refine ⟨_, hok, ?_, fun n hn => (hne c.exec.attempts n k hn).1, ?_, by
      simp [c₂, c₁, Collected.fail, Collected.addEvents, Output.paused]⟩
    · show (c.exec.attempts.insert name k).getD name 0 = k
      simp
    · cases hf : c.failure <;> simp [c₂, c₁, Collected.fail, Collected.addEvents, Output.failed, hf, Except.isOk,
        Except.toBool]
  · let c₁ : Collected := { c with exec := { c.exec with attempts := c.exec.attempts.erase name } }
    have hzero : (c.exec.attempts.erase name).getD name 0 = 0 := by simp
    cases hi : out.interrupt with
    | some interrupt =>
      refine ⟨{ c₁.addEvents [.nodeEnd name c.exec.step] with
        interrupts := c.interrupts ++ [(name, interrupt)] }, ?_, hzero,
        fun n hn => (hne c.exec.attempts n k hn).2, ?_, by simp [Output.paused, hi]⟩
      · simp only [collectOutput, hi]
        rfl
      · simp [c₁, Collected.addEvents, Output.failed, Except.isOk, Except.toBool]
    | none =>
      refine ⟨((c₁.addEvents [.nodeEnd name c.exec.step]).addEvents out.events).finish name
        { updates := out.updates, goto := out.goto, gotoParent := out.gotoParent }, ?_, hzero,
        fun n hn => (hne c.exec.attempts n k hn).2, ?_, ?_⟩
      · simp only [collectOutput, hi]
        rfl
      · simp [c₁, Collected.addEvents, Collected.finish, Output.failed, Except.isOk, Except.toBool]
      · simp [c₁, Collected.addEvents, Collected.finish, Output.paused, hi]

theorem collectOutputs_attempts (hn : (outputs.map (·.name)).Nodup)
    (ho : ∀ o ∈ outputs, o.unhandled g) :
    ∃ c', outputs.foldlM (collectOutput g) c = .ok c' ∧ Leaves c.exec c'.exec outputs ∧
      (c'.failure.isSome = (c.failure.isSome || outputs.any (·.failed))) ∧
      (c'.interrupts ≠ [] ↔ c.interrupts ≠ [] ∨ outputs.any (·.paused)) := by
  induction outputs generalizing c with
  | nil => exact ⟨c, rfl, ⟨by simp, fun _ _ => rfl⟩, by simp, by simp⟩
  | cons o outputs ih =>
    rw [List.map_cons, List.nodup_cons] at hn
    rw [List.forall_mem_cons] at ho
    obtain ⟨c₁, h₁, hown, hoth, hf₁, hi₁⟩ := collectOutput_attempts (c := c) ho.1
    obtain ⟨c', h', hl, hf, hi⟩ := ih (c := c₁) hn.2 ho.2
    refine ⟨c', ?_, ⟨?_, fun n hn' => ?_⟩, ?_, ?_⟩
    · rw [List.foldlM_cons, h₁]
      exact h'
    · rw [List.forall_mem_cons]
      refine ⟨(hl.others _ hn.1).trans hown, fun o' ho' => ?_⟩
      have hne : o'.name ≠ o.name := fun h => hn.1 (h ▸ List.mem_map_of_mem ho')
      rw [hl.own o' ho', hoth _ hne]
    · rw [List.map_cons, List.mem_cons, not_or] at hn'
      exact (hl.others n hn'.2).trans (hoth n hn'.1)
    · rw [hf, hf₁, List.any_cons, Bool.or_assoc]
    · rw [hi, hi₁, List.any_cons, Bool.or_eq_true, or_assoc]

theorem applyNodeUpdates_attempts {entry : String × Dict Value} :
    (applyNodeUpdates g e entry = .ok e' → e'.attempts = e.attempts) ∧
      ∀ error, applyNodeUpdates g e entry = .error (e', error) → e'.attempts = e.attempts := by
  simp only [applyNodeUpdates]
  split
  · simp only [Except.error.injEq, Prod.mk.injEq, reduceCtorEq, false_implies, true_and]
    rintro error ⟨rfl, -⟩
    rfl
  · refine ⟨fun h => ?_, by simp⟩
    cases h
    rfl

theorem finishStep_attempts (c : Collected) : (finishStep g c).1.attempts = c.exec.attempts := by
  simp only [finishStep]
  split
  · rfl
  · split
    · rename_i e error h
      exact foldlM_error_inv (fun _ e => e.attempts = c.exec.attempts)
        (Q := fun err : Exec × GraphError => err.1.attempts = c.exec.attempts)
        (fun _ _ _ _ ha h => (applyNodeUpdates_attempts.1 h).trans ha)
        (fun _ _ _ _ ha h => (applyNodeUpdates_attempts.2 _ h).trans ha) rfl h
    · rename_i e h
      exact foldlM_ok_inv (fun _ e => e.attempts = c.exec.attempts)
        (fun _ _ _ _ ha h => (applyNodeUpdates_attempts.1 h).trans ha) rfl h

theorem finishStep_succeeded {result : SuperStepResult}
    (h : (finishStep g c).2 = .ok result) :
    c.failure = none ∧ (result.interrupts = [] → c.interrupts = []) := by
  simp only [finishStep] at h
  split at h
  · cases h
  · rename_i hf
    refine ⟨hf, fun hnil => ?_⟩
    split at h
    · cases h
    · cases h
      by_contra hne
      simp [hne] at hnil

theorem plan_attempts (cached : Dict Value) (e : Exec) :
    (plan cached e).1.exec.attempts = e.attempts := by
  have hpend : ∀ (n : String) (ns : List String) (acc : Collected × List String),
      acc.1.exec.attempts = e.attempts → (answerPending acc n).1.exec.attempts = e.attempts := by
    intro n ns acc h
    simp only [answerPending]
    split <;> exact h
  have hcache : ∀ (n : String) (ns : List String) (acc : Collected × List String),
      acc.1.exec.attempts = e.attempts → (answerCached cached acc n).1.exec.attempts = e.attempts := by
    intro n ns acc h
    simp only [answerCached]
    split <;> exact h
  have h₁ : (e.pendingNodes.foldl answerPending ({ exec := e }, [])).1.exec.attempts = e.attempts :=
    foldl_inv (fun _ (acc : Collected × List String) => acc.1.exec.attempts = e.attempts) hpend rfl
  simp only [plan]
  generalize e.pendingNodes.foldl answerPending ({ exec := e }, []) = acc at h₁
  exact foldl_inv (fun _ (acc : Collected × List String) => acc.1.exec.attempts = e.attempts) hcache h₁

/-- What a super-step leaves, and that one with a failure or a pause says so. -/
structure Accounted (e e₁ : Exec) (outputs : List Output)
    (r : Except GraphError SuperStepResult) : Prop where
  leaves : Leaves e e₁ outputs
  succeeded : ∀ result, r = .ok result → outputs.any (·.failed) = false
  unpaused : ∀ result, r = .ok result → result.interrupts = [] → outputs.any (·.paused) = false

theorem toDispatch_mem {a : Activation} (h : a ∈ toDispatch g config cached e) : ∃ node, a = activation g config e a.name node := by
  rw [toDispatch, List.mem_filterMap] at h
  obtain ⟨n, -, hn⟩ := h
  obtain ⟨node, -, rfl⟩ := Option.map_eq_some_iff.mp hn
  exact ⟨node, rfl⟩

/-- The futures of a super-step have names of their own, and keep to their budgets. -/
theorem dispatched_metered {limit : Nat}
    (h : DispatchedIn limit env (toDispatch g config cached e) outputs)
    (hn : e.pendingNodes.Nodup) :
    (outputs.map (·.name)).Nodup ∧
      ∀ o ∈ outputs, o.Metered (e.spent o.name) (g.attemptLimit o.name) := by
  refine ⟨?_, fun o ho => ?_⟩
  · have hnames : (plan cached e).2.Subperm e.pendingNodes :=
      (List.sublist_append_right _ _).subperm.trans (plan_spec cached e).2.subperm
    have hrun := (@toDispatch_names g config cached e).nodup (nodup_of_subperm hnames hn)
    exact (Dispatched.names_perm ⟨env, h⟩).nodup_iff.mpr hrun
  · obtain ⟨failed, hrun⟩ := h
    obtain ⟨a, ha, hname, hm⟩ := (Pool.Run.metered hrun).finished o ho
    obtain ⟨node, ha⟩ := toDispatch_mem ha
    rw [hname]
    rw [ha] at hm
    exact hm

theorem SuperStepIn.metered
    (h : SuperStepIn g config ∅ env recorded e outputs (e₁, r)) (hn : e.pendingNodes.Nodup) :
    (outputs.map (·.name)).Nodup ∧
      ∀ o ∈ outputs, o.Metered (e.spent o.name) (g.attemptLimit o.name) := by
  unfold SuperStepIn at h
  split at h
  · rw [h.1]
    simp
  · exact dispatched_metered h.1 hn

theorem SuperStepIn.accounted
    (h : SuperStepIn g config ∅ env recorded e outputs (e₁, r)) (hn : e.pendingNodes.Nodup)
    (ho : ∀ o ∈ outputs, o.unhandled g) : Accounted e e₁ outputs r := by
  have hnodup := (h.metered hn).1
  unfold SuperStepIn at h
  split at h
  · obtain ⟨rfl, h⟩ := h
    cases h
    exact ⟨⟨by simp, fun _ _ => rfl⟩, by simp, by simp⟩
  · obtain ⟨hd, h⟩ := h
    have hp := List.perm_insertionSort (fun a b : Output => a.name ≤ b.name) outputs
    obtain ⟨c, hc, hl, hf, hi⟩ := collectOutputs_attempts (g := g)
      (c := { (plan ∅ e).1 with exec := { (plan ∅ e).1.exec with
        childLedger := recorded.foldl (fun ledger entry => ledger.insert entry.1 entry.2) e.childLedger } })
      ((hp.map _).nodup_iff.mpr hnodup) fun o h => ho o (hp.mem_iff.mp h)
    rw [collectSuperStep, hc] at h
    have he₁ : e₁ = (finishStep g c).1 := congrArg Prod.fst h
    have hr : r = (finishStep g c).2 := congrArg Prod.snd h
    have hany : ∀ f : Output → Bool, (outputs.insertionSort fun a b => a.name ≤ b.name).any f =
        outputs.any f := by
      intro f
      rw [Bool.eq_iff_iff, List.any_eq_true, List.any_eq_true]
      simp [hp.mem_iff]
    rw [hany] at hf hi
    refine ⟨(hl.perm hp).congr (he₁ ▸ finishStep_attempts c) |>.start (plan_attempts ∅ e).symm,
      fun result hok => ?_, fun result hok hnil => ?_⟩
    · have hnone := (finishStep_succeeded (hr.symm.trans hok)).1
      rw [hnone] at hf
      exact (Bool.or_eq_false_iff.mp hf.symm).2
    · have hempty := (finishStep_succeeded (hr.symm.trans hok)).2 hnil
      have hnot : ¬ outputs.any (·.paused) = true := fun hp => (hi.mpr (.inr hp)) hempty
      simpa using hnot

end Exec

/-! ## Whole runs -/

namespace Timeline

open Exec

/-- The attempts at a node since its activation began, and the resumes since the first of them. -/
structure Tally where
  made : Nat := 0
  resumed : Nat := 0

variable (g : CompiledGraph)

/-- The tallies after a super-step from `e`. -/
def afterStep (e : Exec) (outputs : List Output) (s : String → Tally) (n : String) : Tally :=
  (outputs.find? fun o => o.name == n).elim (s n) fun o =>
    if o.ends g e.state then {} else { s n with made := (s n).made + (o.attempts - e.spent n) }

def afterResume (s : String → Tally) (n : String) : Tally :=
  if (s n).made = 0 then s n else { s n with resumed := (s n).resumed + 1 }

/-- What becomes of a super-step from `e` that left `e₁`. -/
inductive Settles (e e₁ : Exec) : Except GraphError SuperStepResult → Outcome → Point → Prop where
  | completed {result now e₂} (hi : result.interrupts = [])
      (hc : completeStep g e₁ result now = .ok e₂) :
    Settles e e₁ (.ok result) .completed { exec := e₂ }
  | paused {result now e₂} (hi : result.interrupts ≠ []) (hc : pauseFrontier g e₁ result now = .ok e₂) :
    Settles e e₁ (.ok result) .paused { exec := e₂, running := false }
  | failed {error} : Settles e e₁ (.error error) .failed { exec := e₁, running := false }
  | lost {result} : Settles e e₁ (.ok result) .lost { exec := e, running := false }

/-- **The threads whose super-steps run in `execute_super_step`**, with their tallies; `ok` restricts the
steps. -/
inductive Tried (ok : Outcome → Exec → List Output → Prop) : Point → (String → Tally) → Prop where
  | start {event p} (h : Starts g event p) (ha : p.exec.attempts = ∅) : Tried ok p fun _ => {}
  | step {e s config env recorded outputs e₁ r outcome q} (h : Tried ok { exec := e } s)
      (hp : e.pendingNodes ≠ []) (hx : SuperStepIn g config ∅ env recorded e outputs (e₁, r))
      (hs : Settles g e e₁ r outcome q) (hok : ok outcome e outputs) :
    Tried ok q (afterStep g e outputs s)
  | resume {p s saved config e' now now' id createdAt head input} (h : Tried ok p s)
      (hr : restore g config false (checkpoint saved p.exec now id createdAt) head input now' {} =
        .ok e') :
    Tried ok { exec := e' } (afterResume s)

/-- **Every activation has its own budget**: a new one may make all the attempts its policy allows, and
the attempts of an activation are at most those and one for each resume. -/
structure OwnBudget (p : Point) (s : String → Tally) : Prop where
  fresh : ∀ (config : ExecutionConfig) (n : String) (node : Node), (s n).made = 0 →
    (activation g config p.exec n node).spent = 0 ∧ ∀ retry, g.retryPolicyFor n = some retry →
      (activation g config p.exec n node).budget (p.exec.spent n) = retry.maxAttempts
  bounded : p.running → ∀ (config : ExecutionConfig) (env : Attempts)
    (recorded : List (String × Value)) (outputs : List Output)
    (outcome : Exec × Except GraphError SuperStepResult),
    SuperStepIn g config ∅ env recorded p.exec outputs outcome → ∀ o ∈ outputs,
      (s o.name).made + (o.attempts - p.exec.spent o.name) ≤
        g.attemptLimit o.name + (s o.name).resumed

/-- The steps that leave no attempts behind: no error handler is asked about a failure, a node that
pauses does so at its first attempt, and a step that is lost had none on record. -/
def Careful (outcome : Outcome) (e : Exec) (outputs : List Output) : Prop :=
  ∀ o ∈ outputs, o.unhandled g = true ∧ (o.paused = true → o.attempts = 1) ∧
    (outcome = .lost → o.result.isSome = true → e.spent o.name = 0)

instance (outcome : Outcome) (e : Exec) (outputs : List Output) : Decidable (Careful g outcome e outputs) :=
  inferInstanceAs (Decidable (∀ o ∈ outputs, _))

variable {g}

variable {ok : Outcome → Exec → List Output → Prop} {s : String → Tally} {e : Exec} {result : SuperStepResult}
  {now : Clock}

/-- Such a thread is a timeline. -/
theorem Tried.reaches {p : Point} (h : Tried g ok p s) : ∃ events, Reaches g events p := by
  induction h with
  | start h ha => exact ⟨_, .start h⟩
  | @step e s config env recorded outputs e₁ r outcome q h hp hx hs hok ih =>
    obtain ⟨events, hr⟩ := ih
    obtain ⟨past, -, hc⟩ := hr.consistent
    have hx' : Executes g .invoke config e e₁ r := .step rfl hx
    have hsame := SameJoins.of_flow hx'.flow
    have hk : ∀ n ∈ e₁.pendingDeferred, n ∈ g.deferredConfigs := by
      rw [hsame.pendingDeferred]
      exact hc.ledger.deferred
    cases hs with
    | completed hi hc' =>
      obtain ⟨journal, hj⟩ := completeStep_journal hsame.journal hk hc'
      exact ⟨_, hr.step (.complete hp hx' hi hc' hj)⟩
    | paused hi hc' =>
      obtain ⟨journal, hj⟩ := pauseFrontier_journal hsame.journal hk hi hc'
      exact ⟨_, hr.step (.pause hp hx' hi hc' hj)⟩
    | failed => exact ⟨_, hr.step (.fail hp hx')⟩
    | lost => exact ⟨_, hr.step (.lost hp hx')⟩
  | @resume p s saved config e' now now' id createdAt head input h hr' ih =>
    obtain ⟨events, hr⟩ := ih
    exact ⟨_, hr.step (.resume hr')⟩

/-! ## The record and the tally -/

/-- How the `k` attempts on record at a node and its tally agree between two super-steps. -/
structure Counted (limit : Nat) (running : Bool) (k : Nat) (t : Tally) : Prop where
  le : k ≤ t.made
  covered : t.made ≤ k + t.resumed + (!running).toNat
  bounded : k ≠ 0 → t.made + running.toNat ≤ limit + t.resumed

namespace Counted

variable {limit k : Nat} {running : Bool} {t : Tally} {o : Output}

theorem zero : Counted limit running 0 {} :=
  ⟨Nat.le_refl 0, Nat.zero_le _, fun h => absurd rfl h⟩

theorem stop (h : Counted limit running k t) (b : Bool) (hb : b = true → running = true) :
    Counted limit b k t := by
  obtain ⟨h₁, h₂, h₃⟩ := h
  cases b with
  | true => rw [hb rfl] at h₂ h₃; exact ⟨h₁, h₂, h₃⟩
  | false =>
    refine ⟨h₁, ?_, fun hk => ?_⟩
    · have : (!running).toNat ≤ 1 := Bool.toNat_le _
      show _ ≤ _ + _ + 1
      omega
    · have := h₃ hk
      show _ + 0 ≤ _
      omega

/-- A resume gives one more attempt. -/
theorem resume (h : Counted limit running k t) :
    Counted limit true k (if t.made = 0 then t else { t with resumed := t.resumed + 1 }) := by
  obtain ⟨h₁, h₂, h₃⟩ := h.stop false (by simp)
  simp only [Bool.not_false, Bool.toNat_true, Bool.toNat_false] at h₂ h₃
  split
  · refine ⟨h₁, ?_, fun hk => ?_⟩
    · show t.made ≤ k + t.resumed + 0
      omega
    · omega
  · refine ⟨h₁, ?_, fun hk => ?_⟩
    · show t.made ≤ k + (t.resumed + 1) + 0
      omega
    · have := h₃ hk
      show t.made + 1 ≤ limit + (t.resumed + 1)
      omega

/-- The attempts of an activation after one more super-step. -/
theorem out (h : Counted limit true k t) (hl : 1 ≤ limit) (ho : o.Metered k limit) :
    t.made + (o.attempts - k) ≤ limit + t.resumed := by
  obtain ⟨h₁, h₂, h₃⟩ := h
  simp only [Bool.not_true, Bool.toNat_false, Bool.toNat_true] at h₂ h₃
  rcases Nat.eq_zero_or_pos k with rfl | hk
  · rcases ho with ⟨-, ho⟩ | ⟨-, -, ho⟩ <;> omega
  · have := h₃ (by omega)
    rcases ho with ⟨-, ho⟩ | ⟨-, -, ho⟩ <;> omega

theorem failed (h : Counted limit true k t) (hl : 1 ≤ limit) (ho : o.Metered k limit)
    (hr : o.result.isSome) :
    Counted limit false o.attempts { t with made := t.made + (o.attempts - k) } := by
  have hout := h.out hl ho
  obtain ⟨h₁, h₂, h₃⟩ := h
  simp only [Bool.not_true, Bool.toNat_false] at h₂
  rcases ho with ⟨hn, -⟩ | ⟨-, hlt, -⟩
  · simp [hn] at hr
  · refine ⟨?_, ?_, fun _ => hout⟩
    · show o.attempts ≤ t.made + (o.attempts - k)
      omega
    · show t.made + (o.attempts - k) ≤ o.attempts + t.resumed + 1
      omega

/-- A node that pauses at its first attempt leaves none on record. -/
theorem paused (h : Counted limit true k t) (ho : o.Metered k limit) (hr : o.result.isSome)
    (h1 : o.attempts = 1) : Counted limit false 0 { t with made := t.made + (o.attempts - k) } := by
  obtain ⟨h₁, h₂, -⟩ := h
  simp only [Bool.not_true, Bool.toNat_false] at h₂
  rcases ho with ⟨hn, -⟩ | ⟨-, hlt, -⟩
  · simp [hn] at hr
  · refine ⟨Nat.zero_le _, ?_, fun hk => absurd rfl hk⟩
    show t.made + (o.attempts - k) ≤ 0 + t.resumed + 1
    omega

end Counted

theorem attemptLimit_pos (n : String) : 1 ≤ g.attemptLimit n := Nat.le_max_right _ _

@[simp] theorem rearmGate_attempts (e : Exec) (executed : List String) :
    (e.rearmGate executed).attempts = e.attempts := by
  unfold rearmGate
  split <;> rfl

theorem advanceFrontier_attempts {e₁ : Exec} {inFlight frontier : List String}
    (h : advanceFrontier g e result inFlight now = .ok (e₁, frontier)) :
    e₁.attempts = e.attempts :=
  congrArg (·.attempts) (show e₁.core = e.core from (advanceFrontier_core e result inFlight now).result h)

theorem completeStep_attempts {e' : Exec} (h : completeStep g e result now = .ok e') : e'.attempts = e.attempts := by
  rw [completeStep, bind_eq_ok] at h
  obtain ⟨⟨e₁, frontier⟩, ha, h⟩ := h
  cases h
  exact (advanceFrontier_attempts ha).trans (rearmGate_attempts e _)

theorem pauseFrontier_attempts {e' : Exec} (h : pauseFrontier g e result now = .ok e') : e'.attempts = e.attempts := by
  rw [pauseFrontier] at h
  split at h
  · cases h
    rfl
  · cases h
    rfl
  · obtain ⟨⟨e₁, frontier⟩, ha, h⟩ := bind_eq_ok.mp h
    have hkeep := advanceFrontier_attempts ha
    cases h
    exact (rearmGate_attempts _ _).trans hkeep
  · obtain ⟨⟨e₁, frontier⟩, ha, h⟩ := bind_eq_ok.mp h
    have hkeep := advanceFrontier_attempts ha
    cases h
    exact (rearmGate_attempts _ _).trans hkeep

namespace Settles

variable {e e₁ : Exec} {r : Except GraphError SuperStepResult} {outcome : Outcome} {q : Point}

/-- What of the attempts on record is saved. -/
theorem attempts (h : Settles g e e₁ r outcome q) :
    q.exec.attempts = e₁.attempts ∨ outcome = .lost ∧ q.exec = e ∧ ∃ result, r = .ok result := by
  cases h with
  | completed hi hc => exact .inl (completeStep_attempts hc)
  | paused hi hc => exact .inl (pauseFrontier_attempts hc)
  | failed => exact .inl rfl
  | lost => exact .inr ⟨rfl, rfl, _, rfl⟩

theorem running (h : Settles g e e₁ r outcome q) (hq : q.running = true) :
    ∃ result, r = .ok result ∧ result.interrupts = [] := by
  cases h with
  | completed hi hc => exact ⟨_, rfl, hi⟩
  | paused | failed | lost => cases hq

end Settles

/-- The record and the tallies agree at every node. -/
def Agree (g : CompiledGraph) (p : Point) (s : String → Tally) : Prop :=
  ∀ n, Counted (g.attemptLimit n) p.running (p.exec.spent n) (s n)

theorem Agree.step {e₁ : Exec} {config : ExecutionConfig} {env : Attempts} {recorded outputs}
    {r : Except GraphError SuperStepResult} {outcome : Outcome} {q : Point}
    (h : Agree g { exec := e } s) (hn : e.pendingNodes.Nodup)
    (hx : SuperStepIn g config ∅ env recorded e outputs (e₁, r)) (hs : Settles g e e₁ r outcome q)
    (hok : Careful g outcome e outputs) : Agree g q (afterStep g e outputs s) := by
  intro n
  obtain ⟨-, hmet⟩ := hx.metered hn
  obtain ⟨hl, hsucc, hunp⟩ := hx.accounted hn fun o ho => (hok o ho).1
  have hn := h n
  unfold afterStep
  cases hfind : outputs.find? fun o => o.name == n with
  | none =>
    have hout : n ∉ outputs.map (·.name) := by
      simpa using hfind
    have hkeep : q.exec.spent n = e.spent n := by
      rcases hs.attempts with ha | ⟨-, ha, -⟩
      · exact (spent_congr ha n).trans (hl.others n hout)
      · rw [ha]
    rw [hkeep]
    exact hn.stop _ fun _ => rfl
  | some o =>
    obtain ⟨rfl, ho⟩ : o.name = n ∧ o ∈ outputs :=
      ⟨by simpa using List.find?_some hfind, List.mem_of_find?_eq_some hfind⟩
    have hm := hmet o ho
    obtain ⟨hun, hpause, hlost⟩ := hok o ho
    have hlimit := attemptLimit_pos (g := g) o.name
    have hfail : o.failed = true → q.running = false := by
      intro hf
      by_contra hq
      obtain ⟨result, hr, -⟩ := hs.running (by simpa using hq)
      exact absurd hf (by simpa using List.any_eq_false.mp (hsucc result hr) o ho)
    have hstop : o.paused = true → q.running = false := by
      intro hp
      by_contra hq
      obtain ⟨result, hr, hnil⟩ := hs.running (by simpa using hq)
      exact absurd hp (by simpa using List.any_eq_false.mp (hunp result hr hnil) o ho)
    have hspent : q.exec.spent o.name = o.leaves (e.spent o.name) := by
      rcases hs.attempts with ha | ⟨hout, ha, result, hr⟩
      · exact (spent_congr ha _).trans (hl.own o ho)
      · have hnot : o.failed = false := by simpa using List.any_eq_false.mp (hsucc result hr) o ho
        rw [ha]
        unfold Output.leaves
        split
        · rfl
        · rename_i out hres
          exact hlost hout (by simp [hres])
        · rename_i error hres
          simp [Output.failed, hres, Except.isOk, Except.toBool] at hnot
    rw [hspent]
    show Counted _ _ _ (if o.ends g e.state then {} else
      { s o.name with made := (s o.name).made + (o.attempts - e.spent o.name) })
    rcases hres : o.result with - | (error | out)
    · have hkeep : o.attempts = e.spent o.name := by
        rcases hm with ⟨-, hm⟩ | ⟨hsome, -⟩
        · exact hm
        · simp [hres] at hsome
      simp only [Output.ends, Output.leaves, hres, hkeep, Nat.sub_self, Nat.add_zero,
        Bool.false_eq_true, if_false]
      exact hn.stop _ fun _ => rfl
    · have hends : o.ends g e.state = false := by
        simp only [Output.unhandled, hres, Bool.or_eq_true, Option.isNone_iff_eq_none] at hun
        simp only [Output.ends, hres]
        rcases hun with hh | hi
        · simp [hh]
        · simp [hi]
      rw [hfail (by simp [Output.failed, hres, Except.isOk, Except.toBool]), hends]
      simp only [Output.leaves, hres, Bool.false_eq_true, if_false]
      exact hn.failed hlimit hm (by simp [hres])
    · simp only [Output.ends, Output.leaves, hres]
      cases hi : out.interrupt with
      | none => exact .zero
      | some interrupt =>
        have hp : o.paused = true := by simp [Output.paused, hres, hi]
        rw [hstop hp]
        exact hn.paused hm (by simp [hres]) (hpause hp)

/-- **Between any two super-steps, the attempts on record are those of the activations that go on.** -/
theorem Tried.agree {p : Point} (h : Tried g (Careful g) p s) : Agree g p s := by
  induction h with
  | @start event p h ha =>
    intro n
    have hzero : p.exec.spent n = 0 := by simp [spent, ha]
    rw [hzero]
    exact .zero
  | step h hp hx hs hok ih =>
    obtain ⟨events, hr⟩ := h.reaches
    obtain ⟨past, -, hc⟩ := hr.consistent
    exact ih.step hc.nodup hx hs hok
  | @resume p s saved config e' now now' id createdAt head input h hr ih =>
    obtain ⟨events, hreach⟩ := h.reaches
    obtain ⟨past, -, hc⟩ := hreach.consistent
    obtain ⟨started, he⟩ := restore_checkpoint (g := g) config hc.saveable saved now now' id createdAt
      head input
    rw [he] at hr
    cases hr
    exact fun n => (ih n).resume

/-- **Where no failure is left to an error handler, every activation has its own retry budget.** -/
theorem own_budget {p : Point} {s : String → Tally} (h : Tried g (Careful g) p s) :
    OwnBudget g p s := by
  have hagree := h.agree
  obtain ⟨events, hr⟩ := h.reaches
  obtain ⟨past, -, hc⟩ := hr.consistent
  refine ⟨fun config n node hzero => ?_, fun hrun config env recorded outputs outcome hx o ho => ?_⟩
  · have hle := (hagree n).le
    rw [hzero] at hle
    have hspent : p.exec.spent n = 0 := Nat.le_zero.mp hle
    refine ⟨hspent, fun retry hretry => ?_⟩
    simp [Activation.budget, activation, hspent, hretry]
  · have hn := hagree o.name
    rw [hrun] at hn
    exact hn.out (attemptLimit_pos _) ((SuperStepIn.metered hx hc.nodup).2 o ho)

/-! ## Threads that can be computed -/

def outputsOf (g : CompiledGraph) (e : Exec) : List Output :=
  sequential quiet false (toDispatch g played ∅ e)

theorem Tried.begun {state : State} (hs : (Exec.start g state still {}).isOk = true) :
    Tried g ok { exec := begun g state } fun _ => {} := by
  have hb := begun_eq hs
  refine .start (.start rfl rfl rfl rfl hb) ?_
  rw [Exec.start, bind_eq_ok] at hb
  obtain ⟨⟨e, frontier⟩, hf, hb⟩ := hb
  have hcore : e.core = Exec.core { state } := (entryFrontier_core _ still).result hf
  rw [← Except.ok.inj hb]
  exact congrArg Exec.attempts hcore

/-- One super-step of a thread, its nodes one after another. -/
theorem Tried.play {event : Event} {q : Point} (h : Tried g ok { exec := e } s)
    (hgate : (gateBefore g e e.pendingNodes).isNone = true)
    (hone : playOne g { exec := e } (.step .invoke) = some (event, q))
    (hok : ok event.outcome e (outputsOf g e)) : Tried g ok q (afterStep g e (outputsOf g e) s) := by
  have hx : SuperStepIn g played ∅ quiet [] e (outputsOf g e) (execute g .invoke e) := by
    simp only [SuperStepIn, execute, Style.isMessages, Option.isNone_iff_eq_none.mp hgate,
      Bool.false_eq_true, if_false]
    exact ⟨sequential_dispatched (Nat.lt_of_lt_of_le Nat.zero_lt_one (Nat.le_max_right _ _)) _ _, rfl⟩
  rw [playOne] at hone
  split at hone
  · cases hone
  · rename_i hrun
    have hp := (not_or.mp hrun).1
    generalize execute g .invoke e = outcome at hone hx
    obtain ⟨e₁, r⟩ := outcome
    cases r with
    | error error =>
      cases hone
      exact h.step hp hx .failed hok
    | ok result =>
      dsimp only at hone
      split at hone
      · rename_i hi
        split at hone
        · rename_i e₂ hc
          cases hone
          exact h.step hp hx (.completed hi hc) hok
        · cases hone
      · rename_i hi
        split at hone
        · rename_i e₂ hc
          cases hone
          exact h.step hp hx (.paused hi hc) hok
        · cases hone

def failing (name : String) : Node where
  name := name
  execute := fun _ _ => .error (.nodeExecutionFailed name (.text "boom"))

/-- A failing node that may be attempted twice, with itself as its successor. -/
def failingLoop (handler : Option NodeErrorHandler) : CompiledGraph where
  schema := {}
  nodes := Dict.ofList [("a", failing "a")]
  edges := [.entry ["a"] nodup_a, .direct "a" (.node "a")]
  deferredConfigs := ∅
  retryPolicies := Dict.ofList [("a", { maxAttempts := 2 })]
  defaultErrorHandler := handler

/-- The first super-step of the loop. -/
def firstTry (handler : Option NodeErrorHandler) : Option (Event × Point) :=
  playOne (failingLoop handler) { exec := begun (failingLoop handler) ∅ } (.step .invoke)

/-- Without a handler the super-step fails, and the attempts stay on record for the resume. -/
theorem own_budget_failingLoop : ∃ p s, p.exec.spent "a" = 2 ∧ (s "a").made = 2 ∧
    OwnBudget (failingLoop none) p s := by
  let e := begun (failingLoop none) ∅
  have hstart : Tried (failingLoop none) (Careful (failingLoop none)) { exec := e } fun _ => {} :=
    .begun (by decide +kernel)
  have hstep : ((firstTry none).map fun x => (x.1.outcome, x.2.exec.spent "a")) = some (.failed, 2) := by
    decide +kernel
  obtain ⟨⟨event, q⟩, hone, hq⟩ := Option.map_eq_some_iff.mp hstep
  obtain ⟨hout, hspent⟩ := Prod.mk.inj hq
  have hcareful : Careful (failingLoop none) .failed e (outputsOf (failingLoop none) e) := by
    decide +kernel
  have htried := hstart.play (by decide +kernel) hone (hout ▸ hcareful)
  exact ⟨q, _, hspent, by decide +kernel, own_budget htried⟩

/-- **A failure its handler recovers from leaves its attempts on record**: the loop schedules the node
again, and its new activation starts with both attempts spent. -/
theorem handled_failure_keeps_budget : ¬ ∀ (g : CompiledGraph) (p : Point) (s : String → Tally),
    Tried g (fun _ _ _ => True) p s → OwnBudget g p s := by
  intro h
  let recover : NodeErrorHandler := fun _ _ _ => .ok {}
  let e := begun (failingLoop (some recover)) ∅
  have hstart : Tried (failingLoop (some recover)) (fun _ _ _ => True) { exec := e } fun _ => {} :=
    .begun (by decide +kernel)
  have hstep : ((firstTry (some recover)).map fun x => (x.2.exec.spent "a")) = some 2 := by
    decide +kernel
  obtain ⟨⟨event, q⟩, hone, hspent⟩ := Option.map_eq_some_iff.mp hstep
  have htried := hstart.play (by decide +kernel) hone trivial
  have hmade : (afterStep (failingLoop (some recover)) e (outputsOf (failingLoop (some recover)) e)
      (fun _ => {}) "a").made = 0 := by decide +kernel
  have hfresh : q.exec.spent "a" = 0 := ((h _ _ _ htried).fresh played "a" (failing "a") hmade).1
  have hkept : q.exec.spent "a" = 2 := hspent
  omega

end Timeline

end Adk
