import AdkRust.Graph.Drive
import AdkRust.Graph.Quiet

/-!
# The step budget of a turn

An agent runs a graph once for every message of a conversation, on one thread: a run that finds the
thread finished starts a new turn at the entry nodes, and one that finds it paused goes on with the turn.
The step budget is to count the super-steps of a turn.

A run counts from the step it starts at, and a run that goes on with a turn counts from zero. So the
count is that of the turn only when the step of the checkpoint is (`Counted`): when the turn is the first
of its thread, and every super-step of it so far has completed or was stopped by a gate before its nodes
ran. Then the budget is exact (`budget_counts_turn`); a turn that pauses after another one fails before
its budget is spent (`budget_spent_by_earlier_turn`).
-/

namespace Adk

namespace Run

open Prog

/-! ## Turns -/

/-- The super-steps a turn has executed, after one more mark. A super-step that a gate stopped before its
nodes ran is not executed. -/
def countStep (g : CompiledGraph) (n : Nat) : Mark → Nat
  | .entered true _ => 0
  | .superStep e _ _ => if (Exec.gateBefore g e e.pendingNodes).isNone then n + 1 else n
  | _ => n

/-- The super-steps executed since the last turn started at the entry nodes. -/
def stepsOfTurn (g : CompiledGraph) (history : List Mark) : Nat := history.foldl (countStep g) 0

structure IsTurn (g : CompiledGraph) (thread : String) (limit : Nat) (config : ExecutionConfig) :
    Prop where
  thread : config.threadId = thread
  latest : config.resumeFrom = none
  limit : recursionLimit g config = limit

/-- The turns of a thread. `meets` is what holds when a run starts. -/
abbrev Turns (g : CompiledGraph) (thread : String) (limit : Nat)
    (others : MemoryStore → MemoryStore → Prop)
    (meets : List Mark → ExecutionConfig → MemoryStore → Prop) : List Mark → MemoryStore → Prop :=
  Session g true others fun history config _ store =>
    IsTurn g thread limit config ∧ meets history config store

/-- The checkpoint of an unfinished turn counts the super-steps that the turn has executed. -/
def Counted (g : CompiledGraph) (others : MemoryStore → MemoryStore → Prop) (history : List Mark)
    (config : ExecutionConfig) (store : MemoryStore) : Prop :=
  ∀ cp, Loads g config others store cp → cp.pendingNodes ≠ [] → cp.step = stepsOfTurn g history

variable {g : CompiledGraph} {thread : String} {limit : Nat} {config : ExecutionConfig} {style : Style}
  {others : MemoryStore → MemoryStore → Prop} {history : List Mark} {store : MemoryStore}

/-! ## The budget -/

theorem stepsOfTurn_append (g : CompiledGraph) (history : List Mark) (m : Mark) :
    stepsOfTurn g (history ++ [m]) = countStep g (stepsOfTurn g history) m := by
  simp [stepsOfTurn]

/-- A run has counted the super-steps of its turn. -/
structure Counts (g : CompiledGraph) (history : List Mark) (limit : Nat) (e : Exec)
    (deeds : List Mark) : Prop where
  steps : stepsOfTurn g (history ++ deeds) = e.step - e.runStartStep
  started : e.runStartStep ≤ e.step
  le : stepsOfTurn g (history ++ deeds) ≤ limit

theorem StepsTo.gate_none {e e' : Exec} {result : SuperStepResult} {asked : List (List String)}
    (h : StepsTo g config style e e' (.ok result) asked) (hi : result.interrupts = []) :
    Exec.gateBefore g e e.pendingNodes = none := by
  rcases h.executes.ok with ⟨gate, -, -, rfl⟩ | ⟨hnone, -⟩
  · cases hi
  · exact hnone

/-- **The budget is counted by every step of a run.** -/
theorem counts_invariant (hlim : recursionLimit g config = limit) :
    Invariant g config style (Counts g history limit)
      (fun deeds => stepsOfTurn g (history ++ deeds) ≤ limit) where
  same := by
    intro e e' deeds h hsame
    have hstep : e'.step = e.step := by rw [hsame]
    have hsta : e'.runStartStep = e.runStartStep := by rw [hsame]
    refine ⟨?_, ?_, h.le⟩
    · rw [hstep, hsta]
      exact h.steps
    · rw [hstep, hsta]
      exact h.started
  during := fun h => h.le
  step := by
    intro e e' outcome asked deeds h _ hspt _
    have hsts := h.steps
    unfold Spent at hspt
    rw [← List.append_assoc, stepsOfTurn_append]
    simp only [countStep]
    split <;> omega
  complete := by
    intro e e' e'' result asked now deeds h _ hspt hsts hi hc
    have hsts' := h.steps
    have hstd := h.started
    unfold Spent at hspt
    have hcnt : stepsOfTurn g (history ++
        (deeds ++ [.superStep e (e', .ok result) asked, .completed e''])) =
        (e.step - e.runStartStep) + 1 := by
      rw [List.append_cons deeds, ← List.append_assoc, ← List.append_assoc, stepsOfTurn_append,
        stepsOfTurn_append]
      simp only [countStep, hsts.gate_none hi, Option.isNone_none, if_true]
      omega
    obtain ⟨-, hstep, hsta, -, -⟩ := hsts.kept
    have hctr := (Exec.completeStep_counters e' result now).result hc
    have hstl := (Exec.settle_counters style e'').trans hctr
    have h₁ : (style.settle e'').step = e'.step + 1 := congrArg Counters.step hstl
    have h₂ : (style.settle e'').runStartStep = e'.runStartStep :=
      congrArg Counters.runStartStep hstl
    refine ⟨?_, ?_, ?_⟩
    · rw [hcnt, h₁, h₂, hstep, hsta]
      omega
    · omega
    · omega

theorem run_counts (style : Style) (input : State) (hturn : IsTurn g thread limit config)
    (hle : stepsOfTurn g history ≤ limit) (hmts : Counted g others history config store) :
    Obeys g config style others (Counts g history limit)
      (fun deeds => stepsOfTurn g (history ++ deeds) ≤ limit)
      (fun e w => Quietly (Counts g history limit e) w ∧ e.pendingNodes = [])
      (run g config style true input) { store } := by
  refine run_obeys (counts_invariant hturn.limit) rfl rfl (by simpa using hle) ?_ ?_
  · intro state now e hs
    have hctr := (Exec.start_counters state now).result hs
    have hstep : e.step = 0 := congrArg Counters.step hctr
    have hsta : e.runStartStep = 0 := congrArg Counters.runStartStep hctr
    have hzero : stepsOfTurn g (history ++ [.entered true e]) = 0 := stepsOfTurn_append g history _
    exact ⟨by omega, by omega, by omega⟩
  · intro cp head now e hloads hr
    have hctr := (Exec.restore_counters config true cp head input now).result hr
    have hstep : e.step = cp.step := congrArg Counters.step hctr
    have hsta : e.runStartStep = if Exec.restarts config true cp then cp.step else 0 :=
      congrArg Counters.runStartStep hctr
    cases hrestarts : Exec.restarts config true cp with
    | true =>
      rw [hrestarts, if_pos rfl] at hsta
      have hzero : stepsOfTurn g (history ++ [.entered true e]) = 0 := stepsOfTurn_append g history _
      exact ⟨by omega, by omega, by omega⟩
    | false =>
      rw [hrestarts, if_neg Bool.false_ne_true] at hsta
      have hpend : cp.pendingNodes ≠ [] := by
        intro hnil
        simp [Exec.restarts, hnil, hturn.latest] at hrestarts
      have hcntd := hmts cp hloads hpend
      have hsame : stepsOfTurn g (history ++ [.entered false e]) = stepsOfTurn g history :=
        stepsOfTurn_append g history _
      exact ⟨by omega, by omega, by omega⟩

/-- No turn is ever longer than its budget. -/
theorem Turns.le (h : Turns g thread limit others (Counted g others) history store) :
    stepsOfTurn g history ≤ limit := by
  induction h with
  | new store => exact Nat.zero_le _
  | @run history store config style input p w h hstarts hrea ih =>
    obtain ⟨hturn, hmts⟩ := hstarts
    have hrun := run_counts style input hturn ih hmts
    refine ((hrun.mono (fun e w hw => ?_) fun error w hw => ?_).always hrea).deeds
    · exact hw.1.mono fun hds => hds.le
    · exact hw.mono fun hds => hds.during

/-- **The step budget counts the steps of one turn**, in the runs whose checkpoint does: no turn executes
more super-steps than its budget, and a run whose own budget check fails has spent it in its turn. -/
theorem budget_counts_turn (h : Turns g thread limit others (Counted g others) history store)
    (hturn : IsTurn g thread limit config) (hmeets : Counted g others history config store)
    {input : State} {p : Prog Ask Ask.Answer (Except GraphError Exec)} {w : World}
    (hreach : Reaches (laws g config style others)
      ((run g config style true input).run, { store }) (p, w)) :
    stepsOfTurn g (history ++ w.deeds) ≤ limit ∧
      ∀ n, p = .pure (.error (.recursionLimitExceeded n)) →
        Raised w.deeds (.recursionLimitExceeded n) ∨ limit ≤ stepsOfTurn g (history ++ w.deeds) := by
  refine ⟨Turns.le (h.run ⟨hturn, hmeets⟩ hreach), fun n hp => ?_⟩
  subst hp
  have hrun := run_counts style input hturn (Turns.le h) hmeets
  rcases (hrun.failed hreach).deeds.budget with hnot | hraised | ⟨e, hcounts, hspent⟩
  · exact absurd rfl (hnot n)
  · exact .inl hraised
  · have hsteps := hcounts.steps
    have hlimit := hturn.limit
    unfold Spent at hspent
    exact .inr (by omega)

/-! ## A turn after another -/

/-- `oneNode` with a gate before its node and a budget of one super-step. -/
def gatedNode : CompiledGraph :=
  { oneNode with
    interruptBefore := Names.ofList ["a"]
    recursionLimit := 1 }

/-- The configuration of every turn. -/
def onThread : ExecutionConfig where
  threadId := "thread"

theorem onThread_isTurn : IsTurn gatedNode "thread" 1 onThread := ⟨rfl, rfl, rfl⟩

/-- A computed run of `gatedNode` on a store. -/
@[irreducible] def callOn (stamp : String) (store : MemoryStore) : Except GraphError Exec × World :=
  drive gatedNode onThread .invoke stamp (run gatedNode onThread .invoke true ∅).run { store }

def firstPause : World := (callOn "a" {}).2
def firstEnd : World := (callOn "b" firstPause.store).2

def secondPause : World := (callOn "c" firstEnd.store).2
def secondGoesOn : Except GraphError Exec × World := callOn "d" secondPause.store

theorem callOn_reaches (stamp : String) (store : MemoryStore) :
    Reaches (laws gatedNode onThread .invoke nobody)
      ((run gatedNode onThread .invoke true ∅).run, { store })
      (.pure (callOn stamp store).1, (callOn stamp store).2) := by
  unfold callOn
  exact drive_reaches _ _

theorem callOn_turns {meets : List Mark → ExecutionConfig → MemoryStore → Prop} {history : List Mark}
    {store : MemoryStore} (stamp : String)
    (h : Turns gatedNode "thread" 1 nobody meets history store) (hmts : meets history onThread store) :
    Turns gatedNode "thread" 1 nobody meets (history ++ (callOn stamp store).2.deeds)
      (callOn stamp store).2.store :=
  h.run ⟨onThread_isTurn, hmts⟩ (callOn_reaches stamp store)

theorem firstPause_turns {meets : List Mark → ExecutionConfig → MemoryStore → Prop}
    (hmts : meets [] onThread {}) :
    Turns gatedNode "thread" 1 nobody meets firstPause.deeds firstPause.store := by
  have hnew : Turns gatedNode "thread" 1 nobody meets [] {} := .new {}
  have h := callOn_turns "a" hnew hmts
  rw [List.nil_append] at h
  exact h

/-- The first turn goes on after its pause, and executes the one super-step it may. -/
theorem budget_counts_turn_gatedNode :
    stepsOfTurn gatedNode (firstPause.deeds ++ firstEnd.deeds) = 1 ∧
      stepsOfTurn gatedNode (firstPause.deeds ++ firstEnd.deeds) ≤ 1 ∧
      ∀ n, (Prog.pure (callOn "b" firstPause.store).1 : Prog Ask Ask.Answer _) =
        .pure (.error (.recursionLimitExceeded n)) →
        Raised firstEnd.deeds (.recursionLimitExceeded n) ∨
          1 ≤ stepsOfTurn gatedNode (firstPause.deeds ++ firstEnd.deeds) := by
  have hmeets : ∀ {history : List Mark} {store : MemoryStore},
      (store.load "thread").all (fun cp => decide (cp.step = stepsOfTurn gatedNode history)) = true →
      Counted gatedNode nobody history onThread store := by
    rintro history store hall cp ⟨-, store', hstore', hload⟩ _
    rw [nobody_moved hstore'] at hload
    have hload' : store.load "thread" = some cp := hload
    rw [hload'] at hall
    simpa using hall
  have hfirst : Counted gatedNode nobody [] onThread {} := hmeets (by decide +kernel)
  have hsecond : Counted gatedNode nobody firstPause.deeds onThread firstPause.store :=
    hmeets (by decide +kernel)
  refine ⟨by decide +kernel, ?_⟩
  exact budget_counts_turn (firstPause_turns hfirst) onThread_isTurn hsecond
    (callOn_reaches "b" firstPause.store)

/-- Whether a run failed for its step budget. -/
def isSpent : Except GraphError Exec → Bool
  | .error (.recursionLimitExceeded _) => true
  | _ => false

def Mark.isSuperStep : Mark → Bool
  | .superStep .. => true
  | _ => false

/-- **The budget of a turn may be spent by the turn before it**: the second turn paused before its first
super-step, and when it goes on it fails without having executed one. -/
theorem budget_spent_by_earlier_turn : ¬ ∀ (g : CompiledGraph) (thread : String) (limit : Nat)
    (others : MemoryStore → MemoryStore → Prop) (history : List Mark) (store : MemoryStore)
    (config : ExecutionConfig) (style : Style) (input : State)
    (p : Prog Ask Ask.Answer (Except GraphError Exec)) (w : World),
    Turns g thread limit others (fun _ _ _ => True) history store → IsTurn g thread limit config →
      Reaches (laws g config style others) ((run g config style true input).run, { store }) (p, w) →
      stepsOfTurn g (history ++ w.deeds) ≤ limit ∧
        ∀ n, p = .pure (.error (.recursionLimitExceeded n)) →
          Raised w.deeds (.recursionLimitExceeded n) ∨ limit ≤ stepsOfTurn g (history ++ w.deeds) := by
  intro h
  let anyTime (_ : List Mark) (_ : ExecutionConfig) (_ : MemoryStore) : Prop := True
  have hfirst : Turns gatedNode "thread" 1 nobody anyTime firstPause.deeds firstPause.store :=
    firstPause_turns trivial
  have hend : Turns gatedNode "thread" 1 nobody anyTime (firstPause.deeds ++ firstEnd.deeds)
      firstEnd.store := callOn_turns "b" hfirst trivial
  have hturns : Turns gatedNode "thread" 1 nobody anyTime
      (firstPause.deeds ++ firstEnd.deeds ++ secondPause.deeds) secondPause.store :=
    callOn_turns "c" hend trivial
  obtain ⟨-, hspent⟩ := h gatedNode "thread" 1 nobody _ _ onThread .invoke ∅ _ secondGoesOn.2 hturns
    onThread_isTurn (callOn_reaches "d" secondPause.store)
  have hfails : isSpent secondGoesOn.1 = true := by decide +kernel
  unfold isSpent at hfails
  split at hfails
  · rename_i n heq
    have hp : (Prog.pure secondGoesOn.1 : Prog Ask Ask.Answer _) =
        .pure (.error (.recursionLimitExceeded n)) := by rw [heq]
    rcases hspent n hp with ⟨e, e', failure, asked, hmem, -⟩ | hle
    · have hnone : secondGoesOn.2.deeds.any Mark.isSuperStep = false := by decide +kernel
      have := List.any_eq_false.mp hnone _ hmem
      exact this rfl
    · have hzero : stepsOfTurn gatedNode (firstPause.deeds ++ firstEnd.deeds ++ secondPause.deeds ++
          secondGoesOn.2.deeds) = 0 := by decide +kernel
      have hle' : 1 ≤ stepsOfTurn gatedNode (firstPause.deeds ++ firstEnd.deeds ++ secondPause.deeds ++
          secondGoesOn.2.deeds) := hle
      omega
  · cases hfails

end Run

end Adk
