import AdkRust.Graph.Counters
import AdkRust.Graph.Run

/-!
# The rules of a run

The rules of `Prog.Ensures` for the programs of a run: what the world answers without changing
(`ensures_clock`, `ensures_stamp`), a result that may be an error (`ensures_ofResult`), and the loop
(`ensures_loop`). `StepsTo.kept`: a super-step leaves what its run counts alone.
-/

namespace Adk

namespace Run

open Prog

variable {g : CompiledGraph} {config : ExecutionConfig} {style : Style}
  {others : MemoryStore → MemoryStore → Prop} {pre : Ask → World → Prop}
  {err : GraphError → World → Prop} {w : World}

/-! ## Super-steps -/

variable {e e' : Exec} {outcome : Except MessagesFailure SuperStepResult} {asked : List (List String)}

theorem StepsTo.executes (h : StepsTo g config style e e' outcome asked) :
    Timeline.Executes g style config e e' (outcome.mapError MessagesFailure.error) := by
  cases h with
  | @step _ _ _ _ result hm h =>
    have hid : (result.mapError MessagesFailure.failed).mapError MessagesFailure.error = result := by
      cases result <;> rfl
    rw [hid]
    exact .step hm h
  | messages hm h => exact .messages hm h

theorem StepsTo.flow (h : StepsTo g config style e e' outcome asked) : e'.flow = e.flow := h.executes.flow

theorem StepsTo.kept (h : StepsTo g config style e e' outcome asked) :
    e'.headVersion = e.headVersion ∧ e'.step = e.step ∧ e'.runStartStep = e.runStartStep ∧
      e'.unsaved = e.unsaved ∧ e'.pendingNodes = e.pendingNodes := by
  have hflow := h.flow
  simp only [Exec.flow, Exec.mk.injEq] at hflow
  obtain ⟨-, hstep, hnds, -, -, -, -, -, -, -, hsta, hhead, -, hunsaved, -⟩ := hflow
  exact ⟨hhead, hstep, hsta, hunsaved, hnds⟩

/-! ## Rules -/

section Stable

variable {inv : World → Prop} (hstb : Stable (laws g config style others) inv) (hw : inv w)
include hstb hw

theorem ensures_ofResult {α : Type} {R : α → World → Prop} {result : Except GraphError α}
    (h : ∀ w, inv w → Ends (fun a => R a w) (fun error => err error w) result) :
    Ensures (laws g config style others) pre err R (ofResult result) w := by
  refine hstb.holds_pure hw fun w' hw' => ?_
  have := h w' hw'
  cases result with
  | ok a => exact this
  | error e => exact this

theorem ensures_clock (hpre : ∀ w, inv w → pre .clock w) :
    Ensures (laws g config style others) pre err (fun _ => inv) (ask .clock) w := by
  refine hstb.ensures_perform hw hpre (fun w r w' hw hr => ?_) fun _ => hstb
  rw [show w' = w from hr]
  exact hw

theorem ensures_stamp (hpre : ∀ w, inv w → pre .stamp w) :
    Ensures (laws g config style others) pre err (fun _ => inv) (ask .stamp) w := by
  refine hstb.ensures_perform hw hpre (fun w r w' hw hr => ?_) fun _ => hstb
  rw [show w' = w from hr]
  exact hw

theorem ensures_buildCheckpoint {e : Exec} (hpre : ∀ o w, inv w → pre o w) :
    Ensures (laws g config style others) pre err
      (fun r w => inv w ∧ ∃ now id createdAt, r = Exec.buildCheckpoint config e now id createdAt)
      (buildCheckpoint config e) w := by
  refine (ensures_stamp hstb hw (hpre _)).bind ?_
  rintro ⟨id, createdAt⟩ w₁ hw₁
  refine (ensures_clock hstb hw₁ (hpre _)).bind fun now w₂ hw₂ => ?_
  exact hstb.ensures_pure hw₂ fun w hw => ⟨hw, now, id, createdAt, rfl⟩

end Stable

/-- **The loop rule.** `I` holds at the head of the loop, with the fuel that is left. -/
theorem ensures_loop {I : Nat → Exec → World → Prop} {post : Exec → World → Prop}
    (hfinish : ∀ n e w, I n e w → e.pendingNodes = [] →
      Ensures (laws g config style others) pre err post (finishCheckpoints g config e) w)
    (hlim : ∀ n e w, I n e w → e.pendingNodes ≠ [] → n = 0 ∨ recursionLimit g config ≤ e.step - e.runStartStep →
      Ensures (laws g config style others) pre err post (throw (.recursionLimitExceeded (e.step - e.runStartStep))) w)
    (hstep : ∀ n e w, I (n + 1) e w → e.pendingNodes ≠ [] → e.step - e.runStartStep < recursionLimit g config →
      Ensures (laws g config style others) pre err (I n) (superStep g config style e) w) {n : Nat} (h : I n e w) :
    Ensures (laws g config style others) pre err post (loop g config style n e) w := by
  induction n generalizing e w with
  | zero =>
    unfold loop
    by_cases hp : e.pendingNodes = []
    · simp only [hp, List.isEmpty_nil, if_true]
      exact hfinish 0 e w h hp
    · have hp' : e.pendingNodes.isEmpty = false := by simpa using hp
      simp only [hp', Bool.false_eq_true, if_false]
      have hthrow := hlim 0 e w h hp (.inl rfl)
      split <;> exact hthrow
  | succ n ih =>
    unfold loop
    by_cases hp : e.pendingNodes = []
    · simp only [hp, List.isEmpty_nil, if_true]
      exact hfinish (n + 1) e w h hp
    · have hp' : e.pendingNodes.isEmpty = false := by simpa using hp
      simp only [hp', Bool.false_eq_true, if_false]
      by_cases hl : recursionLimit g config ≤ e.step - e.runStartStep
      · rw [if_pos hl]
        exact hlim (n + 1) e w h hp (.inr hl)
      · rw [if_neg hl]
        exact (hstep n e w h hp (by omega)).bind fun e' w' h' => ih h'

end Run

end Adk
