import AdkRust.Graph.RunRules
import AdkRust.Store.Memory

/-!
# What checkpoints do not change

A run asks its world for checkpoints and tells it what it did. `Quietly P`: `P` holds of what the run
did beside saving. The programs that write checkpoints keep it, whatever they write and however the
world moves in between (`saveCheckpoint_quietly` and the lemmas after it), and they change nothing of the
executor but its head version and its unsaved flag (`SameRun`). None of them fails as the step budget
does.
-/

namespace Adk

namespace Run

open Prog

/-! ## Quiet assertions -/

/-- `P` holds of what a run did beside saving, and its background write does not fail as the step budget
does. -/
structure Quietly (P : List Mark → Prop) (w : World) : Prop where
  deeds : P w.deeds
  sound : ∀ error, w.inflight = some (.done (.error error)) → error.NotBudget

variable {g : CompiledGraph} {config : ExecutionConfig} {style : Style} {restartCompleted : Bool}
  {others : MemoryStore → MemoryStore → Prop} {P : List Mark → Prop} {w w' : World}

variable {m : Mark} {n : Nat} {e : Exec} {deeds : List Mark} {pre : Ask → World → Prop}
  {err : GraphError → World → Prop}

theorem World.deeds_mark (w : World) (hm : m.isSave = false) :
    (w.mark m).deeds = w.deeds ++ [m] := by
  simp [World.deeds, World.mark, hm]

theorem World.deeds_mark_save (w : World) (hm : m.isSave = true) :
    (w.mark m).deeds = w.deeds := by
  simp [World.deeds, World.mark, hm]

/-- A store refuses a save for its version or for its id. -/
theorem save_notBudget (store : MemoryStore) (cp : Checkpoint) :
    Ends (fun _ => True) GraphError.NotBudget (store.save cp) := by
  unfold MemoryStore.save
  refine Ends.bind (P := fun _ => True) ?_ fun _ _ => ?_
  · unfold ensureNewer conflict
    split
    · intro n h
      cases h
    · split
      · split
        · intro n h
          cases h
        · trivial
      · trivial
  · split
    · intro n h
      cases h
    · trivial

theorem World.save_quiet {cp : Checkpoint} {result : Except GraphError String}
    (h : w.save cp = (result, w')) :
    w'.deeds = w.deeds ∧ w'.inflight = w.inflight ∧ ∀ error, result = .error error → error.NotBudget := by
  unfold World.save at h
  cases hs : w.store.save cp with
  | ok store =>
    rw [hs] at h
    cases h
    refine ⟨World.deeds_mark_save _ rfl, rfl, fun error he => ?_⟩
    cases he
  | error error =>
    rw [hs] at h
    cases h
    refine ⟨World.deeds_mark_save _ rfl, rfl, fun error he => ?_⟩
    cases he
    exact (save_notBudget w.store cp).failure hs

theorem quietly_stable : Stable (laws g config style others) (Quietly P) := by
  intro w w' hmove h
  cases hmove with
  | @saved _ cp result hi hsave =>
    obtain ⟨hdeeds, -, herror⟩ := World.save_quiet hsave
    refine ⟨?_, fun error he => ?_⟩
    · show P (World.deeds _)
      exact hdeeds ▸ h.deeds
    · unfold Write.afterSave at he
      split at he
      · cases he
        exact herror _ rfl
      · split at he <;> cases he
  | pruned now hi => exact ⟨h.deeds, fun error he => by cases he⟩
  | others hstep => exact ⟨h.deeds, h.sound⟩

/-- What the run tells its world is a deed. -/
theorem Quietly.mark {P' : List Mark → Prop} (h : Quietly P w) (hm : m.isSave = false)
    (hP : P w.deeds → P' (w.deeds ++ [m])) : Quietly P' (w.mark m) := by
  refine ⟨?_, h.sound⟩
  rw [World.deeds_mark w hm]
  exact hP h.deeds

theorem Quietly.mono {P' : List Mark → Prop} (h : Quietly P w) (hP : P w.deeds → P' w.deeds) :
    Quietly P' w := ⟨hP h.deeds, h.sound⟩

/-- Two executors of one run, the second after a checkpoint. -/
def SameRun (e e' : Exec) : Prop :=
  e' = { e with headVersion := e'.headVersion, unsaved := e'.unsaved }

/-! ## Writing checkpoints -/

section Writing

variable {pre : Ask → World → Prop} {err : GraphError → World → Prop}
  (hpre : ∀ o w, Quietly P w → pre o w)
  (herr : ∀ error w, Quietly P w → error.NotBudget → err error w)
include hpre herr

theorem awaitInflight_quietly (h : Quietly P w) :
    Ensures (laws g config style others) pre err (fun _ => Quietly P) awaitInflight w := by
  refine (quietly_stable.ensures_perform (o := .await) (R := fun r w =>
    Quietly P w ∧ ∀ error, r = .error error → error.NotBudget) h (hpre _) ?_ ?_).bind ?_
  · rintro w r w' hw (⟨-, rfl, rfl⟩ | ⟨result, hi, rfl, rfl⟩)
    · exact ⟨hw, fun error he => by cases he⟩
    · refine ⟨⟨hw.deeds, fun error he => by cases he⟩, fun error he => ?_⟩
      cases result with
      | ok id => cases he
      | error error' =>
        cases he
        exact hw.sound _ hi
  · exact fun r w w' hmove h => ⟨quietly_stable w w' hmove h.1, h.2⟩
  · rintro r w ⟨hw, herror⟩
    refine ensures_ofResult quietly_stable hw fun w hw => ?_
    cases r with
    | ok a => exact hw
    | error error => exact herr error w hw (herror error rfl)

theorem writeCheckpoint_quietly (cp : Checkpoint) (h : Quietly P w) :
    Ensures (laws g config style others) pre err (fun _ => Quietly P) (writeCheckpoint g cp) w := by
  refine (quietly_stable.ensures_perform (o := .save cp) (R := fun r w =>
    Quietly P w ∧ ∀ error, r = .error error → error.NotBudget) h (hpre _) ?_ ?_).bind ?_
  · intro w r w' hw hsave
    obtain ⟨hdeeds, hinflight, herror⟩ := World.save_quiet hsave.symm
    exact ⟨⟨hdeeds ▸ hw.deeds, hinflight ▸ hw.sound⟩, herror⟩
  · exact fun r w w' hmove h => ⟨quietly_stable w w' hmove h.1, h.2⟩
  · rintro r w ⟨hw, herror⟩
    refine (ensures_ofResult quietly_stable hw (R := fun _ => Quietly P) fun w hw => ?_).bind ?_
    · cases r with
      | ok id => exact hw
      | error error => exact herr error w hw (herror error rfl)
    · intro id w hw
      dsimp only
      split
      · refine (quietly_stable.ensures_perform (o := .prune _ _) (R := fun _ => Quietly P) hw
          (hpre _) ?_ fun _ => quietly_stable).bind fun _ w hw =>
            quietly_stable.ensures_pure hw fun _ hw => hw
        rintro w r w' hw ⟨now, rfl⟩
        exact ⟨hw.deeds, hw.sound⟩
      · exact quietly_stable.ensures_pure hw fun _ hw => hw

theorem saveCheckpoint_quietly (e : Exec) (h : Quietly P w) :
    Ensures (laws g config style others) pre err (fun r w => Quietly P w ∧ SameRun e r.1)
      (saveCheckpoint g config e) w := by
  refine (awaitInflight_quietly hpre herr h).bind fun _ w hw => ?_
  split
  · refine (ensures_buildCheckpoint quietly_stable hw hpre).bind ?_
    rintro _ w ⟨hw, now, id, createdAt, rfl⟩
    refine (writeCheckpoint_quietly hpre herr _ hw).bind fun _ w hw => ?_
    exact quietly_stable.ensures_pure hw fun _ hw => ⟨hw, rfl⟩
  · exact quietly_stable.ensures_pure hw fun _ hw => ⟨hw, rfl⟩

theorem checkpointStep_quietly (e : Exec) (h : Quietly P w) :
    Ensures (laws g config style others) pre err (fun e' w => Quietly P w ∧ SameRun e e')
      (checkpointStep g config e) w := by
  unfold checkpointStep
  split
  · split
    · refine (saveCheckpoint_quietly hpre herr e h).bind ?_
      rintro ⟨e', id⟩ w ⟨hw, hsame⟩
      exact quietly_stable.ensures_pure hw fun _ hw => ⟨hw, hsame⟩
    · refine (awaitInflight_quietly hpre herr h).bind fun _ w hw => ?_
      refine (ensures_buildCheckpoint quietly_stable hw hpre).bind ?_
      rintro _ w ⟨hw, now, id, createdAt, rfl⟩
      refine (quietly_stable.ensures_perform (o := .spawn _) (R := fun _ => Quietly P) hw (hpre _) ?_
        fun _ => quietly_stable).bind fun _ w hw =>
          quietly_stable.ensures_pure hw fun _ hw => ⟨hw, rfl⟩
      rintro w r w' hw rfl
      exact ⟨hw.deeds, fun error he => by cases he⟩
    · exact quietly_stable.ensures_pure h fun _ hw => ⟨hw, rfl⟩
  · exact quietly_stable.ensures_pure h fun _ hw => ⟨hw, rfl⟩

theorem finishCheckpoints_quietly (e : Exec) (h : Quietly P w) :
    Ensures (laws g config style others) pre err (fun e' w => Quietly P w ∧ SameRun e e')
      (finishCheckpoints g config e) w := by
  refine (awaitInflight_quietly hpre herr h).bind fun _ w hw => ?_
  split
  · refine (saveCheckpoint_quietly hpre herr e hw).bind ?_
    rintro ⟨e', id⟩ w ⟨hw, hsame⟩
    exact quietly_stable.ensures_pure hw fun _ hw => ⟨hw, hsame⟩
  · exact quietly_stable.ensures_pure hw fun _ hw => ⟨hw, rfl⟩

theorem flushBeforeSideEffects_quietly (e : Exec) (h : Quietly P w) :
    Ensures (laws g config style others) pre err (fun e' w => Quietly P w ∧ SameRun e e')
      (flushBeforeSideEffects g config e) w := by
  unfold flushBeforeSideEffects
  split
  · exact finishCheckpoints_quietly hpre herr e h
  · exact quietly_stable.ensures_pure h fun _ hw => ⟨hw, rfl⟩

omit herr in
theorem checkpointFailedStep_quietly (e : Exec) (h : Quietly P w) :
    (checkpointFailedStep g config e).Holds (laws g config style others) pre
      (fun _ => Quietly P) w := by
  have hdrop : ∀ {α : Type} {p : RunM α} {w : World},
      Ensures (laws g config style others) pre (fun _ => Quietly P) (fun _ => Quietly P) p w →
      (p.run.bind fun _ => Prog.pure ()).Holds (laws g config style others) pre
        (fun _ => Quietly P) w := by
    intro α p w hp
    refine holds_bind (Holds.mono hp fun r w hr => ?_)
    cases r with
    | ok a => exact quietly_stable.holds_pure hr fun _ hw => hw
    | error error => exact quietly_stable.holds_pure hr fun _ hw => hw
  simp only [checkpointFailedStep]
  split
  · refine hdrop ((saveCheckpoint_quietly hpre (fun _ _ hw _ => hw) e h).mono ?_ fun _ _ hw => hw)
    exact fun _ _ hw => hw.1
  · exact hdrop (awaitInflight_quietly hpre (fun _ _ hw _ => hw) h)

end Writing

/-! ## The loop -/

/-- The step budget is spent. -/
def Spent (g : CompiledGraph) (config : ExecutionConfig) (e : Exec) : Prop :=
  recursionLimit g config ≤ e.step - e.runStartStep

/-- An invariant of a run: `P` holds between its super-steps, of its executor and of what it did, and `Q`
holds at every point of it. -/
structure Invariant (g : CompiledGraph) (config : ExecutionConfig) (style : Style)
    (P : Exec → List Mark → Prop) (Q : List Mark → Prop) : Prop where
  same : ∀ {e e' deeds}, P e deeds → SameRun e e' → P e' deeds
  during : ∀ {e deeds}, P e deeds → Q deeds
  step : ∀ {e e' outcome asked deeds}, P e deeds → e.pendingNodes ≠ [] → ¬ Spent g config e →
    StepsTo g config style e e' outcome asked → Q (deeds ++ [.superStep e (e', outcome) asked])
  complete : ∀ {e e' e'' result asked now deeds}, P e deeds → e.pendingNodes ≠ [] → ¬ Spent g config e →
    StepsTo g config style e e' (.ok result) asked → result.interrupts = [] →
    Exec.completeStep g e' result now = .ok e'' →
    P (style.settle e'') (deeds ++ [.superStep e (e', .ok result) asked, .completed e''])

/-- A node of a super-step raised the error. -/
def Raised (deeds : List Mark) (error : GraphError) : Prop :=
  ∃ e e' failure asked, Mark.superStep e (e', .error failure) asked ∈ deeds ∧ failure.error = error

/-- How a run with an invariant fails. -/
structure Fails (g : CompiledGraph) (config : ExecutionConfig) (P : Exec → List Mark → Prop)
    (Q : List Mark → Prop) (error : GraphError) (deeds : List Mark) : Prop where
  during : Q deeds
  budget : error.NotBudget ∨ Raised deeds error ∨ ∃ e, P e deeds ∧ Spent g config e

/-- The invariant at the head of the loop, and the fuel that is left. -/
structure AtHead (g : CompiledGraph) (config : ExecutionConfig) (P : Exec → List Mark → Prop)
    (fuel : Nat) (e : Exec) (deeds : List Mark) : Prop where
  holds : P e deeds
  started : e.runStartStep ≤ e.step
  fuel : recursionLimit g config ≤ fuel + (e.step - e.runStartStep)

variable {Q : List Mark → Prop} {I : Exec → List Mark → Prop}

theorem AtHead.same (hI : Invariant g config style I Q) {e' : Exec}
    (h : AtHead g config I n e deeds) (hsame : SameRun e e') : AtHead g config I n e' deeds := by
  have hstep : e'.step = e.step := by rw [hsame]
  have hsta : e'.runStartStep = e.runStartStep := by rw [hsame]
  refine ⟨hI.same h.holds hsame, ?_, ?_⟩
  · rw [hstep, hsta]
    exact h.started
  · rw [hstep, hsta]
    exact h.fuel

/-- A program of a run with an invariant. -/
abbrev Obeys {α : Type} (g : CompiledGraph) (config : ExecutionConfig) (style : Style)
    (others : MemoryStore → MemoryStore → Prop) (I : Exec → List Mark → Prop) (Q : List Mark → Prop)
    (post : α → World → Prop) (p : RunM α) (w : World) : Prop :=
  Ensures (laws g config style others) (fun _ => Quietly Q)
    (fun error => Quietly (Fails g config I Q error)) post p w

theorem Fails.of_notBudget {error : GraphError} (hQ : Q deeds)
    (h : error.NotBudget) : Fails g config I Q error deeds := ⟨hQ, .inl h⟩

variable (hI : Invariant g config style I Q)
include hI

omit hI in
theorem pause_obeys {result : SuperStepResult} {interrupt : Interrupt}
    {post : Exec → World → Prop} (h : Quietly Q w) :
    Obeys g config style others I Q post (pause g config style e result interrupt) w := by
  have herr : ∀ error w, Quietly Q w → error.NotBudget → Quietly (Fails g config I Q error) w :=
    fun error w hw herror => hw.mono fun hQ => .of_notBudget hQ herror
  refine (ensures_clock quietly_stable h fun _ h => h).bind fun now w hw => ?_
  refine (ensures_ofResult quietly_stable hw (R := fun _ => Quietly Q) fun w hw => ?_).bind
    fun e' w hw => ?_
  · cases hp : Exec.pauseFrontier g e result now with
    | error error => exact herr error w hw ((Exec.pauseFrontier_counters e result now).failure hp)
    | ok e' => exact hw
  · refine (saveCheckpoint_quietly (fun _ _ h => h) herr _ hw).bind ?_
    rintro ⟨e'', id⟩ w ⟨hw, -⟩
    refine quietly_stable.ensures_throw hw fun w hw => herr _ w hw ?_
    intro n h
    cases h

theorem complete_obeys {e' : Exec} {result : SuperStepResult}
    (hhead : AtHead g config I (n + 1) e deeds) (hp : e.pendingNodes ≠ []) (hs : ¬ Spent g config e)
    {asked : List (List String)} (hsts : StepsTo g config style e e' (.ok result) asked) (hi : result.interrupts = [])
    (h : Quietly (fun ds => ds = deeds ++ [.superStep e (e', .ok result) asked]) w) :
    Obeys g config style others I Q (fun e w => Quietly (AtHead g config I n e) w)
      (complete g config style e' result) w := by
  have hQ : ∀ {w}, Quietly (fun ds => ds = deeds ++ [.superStep e (e', .ok result) asked]) w → Quietly Q w :=
    fun hw => hw.mono fun hds => by
      rw [hds]
      exact hI.step hhead.holds hp hs hsts
  have herr : ∀ error w, Quietly Q w → error.NotBudget → Quietly (Fails g config I Q error) w :=
    fun error w hw herror => hw.mono fun hQ => .of_notBudget hQ herror
  have hrest : ∀ w, Quietly (fun ds => ds = deeds ++ [.superStep e (e', .ok result) asked]) w →
      Obeys g config style others I Q (fun e w => Quietly (AtHead g config I n e) w) (do
        let now ← ask .clock
        let e ← ofResult (Exec.completeStep g e' result now)
        ask (.completed e)
        checkpointStep g config (style.settle e)) w := by
    intro w hw
    refine (ensures_clock quietly_stable hw fun _ h => hQ h).bind fun now w hw => ?_
    refine (ensures_ofResult quietly_stable hw (R := fun e'' w =>
      Quietly (fun ds => ds = deeds ++ [.superStep e (e', .ok result) asked]) w ∧
        Exec.completeStep g e' result now = .ok e'') fun w hw => ?_).bind ?_
    · cases hc : Exec.completeStep g e' result now with
      | error error => exact herr error w (hQ hw) ((Exec.completeStep_counters e' result now).failure hc)
      | ok e'' => exact ⟨hw, rfl⟩
    rintro e'' w ⟨hw, hc⟩
    have hctr := (Exec.completeStep_counters e' result now).result hc
    obtain ⟨-, hstep, hsta, -, -⟩ := hsts.kept
    have hstep' : e''.step = e.step + 1 := by
      rw [← hstep]
      exact congrArg Counters.step hctr
    have hsta' : e''.runStartStep = e.runStartStep := by
      rw [← hsta]
      exact congrArg Counters.runStartStep hctr
    have hstl := Exec.settle_counters style e''
    have hnext : AtHead g config I n (style.settle e'')
        (deeds ++ [.superStep e (e', .ok result) asked, .completed e'']) := by
      have h₁ : (style.settle e'').step = e.step + 1 :=
        (congrArg Counters.step hstl).trans hstep'
      have h₂ : (style.settle e'').runStartStep = e.runStartStep :=
        (congrArg Counters.runStartStep hstl).trans hsta'
      have hstd := hhead.started
      have hfuel := hhead.fuel
      refine ⟨hI.complete hhead.holds hp hs hsts hi hc, ?_, ?_⟩
      · omega
      · omega
    refine (quietly_stable.ensures_perform (o := .completed e'') (R := fun _ w =>
      Quietly (AtHead g config I n (style.settle e'')) w) hw (fun _ h => hQ h) ?_
      fun _ => quietly_stable).bind fun _ w hw => ?_
    · rintro w r w' hw rfl
      refine hw.mark rfl fun hds => ?_
      rw [hds, List.append_assoc]
      exact hnext
    · have hQ' : ∀ {w}, Quietly (AtHead g config I n (style.settle e'')) w → Quietly Q w :=
        fun hw => hw.mono fun hds => hI.during hds.holds
      refine (checkpointStep_quietly (fun _ _ h => hQ' h) (fun error w hw herror =>
        herr error w (hQ' hw) herror) _ hw).mono ?_ fun _ _ hw => hw
      rintro e₃ w ⟨hw, hsame⟩
      exact hw.mono fun hds => hds.same hI hsame
  simp only [complete]
  split
  · refine (ensures_ofResult quietly_stable h (R := fun _ =>
      Quietly (fun ds => ds = deeds ++ [.superStep e (e', .ok result) asked])) fun w hw => ?_).bind
        fun _ w hw => hrest w hw
    cases hr : g.routeDispatches result.executedNodes e'.state with
    | error error =>
      exact herr error w (hQ hw) ((Exec.routeDispatches_notBudget _ _).failure hr)
    | ok _ => exact hw
  · exact hrest w h

theorem superStep_obeys (h : Quietly (AtHead g config I (n + 1) e) w)
    (hp : e.pendingNodes ≠ []) (hs : ¬ Spent g config e) :
    Obeys g config style others I Q (fun e w => Quietly (AtHead g config I n e) w)
      (superStep g config style e) w := by
  have herr : ∀ error w, Quietly Q w → error.NotBudget → Quietly (Fails g config I Q error) w :=
    fun error w hw herror => hw.mono fun hQ => .of_notBudget hQ herror
  have hQ : ∀ {e w}, Quietly (AtHead g config I (n + 1) e) w → Quietly Q w :=
    fun hw => hw.mono fun hds => hI.during hds.holds
  refine (flushBeforeSideEffects_quietly (fun _ _ h => hQ h) (fun error w hw herror =>
    herr error w (hQ hw) herror) e h).bind ?_
  rintro e₁ w ⟨hw, hsame⟩
  have hp₁ : e₁.pendingNodes ≠ [] := by
    rw [hsame]
    exact hp
  have hs₁ : ¬ Spent g config e₁ := by
    rw [hsame]
    exact hs
  have hw₁ : Quietly (AtHead g config I (n + 1) e₁) w := hw.mono fun hds => hds.same hI hsame
  refine (quietly_stable.ensures_perform (o := .superStep e₁) (R := fun r w => ∃ deeds asked,
    AtHead g config I (n + 1) e₁ deeds ∧ StepsTo g config style e₁ r.1 r.2 asked ∧
      Quietly (fun ds => ds = deeds ++ [.superStep e₁ r asked]) w) hw₁ (fun _ h => hQ h) ?_ ?_).bind ?_
  · rintro w r w' hw ⟨asked, hsts, rfl⟩
    refine ⟨w.deeds, asked, hw.deeds, hsts, ?_⟩
    have hdeeds : Quietly (fun ds => ds = w.deeds) w := ⟨rfl, hw.sound⟩
    exact hdeeds.mark rfl fun _ => rfl
  · rintro r w w' hmove ⟨deeds, asked, hhead, hsts, hw⟩
    exact ⟨deeds, asked, hhead, hsts, quietly_stable w w' hmove hw⟩
  · rintro ⟨e', outcome⟩ w ⟨deeds, asked, hhead, hsts, hw⟩
    have hQ' : ∀ {w}, Quietly (fun ds => ds = deeds ++ [.superStep e₁ (e', outcome) asked]) w →
        Quietly Q w := fun hw => hw.mono fun hds => by
      rw [hds]
      exact hI.step hhead.holds hp₁ hs₁ hsts
    have hraised : ∀ {failure w}, outcome = .error failure →
        Quietly (fun ds => ds = deeds ++ [.superStep e₁ (e', outcome) asked]) w →
        Quietly (Fails g config I Q failure.error) w := fun {failure w} ho hw => hw.mono fun hds => by
      refine ⟨(hQ' hw).deeds, .inr (.inl ⟨e₁, e', failure, asked, ?_, rfl⟩)⟩
      rw [hds, ho]
      simp
    dsimp only
    split
    · refine (Ensures.lift (checkpointFailedStep_quietly (fun _ _ h => hQ' h) e' hw)).bind
        fun _ w hw => ?_
      exact quietly_stable.ensures_throw hw fun w hw => hraised rfl hw
    · exact quietly_stable.ensures_throw hw fun w hw => hraised rfl hw
    · split
      · exact pause_obeys (hQ' hw)
      · rename_i hi
        exact complete_obeys hI hhead hp₁ hs₁ hsts hi hw

/-- **What the steps of a run keep, its loop keeps.** -/
theorem loop_obeys (h : Quietly (AtHead g config I n e) w) :
    Obeys g config style others I Q (fun e w => Quietly (I e) w ∧ e.pendingNodes = [])
      (loop g config style n e) w := by
  have hQ : ∀ {n e w}, Quietly (AtHead g config I n e) w → Quietly Q w :=
    fun hw => hw.mono fun hds => hI.during hds.holds
  refine ensures_loop (I := fun n e w => Quietly (AtHead g config I n e) w) ?_ ?_ ?_ h
  · intro n e w hw hp
    refine (finishCheckpoints_quietly (fun _ _ h => hQ h) (fun error w hw herror =>
      (hQ hw).mono fun hQ => .of_notBudget hQ herror) e hw).mono ?_ fun _ _ hw => hw
    rintro e' w ⟨hw, hsame⟩
    refine ⟨hw.mono fun hds => hI.same hds.holds hsame, ?_⟩
    rw [hsame]
    exact hp
  · intro n e w hw hp hlim
    refine quietly_stable.ensures_throw hw fun w hw => hw.mono fun hds => ?_
    refine ⟨hI.during hds.holds, .inr (.inr ⟨e, hds.holds, ?_⟩)⟩
    have hfuel := hds.fuel
    unfold Spent
    rcases hlim with rfl | hlim
    · omega
    · exact hlim
  · exact fun n e w hw hp hlim => superStep_obeys hI hw hp (Nat.not_le.mpr hlim)

omit hI

/-! ## A whole run -/

structure Loads (g : CompiledGraph) (config : ExecutionConfig)
    (others : MemoryStore → MemoryStore → Prop) (store : MemoryStore) (cp : Checkpoint) : Prop where
  checkpointer : g.checkpointer = true
  found : ∃ store', Relation.ReflTransGen others store store' ∧
    (match config.resumeFrom with
    | some id => store'.loadById id
    | none => store'.load config.threadId) = some cp

/-- A run that has done nothing yet, in a store that the others have left it. -/
structure Unstarted (others : MemoryStore → MemoryStore → Prop) (store : MemoryStore) (w : World) :
    Prop where
  moved : Relation.ReflTransGen others store w.store
  idle : w.inflight = none
  log : w.log = []

theorem unstarted_stable (g : CompiledGraph) (config : ExecutionConfig) (style : Style)
    (others : MemoryStore → MemoryStore → Prop) (store : MemoryStore) :
    Stable (laws g config style others) (Unstarted others store) := by
  intro w w' hmove h
  cases hmove with
  | saved hi => rw [h.idle] at hi; cases hi
  | pruned now hi => rw [h.idle] at hi; cases hi
  | others hstep => exact ⟨h.moved.tail hstep, h.idle, h.log⟩

theorem Unstarted.quietly {store : MemoryStore} (h : Unstarted others store w) :
    Quietly (fun deeds => deeds = []) w := by
  refine ⟨by rw [World.deeds, h.log]; rfl, fun error he => ?_⟩
  rw [h.idle] at he
  cases he

theorem findCheckpoint_loads {store : MemoryStore} (hpre : ∀ o w, Quietly (fun deeds => deeds = []) w → pre o w)
    (h : Unstarted others store w) :
    Ensures (laws g config style others) pre err (fun found w => Quietly (fun deeds => deeds = []) w ∧
      ∀ cp, found = some cp → Loads g config others store cp) (findCheckpoint g config) w := by
  have hstb := unstarted_stable g config style others store
  have hpost : ∀ found : Option Checkpoint, Stable (laws g config style others) fun w =>
      Quietly (fun deeds => deeds = []) w ∧ ∀ cp, found = some cp → Loads g config others store cp :=
    fun found w w' hmove h => ⟨quietly_stable w w' hmove h.1, h.2⟩
  unfold findCheckpoint
  split
  · rename_i hc
    split
    · rename_i id hid
      refine hstb.ensures_perform (o := .loadById id) h (fun w h => hpre _ w h.quietly) ?_ hpost
      rintro w r w' hw ⟨rfl, rfl⟩
      refine ⟨hw.quietly, fun cp hcp => ⟨hc, w'.store, hw.moved, ?_⟩⟩
      rw [hid]
      exact hcp
    · rename_i hid
      refine hstb.ensures_perform (o := .load config.threadId) h (fun w h => hpre _ w h.quietly) ?_
        hpost
      rintro w r w' hw ⟨rfl, rfl⟩
      refine ⟨hw.quietly, fun cp hcp => ⟨hc, w'.store, hw.moved, ?_⟩⟩
      rw [hid]
      exact hcp
  · exact hstb.ensures_pure h fun w hw => ⟨hw.quietly, fun cp hcp => by cases hcp⟩

/-- The store may be read at any time. -/
theorem findCheckpoint_quietly (hpre : ∀ o w, Quietly P w → pre o w) (h : Quietly P w) :
    Ensures (laws g config style others) pre err (fun _ => Quietly P) (findCheckpoint g config) w := by
  unfold findCheckpoint
  split
  · split
    · refine quietly_stable.ensures_perform (o := .loadById _) h (hpre _) ?_ fun _ => quietly_stable
      rintro w r w' hw ⟨-, rfl⟩
      exact hw
    · refine quietly_stable.ensures_perform (o := .load _) h (hpre _) ?_ fun _ => quietly_stable
      rintro w r w' hw ⟨-, rfl⟩
      exact hw
  · exact quietly_stable.ensures_pure h fun _ hw => hw

theorem headVersion_quietly (hpre : ∀ o w, Quietly P w → pre o w) (cp : Checkpoint) (h : Quietly P w) :
    Ensures (laws g config style others) pre err (fun _ => Quietly P) (headVersion config cp) w := by
  unfold headVersion
  split
  · exact quietly_stable.ensures_pure h fun _ hw => hw
  · refine (quietly_stable.ensures_perform (o := .load cp.threadId) (R := fun _ => Quietly P) h
      (hpre _) ?_ fun _ => quietly_stable).bind fun newest w hw => ?_
    · rintro w r w' hw ⟨-, rfl⟩
      exact hw
    · cases newest <;> exact quietly_stable.ensures_pure hw fun _ hw => hw

include hI in
/-- **What the steps of a run keep, the run keeps.** -/
theorem run_obeys {input : State} (hidle : w.inflight = none) (hlog : w.log = []) (hQ : Q [])
    (hfr : ∀ state now e, Exec.start g state now {} = .ok e → I e [.entered true e])
    (hresume : ∀ cp head now e, Loads g config others w.store cp →
      Exec.restore g config restartCompleted cp head input now {} = .ok e →
      I e [.entered (Exec.restarts config restartCompleted cp) e]) :
    Obeys g config style others I Q (fun e w => Quietly (I e) w ∧ e.pendingNodes = [])
      (run g config style restartCompleted input) w := by
  let Nothing (deeds : List Mark) : Prop := deeds = []
  have hnone : ∀ {w}, Quietly Nothing w → Quietly Q w := fun hw => hw.mono fun hds => by
    rw [show World.deeds _ = [] from hds]
    exact hQ
  have herr : ∀ error w, Quietly Nothing w → error.NotBudget →
      Quietly (Fails g config I Q error) w :=
    fun error w hw herror => (hnone hw).mono fun hQ => .of_notBudget hQ herror
  have hsta : Unstarted others w.store w := ⟨.refl, hidle, hlog⟩
  have htry : Obeys g config style others I Q (fun resumed w => Quietly Nothing w ∧
      ∀ atEntry e, resumed = some (atEntry, e) → e.runStartStep ≤ e.step ∧ I e [.entered atEntry e])
      (tryResume g config restartCompleted input) w := by
    refine (findCheckpoint_loads (fun _ _ h => hnone h) hsta).bind ?_
    rintro found w ⟨hw, hloads⟩
    cases found with
    | none => exact quietly_stable.ensures_pure hw fun w hw => ⟨hw, fun _ _ he => by cases he⟩
    | some cp =>
      refine (headVersion_quietly (fun _ _ h => hnone h) cp hw).bind fun head w hw => ?_
      refine (ensures_clock quietly_stable hw fun _ h => hnone h).bind fun now w hw => ?_
      refine (ensures_ofResult quietly_stable hw (R := fun e w => Quietly Nothing w ∧
        Exec.restore g config restartCompleted cp head input now {} = .ok e) fun w hw => ?_).bind ?_
      · cases hr : Exec.restore g config restartCompleted cp head input now {} with
        | error error =>
          exact herr error w hw ((Exec.restore_counters _ _ cp head input now).failure hr)
        | ok e => exact ⟨hw, rfl⟩
      · rintro e w ⟨hw, hr⟩
        refine quietly_stable.ensures_pure hw fun w hw => ⟨hw, fun atEntry e' he => ?_⟩
        cases he
        have hctr := (Exec.restore_counters _ _ cp head input now).result hr
        refine ⟨?_, hresume cp head now e (hloads cp rfl) hr⟩
        have hstep : e.step = cp.step := congrArg Counters.step hctr
        have hbegin : e.runStartStep = if Exec.restarts config restartCompleted cp then cp.step else 0 :=
          congrArg Counters.runStartStep hctr
        rw [hstep, hbegin]
        split
        · exact Nat.le_refl _
        · exact Nat.zero_le _
  have hloop : ∀ atEntry (e : Exec) w, Quietly Nothing w → e.runStartStep ≤ e.step →
      I e [.entered atEntry e] →
      Obeys g config style others I Q (fun e w => Quietly (I e) w ∧ e.pendingNodes = []) (do
        ask (.entered atEntry e)
        loop g config style (recursionLimit g config) e) w := by
    intro atEntry e w hw hle hI'
    refine (quietly_stable.ensures_perform (o := .entered atEntry e) (R := fun _ =>
      Quietly (AtHead g config I (recursionLimit g config) e)) hw (fun _ h => hnone h) ?_
      fun _ => quietly_stable).bind fun _ w hw => loop_obeys hI hw
    rintro w r w' hw rfl
    refine hw.mark rfl fun hds => ?_
    rw [show w.deeds = [] from hds]
    exact ⟨hI', hle, Nat.le_add_right _ _⟩
  refine htry.bind ?_
  rintro resumed w ⟨hw, hresumed⟩
  cases resumed with
  | some resumed =>
    obtain ⟨atEntry, e⟩ := resumed
    obtain ⟨hle, hI'⟩ := hresumed atEntry e rfl
    exact hloop atEntry e w hw hle hI'
  | none =>
    have hbegin : Obeys g config style others I Q (fun e w => Quietly Nothing w ∧
        e.runStartStep ≤ e.step ∧ I e [.entered true e]) (startFresh g config input) w := by
      refine (findCheckpoint_quietly (fun _ _ h => hnone h) hw).bind fun loaded w hw => ?_
      refine (ensures_clock quietly_stable hw fun _ h => hnone h).bind fun now w hw => ?_
      refine ensures_ofResult quietly_stable hw fun w hw => ?_
      cases hs : Exec.start g (Exec.initializeState g loaded input) now {} with
      | error error => exact herr error w hw ((Exec.start_counters _ now).failure hs)
      | ok e =>
        have hctr := (Exec.start_counters _ now).result hs
        have hstep : e.step = 0 := congrArg Counters.step hctr
        have hzero : e.runStartStep = 0 := congrArg Counters.runStartStep hctr
        exact ⟨hw, by omega, hfr _ now e hs⟩
    refine hbegin.bind ?_
    rintro e w ⟨hw, hle, hI'⟩
    exact hloop true e w hw hle hI'

end Run

end Adk
