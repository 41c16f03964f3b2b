import AdkRust.Graph.Play
import AdkRust.Graph.Run

/-!
# Runs that can be computed

`drive` answers what a program of the executor asks: the store by its own calls, a super-step with its
nodes one after another, and a background write when the run waits for it. What it computes is a run
(`drive_reaches`), so a property of it can be evaluated.
-/

namespace Adk
namespace Run

open Prog Exec

variable (g : CompiledGraph) (config : ExecutionConfig) (style : Style) (stamp : String)

/-- The outputs of the nodes of a super-step, one after another, which meet nothing in the world. -/
def outputsOf (e : Exec) : List Output :=
  if style.isMessages then []
  else
    match gateBefore g e e.pendingNodes with
    | some _ => []
    | none => sequential Timeline.quiet false (toDispatch g config ∅ e)

def execute (e : Exec) : Exec × Except MessagesFailure SuperStepResult :=
  if style.isMessages then
    let (_, e', result) := messagesSuperStep g config Timeline.quiet [] e
    (e', result)
  else
    match gateBefore g e e.pendingNodes with
    | some gate => (e, .ok { interrupts := [gate] })
    | none =>
      let (e', result) := collectSuperStep g ∅ (outputsOf g config style e) [] e
      (e', result.mapError .failed)

/-- A background write goes one step further. -/
def goOn (w : World) : World :=
  match w.inflight with
  | some (.save cp) =>
    let (result, w') := w.save cp
    { w' with inflight := some (.afterSave g cp result) }
  | some (.prune cp policy) =>
    { w with
      store := w.store.prune 0 cp.threadId policy
      inflight := some (.done (.ok cp.checkpointId)) }
  | _ => w

/-- Waits for a background write. -/
def waited (w : World) : Except GraphError Unit × World :=
  match w.inflight with
  | some (.done result) => (result.map (fun _ => ()), { w with inflight := none })
  | _ => (.ok (), w)

/-- The answers of a computed run. Its checkpoints are stamped by what has happened before them. -/
def answer : (o : Ask) → World → o.Answer × World
  | .load threadId, w => (w.store.load threadId, w)
  | .loadById id, w => (w.store.loadById id, w)
  | .save cp, w => w.save cp
  | .prune threadId policy, w => ((), { w with store := w.store.prune 0 threadId policy })
  | .spawn cp, w => ((), { w with inflight := some (.save cp) })
  | .await, w => waited (goOn g (goOn g w))
  | .clock, w => (Timeline.still, w)
  | .stamp, w => ((s!"{stamp}{w.log.length}", 0), w)
  | .superStep e, w =>
    (execute g config style e,
      w.mark (.superStep e (execute g config style e) (requests g e (outputsOf g config style e))))
  | .entered atEntry e, w => ((), w.mark (.entered atEntry e))
  | .completed e, w => ((), w.mark (.completed e))

/-- Runs a program to its end. -/
def drive {α : Type} : Prog Ask Ask.Answer α → World → α × World
  | .pure a, w => (a, w)
  | .ask o next, w => drive (next (answer g config style stamp o w).1) (answer g config style stamp o w).2

variable {g config style stamp} {others : MemoryStore → MemoryStore → Prop}

theorem execute_stepsTo (e : Exec) :
    StepsTo g config style e (execute g config style e).1 (execute g config style e).2
      (requests g e (outputsOf g config style e)) := by
  cases hm : style.isMessages with
  | true =>
    have hout : outputsOf g config style e = [] := by
      unfold outputsOf
      rw [if_pos hm]
    rw [hout]
    unfold execute
    rw [if_pos hm]
    exact .messages hm rfl
  | false =>
    have hm' : ¬ style.isMessages = true := by simp [hm]
    cases hg : gateBefore g e e.pendingNodes with
    | some gate =>
      have hout : outputsOf g config style e = [] := by
        simp only [outputsOf, hg, ite_self]
      have hexec : execute g config style e = (e, .ok { interrupts := [gate] }) := by
        unfold execute
        rw [if_neg hm', hg]
      rw [hexec]
      refine @StepsTo.step g config style e Timeline.quiet [] _ _ (.ok { interrupts := [gate] }) hm ?_
      simp only [SuperStepIn, hg, hout, and_self]
    | none =>
      have hout : outputsOf g config style e = sequential Timeline.quiet false (toDispatch g config ∅ e) := by
        unfold outputsOf
        rw [if_neg hm', hg]
      have hd : DispatchedIn (concurrency g ∅ e) Timeline.quiet (toDispatch g config ∅ e)
          (outputsOf g config style e) := by
        rw [hout]
        exact sequential_dispatched (Nat.lt_of_lt_of_le Nat.zero_lt_one (Nat.le_max_right _ _)) _ _
      unfold execute
      rw [if_neg hm', hg]
      refine @StepsTo.step g config style e Timeline.quiet [] _ _ _ hm ?_
      simp only [SuperStepIn, hg, and_true]
      exact hd

/-- A background write goes on beside its run. -/
theorem goOn_moves (w : World) : Relation.ReflTransGen (Moves g others) w (goOn g w) := by
  unfold goOn
  split
  · rename_i cp hi
    exact .single (.saved hi rfl)
  · rename_i cp policy hi
    exact .single (.pruned 0 hi)
  · exact .refl

theorem waited_answers {w : World} (hw : ∀ cp, w.inflight ≠ some (.save cp))
    (hw' : ∀ cp policy, w.inflight ≠ some (.prune cp policy)) :
    Answers g config style .await w (waited w).1 (waited w).2 := by
  unfold waited
  split
  · rename_i result hi
    exact .inr ⟨result, hi, rfl, rfl⟩
  · rename_i hne
    refine .inl ⟨?_, rfl, rfl⟩
    cases hi : w.inflight with
    | none => rfl
    | some write =>
      cases write with
      | save cp => exact absurd hi (hw cp)
      | prune cp policy => exact absurd hi (hw' cp policy)
      | done result => exact absurd hi (hne result)

/-- A background write is over in two steps. -/
theorem goOn_goOn (w : World) :
    (∀ cp, (goOn g (goOn g w)).inflight ≠ some (.save cp)) ∧
      ∀ cp policy, (goOn g (goOn g w)).inflight ≠ some (.prune cp policy) := by
  cases hi : w.inflight with
  | none => simp [goOn, hi]
  | some write =>
    cases write with
    | done result => simp [goOn, hi]
    | prune cp policy => simp [goOn, hi]
    | save cp =>
      obtain ⟨result, w', hsave⟩ : ∃ result w', w.save cp = (result, w') := ⟨_, _, rfl⟩
      cases result with
      | error error => simp [goOn, hi, hsave, Write.afterSave]
      | ok id =>
        cases hr : g.retention with
        | none => simp [goOn, hi, hsave, hr, Write.afterSave]
        | some policy => simp [goOn, hi, hsave, hr, Write.afterSave]

theorem answer_answers (o : Ask) (w : World) :
    ∃ w', Relation.ReflTransGen (Moves g others) w w' ∧
      Answers g config style o w' (answer g config style stamp o w).1
        (answer g config style stamp o w).2 := by
  cases o with
  | await =>
    exact ⟨_, (goOn_moves w).trans (goOn_moves _), waited_answers (goOn_goOn w).1 (goOn_goOn w).2⟩
  | superStep e => exact ⟨w, .refl, _, execute_stepsTo e, rfl⟩
  | load | loadById => exact ⟨w, .refl, rfl, rfl⟩
  | prune => exact ⟨w, .refl, 0, rfl⟩
  | save | spawn | clock | stamp | entered | completed => exact ⟨w, .refl, rfl⟩

/-- **What is computed is a run.** -/
theorem drive_reaches {α : Type} (p : Prog Ask Ask.Answer α) (w : World) :
    Reaches (laws g config style others) (p, w)
      (.pure (drive g config style stamp p w).1, (drive g config style stamp p w).2) := by
  induction p generalizing w with
  | pure a => exact .refl
  | ask o next ih =>
    obtain ⟨w', hmov, hans⟩ : ∃ w', Relation.ReflTransGen (Moves g others) w w' ∧
        Answers g config style o w' (answer g config style stamp o w).1
          (answer g config style stamp o w).2 := answer_answers o w
    have hmvd : Reaches (laws g config style others) (Prog.ask o next, w) (Prog.ask o next, w') :=
      hmov.lift (fun w => (Prog.ask o next, w)) fun _ _ hmove => Step.move hmove
    exact (hmvd.tail (Step.answer hans)).trans (ih _ _)

/-! ## Small runs -/

def nobody (_ _ : MemoryStore) : Prop := False

theorem nobody_moved {store store' : MemoryStore} (h : Relation.ReflTransGen nobody store store') :
    store' = store := by
  rcases h.cases_head with rfl | ⟨_, hstep, -⟩
  · rfl
  · exact hstep.elim

def oneNode : CompiledGraph where
  schema := {}
  nodes := Timeline.markers ["a"]
  edges := [.entry ["a"] Timeline.nodup_a, .direct "a" .end_]
  checkpointer := true
  deferredConfigs := ∅

end Run
end Adk
