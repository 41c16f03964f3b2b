import AdkRust.Functional.Log
import AdkRust.Store.Memory
import Mathlib.Logic.Function.Basic

/-!
# Tasks of one context that complete concurrently

`TaskContext::record_completion` takes the context by a shared reference, so calls for several tasks
may be in progress at once (`functional/context.rs`). Each records its result in the log, takes the
step and then the log for its checkpoint, and saves the checkpoint while it holds the head lock.

* `Shared.step`: one step of one call.
* `Run.inv`: which completions each checkpoint's log holds.
* `newest_holds_iff`: the newest checkpoint holds two completions exactly when the call that saved it
  built it after both were recorded.
-/

namespace Adk
namespace Parallel

/-- What the calls read of the context: the thread, the state, and each task's result. -/
structure Context where
  threadId : String
  state : State := ∅
  result : String → Value

/-- Where a task's `record_completion` stands. -/
inductive Phase where
  /-- Not called yet: the task is running. -/
  | running
  /-- The log holds the result. -/
  | recorded
  | counted (step : Nat)
  | built (checkpoint : Checkpoint)
  /-- The call holds the head lock. -/
  | locked (checkpoint : Checkpoint)
  | returned
  | failed (error : GraphError)

/-- A step of the call for a task. -/
inductive Event where
  | record (task now : String)
  | count (task : String)
  | build (task checkpointId : String) (createdAt : Utc)
  | acquire (task : String)
  | save (task : String)
  /-- The store refuses the checkpoint; the lock is released. -/
  | refuse (task : String)

structure Shared where
  log : ExecutionLog
  store : MemoryStore
  head : Option Nat := none
  /-- The task whose call holds the head lock. -/
  holder : Option String := none
  phase : String → Phase := fun _ => .running

def Context.checkpoint (ctx : Context) (task checkpointId : String) (createdAt : Utc) (step : Nat)
    (log : ExecutionLog) : Checkpoint where
  threadId := ctx.threadId
  checkpointId
  state := ctx.state
  step
  pendingNodes := []
  metadata := ((∅ : Dict Value).insert "completed_task" (.string task)).insert "execution_log" log.toValue
  createdAt

namespace Shared

variable (ctx : Context) (s : Shared)

/-- The version before the next checkpoint's: the head, or else the thread's newest. -/
def current : Nat :=
  match s.head with
  | some version => version
  | none => ((s.store.load ctx.threadId).map (·.version)).getD 0

/-- One task's call goes on to another phase. -/
def goOn (task : String) (phase : Phase) : Shared := { s with phase := Function.update s.phase task phase }

/-- One step of one call; `none` when the call cannot take it. -/
def step : Event → Option Shared
  | .record task now =>
    match s.phase task with
    | .running =>
      some { s.goOn task .recorded with log := (s.log.recordCompletion now task (ctx.result task)).advanceStep }
    | _ => none
  | .count task =>
    match s.phase task with
    | .recorded => some (s.goOn task (.counted s.log.currentStep))
    | _ => none
  | .build task checkpointId createdAt =>
    match s.phase task with
    | .counted step => some (s.goOn task (.built (ctx.checkpoint task checkpointId createdAt step s.log)))
    | _ => none
  | .acquire task =>
    match s.phase task, s.holder with
    | .built checkpoint, none => some { s.goOn task (.locked checkpoint) with holder := some task }
    | _, _ => none
  | .save task =>
    match s.phase task with
    | .locked checkpoint =>
      match s.store.save { checkpoint with version := s.current ctx + 1 } with
      | .ok store =>
        some { s.goOn task .returned with store, head := some (s.current ctx + 1), holder := none }
      | .error _ => none
    | _ => none
  | .refuse task =>
    match s.phase task with
    | .locked checkpoint =>
      match s.store.save { checkpoint with version := s.current ctx + 1 } with
      | .ok _ => none
      | .error error => some { s.goOn task (.failed error) with holder := none }
    | _ => none

end Shared

/-- A run of the calls from a state in which none has started: its events, newest first. -/
inductive Run (ctx : Context) (start : Shared) : List Event → Shared → Prop
  | start : start.holder = none → (∀ task, start.phase task = .running) → Run ctx start [] start
  | step {es : List Event} {s s' : Shared} {e : Event} :
    Run ctx start es s → s.step ctx e = some s' → Run ctx start (e :: es) s'

/-! ## What a run's order says -/

def Recorded (task : String) (es : List Event) : Prop := ∃ now, .record task now ∈ es

/-- The completion of a task was recorded when the call for `builder` built its checkpoint. -/
def BuiltAfter (builder task : String) : List Event → Prop
  | [] => False
  | .build t _ _ :: es => if t = builder then Recorded task es else BuiltAfter builder task es
  | _ :: es => BuiltAfter builder task es

def lastSaver : List Event → Option String
  | [] => none
  | .save task :: _ => some task
  | _ :: es => lastSaver es

def carriedLog (checkpoint : Checkpoint) : Option ExecutionLog :=
  checkpoint.metadata["execution_log"]?.bind ExecutionLog.fromValue

/-- The newest checkpoint of the thread carries the completion of a task. -/
def Holds (ctx : Context) (s : Shared) (task : String) : Prop :=
  ∃ checkpoint log, s.store.load ctx.threadId = some checkpoint ∧
    carriedLog checkpoint = some log ∧ log.isCompleted task = true

/-- The log that a call built its checkpoint from held the completion of a task. -/
def Known (start : Shared) (es : List Event) (builder task : String) : Prop :=
  start.log.isCompleted task = true ∨ BuiltAfter builder task es

/-- A checkpoint of the thread whose log holds the completions its call knew. -/
def Carries (ctx : Context) (start : Shared) (es : List Event) (builder : String)
    (checkpoint : Checkpoint) : Prop :=
  checkpoint.threadId = ctx.threadId ∧ ∃ log, carriedLog checkpoint = some log ∧
    ∀ task, log.isCompleted task = true ↔ Known start es builder task

/-- What holds after every run. -/
structure Inv (ctx : Context) (start : Shared) (es : List Event) (s : Shared) : Prop where
  log : ∀ task, s.log.isCompleted task = true ↔ start.log.isCompleted task = true ∨ Recorded task es
  pending : ∀ builder checkpoint,
    s.phase builder = .built checkpoint ∨ s.phase builder = .locked checkpoint →
      Carries ctx start es builder checkpoint
  newest : ∀ builder, lastSaver es = some builder → s.phase builder = .returned ∧
    ∃ checkpoint, s.store.load ctx.threadId = some checkpoint ∧ Carries ctx start es builder checkpoint
  returned : ∀ task, s.phase task = .returned → (lastSaver es).isSome

variable {ctx : Context} {start s s' : Shared} {es : List Event} {e : Event} {task builder : String}
  {checkpoint : Checkpoint}

theorem carriedLog_checkpoint {checkpointId : String} {createdAt : Utc} {step : Nat}
    {log : ExecutionLog} :
    carriedLog (ctx.checkpoint task checkpointId createdAt step log) = some log.reloaded := by
  unfold carriedLog Context.checkpoint
  rw [Std.ExtTreeMap.getElem?_insert_self]
  exact log.fromValue_toValue

theorem Carries.cons (h : Carries ctx start es builder checkpoint)
    (he : ∀ checkpointId createdAt, e ≠ .build builder checkpointId createdAt) :
    Carries ctx start (e :: es) builder checkpoint := by
  obtain ⟨hthr, log, hlog, hkn⟩ := h
  refine ⟨hthr, log, hlog, fun task => (hkn task).trans ?_⟩
  unfold Known
  cases e with
  | build t checkpointId createdAt =>
    have hne : t ≠ builder := by
      rintro rfl
      exact he checkpointId createdAt rfl
    simp [BuiltAfter, hne]
  | record _ _ => rfl
  | count _ => rfl
  | acquire _ => rfl
  | save _ => rfl
  | refuse _ => rfl

theorem step_cases (h : s.step ctx e = some s') :
    (∃ task now, e = .record task now ∧ s.phase task = .running ∧
      s' = { s.goOn task .recorded with
        log := (s.log.recordCompletion now task (ctx.result task)).advanceStep }) ∨
    (∃ task, e = .count task ∧ s.phase task = .recorded ∧
      s' = s.goOn task (.counted s.log.currentStep)) ∨
    (∃ task checkpointId createdAt step, e = .build task checkpointId createdAt ∧
      s.phase task = .counted step ∧
      s' = s.goOn task (.built (ctx.checkpoint task checkpointId createdAt step s.log))) ∨
    (∃ task checkpoint, e = .acquire task ∧ s.phase task = .built checkpoint ∧ s.holder = none ∧
      s' = { s.goOn task (.locked checkpoint) with holder := some task }) ∨
    (∃ task checkpoint store, e = .save task ∧ s.phase task = .locked checkpoint ∧
      s.store.save { checkpoint with version := s.current ctx + 1 } = .ok store ∧
      s' = { s.goOn task .returned with store, head := some (s.current ctx + 1), holder := none }) ∨
    (∃ task checkpoint error, e = .refuse task ∧ s.phase task = .locked checkpoint ∧
      s' = { s.goOn task (.failed error) with holder := none }) := by
  cases e with
  | record task now =>
    cases hp : s.phase task with
    | running => simp [Shared.step, hp] at h; exact .inl ⟨task, now, rfl, hp, h.symm⟩
    | _ => simp [Shared.step, hp] at h
  | count task =>
    cases hp : s.phase task with
    | recorded => simp [Shared.step, hp] at h; exact .inr (.inl ⟨task, rfl, hp, h.symm⟩)
    | _ => simp [Shared.step, hp] at h
  | build task checkpointId createdAt =>
    cases hp : s.phase task with
    | counted step =>
      simp only [Shared.step, hp, Option.some.injEq] at h
      exact .inr (.inr (.inl ⟨task, checkpointId, createdAt, step, rfl, hp, h.symm⟩))
    | _ => simp [Shared.step, hp] at h
  | acquire task =>
    cases hp : s.phase task with
    | built checkpoint =>
      cases hh : s.holder with
      | none =>
        simp only [Shared.step, hp, hh, Option.some.injEq] at h
        exact .inr (.inr (.inr (.inl ⟨task, checkpoint, rfl, hp, rfl, h.symm⟩)))
      | some holder => simp [Shared.step, hp, hh] at h
    | _ => simp [Shared.step, hp] at h
  | save task =>
    cases hp : s.phase task with
    | locked checkpoint =>
      cases hs : s.store.save { checkpoint with version := s.current ctx + 1 } with
      | ok store =>
        simp only [Shared.step, hp, hs, Option.some.injEq] at h
        exact .inr (.inr (.inr (.inr (.inl ⟨task, checkpoint, store, rfl, hp, hs, h.symm⟩))))
      | error error => simp [Shared.step, hp, hs] at h
    | _ => simp [Shared.step, hp] at h
  | refuse task =>
    cases hp : s.phase task with
    | locked checkpoint =>
      cases hs : s.store.save { checkpoint with version := s.current ctx + 1 } with
      | ok store => simp [Shared.step, hp, hs] at h
      | error error =>
        simp only [Shared.step, hp, hs, Option.some.injEq] at h
        exact .inr (.inr (.inr (.inr (.inr ⟨task, checkpoint, error, rfl, hp, h.symm⟩))))
    | _ => simp [Shared.step, hp] at h

theorem goOn_phase {other : String} {phase : Phase} :
    (s.goOn task phase).phase other = if other = task then phase else s.phase other := by
  simp only [Shared.goOn, Function.update_apply]

@[simp] theorem goOn_log {phase : Phase} : (s.goOn task phase).log = s.log := rfl

/-- Before any call has started. -/
theorem Inv.initial (h : ∀ task, start.phase task = .running) : Inv ctx start [] start where
  log task := by simp [Recorded]
  pending builder checkpoint hp := by
    rw [h] at hp
    rcases hp with hp | hp
    · cases hp
    · cases hp
  newest builder hlast := by cases hlast
  returned task hp := by
    rw [h] at hp
    cases hp

/-- A step that does not save keeps the invariant: one call goes on. -/
theorem Inv.goOn {phase : Phase} (h : Inv ctx start es s) (hlast : lastSaver (e :: es) = lastSaver es)
    (hbuild : ∀ builder checkpointId createdAt, e = .build builder checkpointId createdAt →
      builder = task)
    (hold : s.phase task ≠ .returned) (hnew : phase ≠ .returned)
    (hpend : ∀ checkpoint, phase = .built checkpoint ∨ phase = .locked checkpoint →
      Carries ctx start (e :: es) task checkpoint)
    (hph : ∀ t, s'.phase t = (s.goOn task phase).phase t) (hsto : s'.store = s.store)
    (hlog : ∀ t, s'.log.isCompleted t = true ↔
      start.log.isCompleted t = true ∨ Recorded t (e :: es)) : Inv ctx start (e :: es) s' where
  log := hlog
  pending builder checkpoint hp := by
    rw [hph, goOn_phase] at hp
    split at hp
    · rename_i heq
      rw [heq]
      exact hpend checkpoint hp
    · rename_i hne
      exact (h.pending builder checkpoint hp).cons fun _ _ he => hne (hbuild _ _ _ he)
  newest builder hb := by
    rw [hlast] at hb
    obtain ⟨hret, checkpoint, hload, hcarries⟩ := h.newest builder hb
    have hne : builder ≠ task := by
      rintro rfl
      exact hold hret
    rw [hph, goOn_phase, if_neg hne, hsto]
    exact ⟨hret, checkpoint, hload, hcarries.cons fun _ _ he => hne (hbuild _ _ _ he)⟩
  returned t ht := by
    rw [hph, goOn_phase] at ht
    rw [hlast]
    split at ht
    · exact absurd ht hnew
    · exact h.returned t ht

theorem recorded_cons : Recorded task (e :: es) ↔ (∃ now, e = .record task now) ∨ Recorded task es := by
  simp only [Recorded, List.mem_cons, exists_or, eq_comm]

/-- Every run keeps the invariant. -/
theorem Run.inv (h : Run ctx start es s) : Inv ctx start es s := by
  induction h with
  | start _ hph => exact .initial hph
  | @step es s s' e hrun hstep ih =>
    obtain ⟨task, now, rfl, hp, rfl⟩ | ⟨task, rfl, hp, rfl⟩ |
      ⟨task, checkpointId, createdAt, step, rfl, hp, rfl⟩ | ⟨task, checkpoint, rfl, hp, -, rfl⟩ |
      ⟨task, checkpoint, store, rfl, hp, hs, rfl⟩ | ⟨task, checkpoint, error, rfl, hp, rfl⟩ :=
        step_cases hstep
    · refine ih.goOn rfl (by simp) (by simp [hp]) (by simp) (by simp) (fun _ => rfl) rfl fun t => ?_
      simp only [ExecutionLog.isCompleted_advanceStep, ExecutionLog.isCompleted_recordCompletion,
        Bool.or_eq_true, decide_eq_true_eq, ih.log, recorded_cons, Event.record.injEq,
        exists_and_left, exists_eq', and_true]
      exact or_left_comm
    · refine ih.goOn rfl (by simp) (by simp [hp]) (by simp) (by simp) (fun _ => rfl) rfl fun t => ?_
      simpa [recorded_cons] using ih.log t
    · refine ih.goOn rfl (by simp) (by simp [hp]) (by simp) (fun built hbuilt => ?_) (fun _ => rfl) rfl
        fun t => ?_
      · obtain hbuilt | hbuilt := hbuilt
        · cases hbuilt
          refine ⟨rfl, _, carriedLog_checkpoint, fun t => ?_⟩
          rw [ExecutionLog.isCompleted_reloaded, ih.log, Known, BuiltAfter, if_pos rfl]
        · cases hbuilt
      · simpa [recorded_cons] using ih.log t
    · refine ih.goOn rfl (by simp) (by simp [hp]) (by simp) (fun locked hlocked => ?_) (fun _ => rfl) rfl
        fun t => ?_
      · obtain hlocked | hlocked := hlocked
        · cases hlocked
        · cases hlocked
          exact (ih.pending task checkpoint (.inl hp)).cons (by simp)
      · simpa [recorded_cons] using ih.log t
    · obtain ⟨-, -, rfl⟩ := MemoryStore.save_eq_ok.mp hs
      have hcarries := (ih.pending task checkpoint (.inr hp)).cons
        (e := .save task) (fun _ _ => by simp)
      refine ⟨fun t => ?_, fun builder built hbuilt => ?_, fun builder hb => ?_, fun t ht => rfl⟩
      · simpa [recorded_cons] using ih.log t
      · have hoth : builder ≠ task := by
          rintro rfl
          simp [goOn_phase] at hbuilt
        simp only [goOn_phase, if_neg hoth] at hbuilt
        exact (ih.pending builder built hbuilt).cons (by simp)
      · cases hb
        refine ⟨by simp [goOn_phase], { checkpoint with version := s.current ctx + 1 }, ?_, hcarries⟩
        rw [MemoryStore.load_push]
        exact if_pos hcarries.1
    · refine ih.goOn rfl (by simp) (by simp [hp]) (by simp) (by simp) (fun _ => rfl) rfl fun t => ?_
      simpa [recorded_cons] using ih.log t

/-- A task's completion is carried by the newest checkpoint exactly when the call that saved it knew
of it. -/
theorem Inv.holds_iff (h : Inv ctx start es s) (hlast : lastSaver es = some builder) :
    Holds ctx s task ↔ Known start es builder task := by
  obtain ⟨-, checkpoint, hload, -, log, hlog, hkn⟩ := h.newest builder hlast
  rw [← hkn]
  constructor
  · rintro ⟨checkpoint', log', hload', hlog', hcomp⟩
    rw [hload] at hload'
    cases hload'
    rw [hlog] at hlog'
    cases hlog'
    exact hcomp
  · intro hcomp
    exact ⟨checkpoint, log, hload, hlog, hcomp⟩

/-- **The newest checkpoint holds two completions exactly when the call that saved it knew of both.** It
knew of what was in the log that it built the checkpoint from, before it waited for the lock. -/
theorem newest_holds_iff (h : Run ctx start es s) {a b : String}
    (hreturned : s.phase a = .returned ∧ s.phase b = .returned) :
    Holds ctx s a ∧ Holds ctx s b ↔
      ∃ builder, lastSaver es = some builder ∧ Known start es builder a ∧ Known start es builder b := by
  obtain ⟨builder, hlast⟩ := Option.isSome_iff_exists.mp (h.inv.returned a hreturned.1)
  rw [h.inv.holds_iff hlast, h.inv.holds_iff hlast]
  constructor
  · intro hknown
    exact ⟨builder, hlast, hknown⟩
  · rintro ⟨builder', hlast', hknown⟩
    rw [hlast] at hlast'
    cases hlast'
    exact hknown

/-! ## A lost completion -/

/-- The state that events, newest first, lead to. -/
def exec (ctx : Context) (start : Shared) : List Event → Option Shared
  | [] => some start
  | e :: es => (exec ctx start es).bind fun s => s.step ctx e

def Phase.isReturned : Phase → Bool
  | .returned => true
  | _ => false

theorem Phase.eq_returned {phase : Phase} (h : phase.isReturned = true) : phase = .returned := by
  cases phase with
  | returned => rfl
  | _ => cases h

theorem Run.of_exec (hholder : start.holder = none) (hph : ∀ t, start.phase t = .running)
    (h : exec ctx start es = some s) : Run ctx start es s := by
  induction es generalizing s with
  | nil =>
    cases h
    exact .start hholder hph
  | cons e es ih =>
    obtain ⟨before, hbef, hstep⟩ := Option.bind_eq_some_iff.mp h
    exact .step (ih hbef) hstep

/-- Two tasks of thread `t`, both with the result `true`. -/
def twoTasks : Context := { threadId := "t", result := fun _ => .bool true }

/-- No call has started, and nothing is stored. -/
def fresh : Shared := { log := {}, store := {} }

/-- One call after the other, newest first. -/
def oneByOne : List Event :=
  [.save "b", .acquire "b", .build "b" "2" 0, .count "b", .record "b" "", .save "a", .acquire "a",
    .build "a" "1" 0, .count "a", .record "a" ""]

/-- Task `a` builds its checkpoint before `b` is recorded and saves it after `b` has saved. -/
def overtaken : List Event :=
  [.save "a", .acquire "a", .save "b", .acquire "b", .build "b" "2" 0, .count "b", .record "b" "",
    .build "a" "1" 0, .count "a", .record "a" ""]

theorem exec_returned {es : List Event} (h : (exec twoTasks fresh es).any (fun s =>
      (s.phase "a").isReturned && (s.phase "b").isReturned) = true) :
    ∃ s, Run twoTasks fresh es s ∧ s.phase "a" = .returned ∧ s.phase "b" = .returned := by
  cases hs : exec twoTasks fresh es with
  | none =>
    rw [hs] at h
    cases h
  | some s =>
    rw [hs, Option.any_some, Bool.and_eq_true] at h
    exact ⟨s, .of_exec rfl (fun _ => rfl) hs, Phase.eq_returned h.1, Phase.eq_returned h.2⟩

/-- One call after the other: the newest checkpoint holds both completions. -/
theorem newest_holds_iff_oneByOne : ∃ s, Holds twoTasks s "a" ∧ Holds twoTasks s "b" := by
  obtain ⟨s, hrun, hreturned⟩ := @exec_returned oneByOne (by decide +kernel)
  refine ⟨s, (newest_holds_iff hrun hreturned).mpr ⟨"b", rfl, .inr ?_, .inr ?_⟩⟩
  · simp [oneByOne, BuiltAfter, Recorded]
  · simp [oneByOne, BuiltAfter, Recorded]

/-- **A completion is lost**: `b` has returned, and the newest checkpoint, saved by `a`, does not hold
it. -/
theorem completion_overtaken : ¬ ∀ (ctx : Context) (start : Shared) (es : List Event) (s : Shared)
    (a b : String), Run ctx start es s → s.phase a = .returned ∧ s.phase b = .returned →
      Holds ctx s a ∧ Holds ctx s b := by
  intro h
  obtain ⟨s, hrun, hreturned⟩ := @exec_returned overtaken (by decide +kernel)
  have hknown := (hrun.inv.holds_iff rfl).mp (h twoTasks fresh overtaken s "a" "b" hrun hreturned).2
  obtain hstart | hbuilt := hknown
  · exact absurd hstart (by decide +kernel)
  · simp [overtaken, BuiltAfter, Recorded] at hbuilt

end Parallel
end Adk
