import AdkRust.Functional.Program
import Mathlib.Logic.Function.Basic

/-!
# Where a run of a workflow stands

A run depends on its context for little: the state, the results that the log holds, and how many calls
and interrupts there were. `Config` is that much of a machine.

* `Moves`: what an operation does to where a run stands; `Config.Does`: one step of a configuration.
* `Machine.step_does`, `Machine.step_of_does`: a machine and its configuration take the same steps.
-/

namespace Adk

open TaskContext (cachedResult answerTo)

/-! ## Configurations -/

/-- Where a run stands in the workflow. -/
structure Shadow where
  program : Program
  frames : List Frame
  /-- How many calls of each task the run has made. -/
  counters : String → Nat
  /-- How many interrupts the run has come to. -/
  ordinal : Nat

/-- A run, with the results that its log holds. -/
structure Config extends Shadow where
  state : State
  results : String → Option Value

namespace Op

/-- The results a log holds after an operation. -/
def record (results : String → Option Value) : Op → String → Option Value
  | .complete call value => Function.update results call.key (some value)
  | .leave call (.ok value) => Function.update results call.key (some value)
  | .leave call (.error error) =>
    if error.haltsTask then results else Function.update results call.key none
  | .ask ordinal (.ok value) => Function.update results (interruptKey ordinal) (some value)
  | _ => results

/-- The state after an operation. -/
def effect (state : State) : Op → State
  | .set key value => state.insert key value
  | _ => state

def Reads (state : State) : Op → Prop
  | .get key value => state[key]? = value
  | _ => True

end Op

def Shadow.call (sh : Shadow) (task : TaskAttrs) (argHash : Option UInt64) : Call :=
  { name := task.name, ordinal := sh.counters task.name, argHash }

def countCall (counters : String → Nat) (name : String) : String → Nat :=
  Function.update counters name (counters name + 1)

/-- What an operation of a run does to where it stands, given what it reads. -/
inductive Moves (values : Dict Value) (results : String → Option Value) (sh : Shadow) :
    Op → Shadow → Prop
  | get {key next} (value : Option Value) : sh.program = .get key next →
    Moves values results sh (.get key value) { sh with program := next value }
  | set {key value next} : sh.program = .set key value next →
    Moves values results sh (.set key value) { sh with program := next }
  | skip {task argHash body next result} : sh.program = .call task argHash body next →
    cachedResult results task (sh.call task argHash) = some result →
    Moves values results sh (.skip (sh.call task argHash) result)
      { sh with program := next (.ok result), counters := countCall sh.counters task.name }
  | enter {task argHash body next} : sh.program = .call task argHash body next →
    cachedResult results task (sh.call task argHash) = none →
    Moves values results sh (.enter task (sh.call task argHash))
      { sh with
        program := body
        frames := { call := sh.call task argHash, task, body, next, attempts := 1 } :: sh.frames
        counters := countCall sh.counters task.name }
  | retry {f frames error} : sh.program = .done (.error error) → sh.frames = f :: frames →
    error.haltsTask = false → f.attempts < f.task.maxAttempts →
    Moves values results sh (.retry f.call)
      { sh with program := f.body, frames := { f with attempts := f.attempts + 1 } :: frames }
  | leave {f frames error} : sh.program = .done (.error error) → sh.frames = f :: frames →
    (error.haltsTask = true ∨ ¬ f.attempts < f.task.maxAttempts) →
    Moves values results sh (.leave f.call (.error error))
      { sh with program := f.next (.error error), frames }
  | rerun {f frames value} : sh.program = .done (.ok value) → sh.frames = f :: frames →
    f.task.rerunOnResume = true →
    Moves values results sh (.leave f.call (.ok value)) { sh with program := f.next (.ok value), frames }
  | complete {f frames value} : sh.program = .done (.ok value) → sh.frames = f :: frames →
    f.task.rerunOnResume = false →
    Moves values results sh (.complete f.call value) { sh with program := f.next (.ok value), frames }
  | ask {message mismatch next} : sh.program = .interrupt message mismatch next →
    Moves values results sh
      (.ask (sh.ordinal + 1) (answerTo results values (interruptKey (sh.ordinal + 1)) message mismatch))
      { sh with
        program := next (answerTo results values (interruptKey (sh.ordinal + 1)) message mismatch)
        ordinal := sh.ordinal + 1 }

/-- One step of a run. -/
structure Config.Does (values : Dict Value) (c : Config) (op : Op) (c' : Config) : Prop where
  moves : Moves values c.results c.toShadow op c'.toShadow
  reads : op.Reads c.state
  state : c'.state = op.effect c.state
  results : c'.results = op.record c.results

/-- What of a machine a run depends on. -/
def Machine.config (m : Machine) : Config where
  program := m.program
  frames := m.frames
  counters := m.ctx.callsOf
  ordinal := m.ctx.interruptOrdinal
  state := m.ctx.state
  results := m.ctx.log.getResult

variable {env : Environment} {m m' : Machine} {ctx : TaskContext} {op : Op} {c c' : Config}
  {sh sh' : Shadow} {values : Dict Value}

theorem getResult_recordCompletion_eq (log : ExecutionLog) (now key : String) (value : Value) :
    (log.recordCompletion now key value).getResult =
      Function.update log.getResult key (some value) := by
  funext k
  rw [ExecutionLog.getResult_recordCompletion, Function.update_apply]
  simp only [eq_comm]

theorem getResult_recordFailure_eq (log : ExecutionLog) (now key error : String) :
    (log.recordFailure now key error).getResult = Function.update log.getResult key none := by
  funext k
  rw [ExecutionLog.getResult_recordFailure, Function.update_apply]
  simp only [eq_comm]

theorem config_recordCompletion (call : Call) (value : Value) (program : Program)
    (frames : List Frame) :
    Machine.config ⟨ctx.recordCompletion env call value, program, frames⟩ =
      ⟨⟨program, frames, ctx.callsOf, ctx.interruptOrdinal⟩, ctx.state,
        Function.update ctx.log.getResult call.key (some value)⟩ := by
  rw [← getResult_recordCompletion_eq ctx.log (env.now ctx.headVersion)]
  rfl

theorem config_recordFailure (call : Call) (error : GraphError) (program : Program)
    (frames : List Frame) :
    Machine.config ⟨ctx.recordFailure env call error, program, frames⟩ =
      ⟨⟨program, frames, ctx.callsOf, ctx.interruptOrdinal⟩, ctx.state,
        Function.update ctx.log.getResult call.key none⟩ := by
  rw [← getResult_recordFailure_eq ctx.log (env.now ctx.headVersion) _ (env.text error)]
  rfl

/-- Marking an interrupt records no result. -/
theorem getResult_suspend (continuationKey message : String) :
    (ctx.suspend env continuationKey message).log.getResult = ctx.log.getResult := by
  funext k
  unfold TaskContext.suspend ExecutionLog.getResult
  dsimp only [TaskContext.saveCheckpoint]
  rw [Std.ExtTreeMap.getElem?_insertIfNew]
  split
  · rename_i h
    obtain ⟨heq, hno⟩ := h
    rw [Std.compare_eq_iff_eq] at heq
    subst heq
    rw [Std.ExtTreeMap.getElem?_eq_none hno]
    rfl
  · rfl

theorem callsOf_nextTaskCall (task : TaskAttrs) (argHash : Option UInt64) :
    (ctx.nextTaskCall task argHash).2.callsOf = countCall ctx.callsOf task.name := by
  funext name
  unfold TaskContext.nextTaskCall TaskContext.callsOf countCall
  dsimp only
  rw [Std.ExtTreeMap.getD_insert, Function.update_apply]
  simp only [Std.compare_eq_iff_eq, @eq_comm _ name]

structure Interrupts (ctx after : TaskContext) (answer : Except GraphError Value) : Prop where
  ordinal : after.interruptOrdinal = ctx.interruptOrdinal + 1
  calls : after.callsOf = ctx.callsOf
  state : after.state = ctx.state
  values : after.resumeValues = ctx.resumeValues
  results : after.log.getResult = (Op.ask (ctx.interruptOrdinal + 1) answer).record ctx.log.getResult

theorem interrupt_spec (message : String) (mismatch : Value → Option String) :
    (ctx.interrupt env message mismatch).1 = answerTo ctx.log.getResult ctx.resumeValues
        (interruptKey (ctx.interruptOrdinal + 1)) message mismatch ∧
      Interrupts ctx (ctx.interrupt env message mismatch).2
        (answerTo ctx.log.getResult ctx.resumeValues (interruptKey (ctx.interruptOrdinal + 1)) message
          mismatch) := by
  unfold TaskContext.interrupt
  dsimp only
  have hans : ctx.log.interruptAnswer = ctx.log.getResult := rfl
  rw [hans]
  cases hrecd : ctx.log.getResult (interruptKey (ctx.interruptOrdinal + 1)) with
  | some recorded =>
    refine ⟨rfl, rfl, rfl, rfl, rfl, ?_⟩
    dsimp only
    unfold answerTo
    rw [hrecd, Option.some_or]
    dsimp only
    cases mismatch recorded with
    | none => exact (Function.update_eq_self_iff.mpr hrecd.symm).symm
    | some reason => rfl
  | none =>
    cases hsupplied : ctx.resumeValues[interruptKey (ctx.interruptOrdinal + 1)]? with
    | none =>
      refine ⟨rfl, rfl, rfl, rfl, rfl, ?_⟩
      dsimp only
      rw [getResult_suspend]
      unfold answerTo
      rw [hrecd, hsupplied, Option.none_or]
      rfl
    | some supplied =>
      dsimp only
      unfold answerTo
      rw [hrecd, hsupplied, Option.none_or]
      dsimp only
      cases mismatch supplied with
      | none =>
        refine ⟨rfl, rfl, rfl, rfl, rfl, ?_⟩
        exact getResult_recordCompletion_eq ..
      | some reason => exact ⟨rfl, rfl, rfl, rfl, rfl, rfl⟩

/-- **Every step of a machine is a step of its configuration.** -/
theorem Machine.step_does (h : m.step env = some (op, m')) :
    m.config.Does m.ctx.resumeValues op m'.config ∧ m'.ctx.resumeValues = m.ctx.resumeValues := by
  obtain ⟨ctx, program, frames⟩ := m
  cases program with
  | get key next =>
    cases h
    exact ⟨⟨.get _ rfl, rfl, rfl, rfl⟩, rfl⟩
  | set key value next =>
    cases h
    exact ⟨⟨.set rfl, trivial, rfl, rfl⟩, rfl⟩
  | call task argHash body next =>
    simp only [Machine.step] at h
    split at h
    · rename_i result hcch
      cases h
      have hmov := @Moves.skip ctx.resumeValues ctx.log.getResult
        (Machine.config ⟨ctx, .call task argHash body next, frames⟩).toShadow task argHash body next result
        rfl hcch
      refine ⟨⟨?_, trivial, rfl, rfl⟩, rfl⟩
      simp only [Machine.config, callsOf_nextTaskCall]
      exact hmov
    · rename_i hcch
      cases h
      have hmov := @Moves.enter ctx.resumeValues ctx.log.getResult
        (Machine.config ⟨ctx, .call task argHash body next, frames⟩).toShadow task argHash body next
        rfl hcch
      refine ⟨⟨?_, trivial, rfl, rfl⟩, rfl⟩
      simp only [Machine.config, callsOf_nextTaskCall]
      exact hmov
  | interrupt message mismatch next =>
    obtain ⟨hans, hord, hcls, hst, hvals, hress⟩ :=
      @interrupt_spec env ctx message mismatch
    simp only [Machine.step] at h
    cases h
    have hmov := @Moves.ask ctx.resumeValues ctx.log.getResult
      (Machine.config ⟨ctx, .interrupt message mismatch next, frames⟩).toShadow message mismatch next rfl
    refine ⟨⟨?_, trivial, hst, ?_⟩, hvals⟩
    · simpa only [Machine.config, hans, hord, hcls] using hmov
    · simpa only [Machine.config, hans, hord] using hress
  | done result =>
    cases frames with
    | nil => simp [Machine.step] at h
    | cons f frames =>
      cases result with
      | ok value =>
        cases hrer : f.task.rerunOnResume with
        | true =>
          simp only [Machine.step, hrer, if_true] at h
          cases h
          exact ⟨⟨.rerun rfl rfl hrer, trivial, rfl, getResult_recordCompletion_eq ..⟩, rfl⟩
        | false =>
          simp only [Machine.step, hrer] at h
          cases h
          exact ⟨⟨.complete rfl rfl hrer, trivial, rfl, getResult_recordCompletion_eq ..⟩, rfl⟩
      | error error =>
        by_cases hhlt : error.haltsTask = true
        · simp only [Machine.step, if_pos hhlt] at h
          cases h
          refine ⟨⟨.leave rfl rfl (.inl hhlt), trivial, rfl, ?_⟩, rfl⟩
          rw [Op.record, if_pos hhlt]
          rfl
        · by_cases hmore : f.attempts < f.task.maxAttempts
          · simp only [Machine.step, if_neg hhlt, if_pos hmore] at h
            cases h
            exact ⟨⟨.retry rfl rfl (Bool.eq_false_of_not_eq_true hhlt) hmore, trivial, rfl, rfl⟩, rfl⟩
          · simp only [Machine.step, if_neg hhlt, if_neg hmore] at h
            cases h
            refine ⟨⟨.leave rfl rfl (.inr hmore), trivial, rfl, ?_⟩, rfl⟩
            rw [Op.record, if_neg hhlt]
            exact getResult_recordFailure_eq ..

/-- The configuration after a step. -/
theorem Config.Does.eq (h : c.Does values op c') :
    c' = ⟨c'.toShadow, op.effect c.state, op.record c.results⟩ := by
  rw [← h.state, ← h.results]

/-- **Every step of its configuration is a step of the machine.** -/
theorem Machine.step_of_does (env : Environment) (h : m.config.Does m.ctx.resumeValues op c') :
    ∃ m', m.step env = some (op, m') ∧ m'.config = c' := by
  rw [h.eq]
  obtain ⟨ctx, program, frames⟩ := m
  obtain ⟨hmov, hrd, -, -⟩ := h
  generalize c'.toShadow = sh' at hmov
  cases hmov with
  | get value hp =>
    cases hp
    cases hrd
    exact ⟨_, rfl, rfl⟩
  | set hp =>
    cases hp
    exact ⟨_, rfl, rfl⟩
  | @skip task argHash body next result hp hcch =>
    cases hp
    have hcch' : cachedResult (ctx.nextTaskCall task argHash).2.log.getResult task
        (ctx.nextTaskCall task argHash).1 = some result := hcch
    refine ⟨_, by simp only [Machine.step, hcch']; rfl, ?_⟩
    simp only [Machine.config, callsOf_nextTaskCall]
    rfl
  | @enter task argHash body next hp hcch =>
    cases hp
    have hcch' : cachedResult (ctx.nextTaskCall task argHash).2.log.getResult task
        (ctx.nextTaskCall task argHash).1 = none := hcch
    refine ⟨_, by simp only [Machine.step, hcch']; rfl, ?_⟩
    simp only [Machine.config, callsOf_nextTaskCall]
    rfl
  | @retry f frames error hp hf hhlt hmore =>
    cases hp
    cases hf
    exact ⟨_, by simp only [Machine.step, hhlt, if_pos hmore]; rfl, rfl⟩
  | @leave f frames error hp hf hends =>
    cases hp
    cases hf
    by_cases hhlt : error.haltsTask = true
    · refine ⟨_, by simp only [Machine.step, if_pos hhlt]; rfl, ?_⟩
      rw [Op.record, if_pos hhlt]
      rfl
    · have hmore := hends.resolve_left hhlt
      refine ⟨_, by simp only [Machine.step, if_neg hhlt, if_neg hmore]; rfl, ?_⟩
      rw [Op.record, if_neg hhlt]
      exact config_recordFailure ..
  | @rerun f frames value hp hf hrer =>
    cases hp
    cases hf
    exact ⟨_, by simp only [Machine.step, hrer, if_true]; rfl, config_recordCompletion ..⟩
  | @complete f frames value hp hf hrer =>
    cases hp
    cases hf
    exact ⟨_, by simp only [Machine.step, hrer]; rfl, config_recordCompletion ..⟩
  | @ask message mismatch next hp =>
    cases hp
    obtain ⟨hans, hord, hcls, hst, hvals, hress⟩ :=
      @interrupt_spec env ctx message mismatch
    refine ⟨⟨(ctx.interrupt env message mismatch).2, next (ctx.interrupt env message mismatch).1, frames⟩,
      ?_, ?_⟩
    · simp only [Machine.step, hord, hans]
      rfl
    · simp only [Machine.config, hans, hord, hcls, hst, hress]
      rfl

end Adk
