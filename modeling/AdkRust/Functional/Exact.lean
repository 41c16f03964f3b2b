import AdkRust.Functional.Resume

/-!
# Resuming a workflow from a checkpoint

A checkpoint holds the state and the log of the moment it is saved. Resuming from it restores both
and starts the workflow over.

* `Machine.step_savesOne`: what a step saves.
* `Whole`: the log holds the result of each call that it says completed.
* `resume_exact`: a resumed run executes again what the run before the checkpoint did outside completed
  calls, goes on as that run did, and ends as it did.
-/

namespace Adk

open TaskContext (cachedResult answerTo)

variable {env env' : Environment} {values : Dict Value} {ctx ctx' : TaskContext}
  {m m' m₁ start final : Machine} {P : Trace → Op → Prop} {t t₀ t₁ t' : Trace} {ops before rest : List Op} {op : Op}
  {log : ExecutionLog} {cp : Checkpoint} {workflow : Program} {state : State} {threadId : String}
  {headVersion : Nat}

/-! ## What is saved -/

structure Checkpoint.Holds (cp : Checkpoint) (ctx : TaskContext) : Prop where
  threadId : cp.threadId = ctx.threadId
  state : cp.state = ctx.state
  log : ∃ log : ExecutionLog, cp.metadata["execution_log"]? = some log.toValue ∧
    log.getResult = ctx.log.getResult ∧ log.isCompleted = ctx.log.isCompleted

/-- At most one checkpoint is saved on the way to a context, and it holds the context. -/
def SavesOne (ctx ctx' : TaskContext) : Prop :=
  ctx'.saved = ctx.saved ∨ ∃ cp, ctx'.saved = ctx.saved ++ [cp] ∧ cp.Holds ctx'

theorem saved_saveCheckpoint (metadata : List (String × Value)) :
    ∃ cp, (ctx.saveCheckpoint env metadata).saved = ctx.saved ++ [cp] ∧
      cp.Holds (ctx.saveCheckpoint env metadata) := by
  refine ⟨_, rfl, rfl, rfl, ctx.log, ?_, rfl, rfl⟩
  dsimp only
  rw [Std.ExtTreeMap.getElem?_insert_self]

theorem savesOne_recordCompletion (call : Call) (result : Value) :
    SavesOne ctx (ctx.recordCompletion env call result) :=
  .inr (saved_saveCheckpoint _)

theorem savesOne_recordFailure (call : Call) (error : GraphError) :
    SavesOne ctx (ctx.recordFailure env call error) :=
  .inr (saved_saveCheckpoint _)

/-- Marking an interrupt completes no call. -/
theorem isCompleted_suspend (continuationKey message : String) :
    (ctx.suspend env continuationKey message).log.isCompleted = ctx.log.isCompleted := by
  funext k
  unfold TaskContext.suspend ExecutionLog.isCompleted
  dsimp only [TaskContext.saveCheckpoint]
  rw [Std.ExtTreeMap.getElem?_insertIfNew]
  split
  · rename_i h
    obtain ⟨heq, hno⟩ := h
    rw [Std.compare_eq_iff_eq] at heq
    subst heq
    rw [Std.ExtTreeMap.getElem?_eq_none hno]
    rfl
  · rfl

theorem savesOne_suspend (continuationKey message : String) :
    SavesOne ctx (ctx.suspend env continuationKey message) := by
  obtain ⟨cp, hsav, hthr, hst, log, hlog, hress, hcomp⟩ :=
    @saved_saveCheckpoint env ctx
      [("interrupt_message", .string message), ("continuation_key", .string continuationKey)]
  refine .inr ⟨cp, hsav, hthr, hst, log, hlog, ?_, ?_⟩
  · rw [getResult_suspend]
    exact hress
  · rw [isCompleted_suspend]
    exact hcomp

theorem savesOne_interrupt (message : String) (mismatch : Value → Option String) :
    SavesOne ctx (ctx.interrupt env message mismatch).2 := by
  unfold TaskContext.interrupt
  dsimp only
  split
  · exact .inl rfl
  · split
    · exact .inr (saved_saveCheckpoint _)
    · exact .inl rfl
  · exact savesOne_suspend ..

/-- **A step saves at most one checkpoint, of the context after it.** -/
theorem Machine.step_savesOne (h : m.step env = some (op, m')) : SavesOne m.ctx m'.ctx := by
  obtain ⟨ctx, program, frames⟩ := m
  cases program with
  | get key next =>
    cases h
    exact .inl rfl
  | set key value next =>
    cases h
    exact .inl rfl
  | call task argHash body next =>
    simp only [Machine.step] at h
    split at h
    · cases h
      exact .inl rfl
    · cases h
      exact .inl rfl
  | interrupt message mismatch next =>
    simp only [Machine.step] at h
    cases h
    exact savesOne_interrupt message mismatch
  | done result =>
    cases frames with
    | nil => simp [Machine.step] at h
    | cons f frames =>
      cases result with
      | ok value =>
        simp only [Machine.step] at h
        cases h
        exact savesOne_recordCompletion ..
      | error error =>
        simp only [Machine.step] at h
        split at h
        · cases h
          exact .inl rfl
        · split at h
          · cases h
            exact .inl rfl
          · cases h
            exact savesOne_recordFailure ..

/-- What is saved once the workflow has returned. -/
theorem Machine.finish_savesOne (env : Environment) (m : Machine) : SavesOne m.ctx (m.finish env) := by
  unfold Machine.finish
  split
  · exact .inr (saved_saveCheckpoint _)
  · exact .inl rfl
  · exact .inr (saved_saveCheckpoint _)
  · exact .inl rfl

/-- A checkpoint that a run has just saved: before the workflow, with its last operation, or after the
workflow has returned. -/
inductive Saves (env : Environment) (start m : Machine) (cp : Checkpoint) : Prop
  | before : m = start → start.ctx.saved = [cp] → Saves env start m cp
  | operation {earlier : Machine} {op : Op} : earlier.step env = some (op, m) →
    m.ctx.saved = earlier.ctx.saved ++ [cp] → Saves env start m cp
  | after : m.step env = none → (m.finish env).saved = m.ctx.saved ++ [cp] → Saves env start m cp

theorem Saves.holds (h : Saves env (invoke env threadId state log values headVersion workflow) m cp) :
    cp.Holds m.ctx := by
  cases h with
  | before hm hsav =>
    subst hm
    obtain ⟨cp', hsav', hhol⟩ := @saved_saveCheckpoint env
      { threadId, state, log, resumeValues := values, headVersion } [("phase", .string "pre_execution")]
    have heq : [cp] = [cp'] := hsav.symm.trans hsav'
    cases heq
    exact hhol
  | operation hstep hsav =>
    rcases Machine.step_savesOne hstep with hsame | ⟨cp', hsav', hhol⟩
    · rw [hsame] at hsav
      simp at hsav
    · rw [hsav', List.append_cancel_left_eq, List.cons.injEq] at hsav
      cases hsav.1
      exact hhol
  | after hend hsav =>
    rcases Machine.finish_savesOne env m with hsame | ⟨cp', hsav', hhol⟩
    · rw [hsame] at hsav
      simp at hsav
    · rw [hsav', List.append_cancel_left_eq, List.cons.injEq] at hsav
      cases hsav.1
      unfold Machine.finish at hhol
      split at hhol
      · exact ⟨hhol.threadId, hhol.state, hhol.log⟩
      · exact hhol
      · exact ⟨hhol.threadId, hhol.state, hhol.log⟩
      · exact hhol

/-! ## Logs -/

/-- The log holds the result of each call that it says completed, and the result is not `null`. -/
def Whole (log : ExecutionLog) : Prop :=
  ∀ key, log.isCompleted key = true → ∃ value, log.getResult key = some value ∧ value ≠ .null

variable {key now : String} {call : Call} {result : Value}

theorem isCompleted_of_getResult {value : Value} (h : log.getResult key = some value) :
    log.isCompleted key = true := by
  unfold ExecutionLog.getResult at h
  unfold ExecutionLog.isCompleted
  obtain ⟨record, hrcd, hrslt⟩ := Option.bind_eq_some_iff.mp h
  split at hrslt
  · rename_i hstatus
    rw [hrcd]
    exact decide_eq_true hstatus
  · cases hrslt

theorem Whole.empty : Whole {} := by
  intro key h
  simp [ExecutionLog.isCompleted] at h

theorem Whole.recordCompletion (h : Whole log) {value : Value} (hval : value ≠ .null) :
    Whole (log.recordCompletion now key value) := by
  intro k hk
  rw [ExecutionLog.isCompleted_recordCompletion] at hk
  rw [ExecutionLog.getResult_recordCompletion]
  by_cases heq : key = k
  · exact ⟨value, if_pos heq, hval⟩
  · rw [decide_eq_false heq, Bool.false_or] at hk
    rw [if_neg heq]
    exact h k hk

theorem isCompleted_recordFailure {other error : String} :
    (log.recordFailure now key error).isCompleted other =
      (!decide (key = other) && log.isCompleted other) := by
  simp only [ExecutionLog.isCompleted, ExecutionLog.recordFailure, Std.ExtTreeMap.getElem?_insert,
    Std.compare_eq_iff_eq]
  by_cases h : key = other
  · simp only [h, if_true]
    split <;> simp
  · simp [h]

theorem Whole.recordFailure (h : Whole log) {error : String} :
    Whole (log.recordFailure now key error) := by
  intro k hk
  rw [isCompleted_recordFailure, Bool.and_eq_true] at hk
  obtain ⟨hne, hk⟩ := hk
  rw [ExecutionLog.getResult_recordFailure, if_neg (by simpa using hne)]
  exact h k hk

theorem Whole.congr (h : Whole log) {log' : ExecutionLog} (hress : log'.getResult = log.getResult)
    (hcomp : log'.isCompleted = log.isCompleted) : Whole log' := by
  intro key hkey
  rw [hress]
  exact h key (hcomp ▸ hkey)

theorem Whole.getResult_reloaded (h : Whole log) : log.reloaded.getResult = log.getResult := by
  funext key
  rw [ExecutionLog.getResult_reloaded]
  cases hr : log.getResult key with
  | none => rfl
  | some value =>
    obtain ⟨value', hval', hne⟩ := h key (isCompleted_of_getResult hr)
    rw [hr] at hval'
    cases hval'
    simp [Option.filter, hne]

theorem whole_interrupt (h : Whole ctx.log) {message : String} {mismatch : Value → Option String}
    (hans : ∀ value, (ctx.interrupt env message mismatch).1 = .ok value → value ≠ .null) :
    Whole (ctx.interrupt env message mismatch).2.log := by
  obtain ⟨heq, -⟩ := @interrupt_spec env ctx message mismatch
  rw [heq] at hans
  unfold TaskContext.interrupt
  dsimp only
  cases hrecd : ctx.log.interruptAnswer (interruptKey (ctx.interruptOrdinal + 1)) with
  | some recorded => exact h
  | none =>
    have hnone : ctx.log.getResult (interruptKey (ctx.interruptOrdinal + 1)) = none := hrecd
    cases hsupplied : ctx.resumeValues[interruptKey (ctx.interruptOrdinal + 1)]? with
    | none => exact h.congr (getResult_suspend ..) (isCompleted_suspend ..)
    | some supplied =>
      dsimp only
      split
      · rename_i hmat
        refine (h.recordCompletion (hans supplied ?_)).congr rfl rfl
        unfold answerTo
        rw [hnone, hsupplied, Option.none_or]
        dsimp only
        rw [Option.isNone_iff_eq_none.mp hmat]
      · exact h

theorem Whole.step (h : Whole m.ctx.log) (hclr : Clear t op) (hstep : m.step env = some (op, m')) :
    Whole m'.ctx.log := by
  obtain ⟨ctx, program, frames⟩ := m
  cases program with
  | get key next =>
    cases hstep
    exact h
  | set key value next =>
    cases hstep
    exact h
  | call task argHash body next =>
    simp only [Machine.step] at hstep
    split at hstep
    · cases hstep
      exact h
    · cases hstep
      exact h
  | interrupt message mismatch next =>
    simp only [Machine.step] at hstep
    cases hstep
    exact whole_interrupt h hclr.2
  | done result =>
    cases frames with
    | nil => simp [Machine.step] at hstep
    | cons f frames =>
      cases result with
      | ok value =>
        have hval : value ≠ .null := by
          simp only [Machine.step] at hstep
          split at hstep
          · cases hstep
            exact hclr _ rfl
          · cases hstep
            exact hclr
        simp only [Machine.step] at hstep
        cases hstep
        exact (h.recordCompletion hval).congr rfl rfl
      | error error =>
        simp only [Machine.step] at hstep
        split at hstep
        · cases hstep
          exact h
        · split at hstep
          · cases hstep
            exact h
          · cases hstep
            exact h.recordFailure.congr rfl rfl

theorem Whole.run (h : Whole start.ctx.log) (hruns : Runs (Machine.Steps env) Clear {} start ops t m) :
    Whole m.ctx.log := by
  induction hruns with
  | nil => exact h
  | snoc _ hstep hclr ih => exact ih.step hclr hstep

/-! ## The resumed run -/

theorem config_invoke :
    (invoke env threadId state log values headVersion workflow).config =
      ⟨⟨workflow, [], fun _ => 0, 0⟩, state, log.getResult⟩ := by
  have hcls : TaskContext.callsOf { threadId, state, log, resumeValues := values, headVersion } =
      fun _ => 0 := by
    funext name
    exact Std.ExtTreeMap.getD_empty
  rw [← hcls]
  rfl

/-- A run is over once the workflow has returned. -/
theorem Machine.step_eq_none_iff :
    m.step env = none ↔ (∃ result, m.program = .done result) ∧ m.frames = [] := by
  obtain ⟨ctx, program, frames⟩ := m
  cases program with
  | get key next => simp [Machine.step]
  | set key value next => simp [Machine.step]
  | call task argHash body next =>
    simp only [Machine.step]
    split <;> simp
  | interrupt message mismatch next => simp [Machine.step]
  | done result =>
    cases frames with
    | nil => simp [Machine.step]
    | cons f frames =>
      cases result with
      | ok value => simp [Machine.step]
      | error error =>
        simp only [Machine.step]
        split
        · simp
        · split <;> simp

theorem Checkpoint.Holds.resume (h : cp.Holds m.ctx) (hwh : Whole m.ctx.log) :
    ∃ log, resume env cp values headVersion workflow =
        some (invoke env cp.threadId m.ctx.state log values headVersion workflow) ∧
      log.getResult = m.ctx.log.getResult ∧ log.isCompleted = m.ctx.log.isCompleted := by
  obtain ⟨-, hst, log, hlog, hress, hcomp⟩ := h
  refine ⟨log.reloaded, ?_, ?_, ?_⟩
  · unfold Adk.resume loadResumePoint
    rw [hlog]
    dsimp only
    rw [ExecutionLog.fromValue_toValue, Option.map_some, Option.map_some, hst]
  · rw [(hwh.congr hress hcomp).getResult_reloaded, hress]
  · rw [← hcomp]
    funext key
    exact ExecutionLog.isCompleted_reloaded

/-- A call that is skipped when a run's operations are executed again had its result in the run. -/
def Took (ops : List Op) (call : Call) (result : Value) : Prop :=
  .skip call result ∈ ops ∨ .complete call result ∈ ops

theorem Took.append {more : List Op} (h : Took ops call result) :
    Took (ops ++ more) call result := by
  rcases h with h | h
  · exact .inl (List.mem_append_left _ h)
  · exact .inr (List.mem_append_left _ h)

theorem Trace.mem_flatten {pending : List Mark} {segment : List Op} {o : Op} :
    o ∈ flatten pending segment ↔ o ∈ segment ∨
      ∃ mark ∈ pending, o ∈ mark.before ∨ o = .enter mark.task mark.call := by
  induction pending generalizing segment with
  | nil => simp [flatten]
  | cons mark pending ih =>
    simp only [flatten, ih, List.mem_append, List.mem_cons, exists_eq_or_imp]
    grind

/-- What is executed again after one more operation. -/
theorem Trace.mem_again_add (h : .skip call result ∈ (t.add op).again) :
    .skip call result ∈ t.again ∨ op = .skip call result ∨ op = .complete call result := by
  unfold again at h ⊢
  rw [mem_flatten] at h ⊢
  cases op with
  | enter task call' =>
    simp only [add, List.mem_cons] at h
    grind
  | complete call' result' =>
    cases hpend : t.pending with
    | nil =>
      simp only [add, hpend] at h
      grind
    | cons mark pending =>
      simp only [add, hpend] at h
      grind
  | leave call' result' =>
    cases hpend : t.pending with
    | nil =>
      simp only [add, hpend] at h
      grind
    | cons mark pending =>
      simp only [add, hpend] at h
      grind
  | _ =>
    simp only [add] at h
    grind

theorem Runs.took (h : Runs (Machine.Steps env) P {} start ops t m)
    (hmem : .skip call result ∈ t.again) : Took ops call result := by
  induction h with
  | nil => simp [Trace.again, Trace.flatten] at hmem
  | snoc _ _ _ ih =>
    rcases Trace.mem_again_add hmem with hold | rfl | rfl
    · exact (ih hold).append
    · exact .inl (by simp)
    · exact .inr (by simp)

/-- What a resumed run does with a call: one that its checkpoint's run recorded as completed is skipped,
with the result that it had in that run. -/
def Exactly (log : ExecutionLog) (ops : List Op) : Op → Prop
  | .skip call result => log.getResult call.key = some result ∧ Took ops call result
  | .enter task call => task.rerunOnResume = true ∨ log.isCompleted call.key = false
  | _ => True

/-- **Resuming is exact.** Take a run to its end in which each operation is clear, and a checkpoint of
it where the reads and writes that are executed again find what they found and leave the state as it is.
The run resumed from the checkpoint executes again what was done before the checkpoint outside completed
calls, and then what the run did after it. It makes no call that was recorded as completed, each call has
the result it had, and it ends with the same result and in the same state. -/
theorem resume_exact (hlog : Whole log)
    (hbefore : Runs (Machine.Steps env) Clear {} (invoke env threadId state log values headVersion workflow)
      before t₁ m₁)
    (hsaves : Saves env (invoke env threadId state log values headVersion workflow) m₁ cp)
    (hrest : Runs (Machine.Steps env) Clear t₁ m₁ rest t final) (hend : final.step env = none)
    (hreads : Rereads cp.state t₁.again) (hwrites : rewritten cp.state t₁.again = cp.state)
    (env' : Environment) (headVersion' : Nat) :
    ∃ resumed t₂ m₂, resume env' cp values headVersion' workflow = some resumed ∧
      Runs (Machine.Steps env') Any {} resumed (t₁.again ++ rest) t₂ m₂ ∧ m₂.step env' = none ∧
      m₂.program = final.program ∧ m₂.ctx.state = final.ctx.state ∧
      ∀ op ∈ t₁.again ++ rest, Exactly m₁.ctx.log (before ++ rest) op := by
  have hholds := hsaves.holds
  have hwhole := Whole.run hlog hbefore
  obtain ⟨log', hresume, hresults, -⟩ := @Checkpoint.Holds.resume env' values m₁ cp workflow headVersion'
    hholds hwhole
  -- The resumed run comes to where the run was when it saved the checkpoint.
  obtain ⟨hconfig, hvalues⟩ := hbefore.config
  obtain ⟨counters, ordinal, hagain, hcounters, hordinal⟩ := (Tracks.run hconfig rfl).again
  rw [config_invoke] at hagain
  rw [hholds.state] at hreads hwrites
  obtain ⟨t', c', hreplay, ht', hshadow, hres, hstate⟩ :=
    hagain.replay (c := (invoke env' cp.threadId m₁.ctx.state log' values headVersion' workflow).config)
      (by rw [config_invoke]) (by rw [config_invoke]; exact hresults) (by rw [config_invoke])
      (by rw [config_invoke]; exact hreads)
  have hsim : Sim t₁ m₁.config c' := by
    refine ⟨?_, ?_, ?_, hres, fun name hn => ?_, fun hn => ?_⟩
    · rw [hshadow]
    · rw [hshadow]
    · rw [hstate, config_invoke]
      exact hwrites
    · rw [hshadow]
      exact hcounters name hn
    · rw [hshadow]
      exact hordinal hn
  -- From there on it does what the run did.
  obtain ⟨hgoes, -⟩ := hrest.config
  rw [hvalues] at hgoes
  obtain ⟨t'', c'', hgoes, hsim'⟩ := hsim.run hgoes t'
  have hall : Runs (Config.Does
      (invoke env' cp.threadId m₁.ctx.state log' values headVersion' workflow).ctx.resumeValues) Any {}
      (invoke env' cp.threadId m₁.ctx.state log' values headVersion' workflow).config
      (t₁.again ++ rest) t'' c'' := hreplay.append hgoes
  obtain ⟨m₂, hruns, rfl⟩ := @Runs.machine env' _ _ _ _ _ _ hall
  have hfollows := hall.follows (by rw [config_invoke])
  rw [config_invoke] at hfollows
  refine ⟨_, t'', m₂, hresume, hruns, ?_, hsim'.program, hsim'.state, fun op hop => ?_⟩
  · rw [Machine.step_eq_none_iff] at hend ⊢
    obtain ⟨⟨result, hresult⟩, hframes⟩ := hend
    exact ⟨⟨result, hsim'.program.trans hresult⟩, hsim'.frames.trans hframes⟩
  · have hfollow := hfollows op hop
    dsimp only at hfollow
    rw [hresults] at hfollow
    cases op with
    | skip call result =>
      refine ⟨hfollow, ?_⟩
      rcases List.mem_append.mp hop with hop | hop
      · exact (hbefore.took hop).append
      · exact .inl (List.mem_append_right _ hop)
    | enter task call =>
      dsimp only [Follows] at hfollow
      unfold cachedResult at hfollow
      split at hfollow
      · rename_i hrerun
        exact .inl hrerun
      · refine .inr (Bool.eq_false_of_not_eq_true fun hcompleted => ?_)
        obtain ⟨value, hvalue, -⟩ := hwhole _ hcompleted
        rw [hfollow] at hvalue
        cases hvalue
    | _ => trivial

/-! ## Runs of two workflows -/

/-- Up to a number of steps of a run, unless one does not meet the condition. -/
def Machine.play (env : Environment) (P : Trace → Op → Prop) [∀ t op, Decidable (P t op)] :
    Nat → Trace → Machine → Option (List Op × Trace × Machine)
  | 0, t, m => some ([], t, m)
  | n + 1, t, m =>
    match m.step env with
    | none => some ([], t, m)
    | some (op, m') =>
      if P t op then (play env P n (t.add op) m').map fun played => (op :: played.1, played.2) else none

theorem runs_play [∀ t op, Decidable (P t op)] {n : Nat} (h : m.play env P n t = some (ops, t', m')) :
    Runs (Machine.Steps env) P t m ops t' m' := by
  induction n generalizing t m ops with
  | zero =>
    cases h
    exact .nil
  | succ n ih =>
    unfold Machine.play at h
    split at h
    · cases h
      exact .nil
    · rename_i op next hstep
      split at h
      · rename_i hp
        obtain ⟨⟨played, t₂, m₂⟩, hplayed, heq⟩ := Option.map_eq_some_iff.mp h
        cases heq
        exact Runs.append (.snoc .nil hstep hp) (ih hplayed)
      · cases h

instance (t : Trace) (op : Op) : Decidable (Any t op) := .isTrue trivial

instance (t : Trace) (name : String) : Decidable (t.Uncalled name) :=
  inferInstanceAs (Decidable (∀ op ∈ t.hidden, op.called ≠ some name))

instance (t : Trace) : Decidable t.Unasked :=
  inferInstanceAs (Decidable (∀ op ∈ t.hidden, op.isAsk = false))

/-- Whether an outcome is not a value of `null`. -/
def notNull : Except GraphError Value → Bool
  | .ok value => decide (value ≠ .null)
  | .error _ => true

theorem notNull_iff {result : Except GraphError Value} :
    notNull result = true ↔ ∀ value, result = .ok value → value ≠ .null := by
  cases result with
  | ok value => simp [notNull]
  | error error => simp [notNull]

instance (t : Trace) (op : Op) : Decidable (Clear t op) :=
  match op with
  | .get .. => .isTrue trivial
  | .set .. => .isTrue trivial
  | .skip call _ => inferInstanceAs (Decidable (t.Uncalled call.name))
  | .enter _ call => inferInstanceAs (Decidable (t.Uncalled call.name))
  | .retry _ => .isTrue trivial
  | .complete _ value => inferInstanceAs (Decidable (value ≠ .null))
  | .leave _ result => decidable_of_iff _ (@notNull_iff result)
  | .ask _ answer => decidable_of_iff (t.Unasked ∧ notNull answer = true) (and_congr_right' notNull_iff)

instance (state : State) (op : Op) : Decidable (op.Reads state) :=
  match op with
  | .get key value => inferInstanceAs (Decidable (state[key]? = value))
  | .set .. => .isTrue trivial
  | .skip .. => .isTrue trivial
  | .enter .. => .isTrue trivial
  | .retry .. => .isTrue trivial
  | .complete .. => .isTrue trivial
  | .leave .. => .isTrue trivial
  | .ask .. => .isTrue trivial

instance instDecidableRereads (state : State) : (ops : List Op) → Decidable (Rereads state ops)
  | [] => .isTrue trivial
  | op :: ops =>
    have := instDecidableRereads (op.effect state) ops
    inferInstanceAs (Decidable (op.Reads state ∧ Rereads (op.effect state) ops))

def stillClock : Environment where
  checkpointId version := s!"checkpoint-{version}"
  createdAt version := version
  now _ := "now"
  text _ := "error"

/-- A workflow that calls a task, writes its result, and calls it again. -/
def greetTwice : Program :=
  .get "name" fun _ =>
    .call { name := "greet" } none (.done (.ok (.string "hello"))) fun greeting =>
      .set "greeting" (greeting.toOption.getD .null) <|
        .call { name := "greet" } none (.done (.ok (.string "hello"))) .done

/-- Plays a run for `n` steps, then one more that saves a checkpoint, and then to its end, and tests what
came before the checkpoint and after it. -/
def Machine.playSaved (start : Machine) (env : Environment) (P : Trace → Op → Prop)
    [∀ t op, Decidable (P t op)] (n : Nat)
    (test : List Op → Trace → Machine → Checkpoint → List Op → Machine → Bool) : Bool :=
  (start.play env P n {}).any fun (ops, t, earlier) =>
    (earlier.step env).any fun (op, m) => m.ctx.saved.getLast?.any fun cp =>
      decide (P t op) && decide (m.ctx.saved = earlier.ctx.saved ++ [cp]) &&
        (m.play env P 100 (t.add op)).any fun (rest, _, final) =>
          (final.step env).isNone && test (ops ++ [op]) (t.add op) m cp rest final

theorem exists_of_playSaved [∀ t op, Decidable (P t op)] {n : Nat}
    {test : List Op → Trace → Machine → Checkpoint → List Op → Machine → Bool}
    (h : start.playSaved env P n test = true) :
    ∃ before t m cp rest t' final, Runs (Machine.Steps env) P {} start before t m ∧
      Saves env start m cp ∧ Runs (Machine.Steps env) P t m rest t' final ∧ final.step env = none ∧
      test before t m cp rest final = true := by
  unfold Machine.playSaved at h
  simp only [Option.any_eq_true, Prod.exists, Bool.and_eq_true, decide_eq_true_eq,
    Option.isNone_iff_eq_none] at h
  obtain ⟨ops, t, earlier, hplay, op, m, hstep, cp, -, ⟨hp, hsav⟩, rest, t', final, hrest, hend, htest⟩ := h
  exact ⟨ops ++ [op], t.add op, m, cp, rest, t', final, .snoc (runs_play hplay) hstep hp,
    .operation hstep hsav, runs_play hrest, hend, htest⟩

/-- The run of `greetTwice` resumed from the checkpoint of its second call. -/
theorem resume_exact_greetTwice :
    ∃ cp resumed again t m, cp.checkpointId = "checkpoint-3" ∧
      resume stillClock cp ∅ 4 greetTwice = some resumed ∧
      Runs (Machine.Steps stillClock) Any {} resumed again t m ∧ m.step stillClock = none ∧
      m.ctx.state = Dict.ofList [("greeting", .string "hello")] ∧
      again.countP (fun op => op.called.isSome) = 2 := by
  have hplay : (invoke stillClock "thread" ∅ {} ∅ 0 greetTwice).playSaved stillClock Clear 5
      (fun _ t _ cp rest final => decide (cp.checkpointId = "checkpoint-3") &&
        decide (Rereads cp.state t.again) && decide (rewritten cp.state t.again = cp.state) &&
        decide (final.ctx.state = Dict.ofList [("greeting", .string "hello")]) &&
        decide ((t.again ++ rest).countP (fun op => op.called.isSome) = 2)) = true := by
    decide +kernel
  obtain ⟨before, t, m, cp, rest, t', final, hbefore, hsaves, hrest, hend, htest⟩ :=
    exists_of_playSaved hplay
  simp only [Bool.and_eq_true, decide_eq_true_eq] at htest
  obtain ⟨⟨⟨⟨hid, hreads⟩, hwrites⟩, hstate⟩, hcalls⟩ := htest
  obtain ⟨resumed, t₂, m₂, hresume, hruns, hover, -, hsame, -⟩ :=
    resume_exact Whole.empty hbefore hsaves hrest hend hreads hwrites stillClock 4
  exact ⟨cp, resumed, _, t₂, m₂, hid, hresume, hruns, hover, hsame.trans hstate, hcalls⟩

def nextNumber (rest : Except GraphError Value → Program) : Program :=
  .call { name := "next" } none
    (.get "count" fun count =>
      let count := (count.bind Value.asInt).getD 0
      .set "count" (.ofInt (count + 1)) (.done (.ok (.ofInt count)))) rest

/-- A workflow that calls a task which calls a task, and then calls that task itself. -/
def nextInside : Program :=
  .call { name := "outer" } none (nextNumber .done) fun _ =>
    nextNumber fun number => .set "number" (number.toOption.getD .null) (.done number)

/-- **Resuming is not exact in general**: the call of a task is taken for one that was made inside a
completed call. -/
theorem resumed_call_mistaken :
    ∃ before t m cp rest t' final resumed again t₂ m₂,
      Runs (Machine.Steps stillClock) Any {} (invoke stillClock "thread" ∅ {} ∅ 0 nextInside) before t m ∧
      Saves stillClock (invoke stillClock "thread" ∅ {} ∅ 0 nextInside) m cp ∧
      Runs (Machine.Steps stillClock) Any t m rest t' final ∧ final.step stillClock = none ∧
      resume stillClock cp ∅ 5 nextInside = some resumed ∧
      Runs (Machine.Steps stillClock) Any {} resumed again t₂ m₂ ∧ m₂.step stillClock = none ∧
      final.ctx.state["number"]? = some (.ofInt 1) ∧ m₂.ctx.state["number"]? = some (.ofInt 0) := by
  have hplay : (invoke stillClock "thread" ∅ {} ∅ 0 nextInside).playSaved stillClock Any 9
      (fun _ _ _ cp _ final => decide (final.ctx.state["number"]? = some (.ofInt 1)) &&
        (resume stillClock cp ∅ 5 nextInside).any fun resumed =>
          (resumed.play stillClock Any 100 {}).any fun (_, _, m) =>
            (m.step stillClock).isNone && decide (m.ctx.state["number"]? = some (.ofInt 0))) = true := by
    decide +kernel
  obtain ⟨before, t, m, cp, rest, t', final, hbefore, hsaves, hrest, hend, htest⟩ :=
    exists_of_playSaved hplay
  simp only [Bool.and_eq_true, decide_eq_true_eq, Option.any_eq_true, Prod.exists,
    Option.isNone_iff_eq_none] at htest
  obtain ⟨hnumber, resumed, hresume, again, t₂, m₂, hplayed, hover, hmistaken⟩ := htest
  exact ⟨before, t, m, cp, rest, t', final, resumed, again, t₂, m₂, hbefore, hsaves, hrest, hend, hresume,
    runs_play hplayed, hover, hnumber, hmistaken⟩

end Adk
