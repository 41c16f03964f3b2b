import AdkRust.Harness.Goal
import AdkRust.Lib.Text

/-!
# Goals that a check records

A check writes the whole record back that it read, and a start writes its record before it knows that the goal can
run. Where no check stores over a record that it did not read, and no start fails after it stored, the records of
a session are goals one after another, each from iteration 0 up to where it ended.

* `GoalHistory`: goals one after another.
* `GoalsKept`: what holds of the store and the calls.
* `goalsKept_careful`: **it holds in every run** whose steps are `careful`.
* `not_goalsKept`: it does not hold in every run.
-/

namespace Adk

open ProcPool

/-! ## Goals one after another -/

structure GoalRecord.Starts (record : GoalRecord) : Prop where
  iteration : record.state.iteration = 0
  running : record.state.status = .running
  room : 0 < record.state.maxIterations

/-- A goal after one more check. -/
structure GoalRecord.Recorded (before record : GoalRecord) : Prop where
  runId : record.runId = before.runId
  running : before.state.status = .running
  iteration : record.state.iteration = before.state.iteration + 1
  maxIterations : record.state.maxIterations = before.state.maxIterations
  room : record.state.status = .running → record.state.iteration < record.state.maxIterations

/-- Goals one after another, each under its own identifier. -/
inductive GoalHistory : List GoalRecord → Prop where
  | nil : GoalHistory []
  | start {stored : List GoalRecord} {record : GoalRecord} (h : GoalHistory stored)
      (hnew : ∀ old ∈ stored, old.runId ≠ record.runId) (hstarts : record.Starts) :
      GoalHistory (stored ++ [record])
  | check {stored : List GoalRecord} {before record : GoalRecord} (h : GoalHistory stored)
      (hlast : stored.getLast? = some before) (hrecorded : before.Recorded record) :
      GoalHistory (stored ++ [record])

namespace GoalHistory

variable {stored : List GoalRecord}

/-- No goal iterates past its cap, and one that goes on is below it. -/
theorem within (h : GoalHistory stored) : ∀ record ∈ stored,
    record.state.iteration ≤ record.state.maxIterations ∧
    (record.state.status = .running → record.state.iteration < record.state.maxIterations) := by
  induction h with
  | nil => simp
  | @start stored record h hnew hstarts ih =>
    intro last hlast
    rcases List.mem_append.mp hlast with hold | hself
    · exact ih last hold
    · obtain rfl := List.mem_singleton.mp hself
      rw [hstarts.iteration]
      exact ⟨Nat.zero_le _, fun _ => hstarts.room⟩
  | @check stored before record h hbef hrecd ih =>
    intro last hlast
    rcases List.mem_append.mp hlast with hold | hself
    · exact ih last hold
    · obtain rfl := List.mem_singleton.mp hself
      have hroom := (ih before (List.mem_of_getLast? hbef)).2 hrecd.running
      have hiteration := hrecd.iteration
      have hmax := hrecd.maxIterations
      exact ⟨by omega, hrecd.room⟩

theorem ended (h : GoalHistory stored) :
    stored.Pairwise fun before after => before.runId = after.runId → before.state.status = .running := by
  induction h with
  | nil => exact .nil
  | @start stored record h hnew hstarts ih =>
    rw [List.pairwise_append]
    refine ⟨ih, List.pairwise_singleton _ _, fun old hold last hlast hsame => ?_⟩
    obtain rfl := List.mem_singleton.mp hlast
    exact absurd hsame (hnew old hold)
  | @check stored before record h hbef hrecd ih =>
    rw [List.pairwise_append]
    refine ⟨ih, List.pairwise_singleton _ _, fun old hold last hlast hsame => ?_⟩
    obtain rfl := List.mem_singleton.mp hlast
    obtain ⟨init, rfl⟩ : ∃ init, stored = init ++ [before] :=
      ⟨stored.dropLast, (List.dropLast_append_getLast? before hbef).symm⟩
    rcases List.mem_append.mp hold with hearl | hself
    · -- an earlier record of the run was running, by what holds of the records so far
      have hpair := (List.pairwise_append.mp ih).2.2 old hearl before (List.mem_singleton_self _)
      exact hpair (hsame.trans hrecd.runId)
    · obtain rfl := List.mem_singleton.mp hself
      exact hrecd.running

end GoalHistory

namespace GoalRun

abbrev GoalEntry : Type := Entry GoalOp.Ret GoalWorld

def readGoal : GoalEntry → Option GoalRecord
  | ⟨_, .get, .ok record⟩ => record
  | _ => none

def storedGoal : GoalEntry → Option GoalRecord
  | ⟨_, .set record, .ok ()⟩ => some record
  | _ => none

def atRead (log : List GoalEntry) (w : GoalWorld) : Bool :=
  w.current.any fun record => log.any fun entry => decide (readGoal entry = some record)

def isCheck : GoalCall → Bool
  | .start _ => false
  | .check _ => true

def storesAtRead (s : GoalPool) (i : Nat) : GoalOp → Prop
  | .set _ => ∀ proc ∈ s.procs[i]?, isCheck proc.call = true → atRead proc.log s.world = true
  | _ => True

/-- After a start has stored its goal, nothing fails that it asks for, and the goal did not run before. -/
def goesWell : (op : GoalOp) → op.Ret → Prop
  | .appendEvent _, r => r = .ok ()
  | .run _, r => r = .ok ()
  | .enqueue _, r => (∃ run, r = .ok (.created run)) ∨
    ∃ run : RunRecord, run.state.isTerminal = false ∧ r = .ok (.existing run)
  | _, _ => True

/-- No check stores over a goal that it did not read, and no start fails after it stored. -/
def careful : GoalRules where
  allowed := goesWell
  acts := storesAtRead

def failedStart : (call : GoalCall) → call.Res → Bool
  | .start _, .error _ => true
  | _, _ => false

/-- **A check touches only the goal it checked, and a start that fails touches none.** -/
structure GoalsKept (s : GoalPool) : Prop where
  /-- A check records one more iteration of the run that is stored. -/
  checks : ∀ (i : Nat) (proc : GoalProc), s.procs[i]? = some proc → isCheck proc.call = true →
    ∀ w record, (⟨w, .set record, .ok ()⟩ : GoalEntry) ∈ proc.log → ∃ before, w.current = some before ∧
      record.runId = before.runId ∧ record.state.iteration = before.state.iteration + 1
  /-- The status of a run that is done, exhausted or cancelled never changes. -/
  final : s.world.stored.Pairwise fun before after => before.runId = after.runId →
    before.state.status ≠ .running → after.state.status = before.state.status
  within : ∀ record ∈ s.world.stored, record.state.iteration ≤ record.state.maxIterations
  /-- A start that returns an error leaves the goal as it was. -/
  errors : ∀ (i : Nat) (proc : GoalProc), s.procs[i]? = some proc →
    proc.returned.any (failedStart proc.call) = true →
    ∀ w record, (⟨w, .set record, .ok ()⟩ : GoalEntry) ∈ proc.log → w.current = some record

/-! ## What each call stores -/

def NoneStored (log : List GoalEntry) : Prop := ∀ entry ∈ log, storedGoal entry = none

def Reads (record : GoalRecord) (log : List GoalEntry) : Prop :=
  ∀ entry ∈ log, ∀ before, readGoal entry = some before → before = record

def Before : GoalCall → GoalOp → List GoalEntry → Prop
  | .start _, .set record, log =>
    record.Starts ∧ (∃ w, ⟨w, .newRunId, record.runId⟩ ∈ log) ∧ NoneStored log
  | .check _, .set record, log => ∀ entry ∈ log, ∀ before, readGoal entry = some before → before.Recorded record
  | _, _, _ => True

variable {harness : Harness} {log : List GoalEntry}

theorem NoneStored.add {entry : GoalEntry} (h : NoneStored log) (hent : storedGoal entry = none) :
    NoneStored (log ++ [entry]) := by
  intro e he
  rcases List.mem_append.mp he with hold | hself
  · exact h e hold
  · obtain rfl := List.mem_singleton.mp hself
    exact hent

theorem Reads.add {record : GoalRecord} {entry : GoalEntry} (h : Reads record log)
    (hent : readGoal entry = none) : Reads record (log ++ [entry]) := by
  intro e he before hbef
  rcases List.mem_append.mp he with hold | hself
  · exact h e hold before hbef
  · obtain rfl := List.mem_singleton.mp hself
    rw [hent] at hbef
    cases hbef

/-- The rules of a run that is careful. -/
abbrev carefulLaws : Laws GoalOp GoalOp.Ret GoalWorld := GoalWorld.laws goesWell

/-- The rule for the result of an access: at a failure nothing was stored. -/
theorem ofResult_stores {α : Type} {call : GoalCall} {result : Except AdkError α} {R : α → List GoalEntry → Prop}
    (hok : ∀ a, result = .ok a → R a log) (herr : (∃ error, result = .error error) → NoneStored log) :
    Prog.Ensures (recording carefulLaws) (Before call) (fun _ log => NoneStored log) R
      (GoalProg.ofResult result) log := by
  cases result with
  | ok a => exact ensures_pure (hok a rfl)
  | error error => exact ensures_throw (herr ⟨error, rfl⟩)

/-- **A start stores a goal that starts**, and fails only before it has stored. -/
theorem begin_local {spec : GoalSpec} {mode : HarnessMode} (hnone : NoneStored log) :
    Prog.Ensures (recording carefulLaws) (Before (.start spec)) (fun _ log => NoneStored log) (fun _ _ => True)
      (begin_ mode spec) log := by
  unfold begin_
  refine Prog.Ensures.bind (M := fun _ log => NoneStored log ∧ spec.validate = .ok ()) ?_ ?_
  · exact ofResult_stores (fun _ h => ⟨hnone, h⟩) fun _ => hnone
  rintro _ log ⟨hnone, hval⟩
  split
  · exact ensures_throw hnone
  refine Prog.Ensures.bind (M := fun _ log => NoneStored log) ?_ ?_
  · exact ensures_perform trivial fun _ _ _ _ => hnone.add rfl
  intro now log hnone
  refine Prog.Ensures.bind (M := fun runId log => NoneStored log ∧ ∃ w, ⟨w, .newRunId, runId⟩ ∈ log) ?_ ?_
  · refine ensures_perform trivial fun w r _ _ => ⟨hnone.add rfl, w, ?_⟩
    exact List.mem_append_right _ (List.mem_singleton_self _)
  rintro runId log ⟨hnone, hid⟩
  refine Prog.Ensures.bind (M := fun r log => (∃ error, r = .error error) → NoneStored log) ?_ ?_
  · refine ensures_perform ⟨⟨rfl, rfl, GoalSpec.validate_pos hval⟩, hid, hnone⟩ fun w r w' hr => ?_
    rintro ⟨error, rfl⟩
    exact hnone.add rfl
  intro r log hfail
  refine Prog.Ensures.bind (M := fun _ _ => True) ?_ fun _ _ _ => ensures_pure trivial
  exact ofResult_stores (fun _ _ => trivial) hfail

theorem start_local (spec : GoalSpec) :
    Prog.Ensures (recording carefulLaws) (Before (.start spec)) (fun _ log => NoneStored log) (fun _ _ => True)
      (harness.startGoal spec) [] := by
  have hnone : NoneStored [] := fun _ h => by cases h
  unfold Harness.startGoal
  refine Prog.Ensures.bind (M := fun _ log => NoneStored log) ?_ ?_
  · exact ensures_perform trivial fun _ _ _ _ => hnone.add rfl
  intro mode log hnone
  refine Prog.Ensures.bind (M := fun _ log => NoneStored log) ?_ ?_
  · exact ofResult_stores (fun _ _ => hnone) fun _ => hnone
  intro mode log hnone
  refine Prog.Ensures.bind (M := fun _ _ => True) (begin_local hnone) ?_
  intro record log _
  -- from here on nothing fails
  refine Prog.Ensures.bind (M := fun r _ => r = .ok ()) ?_ ?_
  · exact ensures_perform trivial fun _ _ _ hr => hr.2
  rintro _ log rfl
  refine Prog.Ensures.bind (M := fun _ _ => True) (ensures_pure trivial) ?_
  intro _ log _
  split
  · refine Prog.Ensures.bind (M := fun r _ => r = .ok ()) ?_ ?_
    · exact ensures_perform trivial fun _ _ _ hr => hr.2
    rintro _ log rfl
    refine Prog.Ensures.bind (M := fun _ _ => True) (ensures_pure trivial) ?_
    exact fun _ _ _ => ensures_pure trivial
  · refine Prog.Ensures.bind (M := fun r _ => (∃ run, r = .ok (.created run)) ∨
      ∃ run : RunRecord, run.state.isTerminal = false ∧ r = .ok (.existing run)) ?_ ?_
    · exact ensures_perform trivial fun _ _ _ hr => hr.2
    rintro _ log (⟨run, rfl⟩ | ⟨run, hrun, rfl⟩)
    · exact Prog.Ensures.bind (M := fun enqueued _ => enqueued = .created run) (ensures_pure rfl) fun _ _ h =>
        h ▸ ensures_pure trivial
    · refine Prog.Ensures.bind (M := fun enqueued _ => enqueued = .existing run) (ensures_pure rfl) ?_
      rintro _ log rfl
      dsimp only [Harness.enqueuedGoal]
      rw [if_pos hrun]
      exact ensures_pure trivial

theorem auditGoal_local {branch action : String} {args : Option Value} {ext : Value} {record : GoalRecord}
    (h : Reads record log) :
    Prog.Ensures (recording carefulLaws) (Before (.check branch)) (fun _ _ => True) (fun _ log => Reads record log)
      (harness.auditGoal action args ext) log := by
  unfold Harness.auditGoal
  by_cases haudited : harness.audited = true
  · rw [if_pos haudited]
    refine Prog.Ensures.bind (M := fun _ log => Reads record log) ?_ ?_
    · exact ensures_perform trivial fun _ _ _ _ => h.add rfl
    intro result log hlog
    cases result with
    | ok a => exact ensures_pure hlog
    | error error => exact ensures_throw trivial
  · rw [if_neg haudited]
    exact ensures_pure h

theorem GoalRecord.recorded {record : GoalRecord} (hrunn : record.state.status = .running)
    (exitCode : Option Int) (now : Utc) : record.Recorded
      (GoalRecord.checked { record with state := { record.state with iteration := record.state.iteration + 1 } }
        exitCode now) where
  runId := rfl
  running := hrunn
  iteration := rfl
  maxIterations := rfl
  room := by
    unfold GoalRecord.checked statusAfter
    intro hstatus
    dsimp only at hstatus ⊢
    split at hstatus
    · cases hstatus
    split at hstatus
    · cases hstatus
    next hroom => omega

/-- **A check stores only a record that follows the one it read.** -/
theorem check_local (branch : String) :
    Prog.Ensures (recording carefulLaws) (Before (.check branch)) (fun _ _ => True) (fun _ _ => True)
      (harness.check branch) [] := by
  unfold Harness.check
  refine Prog.Ensures.bind (M := fun _ log => ∀ entry ∈ log, readGoal entry = none) ?_ ?_
  · refine ensures_perform trivial fun w r _ _ entry hent => ?_
    obtain rfl := List.mem_singleton.mp hent
    rfl
  intro result log hunread
  refine Prog.Ensures.bind (M := fun _ log => ∀ entry ∈ log, readGoal entry = none) ?_ ?_
  · cases result with
    | ok _ => exact ensures_pure hunread
    | error error => exact ensures_throw trivial
  intro _ log hunread
  refine Prog.Ensures.bind (M := fun result log => ∀ record, result = .ok (some record) → Reads record log) ?_ ?_
  · refine ensures_perform trivial fun w result _ hr record hres => ?_
    subst hres
    intro entry hent before hbef
    rcases List.mem_append.mp hent with hold | hself
    · rw [hunread entry hold] at hbef
      cases hbef
    · obtain rfl := List.mem_singleton.mp hself
      exact (Option.some.inj hbef).symm
  intro result log hread
  refine Prog.Ensures.bind (M := fun found log => ∀ record, found = some record → Reads record log) ?_ ?_
  · cases result with
    | ok found => exact ensures_pure fun record h => hread record (by rw [h])
    | error error => exact ensures_throw trivial
  intro found log hread
  refine Prog.Ensures.bind (M := fun record log => Reads record log) ?_ ?_
  · cases found with
    | none => exact ensures_throw trivial
    | some record => exact ensures_pure (hread record rfl)
  intro record log hread
  dsimp only
  split
  · exact ensures_pure trivial
  next hrunn =>
    unfold Harness.finishCheck
    refine Prog.Ensures.bind (M := fun _ log => Reads record log) (auditGoal_local hread) ?_
    intro _ log hread
    refine Prog.Ensures.bind (M := fun _ log => Reads record log) ?_ ?_
    · exact ensures_perform trivial fun _ _ _ _ => hread.add rfl
    intro outcome log hread
    refine Prog.Ensures.bind (M := fun _ log => Reads record log) ?_ ?_
    · exact ensures_perform trivial fun _ _ _ _ => hread.add rfl
    intro duration log hread
    refine Prog.Ensures.bind (M := fun _ log => Reads record log) (auditGoal_local hread) ?_
    intro _ log hread
    refine Prog.Ensures.bind (M := fun _ log => Reads record log) ?_ ?_
    · exact ensures_perform trivial fun _ _ _ _ => hread.add rfl
    intro now log hread
    refine Prog.Ensures.bind (M := fun _ log => True) ?_ ?_
    · refine ensures_perform (fun entry hent before hbef => ?_) fun _ _ _ _ => trivial
      rw [hread entry hent before hbef]
      exact GoalRecord.recorded (Decidable.not_not.mp hrunn) _ now
    intro result log _
    refine Prog.Ensures.bind (M := fun _ _ => True) ?_ ?_
    · cases result with
      | ok _ => exact ensures_pure trivial
      | error error => exact ensures_throw trivial
    intro _ log _
    refine Prog.Ensures.bind (M := fun _ _ => True) ?_ fun _ _ _ => ensures_pure trivial
    unfold Harness.auditGoal
    split
    · refine Prog.Ensures.bind (M := fun _ _ => True) ?_ ?_
      · exact ensures_perform trivial fun _ _ _ _ => trivial
      intro result log _
      cases result with
      | ok _ => exact ensures_pure trivial
      | error error => exact ensures_throw trivial
    · exact ensures_pure trivial

/-! ## Runs -/

/-- A session without a goal. -/
def fresh : GoalPool := { world := {} }

/-- A call has the identifier. -/
def HandedOut (s : GoalPool) (i : Nat) (id : String) : Prop := ∃ w, (⟨w, .newRunId, id⟩ : GoalEntry) ∈ s.logOf i

section Careful

variable {s s' : GoalPool}

theorem keeps_local (hrea : Reaches (goalSystem harness careful) fresh s) {i : Nat} {proc : GoalProc}
    (hproc : s.procs[i]? = some proc) : Keeps carefulLaws Before
      (fun call r log => failedStart call r = true → NoneStored log) proc := by
  refine hrea.local rfl (fun call => ?_) i proc hproc
  cases call with
  | start spec =>
    refine Prog.Holds.mono (start_local spec) fun r log h hfail => ?_
    cases r with
    | ok _ => cases hfail
    | error error => exact h
  | check branch =>
    refine Prog.Holds.mono (check_local branch) fun r log _ hfail => ?_
    cases hfail

theorem handedOut_unique (hrea : Reaches (goalSystem harness careful) fresh s) :
    (∀ i id, HandedOut s i id → id ∈ s.world.runIds) ∧
    ∀ i j id, HandedOut s i id → HandedOut s j id → i = j := by
  induction hrea with
  | refl =>
    have hnone : ∀ i id, ¬HandedOut fresh i id := by
      rintro i id ⟨w, hw⟩
      cases hw
    exact ⟨fun i id h => absurd h (hnone i id), fun i j id h => absurd h (hnone i id)⟩
  | @tail s s' hrea hstep ih =>
    obtain ⟨hgiv, hunique⟩ := ih
    rcases hstep.logs with ⟨hwld, hlogs⟩ | ⟨k, proc, op, next, r, hproc, hrest, hacts, hr, hself, hlog, hoths⟩
    · have hsame : s'.world = s.world := hwld.resolve_right fun h => h.elim
      have hback : ∀ i id, HandedOut s' i id → HandedOut s i id := by
        intro i id h
        unfold HandedOut at h ⊢
        rw [← hlogs i]
        exact h
      refine ⟨fun i id h => ?_, fun i j id h h' => hunique i j id (hback i id h) (hback j id h')⟩
      rw [hsame]
      exact hgiv i id (hback i id h)
    · -- what is handed out now was not handed out before
      have hback : ∀ i id, HandedOut s' i id → HandedOut s i id ∨
          i = k ∧ id ∉ s.world.runIds ∧ s'.world.runIds = id :: s.world.runIds := by
        rintro i id ⟨w, hw⟩
        by_cases hi : i = k
        · subst hi
          rw [hlog] at hw
          rcases List.mem_append.mp hw with hold | hnew
          · exact .inl ⟨w, hold⟩
          · obtain ⟨rfl, hop⟩ := Entry.mk.inj (List.mem_singleton.mp hnew)
            obtain ⟨rfl, hr'⟩ := hop
            obtain rfl := eq_of_heq hr'
            exact .inr ⟨rfl, hr.1, by rw [hr.2]⟩
        · rw [hoths i hi] at hw
          exact .inl ⟨w, hw⟩
      have hgrows : ∀ id ∈ s.world.runIds, id ∈ s'.world.runIds := by
        intro id hid
        cases op with
        | newRunId =>
          obtain ⟨-, hw⟩ := hr
          rw [hw]
          exact List.mem_cons_of_mem _ hid
        | set record =>
          rcases hr with ⟨-, hw⟩ | ⟨-, hw⟩
          · rw [hw]
            exact hid
          · rw [hw]
            exact hid
        | _ =>
          obtain ⟨hw, -⟩ := hr
          rw [hw]
          exact hid
      refine ⟨fun i id h => ?_, fun i j id h h' => ?_⟩
      · rcases hback i id h with hold | ⟨-, -, hmore⟩
        · exact hgrows id (hgiv i id hold)
        · rw [hmore]
          exact List.mem_cons_self
      · rcases hback i id h with hi | ⟨hi, hfr, -⟩
        · rcases hback j id h' with hj | ⟨-, hfr, -⟩
          · exact hunique i j id hi hj
          · exact absurd (hgiv i id hi) hfr
        · rcases hback j id h' with hj | ⟨hj, -, -⟩
          · exact absurd (hgiv j id hj) hfr
          · rw [hi, hj]

/-- Every stored run is of a call that has its identifier and has stored. -/
def Sourced (s : GoalPool) : Prop := ∀ record ∈ s.world.stored, ∃ i, HandedOut s i record.runId ∧
  ∃ entry ∈ s.logOf i, (storedGoal entry).isSome = true

theorem Step.handedOut {i : Nat} {id : String} (hstep : Step (goalSystem harness careful) s s')
    (h : HandedOut s i id) : HandedOut s' i id := by
  obtain ⟨w, hw⟩ := h
  exact ⟨w, hstep.logOf_grows hw⟩

/-- **The goals of a session stand one after another.** -/
theorem goalHistory_careful (hrea : Reaches (goalSystem harness careful) fresh s) :
    GoalHistory s.world.stored ∧ Sourced s := by
  induction hrea with
  | refl => exact ⟨.nil, fun record h => by cases h⟩
  | @tail s s' hrea hstep ih =>
    obtain ⟨hhist, hsourced⟩ := ih
    have hstays : ∀ record ∈ s.world.stored, ∃ i, HandedOut s' i record.runId ∧
        ∃ entry ∈ s'.logOf i, (storedGoal entry).isSome = true := by
      intro record hrcd
      obtain ⟨i, hid, entry, hent, hstd⟩ := hsourced record hrcd
      exact ⟨i, Step.handedOut hstep hid, entry, hstep.logOf_grows hent, hstd⟩
    have hsame : s'.world.stored = s.world.stored → GoalHistory s'.world.stored ∧ Sourced s' := by
      intro heq
      unfold Sourced
      rw [heq]
      exact ⟨hhist, hstays⟩
    rcases hstep.logs with ⟨hwld, -⟩ | ⟨k, proc, op, next, r, hproc, hrest, hacts, hr, hself, hlog, -⟩
    · exact hsame (by rw [hwld.resolve_right fun h => h.elim])
    cases op with
    | set record =>
      rcases hr with ⟨-, hw⟩ | ⟨rfl, hw⟩
      · exact hsame (by rw [hw])
      have hstd : s'.world.stored = s.world.stored ++ [record] := by rw [hw]
      have hlocal := keeps_local hrea hproc
      have hbef := hlocal.performs hrest
      have hputs : ∃ entry ∈ s'.logOf k, (storedGoal entry).isSome = true := by
        rw [hlog]
        exact ⟨_, List.mem_append_right _ (List.mem_singleton_self _), rfl⟩
      unfold Sourced
      rw [hstd]
      cases hcall : proc.call with
      | start spec =>
        rw [hcall] at hbef
        obtain ⟨hstarts, ⟨w, hw⟩, hnone⟩ := hbef
        have hhanded : HandedOut s k record.runId := ⟨w, by rw [logOf_eq hproc]; exact hw⟩
        refine ⟨.start hhist (fun old hold hsameId => ?_) hstarts, fun last hlast => ?_⟩
        · -- another call has the identifier of what is stored, for this one has stored nothing
          obtain ⟨j, hid, entry, hent, hsome⟩ := hsourced old hold
          rw [hsameId] at hid
          obtain rfl := (handedOut_unique hrea).2 j k record.runId hid hhanded
          rw [logOf_eq hproc] at hent
          rw [hnone entry hent] at hsome
          cases hsome
        · rcases List.mem_append.mp hlast with hold | hnew
          · exact hstays last hold
          · obtain rfl := List.mem_singleton.mp hnew
            exact ⟨k, Step.handedOut hstep hhanded, hputs⟩
      | check branch =>
        rw [hcall] at hbef
        have hread := hacts proc (Option.mem_def.mpr hproc) (by rw [hcall]; rfl)
        unfold atRead at hread
        obtain ⟨before, hcurrent, hread⟩ := (Option.any_eq_true _ _).mp hread
        obtain ⟨entry, hent, hread⟩ := List.any_eq_true.mp hread
        have hrecd := hbef entry hent before (of_decide_eq_true hread)
        refine ⟨.check hhist hcurrent hrecd, fun last hlast => ?_⟩
        rcases List.mem_append.mp hlast with hold | hnew
        · exact hstays last hold
        · obtain rfl := List.mem_singleton.mp hnew
          rw [hrecd.runId]
          exact hstays before (List.mem_of_getLast? hcurrent)
    | newRunId =>
      obtain ⟨-, hw⟩ := hr
      exact hsame (by rw [hw])
    | _ =>
      obtain ⟨hw, -⟩ := hr
      exact hsame (by rw [hw])

/-- **In every run whose steps are careful**, a check touches only the goal it checked, and a start that fails
touches none. -/
theorem goalsKept_careful (hreach : Reaches (goalSystem harness careful) fresh s) : GoalsKept s := by
  obtain ⟨hhistory, -⟩ := goalHistory_careful hreach
  constructor
  case checks =>
    intro i proc hproc hcheck w record hstored
    have hentries := hreach.entries (P := fun call _ entry => isCheck call = true → ∀ record,
        storedGoal entry = some record → ∃ before, entry.world.current = some before ∧
          record.runId = before.runId ∧ record.state.iteration = before.state.iteration + 1) rfl ?_ i proc hproc
    · obtain ⟨log, later, hlog⟩ := List.append_of_mem hstored
      exact hentries log _ later hlog hcheck record rfl
    intro s' i proc op next r w hreach' hproc hrest hacts hr hcheck record hstores
    cases op with
    | set stored =>
      rcases hr with ⟨⟨error, rfl⟩, -⟩ | ⟨rfl, -⟩
      · cases hstores
      obtain rfl : stored = record := Option.some.inj hstores
      have hbefore := (keeps_local hreach' hproc).performs hrest
      have hread := hacts proc (Option.mem_def.mpr hproc) hcheck
      unfold atRead at hread
      obtain ⟨before, hcurrent, hread⟩ := (Option.any_eq_true _ _).mp hread
      obtain ⟨entry, hentry, hread⟩ := List.any_eq_true.mp hread
      cases hcall : proc.call with
      | start spec =>
        rw [hcall] at hcheck
        cases hcheck
      | check branch =>
        rw [hcall] at hbefore
        have hrecorded := hbefore entry hentry before (of_decide_eq_true hread)
        exact ⟨before, hcurrent, hrecorded.runId, hrecorded.iteration⟩
    | _ => cases hstores
  case final =>
    refine hhistory.ended.imp fun {before after} hrunning hsame hended => ?_
    exact absurd (hrunning hsame) hended
  case within => exact fun record hrecord => (hhistory.within record hrecord).1
  case errors =>
    intro i proc hproc hfailed w record hstored
    unfold Proc.returned at hfailed
    cases hrest : proc.rest with
    | ask op next =>
      rw [hrest] at hfailed
      cases hfailed
    | pure r =>
      rw [hrest] at hfailed
      have hnone := (keeps_local hreach hproc).returned hrest hfailed
      cases hnone _ hstored

end Careful

/-! ## Runs that are computed -/

section Computed

/-- A store that never fails, a command that exits with a code, and a run store that answers in one way. -/
def run (code : Int) (enqueued : Enqueued) : (op : GoalOp) → GoalWorld → op.Ret × GoalWorld
  | .checkGovernance, w => (.ok (), w)
  | .mode, w => (.ok .ask, w)
  | .get, w => (.ok w.current, w)
  | .set record, w => (.ok (), { w with stored := w.stored ++ [record] })
  | .now, w => (0, w)
  | .newRunId, w => (longerThan w.runIds, { w with runIds := longerThan w.runIds :: w.runIds })
  | .appendEvent _, w => (.ok (), w)
  | .enqueue _, w => (.ok enqueued, w)
  | .run _, w => (.ok (), w)
  | .audit .., w => (.ok (), w)
  | .execute .., w => (.ok (.object [("exit_code", .ofInt code)]), w)
  | .elapsed, w => (0, w)

theorem answers_run {code : Int} {enqueued : Enqueued} {allowed : (op : GoalOp) → op.Ret → Prop}
    (hall : ∀ op w, allowed op (run code enqueued op w).1) (op : GoalOp) (w : GoalWorld) :
    (GoalWorld.laws allowed).answers op w (run code enqueued op w).1 (run code enqueued op w).2 := by
  have h := hall op w
  cases op with
  | get => exact ⟨rfl, .inr rfl⟩
  | set record => exact .inr ⟨rfl, rfl⟩
  | newRunId => exact ⟨longerThan_notMem w.runIds, rfl⟩
  | _ => exact ⟨rfl, h⟩

instance : ∀ s call, Decidable ((goalSystem harness careful).starts s call) :=
  fun _ _ => inferInstanceAs (Decidable True)

instance : ∀ s i op, Decidable ((goalSystem harness careful).acts s i op) := by
  intro s i op
  cases op with
  | set record => exact inferInstanceAs (Decidable (∀ proc ∈ s.procs[i]?, isCheck proc.call = true → _ = true))
  | _ => exact inferInstanceAs (Decidable True)

instance : ∀ s call, Decidable ((goalSystem harness {}).starts s call) := fun _ _ => inferInstanceAs (Decidable True)

instance : ∀ s i op, Decidable ((goalSystem harness {}).acts s i op) := fun _ _ _ => inferInstanceAs (Decidable True)

/-- A harness with a run store. -/
def goalHarness : Harness where
  appName := "app"
  userId := "user"
  sessionId := "s1"
  agent := "harness"
  durable := true
  goalQueue := "goals"
  isolation := "none"
  audited := false
  digest spec := spec.goal

def goalOf (maxIterations : Nat) : GoalSpec := ⟨"green", "cargo test", maxIterations, 1000000000⟩

def goalRun (state : RunState) : RunRecord :=
  { RunRecord.queued "run-1" (goalHarness.newRun (goalOf 2)) 0 with state }

/-- So many accesses of a call. -/
def actAll (i n : Nat) : List (ProcPool.Event GoalCall) := List.replicate n (.act i)

/-- A call that starts and makes so many accesses. -/
def callAll (i : Nat) (call : GoalCall) (n : Nat) : List (ProcPool.Event GoalCall) := .start call :: actAll i n

/-- A goal of two iterations whose command fails twice. -/
def exhaustedRun : GoalPool :=
  (callAll 0 (.start (goalOf 2)) 6 ++ callAll 1 (.check "") 6 ++ callAll 2 (.check "") 6).foldl
    (ProcPool.next (goalSystem goalHarness careful) (run 1 (.created (goalRun .queued)))) fresh

theorem goalsKept_exhausted : GoalsKept exhaustedRun ∧
    exhaustedRun.world.stored.map (fun record => (record.state.iteration, record.state.status)) =
      [(0, .running), (1, .running), (2, .exhausted)] := by
  have hallowed : ∀ op w, goesWell op (run 1 (.created (goalRun .queued)) op w).1 := by
    intro op w
    cases op with
    | appendEvent event => rfl
    | run prompt => rfl
    | enqueue run => exact .inl ⟨_, rfl⟩
    | _ => trivial
  exact ⟨goalsKept_careful (reaches_foldl (answers_run hallowed) _ _), by decide +kernel⟩

/-- A goal starts while the check of another runs. -/
def overwrittenRun : GoalPool :=
  (callAll 0 (.start (goalOf 1)) 6 ++ callAll 1 (.check "") 3 ++ callAll 2 (.start (goalOf 2)) 6 ++
    actAll 1 3).foldl
    (ProcPool.next (goalSystem goalHarness {}) (run 0 (.created (goalRun .queued)))) fresh

/-- A goal whose durable run has ended is checked while it starts. -/
def duplicateRun : GoalPool :=
  (callAll 0 (.start (goalOf 2)) 5 ++ callAll 1 (.check "") 6 ++ actAll 0 2).foldl
    (ProcPool.next (goalSystem goalHarness {}) (run 0 (.existing (goalRun .completed)))) fresh

theorem reaches_general {code : Int} {enqueued : Enqueued} (events : List (ProcPool.Event GoalCall)) :
    Reaches (goalSystem goalHarness {}) fresh
      (events.foldl (ProcPool.next (goalSystem goalHarness {}) (run code enqueued)) fresh) :=
  reaches_foldl (answers_run fun _ _ => trivial) fresh events

/-- **Not in every run**: a check overwrites a goal that started meanwhile, and a start that fails cancels a goal
that is done. -/
theorem not_goalsKept :
    (¬ ∀ (harness : Harness) (s : GoalPool), Reaches (goalSystem harness {}) fresh s → GoalsKept s) ∧
    overwrittenRun.world.stored.map (fun record => (record.runId, record.state.status)) =
      [("r", .running), ("rr", .running), ("r", .done)] ∧
    duplicateRun.world.stored.map (fun record => (record.runId, record.state.status)) =
      [("r", .running), ("r", .done), ("r", .cancelled)] ∧
    (duplicateRun.procs[0]?.any fun proc => proc.returned.any (failedStart proc.call)) = true := by
  have hduplicate : duplicateRun.world.stored.map (fun record => (record.runId, record.state.status)) =
      [("r", .running), ("r", .done), ("r", .cancelled)] := by
    decide +kernel
  refine ⟨fun h => ?_, by decide +kernel, hduplicate, by decide +kernel⟩
  have hkept := h goalHarness duplicateRun (reaches_general _)
  have hfinal : (duplicateRun.world.stored.map fun record => (record.runId, record.state.status)).Pairwise
      fun before after => before.1 = after.1 → before.2 ≠ .running → after.2 = before.2 := by
    rw [List.pairwise_map]
    exact hkept.final
  rw [hduplicate] at hfinal
  revert hfinal
  decide

end Computed

end GoalRun

end Adk
