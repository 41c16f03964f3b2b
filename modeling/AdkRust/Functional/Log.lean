import AdkRust.Graph.Value

/-!
# The execution log of a functional workflow

What a workflow of `#[task]` calls has done (`functional/execution_log.rs`), and the JSON that its
checkpoints carry it as.

* `ExecutionLog.recordCompletion`, `recordFailure`: what ends a call.
* `ExecutionLog.fromValue_toValue`: what a log read back from a checkpoint holds. A result that is
  `null` reads back as no result.
-/

namespace Adk

inductive TaskStatus where
  | running
  | completed
  | failed
  | interrupted
deriving DecidableEq

namespace TaskStatus

def toString : TaskStatus → String
  | running => "running"
  | completed => "completed"
  | failed => "failed"
  | interrupted => "interrupted"

def ofString (s : String) : Option TaskStatus :=
  [running, completed, failed, interrupted].find? fun status => status.toString == s

@[simp] theorem ofString_toString (status : TaskStatus) : ofString status.toString = some status := by
  cases status with
  | running => rfl
  | completed => rfl
  | failed => rfl
  | interrupted => rfl

end TaskStatus

/-- What the log holds of one call. -/
structure TaskRecord where
  status : TaskStatus
  result : Option Value := none
  error : Option String := none
  startedAt : String
  completedAt : Option String := none
  attempt : Nat
deriving DecidableEq

/-- What a workflow run has done. -/
structure ExecutionLog where
  tasks : Dict TaskRecord := ∅
  currentStep : Nat := 0

/-! ## As JSON -/

namespace Value

def ofOption : Option Value → Value
  | some v => v
  | none => .null

/-- An optional field: one that is `null` or missing is none. -/
def optional (field : Option Value) : Option Value :=
  field.filter fun v => decide (v ≠ .null)

def optionalStr (field : Option Value) : Option (Option String) :=
  match optional field with
  | none => some none
  | some v => v.asStr.map some

def asNat (v : Value) : Option Nat := v.asInt.bind Int.toNat?

@[simp] theorem asNat_ofInt (n : Nat) : asNat (.ofInt n) = some n := by
  simp only [asNat, asInt, ofInt, Option.bind_some]
  rfl

@[simp] theorem optional_ofOption (v : Option Value) :
    optional (some (ofOption v)) = v.filter fun v => decide (v ≠ .null) := by
  cases v with
  | none => simp [optional, ofOption, Option.filter]
  | some v => rfl

@[simp] theorem optionalStr_ofOption (s : Option String) :
    optionalStr (some (ofOption (s.map .string))) = some s := by
  cases s with
  | none => simp [optionalStr, optional, ofOption, Option.filter]
  | some s => simp [optionalStr, optional, ofOption, Option.filter, asStr]

end Value

namespace TaskRecord

def toValue (record : TaskRecord) : Value :=
  .object [("attempt", .ofInt record.attempt),
    ("completed_at", .ofOption (record.completedAt.map .string)),
    ("error", .ofOption (record.error.map .string)), ("result", .ofOption record.result),
    ("started_at", .string record.startedAt), ("status", .string record.status.toString)]

def fromValue (value : Value) : Option TaskRecord := do
  let status ← TaskStatus.ofString (← (← value.get? "status").asStr)
  let error ← Value.optionalStr (value.get? "error")
  let startedAt ← (← value.get? "started_at").asStr
  let completedAt ← Value.optionalStr (value.get? "completed_at")
  let attempt ← (← value.get? "attempt").asNat
  return { status, result := Value.optional (value.get? "result"), error, startedAt, completedAt, attempt }

/-- The record as it reads back: a `null` result is lost. -/
def reloaded (record : TaskRecord) : TaskRecord :=
  { record with result := record.result.filter fun v => decide (v ≠ .null) }

theorem fromValue_toValue (record : TaskRecord) : fromValue record.toValue = some record.reloaded := by
  have hatt : record.toValue.get? "attempt" = some (.ofInt record.attempt) := by
    simp [toValue, Value.get?, Value.asObject]
  have hcomp : record.toValue.get? "completed_at" =
      some (.ofOption (record.completedAt.map .string)) := by
    simp [toValue, Value.get?, Value.asObject, List.lookup_cons]
  have herr : record.toValue.get? "error" = some (.ofOption (record.error.map .string)) := by
    simp [toValue, Value.get?, Value.asObject, List.lookup_cons]
  have hres : record.toValue.get? "result" = some (.ofOption record.result) := by
    simp [toValue, Value.get?, Value.asObject, List.lookup_cons]
  have hstd : record.toValue.get? "started_at" = some (.string record.startedAt) := by
    simp [toValue, Value.get?, Value.asObject, List.lookup_cons]
  have hstatus : record.toValue.get? "status" = some (.string record.status.toString) := by
    simp [toValue, Value.get?, Value.asObject, List.lookup_cons]
  simp [fromValue, hatt, hcomp, herr, hres, hstd, hstatus, Value.asStr, reloaded]

end TaskRecord

namespace ExecutionLog

def toValue (log : ExecutionLog) : Value :=
  .object [("current_step", .ofInt log.currentStep),
    ("tasks", .ofDictWith TaskRecord.toValue log.tasks)]

def fromValue (value : Value) : Option ExecutionLog := do
  let tasks ← (← value.get? "tasks").asDictWith TaskRecord.fromValue
  let currentStep ← (← value.get? "current_step").asNat
  return { tasks, currentStep }

def reloaded (log : ExecutionLog) : ExecutionLog :=
  { log with tasks := log.tasks.map fun _ record => record.reloaded }

/-- **What a checkpoint's log reads back as.** -/
theorem fromValue_toValue (log : ExecutionLog) : fromValue log.toValue = some log.reloaded := by
  have hstep : log.toValue.get? "current_step" = some (.ofInt log.currentStep) := by
    simp [toValue, Value.get?, Value.asObject]
  have htsk : log.toValue.get? "tasks" = some (.ofDictWith TaskRecord.toValue log.tasks) := by
    simp [toValue, Value.get?, Value.asObject, List.lookup_cons]
  have hdict := Value.asDictWith_ofDictWith_map TaskRecord.fromValue_toValue log.tasks
  simp [fromValue, hstep, htsk, hdict, reloaded]

/-! ## What the log says of a call -/

variable (log : ExecutionLog)

/-- The result of a completed call. -/
def getResult (taskId : String) : Option Value :=
  log.tasks[taskId]?.bind fun record => if record.status = .completed then record.result else none

def isCompleted (taskId : String) : Bool :=
  log.tasks[taskId]?.any fun record => decide (record.status = .completed)

def recordCompletion (now taskId : String) (result : Value) : ExecutionLog :=
  let record := match log.tasks[taskId]? with
    | some record =>
      { record with status := .completed, result := some result, error := none, completedAt := some now }
    | none =>
      { status := .completed, result := some result, startedAt := now, completedAt := some now,
        attempt := 1 }
  { log with tasks := log.tasks.insert taskId record }

def recordFailure (now taskId error : String) : ExecutionLog :=
  let record := match log.tasks[taskId]? with
    | some record => { record with status := .failed, error := some error, completedAt := some now }
    | none =>
      { status := .failed, error := some error, startedAt := now, completedAt := some now, attempt := 1 }
  { log with tasks := log.tasks.insert taskId record }

def recordInterruptAnswer (now continuationKey : String) (value : Value) : ExecutionLog :=
  log.recordCompletion now continuationKey value

def interruptAnswer (continuationKey : String) : Option Value := log.getResult continuationKey

/-- Counts a completed call. -/
def advanceStep : ExecutionLog := { log with currentStep := log.currentStep + 1 }

variable {log : ExecutionLog} {now taskId other error : String} {result : Value}

@[simp] theorem getResult_recordCompletion :
    (log.recordCompletion now taskId result).getResult other =
      if taskId = other then some result else log.getResult other := by
  simp only [getResult, recordCompletion, Std.ExtTreeMap.getElem?_insert, Std.compare_eq_iff_eq]
  split
  · split <;> simp
  · rfl

@[simp] theorem isCompleted_recordCompletion :
    (log.recordCompletion now taskId result).isCompleted other =
      (decide (taskId = other) || log.isCompleted other) := by
  simp only [isCompleted, recordCompletion, Std.ExtTreeMap.getElem?_insert, Std.compare_eq_iff_eq]
  by_cases h : taskId = other
  · simp only [h, if_true]
    split <;> simp
  · simp [h]

@[simp] theorem getResult_recordFailure :
    (log.recordFailure now taskId error).getResult other =
      if taskId = other then none else log.getResult other := by
  simp only [getResult, recordFailure, Std.ExtTreeMap.getElem?_insert, Std.compare_eq_iff_eq]
  split
  · split <;> simp
  · rfl

@[simp] theorem getResult_advanceStep : log.advanceStep.getResult taskId = log.getResult taskId := rfl

@[simp] theorem isCompleted_advanceStep :
    log.advanceStep.isCompleted taskId = log.isCompleted taskId := rfl

@[simp] theorem isCompleted_reloaded : log.reloaded.isCompleted taskId = log.isCompleted taskId := by
  simp [isCompleted, reloaded, Std.ExtTreeMap.getElem?_map, TaskRecord.reloaded, Option.any_map]

/-- A result reads back unless it is `null`. -/
@[simp] theorem getResult_reloaded :
    log.reloaded.getResult taskId = (log.getResult taskId).filter fun v => decide (v ≠ .null) := by
  simp only [getResult, reloaded, Std.ExtTreeMap.getElem?_map]
  cases log.tasks[taskId]? with
  | none => rfl
  | some record =>
    simp only [Option.map_some, Option.bind_some, TaskRecord.reloaded]
    split
    · rfl
    · rfl

end ExecutionLog

end Adk
