import AdkRust.Lib.ProcPool
import AdkRust.Runs.Moves
import AdkRust.Schedules.Spec

/-!
# The scheduler

A scheduler enqueues what is due and advances the schedules (`scheduler.rs`). Any number of them tick over one
store of schedules and one store of runs, and each may stop between two calls.

* `DurableScheduler.tick`: one tick.
* `SchedulerWorld.laws`: how the two stores answer, and what others do to them.
* `tick_local`: an advance is of a schedule that was due, after what its plan fires was enqueued.
-/

namespace Adk

structure SchedulerTick where
  enqueued : Nat := 0
  /-- Occurrences that had a run. -/
  existing : Nat := 0
  /-- Occurrences that the concurrency key of the schedule refused. -/
  rejected : Nat := 0
  advanced : Nat := 0
  /-- Schedules that another scheduler advanced first. -/
  lostRace : Nat := 0
  /-- Whether governance refused. -/
  frozen : Bool := false

/-- The tick with one more answer. -/
def SchedulerTick.count (tick : SchedulerTick) : Enqueued → SchedulerTick
  | .created _ => { tick with enqueued := tick.enqueued + 1 }
  | .existing _ => { tick with existing := tick.existing + 1 }
  | .rejected _ => { tick with rejected := tick.rejected + 1 }

structure DurableScheduler where
  /-- Whether it asks a governance control. -/
  governed : Bool := false
  /-- How many schedules one tick handles. -/
  batch : Nat := 100
  /-- How late an occurrence may fire. -/
  grace : Duration := 60000000000

inductive SchedulerOp where
  | check
  | now
  | due (now : Utc) (limit : Nat)
  | enqueue (run : NewRun)
  | advance (id : String) (expectedRevision : Nat) (nextFireAt : Option Utc)
  | setPaused (id : String) (paused : Bool)

abbrev SchedulerOp.Ret : SchedulerOp → Type
  | .check => Except AdkError Unit
  | .now => Utc
  | .due .. => Except AdkError (List Schedule)
  | .enqueue _ => Except AdkError Enqueued
  | .advance .. => Except AdkError Bool
  | .setPaused .. => Except AdkError Schedule

namespace DurableScheduler

abbrev TickProg : Type → Type := Prog SchedulerOp SchedulerOp.Ret

def check (scheduler : DurableScheduler) : TickProg (Except AdkError Unit) :=
  if scheduler.governed then .ask .check .pure else .pure (.ok ())

/-- Enqueues occurrences, oldest first, up to the first error. -/
def enqueueAll (schedule : Schedule) : List Utc → SchedulerTick → TickProg (Except AdkError Unit × SchedulerTick)
  | [], tick => .pure (.ok (), tick)
  | fireTime :: rest, tick => .ask (.enqueue (schedule.runFor fireTime)) fun
    | .error error => .pure (.error error, tick)
    | .ok enqueued => enqueueAll schedule rest (tick.count enqueued)

variable [CronSchedules]

/-- Fires a schedule and advances it. One that cannot be planned is paused. -/
def fire (scheduler : DurableScheduler) (schedule : Schedule) (now : Utc) (tick : SchedulerTick) :
    TickProg (Except AdkError Unit × SchedulerTick) :=
  match schedule.nextFireAt with
  | none => .pure (.ok (), tick)
  | some dueAt =>
    match planFires schedule.spec schedule.missed dueAt now scheduler.grace with
    | .error _ => .ask (.setPaused schedule.id true) fun paused => .pure (paused.map fun _ => (), tick)
    | .ok plan => scheduler.check.bind fun
      | .error _ => .pure (.ok (), { tick with frozen := true })
      | .ok () => (enqueueAll schedule plan.fireTimes tick).bind fun
        | (.error error, tick) => .pure (.error error, tick)
        | (.ok (), tick) => .ask (.advance schedule.id schedule.revision plan.nextFireAt) fun
          | .error error => .pure (.error error, tick)
          | .ok true => .pure (.ok (), { tick with advanced := tick.advanced + 1 })
          | .ok false => .pure (.ok (), { tick with lostRace := tick.lostRace + 1 })

/-- Fires schedules, each whatever became of the ones before. -/
def fireAll (scheduler : DurableScheduler) (now : Utc) : List Schedule → SchedulerTick → TickProg SchedulerTick
  | [], tick => .pure tick
  | schedule :: rest, tick => (scheduler.fire schedule now tick).bind fun fired => fireAll scheduler now rest fired.2

/-- Fires what is due. -/
def tick (scheduler : DurableScheduler) : TickProg (Except AdkError SchedulerTick) :=
  scheduler.check.bind fun
    | .error _ => .pure (.ok { frozen := true })
    | .ok () => .ask .now fun now => .ask (.due now scheduler.batch) fun
      | .error error => .pure (.error error)
      | .ok schedules => (scheduler.fireAll now schedules {}).bind fun tick => .pure (.ok tick)

end DurableScheduler

/-! ## The stores -/

/-- The store of schedules and the store of runs. -/
structure SchedulerWorld where
  schedules : ScheduleTable := ∅
  runs : RunTable := {}

def RunTable.Others (table : RunTable) : RunCall → Prop
  | .enqueue runId run => table.runs[runId]? = none ∧ ∀ id t, run.idempotencyKey ≠ some (firingIdempotencyKey id t)
  | .prune _ => False
  | _ => True

/-- How the stores answer. A new run has an identifier that no other run has. -/
def SchedulerWorld.laws : Laws SchedulerOp SchedulerOp.Ret SchedulerWorld where
  answers
    | .check, w, _, w' => w' = w
    | .now, w, now, w' => now ≤ maxUtc ∧ w' = w
    | .due now limit, w, schedules, w' => schedules = .ok (w.schedules.due now limit) ∧ w' = w
    | .enqueue run, w, result, w' => ∃ now runId, w.runs.runs[runId]? = none ∧
        w.runs.enqueue now runId run = (result, w'.runs) ∧ w'.schedules = w.schedules
    | .advance id expectedRevision nextFireAt, w, result, w' =>
        w.schedules.advance id expectedRevision nextFireAt = (result, w'.schedules) ∧ w'.runs = w.runs
    | .setPaused id paused, w, result, w' =>
        w.schedules.setPaused id paused = (result, w'.schedules) ∧ w'.runs = w.runs
  moves w w' :=
    (∃ now call answer, w.runs.Others call ∧ w.runs.call now call = (answer, w'.runs) ∧ w'.schedules = w.schedules) ∨
      ∃ id paused result, w.schedules.setPaused id paused = (result, w'.schedules) ∧ w'.runs = w.runs

abbrev SchedulerEntry : Type := Entry SchedulerOp.Ret SchedulerWorld

abbrev SchedulerProc : Type := Proc (fun _ : DurableScheduler => Except AdkError SchedulerTick) SchedulerOp.Ret SchedulerWorld

abbrev SchedulerPool : Type :=
  ProcPool (fun _ : DurableScheduler => Except AdkError SchedulerTick) SchedulerOp.Ret SchedulerWorld

variable [CronSchedules]

/-- Schedulers that tick. `acts` may hold a call back. -/
def schedulerSystem (acts : SchedulerPool → Nat → SchedulerOp → Prop) :
    System (fun _ : DurableScheduler => Except AdkError SchedulerTick) SchedulerOp.Ret SchedulerWorld where
  laws := SchedulerWorld.laws
  program := DurableScheduler.tick
  acts

/-! ## What a tick knows -/

open ProcPool

/-- A schedule was due when the tick read the clock. -/
structure WasDue (schedule : Schedule) (dueAt now : Utc) (log : List SchedulerEntry) : Prop where
  clock : ∃ w, ⟨w, .now, now⟩ ∈ log ∧ now ≤ maxUtc
  due : ∃ w limit, ⟨w, .due now limit, .ok (w.schedules.due now limit)⟩ ∈ log ∧ schedule ∈ w.schedules.due now limit
  nextFireAt : schedule.nextFireAt = some dueAt

def WasEnqueued (schedule : Schedule) (t : Utc) (log : List SchedulerEntry) : Prop :=
  ∃ w enqueued, ⟨w, .enqueue (schedule.runFor t), .ok enqueued⟩ ∈ log

/-- What a tick has done before a call. -/
def Prepared (scheduler : DurableScheduler) : SchedulerOp → List SchedulerEntry → Prop
  | .enqueue run, log => ∃ schedule dueAt now plan t, WasDue schedule dueAt now log ∧
      planFires schedule.spec schedule.missed dueAt now scheduler.grace = .ok plan ∧ t ∈ plan.fireTimes ∧
      run = schedule.runFor t
  | .advance id expectedRevision nextFireAt, log => ∃ schedule dueAt now plan, WasDue schedule dueAt now log ∧
      planFires schedule.spec schedule.missed dueAt now scheduler.grace = .ok plan ∧
      (∀ t ∈ plan.fireTimes, WasEnqueued schedule t log) ∧ id = schedule.id ∧ expectedRevision = schedule.revision ∧
      nextFireAt = plan.nextFireAt
  | .now, log => ∀ w now, (⟨w, .now, now⟩ : SchedulerEntry) ∉ log
  | _, _ => True

variable {scheduler : DurableScheduler} {schedule : Schedule} {dueAt now t : Utc} {log : List SchedulerEntry}

omit [CronSchedules] in
theorem WasDue.mono {log' : List SchedulerEntry} (h : WasDue schedule dueAt now log)
    (hlog : ∀ entry ∈ log, entry ∈ log') : WasDue schedule dueAt now log' := by
  obtain ⟨⟨w, hclk, hle⟩, ⟨w', limit, hdue, hmem⟩, hnext⟩ := h
  exact ⟨⟨w, hlog _ hclk, hle⟩, ⟨w', limit, hlog _ hdue, hmem⟩, hnext⟩

/-- A part of a tick prepares each of its calls, and returns with what `post` says. -/
abbrev Prepares {α : Type} (scheduler : DurableScheduler) (p : DurableScheduler.TickProg α)
    (post : α → List SchedulerEntry → Prop) (log : List SchedulerEntry) : Prop :=
  p.Holds (recording SchedulerWorld.laws) (Prepared scheduler)
    (fun a log' => (∀ entry ∈ log, entry ∈ log') ∧ post a log') log

/-- The rule for asking governance. -/
theorem check_local {α : Type} {post : α → List SchedulerEntry → Prop}
    {f : Except AdkError Unit → DurableScheduler.TickProg α}
    (h : ∀ r log', (∀ entry ∈ log, entry ∈ log') → (∀ entry ∈ log', entry ∈ log ∨ entry.op = .check) →
      Prepares scheduler (f r) post log') :
    Prepares scheduler (scheduler.check.bind f) post log := by
  unfold DurableScheduler.check
  split
  · refine holds_ask.mpr ⟨trivial, fun w r w' _ => ?_⟩
    have hlog : ∀ entry ∈ log, entry ∈ log ++ [(⟨w, .check, r⟩ : SchedulerEntry)] := fun entry hent =>
      List.mem_append_left _ hent
    refine Prog.Holds.mono (h r _ hlog fun entry hent => ?_) fun a log' ⟨hmore, hpost⟩ =>
      ⟨fun entry hent => hmore entry (hlog entry hent), hpost⟩
    rcases List.mem_append.mp hent with hent | hent
    · exact .inl hent
    · obtain rfl := List.mem_singleton.mp hent
      exact .inr rfl
  · exact h _ _ (fun entry hent => hent) fun entry hent => .inl hent

theorem enqueueAll_local {plan : FirePlan} (hdue : WasDue schedule dueAt now log)
    (hplan : planFires schedule.spec schedule.missed dueAt now scheduler.grace = .ok plan) (rest : List Utc)
    (hrest : ∀ t ∈ rest, t ∈ plan.fireTimes) (tick : SchedulerTick) :
    Prepares scheduler (DurableScheduler.enqueueAll schedule rest tick)
      (fun r log' => r.1 = .ok () → ∀ t ∈ rest, WasEnqueued schedule t log') log := by
  induction rest generalizing tick log with
  | nil => exact holds_pure.mpr ⟨fun entry hent => hent, fun _ t ht => absurd ht List.not_mem_nil⟩
  | cons t rest ih =>
    refine holds_ask.mpr ⟨⟨schedule, dueAt, now, plan, t, hdue, hplan, hrest t List.mem_cons_self, rfl⟩, ?_⟩
    intro w r w' _
    have hlog : ∀ entry ∈ log, entry ∈ log ++ [(⟨w, .enqueue (schedule.runFor t), r⟩ : SchedulerEntry)] :=
      fun entry hent => List.mem_append_left _ hent
    cases r with
    | error error => exact holds_pure.mpr ⟨hlog, fun h => by cases h⟩
    | ok enqueued =>
      have hrest := ih (hdue.mono hlog) (fun u hu => hrest u (List.mem_cons_of_mem _ hu)) (tick.count enqueued)
      refine Prog.Holds.mono hrest fun r log' ⟨hmore, hpost⟩ => ⟨fun entry hent => hmore entry (hlog entry hent), ?_⟩
      intro hok u hu
      rcases List.mem_cons.mp hu with rfl | hu
      · exact ⟨w, enqueued, hmore _ (List.mem_append_right _ (List.mem_singleton_self _))⟩
      · exact hpost hok u hu

theorem fire_local (hdue : ∀ dueAt, schedule.nextFireAt = some dueAt → WasDue schedule dueAt now log)
    (tick : SchedulerTick) : Prepares scheduler (scheduler.fire schedule now tick) (fun _ _ => True) log := by
  have hself : ∀ entry ∈ log, entry ∈ log := fun entry hent => hent
  unfold DurableScheduler.fire
  cases hnext : schedule.nextFireAt with
  | none => exact holds_pure.mpr ⟨hself, trivial⟩
  | some dueAt =>
    cases hplan : planFires schedule.spec schedule.missed dueAt now scheduler.grace with
    | error error =>
      simp only [hplan]
      exact holds_ask.mpr ⟨trivial, fun w r w' _ =>
        holds_pure.mpr ⟨fun entry hent => List.mem_append_left _ hent, trivial⟩⟩
    | ok plan =>
      simp only [hplan]
      refine check_local fun r log' hlog _ => ?_
      cases r with
      | error error => exact holds_pure.mpr ⟨fun entry hent => hent, trivial⟩
      | ok u =>
        have hdue := (hdue dueAt hnext).mono hlog
        refine Prog.holds_bind (Prog.Holds.mono (enqueueAll_local hdue hplan plan.fireTimes (fun _ h => h) tick) ?_)
        rintro ⟨result, tick⟩ log'' ⟨hmore, henq⟩
        cases result with
        | error error => exact holds_pure.mpr ⟨hmore, trivial⟩
        | ok u =>
          refine holds_ask.mpr ⟨⟨schedule, dueAt, now, plan, hdue.mono hmore, hplan, henq rfl, rfl, rfl, rfl⟩, ?_⟩
          intro w r w' _
          have hlast : ∀ entry ∈ log', entry ∈ log'' ++ [(⟨w, .advance schedule.id schedule.revision plan.nextFireAt,
              r⟩ : SchedulerEntry)] := fun entry hent => List.mem_append_left _ (hmore entry hent)
          rcases r with error | advanced
          · exact holds_pure.mpr ⟨hlast, trivial⟩
          · cases advanced with
            | true => exact holds_pure.mpr ⟨hlast, trivial⟩
            | false => exact holds_pure.mpr ⟨hlast, trivial⟩

theorem fireAll_local (schedules : List Schedule)
    (hdue : ∀ schedule ∈ schedules, ∀ dueAt, schedule.nextFireAt = some dueAt → WasDue schedule dueAt now log)
    (tick : SchedulerTick) : Prepares scheduler (scheduler.fireAll now schedules tick) (fun _ _ => True) log := by
  induction schedules generalizing tick log with
  | nil => exact holds_pure.mpr ⟨fun entry hent => hent, trivial⟩
  | cons schedule rest ih =>
    refine Prog.holds_bind (Prog.Holds.mono (fire_local (hdue schedule List.mem_cons_self) tick) ?_)
    rintro ⟨result, tick⟩ log' ⟨hlog, -⟩
    have hrest := ih (fun schedule hmem dueAt hnext =>
      (hdue schedule (List.mem_cons_of_mem _ hmem) dueAt hnext).mono hlog) tick
    exact Prog.Holds.mono hrest fun _ log'' ⟨hmore, _⟩ => ⟨fun entry hent => hmore entry (hlog entry hent), trivial⟩

/-- **A tick prepares each of its calls.** -/
theorem tick_local (scheduler : DurableScheduler) : scheduler.tick.Holds (recording SchedulerWorld.laws)
    (Prepared scheduler) (fun _ _ => True) [] := by
  have htick : Prepares scheduler scheduler.tick (fun _ _ => True) [] := by
    refine check_local fun r log hlog hcheck => ?_
    cases r with
    | error error => exact holds_pure.mpr ⟨fun entry hent => hent, trivial⟩
    | ok u =>
      refine holds_ask.mpr ⟨fun w now hclk => ?_, ?_⟩
      · rcases hcheck _ hclk with hclk | hclk
        · exact List.not_mem_nil hclk
        · cases hclk
      rintro w now w₁ ⟨hnow, -⟩
      refine holds_ask.mpr ⟨trivial, ?_⟩
      rintro w' r w₂ ⟨rfl, -⟩
      have hclk : (⟨w, .now, now⟩ : SchedulerEntry) ∈ log ++ [⟨w, .now, now⟩] ++ [⟨w', .due now scheduler.batch,
          .ok (w'.schedules.due now scheduler.batch)⟩] := by simp
      refine Prog.holds_bind (Prog.Holds.mono (fireAll_local _ ?_ {}) ?_)
      · intro schedule hmem dueAt hnext
        exact ⟨⟨w, hclk, hnow⟩, ⟨w', scheduler.batch, List.mem_append_right _ (List.mem_singleton_self _), hmem⟩, hnext⟩
      · rintro tick log' ⟨hmore, -⟩
        refine holds_pure.mpr ⟨fun entry hent => hmore entry ?_, trivial⟩
        exact List.mem_append_left _ (List.mem_append_left _ hent)
  exact htick.mono fun _ _ _ => trivial

end Adk
