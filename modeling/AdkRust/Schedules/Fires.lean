import AdkRust.Runs.Index
import AdkRust.Schedules.Scheduler

/-!
# Schedules fire each occurrence once

Any number of schedulers tick over one store of schedules and one store of runs, interleaved in any way, and stop
anywhere. Which occurrences they fire rests on the plans: two plans of one revision are of the same next occurrence,
and a run has the key of its occurrence, so that what another scheduler enqueued is not enqueued again.

* `SchedulerWorld.Later`: what every call of every party keeps.
* `FiresOnce`: what holds of the runs and the schedules.
* `firesOnce_inRange`: **it holds in every run** in which the schedules that are due are planned in 64 bits.
* `not_firesOnce`: it does not hold in every run.
-/

namespace Adk

open ProcPool

/-! ## Schedules over time -/

/-- A schedule at a later time. -/
structure Schedule.Follows (schedule schedule' : Schedule) : Prop where
  id : schedule'.id = schedule.id
  spec : schedule'.spec = schedule.spec
  run : schedule'.run = schedule.run
  missed : schedule'.missed = schedule.missed
  revision : schedule.revision ≤ schedule'.revision
  /-- A change of the next occurrence is a change of the revision. -/
  nextFireAt : schedule'.revision = schedule.revision → schedule'.nextFireAt = schedule.nextFireAt

theorem Schedule.Follows.refl (schedule : Schedule) : schedule.Follows schedule :=
  ⟨rfl, rfl, rfl, rfl, Nat.le_refl _, fun _ => rfl⟩

theorem Schedule.Follows.trans {a b c : Schedule} (h : a.Follows b) (h' : b.Follows c) : a.Follows c where
  id := h'.id.trans h.id
  spec := h'.spec.trans h.spec
  run := h'.run.trans h.run
  missed := h'.missed.trans h.missed
  revision := h.revision.trans h'.revision
  nextFireAt heq := by
    have hab := h.revision
    have hbc := h'.revision
    exact (h'.nextFireAt (by omega)).trans (h.nextFireAt (by omega))

theorem Schedule.Follows.runFor {schedule schedule' : Schedule} (h : schedule.Follows schedule') (t : Utc) :
    schedule'.runFor t = schedule.runFor t := by
  unfold Schedule.runFor
  rw [h.id, h.run]

structure ScheduleTable.Later (table table' : ScheduleTable) : Prop where
  stay : ∀ (id : String) (schedule : Schedule), table[id]? = some schedule →
    ∃ schedule' : Schedule, table'[id]? = some schedule' ∧ schedule.Follows schedule'
  back : ∀ (id : String) (schedule' : Schedule), table'[id]? = some schedule' →
    ∃ schedule : Schedule, table[id]? = some schedule ∧ schedule.Follows schedule'

theorem ScheduleTable.Later.refl (table : ScheduleTable) : table.Later table :=
  ⟨fun _ schedule hget => ⟨schedule, hget, .refl _⟩, fun _ schedule hget => ⟨schedule, hget, .refl _⟩⟩

theorem ScheduleTable.Later.trans {a b c : ScheduleTable} (h : a.Later b) (h' : b.Later c) : a.Later c := by
  constructor
  · intro id schedule hget
    obtain ⟨schedule₁, hget₁, hfol⟩ := h.stay id schedule hget
    obtain ⟨schedule₂, hget₂, hfol'⟩ := h'.stay id schedule₁ hget₁
    exact ⟨schedule₂, hget₂, hfol.trans hfol'⟩
  · intro id schedule hget
    obtain ⟨schedule₁, hget₁, hfol⟩ := h'.back id schedule hget
    obtain ⟨schedule₂, hget₂, hfol'⟩ := h.back id schedule₁ hget₁
    exact ⟨schedule₂, hget₂, hfol'.trans hfol⟩

variable {table : ScheduleTable} {spec : ScheduleSpec} {a b : Utc}

/-- A schedule that is written anew. -/
theorem ScheduleTable.later_insert {id : String} {schedule schedule' : Schedule}
    (hget : table[id]? = some schedule) (hfol : schedule.Follows schedule') :
    table.Later (table.insert id schedule') := by
  constructor
  · intro k old hold
    by_cases hk : id = k
    · subst hk
      obtain rfl := Option.some.inj (hget.symm.trans hold)
      exact ⟨schedule', Std.ExtTreeMap.getElem?_insert_self, hfol⟩
    · refine ⟨old, ?_, .refl _⟩
      rw [Std.ExtTreeMap.getElem?_insert]
      simp [hk, hold]
  · intro k new hnew
    rw [Std.ExtTreeMap.getElem?_insert] at hnew
    by_cases hk : id = k
    · subst hk
      simp only [Std.compare_self, if_true] at hnew
      obtain rfl := Option.some.inj hnew
      exact ⟨schedule, hget, hfol⟩
    · simp [hk] at hnew
      exact ⟨new, hnew, .refl _⟩

/-- **What an advance does**: it moves a schedule that still has the revision. -/
theorem ScheduleTable.advance_cases {table' : ScheduleTable} {id : String} {revision : Nat}
    {next : Option Utc} {result : Except AdkError Bool} (h : table.advance id revision next = (result, table')) :
    table' = table ∧ result ≠ .ok true ∨ ∃ schedule : Schedule, table[id]? = some schedule ∧
      schedule.revision = revision ∧ result = .ok true ∧
      table' = table.insert id { schedule with nextFireAt := next, revision := schedule.revision + 1 } := by
  unfold advance at h
  cases hget : table[id]? with
  | none =>
    rw [hget] at h
    obtain ⟨rfl, rfl⟩ := Prod.mk.inj h
    exact .inl ⟨rfl, fun h => by cases h⟩
  | some schedule =>
    simp only [hget] at h
    split at h
    next =>
      obtain ⟨rfl, rfl⟩ := Prod.mk.inj h
      exact .inl ⟨rfl, fun h => by cases h⟩
    next hrevision =>
      obtain ⟨rfl, rfl⟩ := Prod.mk.inj h
      exact .inr ⟨schedule, rfl, Decidable.not_not.mp hrevision, rfl, rfl⟩

theorem ScheduleTable.setPaused_cases {table' : ScheduleTable} {id : String} {paused : Bool}
    {result : Except AdkError Schedule} (h : table.setPaused id paused = (result, table')) :
    table' = table ∨ ∃ schedule schedule' : Schedule, table[id]? = some schedule ∧ schedule.Follows schedule' ∧
      schedule'.nextFireAt = schedule.nextFireAt ∧ table' = table.insert id schedule' := by
  unfold setPaused at h
  cases hget : table[id]? with
  | none =>
    rw [hget] at h
    exact .inl (Prod.mk.inj h).2.symm
  | some schedule =>
    simp only [hget] at h
    refine .inr ⟨schedule, _, rfl, ?_, ?_, (Prod.mk.inj h).2.symm⟩
    · split
      · exact ⟨rfl, rfl, rfl, rfl, Nat.le_succ _, fun _ => rfl⟩
      · exact .refl _
    · split <;> rfl

/-! ## What every call keeps -/

/-- The stores at a later time. -/
structure SchedulerWorld.Later (w w' : SchedulerWorld) : Prop where
  schedules : w.schedules.Later w'.schedules
  runs : w.runs.Indexed → w'.runs.Indexed ∧ w.runs.Kept w'.runs

namespace SchedulerWorld

theorem Later.refl (w : SchedulerWorld) : w.Later w := ⟨.refl _, fun h => ⟨h, .refl _⟩⟩

theorem Later.trans (w₁ w₂ w₃ : SchedulerWorld) (h : w₁.Later w₂) (h' : w₂.Later w₃) : w₁.Later w₃ := by
  refine ⟨h.schedules.trans h'.schedules, fun hidx => ?_⟩
  obtain ⟨hidx, hkept⟩ := h.runs hidx
  obtain ⟨hidx, hkept'⟩ := h'.runs hidx
  exact ⟨hidx, hkept.trans hkept'⟩

variable {w w' : SchedulerWorld}

theorem later_of_runs (hsched : w'.schedules = w.schedules)
    (hruns : w.runs.Indexed → w'.runs.Indexed ∧ w.runs.Kept w'.runs) : w.Later w' :=
  ⟨hsched ▸ .refl _, hruns⟩

theorem later_of_schedules (hruns : w'.runs = w.runs) (hsched : w.schedules.Later w'.schedules) : w.Later w' := by
  refine ⟨hsched, fun h => ?_⟩
  rw [hruns]
  exact ⟨h, .refl _⟩

theorem later_setPaused {id : String} {paused : Bool} {result : Except AdkError Schedule}
    (h : w.schedules.setPaused id paused = (result, w'.schedules)) (hruns : w'.runs = w.runs) : w.Later w' := by
  apply later_of_schedules hruns
  rcases ScheduleTable.setPaused_cases h with heq | ⟨schedule, schedule', hget, hfol, -, heq⟩
  · exact heq ▸ .refl _
  · exact heq ▸ ScheduleTable.later_insert hget hfol

theorem answers_later {op : SchedulerOp} {r : op.Ret} (h : laws.answers op w r w') :
    w.Later w' := by
  cases op with
  | check =>
    obtain rfl : w' = w := h
    exact .refl _
  | now | due now limit =>
    obtain ⟨-, rfl⟩ := h
    exact .refl _
  | enqueue run =>
    obtain ⟨now, runId, hfr, hr, hsched⟩ := h
    refine later_of_runs hsched fun hidx => ?_
    have heff := (RunTable.enqueue_effect hidx.keyed hr).indexed hidx (fun _ h => by cases h)
      fun id run heq => by cases heq; exact hfr
    exact ⟨heff.1, heff.2.1⟩
  | advance id revision next =>
    obtain ⟨hr, hruns⟩ := h
    apply later_of_schedules hruns
    rcases ScheduleTable.advance_cases hr with ⟨heq, -⟩ | ⟨schedule, hget, -, -, heq⟩
    · exact heq ▸ .refl _
    · rw [heq]
      apply ScheduleTable.later_insert hget
      exact ⟨rfl, rfl, rfl, rfl, Nat.le_succ _, fun hrevision => absurd hrevision (Nat.succ_ne_self _)⟩
  | setPaused id paused => exact later_setPaused h.1 h.2

theorem others_effect {table table' : RunTable} {now : Utc} {call : RunCall} {answer : RunAnswer}
    (hoths : table.Others call) (hidx : table.Indexed) (h : table.call now call = (answer, table')) :
    table'.Indexed ∧ table.Kept table' ∧ ∀ (id : String) (entry' : RunEntry) (name : String) (t : Utc),
      table'.runs[id]? = some entry' → entry'.record.idempotencyKey = some (firingIdempotencyKey name t) →
      ∃ entry : RunEntry, table.runs[id]? = some entry ∧ entry.record.SameRun entry'.record := by
  obtain ⟨hidx', hkept, hback⟩ := (RunTable.call_effect hidx.keyed h).indexed hidx
    (fun before heq => by subst heq; exact hoths) fun runId run heq => by subst heq; exact hoths.1
  refine ⟨hidx', hkept, fun id entry' name t hget hkey => ?_⟩
  rcases hback id entry' hget with hold | ⟨run, rfl, -, hrcd⟩
  · exact hold
  · rw [hrcd] at hkey
    exact absurd hkey (hoths.2 name t)

theorem moves_later (h : laws.moves w w') : w.Later w' := by
  rcases h with ⟨now, call, answer, hoths, hcall, hsched⟩ | ⟨id, paused, result, hpaused, hruns⟩
  · refine later_of_runs hsched fun hidx => ?_
    obtain ⟨hidx', hkept, -⟩ := others_effect hoths hidx hcall
    exact ⟨hidx', hkept⟩
  · exact later_setPaused hpaused hruns

end SchedulerWorld

/-! ## Occurrences -/

def ScheduleSpec.Moved (spec : ScheduleSpec) (next next' : Option Utc) : Prop :=
  ∀ t', next' = some t' → ∃ t, next = some t ∧ spec.From t t'

theorem ScheduleSpec.from_refl (h : spec.isCron = false) (t : Utc) : spec.From t t := by
  cases spec with
  | cron expr timezone => cases h
  | at_ instant => rfl
  | every interval =>
    refine ⟨0, ?_⟩
    rw [Int.natCast_zero, Int.zero_mul, Int.add_zero]

theorem ScheduleSpec.From.trans {c : Utc} (h : spec.From a b) (h' : spec.From b c) :
    spec.From a c := by
  cases spec with
  | cron expr timezone => cases h
  | at_ instant => exact Eq.trans h' h
  | every interval =>
    obtain ⟨j, rfl⟩ := h
    obtain ⟨k, rfl⟩ := h'
    refine ⟨j + k, ?_⟩
    rw [Int.natCast_add, Int.add_mul, Int.add_assoc]

theorem ScheduleSpec.From.le (h : spec.From a b) : a ≤ b := by
  cases spec with
  | cron expr timezone => cases h
  | at_ instant => exact Int.le_of_eq h.symm
  | every interval =>
    obtain ⟨k, rfl⟩ := h
    apply Int.le_add_of_nonneg_right
    exact Int.mul_nonneg (Int.natCast_nonneg k) (Int.natCast_nonneg interval)

/-- The latest occurrence counted from a later one. -/
theorem ScheduleSpec.Latest.from {now t : Utc} (h : spec.From a b)
    (hltst : spec.Latest b now t) : spec.Latest a now t := by
  obtain ⟨hfrom, hle, hlast⟩ := hltst
  refine ⟨h.trans hfrom, hle, fun u hu hnow => ?_⟩
  cases spec with
  | cron expr timezone => cases h
  | at_ instant =>
    obtain rfl : b = a := h
    exact hlast u hu hnow
  | every interval =>
    obtain ⟨j, rfl⟩ := h
    obtain ⟨k, rfl⟩ := hu
    -- an occurrence before the later one is before every occurrence from there
    rcases Nat.le_total j k with hjk | hkj
    · obtain ⟨m, rfl⟩ := Nat.exists_eq_add_of_le hjk
      refine hlast _ ⟨m, ?_⟩ hnow
      rw [Int.natCast_add, Int.add_mul, Int.add_assoc]
    · have hmul : (k : Int) * interval ≤ j * interval :=
        Int.mul_le_mul_of_nonneg_right (Int.ofNat_le.mpr hkj) (Int.natCast_nonneg interval)
      have hfst := hfrom.le
      exact Int.le_trans (Int.add_le_add_left hmul a) hfst

theorem ScheduleSpec.Moved.refl (h : spec.isCron = false) (next : Option Utc) :
    spec.Moved next next := fun t ht => ⟨t, ht, spec.from_refl h t⟩

theorem ScheduleSpec.Moved.trans {a b c : Option Utc} (h : spec.Moved a b) (h' : spec.Moved b c) : spec.Moved a c := by
  intro t'' ht''
  obtain ⟨t', ht', hfrom'⟩ := h' t'' ht''
  obtain ⟨t, ht, hfrom⟩ := h t' ht'
  exact ⟨t, ht, hfrom.trans hfrom'⟩

/-- Schedules as they are given: each under its identifier, at one instant or again and again. -/
structure Given (given : ScheduleTable) : Prop where
  id : ∀ (id : String) (schedule : Schedule), given[id]? = some schedule → schedule.id = id
  spec : ∀ (id : String) (schedule : Schedule), given[id]? = some schedule → schedule.spec.isCron = false
  /-- What is to happen once is next when it is to happen. -/
  once : ∀ (id : String) (schedule : Schedule), given[id]? = some schedule → ∀ instant t,
    schedule.spec = .at_ instant → schedule.nextFireAt = some t → t = instant

def Schedule.Occurs (first : Schedule) (t : Utc) : Prop :=
  match first.spec with
  | .at_ instant => t = instant ∧ first.nextFireAt.isSome
  | _ => ∃ dueAt, first.nextFireAt = some dueAt ∧ first.spec.From dueAt t

theorem Given.occurs {given : ScheduleTable} {id : String} {first : Schedule} {next : Option Utc} {t t' : Utc}
    (h : Given given) (hget : given[id]? = some first) (hmvd : first.spec.Moved first.nextFireAt next)
    (hnext : next = some t) (hfrom : first.spec.From t t') : first.Occurs t' := by
  obtain ⟨dueAt, hdue, hfst⟩ := hmvd t hnext
  have hfrom' := hfst.trans hfrom
  unfold Schedule.Occurs
  cases hspec : first.spec with
  | at_ instant =>
    rw [hspec] at hfrom'
    refine ⟨(show t' = dueAt from hfrom').trans (h.once id first hget instant dueAt hspec hdue), ?_⟩
    rw [hdue]
    rfl
  | cron expr timezone | every interval =>
    rw [hspec] at hfrom'
    exact ⟨dueAt, hdue, hfrom'⟩

/-! ## The property -/

def SchedulerWorld.RunOf (w : SchedulerWorld) (first : Schedule) (t : Utc) (runId : String) : Prop :=
  w.runs.HasRun first.run.queue (firingIdempotencyKey first.id t) runId

def ReadClock (proc : SchedulerProc) (now : Utc) : Prop := ∃ w, (⟨w, .now, now⟩ : SchedulerEntry) ∈ proc.log

/-- **Schedules fire each occurrence at most once and lose none.** -/
structure FiresOnce (given : ScheduleTable) (s : SchedulerPool) : Prop where
  /-- An occurrence has one run. -/
  once : ∀ (first : Schedule) (t : Utc) (a b : String), s.world.RunOf first t a → s.world.RunOf first t b → a = b
  /-- A run is of one occurrence. -/
  apart : ∀ (first first' : Schedule) (t t' : Utc) (runId : String), s.world.RunOf first t runId →
    s.world.RunOf first' t' runId → first.id = first'.id ∧ t = t'
  created : ∀ (id : String) (entry : RunEntry) (name : String) (t : Utc), s.world.runs.runs[id]? = some entry →
    entry.record.idempotencyKey = some (firingIdempotencyKey name t) → ∃ (i : Nat) (proc : SchedulerProc),
      s.procs[i]? = some proc ∧ ∃ w run record, (⟨w, .enqueue run, .ok (.created record)⟩ : SchedulerEntry) ∈ proc.log ∧
        record.runId = id
  due : ∀ (i : Nat) (proc : SchedulerProc), s.procs[i]? = some proc → ∀ w run record,
    (⟨w, .enqueue run, .ok (.created record)⟩ : SchedulerEntry) ∈ proc.log →
      ∃ (id : String) (first : Schedule) (t now : Utc),
      given[id]? = some first ∧ run = first.runFor t ∧ s.world.RunOf first t record.runId ∧ first.Occurs t ∧
        ReadClock proc now ∧ t ≤ now
  clock : ∀ (i : Nat) (proc : SchedulerProc), s.procs[i]? = some proc → ∀ now now', ReadClock proc now →
    ReadClock proc now' → now = now'
  next : ∀ (id : String) (schedule : Schedule) (t : Utc), s.world.schedules[id]? = some schedule →
    schedule.nextFireAt = some t → ∃ first : Schedule, given[id]? = some first ∧ first.Occurs t
  /-- A scheduler that advanced a schedule leaves no latest occurrence behind. -/
  caughtUp : ∀ (i : Nat) (proc : SchedulerProc), s.procs[i]? = some proc → ∀ w id revision next,
    (⟨w, .advance id revision next, .ok true⟩ : SchedulerEntry) ∈ proc.log →
      ∃ (first : Schedule) (dueAt now t : Utc),
      given[id]? = some first ∧ first.nextFireAt = some dueAt ∧ ReadClock proc now ∧
        first.spec.Latest dueAt now t ∧ ((∃ runId, s.world.RunOf first t runId) ∨
          Late first.missed proc.call.grace now t ∨
          ∃ w' blocking, (⟨w', .enqueue (first.runFor t), .ok (.rejected blocking)⟩ : SchedulerEntry) ∈ proc.log)

/-- What is next never moves backwards. -/
def SchedulerWorld.Forward (w w' : SchedulerWorld) : Prop :=
  ∀ (id : String) (schedule schedule' : Schedule), w.schedules[id]? = some schedule →
    w'.schedules[id]? = some schedule' → ∀ t', schedule'.nextFireAt = some t' →
      ∃ t, schedule.nextFireAt = some t ∧ t ≤ t'

/-- Schedules that are due are planned in 64 bits. -/
def InRange (s : SchedulerPool) (_ : Nat) : SchedulerOp → Prop
  | .due now limit => ∀ schedule ∈ s.world.schedules.due now limit, ∀ dueAt, schedule.nextFireAt = some dueAt →
      schedule.spec.Fits dueAt now
  | _ => True

def idle (given : ScheduleTable) : SchedulerPool := { world := { schedules := given } }

section Schedulers

variable [CronSchedules] {given : ScheduleTable} {s s' : SchedulerPool} {i : Nat} {proc : SchedulerProc}
  {acts : SchedulerPool → Nat → SchedulerOp → Prop}

/-! ## What is known of every log -/

theorem reaches_later (h : Reaches (schedulerSystem acts) s s') : s.world.Later s'.world :=
  h.later SchedulerWorld.Later.refl SchedulerWorld.Later.trans (fun _ _ _ _ => SchedulerWorld.answers_later)
    fun _ _ => SchedulerWorld.moves_later

theorem reaches_past (h : Reaches (schedulerSystem acts) (idle given) s) (hproc : s.procs[i]? = some proc) :
    Past SchedulerWorld.laws SchedulerWorld.Later proc.log s.world :=
  h.past rfl SchedulerWorld.Later.refl SchedulerWorld.Later.trans (fun _ _ _ _ => SchedulerWorld.answers_later)
    (fun _ _ => SchedulerWorld.moves_later) i proc hproc

theorem reaches_indexed (h : Reaches (schedulerSystem acts) (idle given) s) : s.world.runs.Indexed :=
  ((reaches_later h).runs RunTable.indexed_empty).1

theorem prepared {op : SchedulerOp} {rest : op.Ret → DurableScheduler.TickProg (Except AdkError SchedulerTick)}
    (h : Reaches (schedulerSystem acts) (idle given) s) (hproc : s.procs[i]? = some proc)
    (hrest : proc.rest = .ask op rest) : Prepared proc.call op proc.log := by
  have hkeeps : Keeps SchedulerWorld.laws Prepared (fun _ _ _ => True) proc := h.local rfl tick_local i proc hproc
  exact hkeeps.performs hrest

variable {now : Utc} {schedule : Schedule} {w : SchedulerWorld}

omit [CronSchedules] in
theorem mem_due {table : ScheduleTable} {limit : Nat}
    (h : schedule ∈ table.due now limit) : (∃ id : String, table[id]? = some schedule) ∧
      ∀ dueAt, schedule.nextFireAt = some dueAt → dueAt ≤ now := by
  have hmem := (List.perm_insertionSort _ _).mem_iff.mp (List.mem_of_mem_take h)
  obtain ⟨hvals, hdue⟩ := List.mem_filter.mp hmem
  refine ⟨Dict.mem_vals.mp hvals, fun dueAt hnext => ?_⟩
  simp only [ScheduleTable.isDue, hnext, Option.any_some, Bool.and_eq_true, decide_eq_true_eq] at hdue
  exact hdue.2

omit [CronSchedules] in
/-- A schedule is still under its identifier, and fires as it did. -/
theorem Given.stays {id : String} (hgiv : Given given)
    (hlat : (idle given).world.Later w) (hget : w.schedules[id]? = some schedule) :
    ∃ first : Schedule, given[id]? = some first ∧ first.Follows schedule ∧ schedule.id = id ∧
      schedule.spec.isCron = false := by
  obtain ⟨first, hfst, hfol⟩ := hlat.schedules.back id schedule hget
  refine ⟨first, hfst, hfol, hfol.id.trans (hgiv.id id first hfst), ?_⟩
  rw [hfol.spec]
  exact hgiv.spec id first hfst

theorem entry_inRange (h : Reaches (schedulerSystem InRange) (idle given) s) (hproc : s.procs[i]? = some proc)
    {entry : SchedulerEntry} (hent : entry ∈ proc.log) : (idle given).world.Later entry.world ∧
      ∀ now limit, entry.op = .due now limit → ∀ schedule ∈ entry.world.schedules.due now limit, ∀ dueAt,
        schedule.nextFireAt = some dueAt → schedule.spec.Fits dueAt now := by
  obtain ⟨before, later, hlog⟩ := List.append_of_mem hent
  refine h.entries (P := fun _ _ entry => (idle given).world.Later entry.world ∧
    ∀ now limit, entry.op = .due now limit → ∀ schedule ∈ entry.world.schedules.due now limit, ∀ dueAt,
      schedule.nextFireAt = some dueAt → schedule.spec.Fits dueAt now) rfl ?_ i proc hproc before entry later hlog
  intro s i proc op rest r w hrea _ _ hacts _
  refine ⟨reaches_later hrea, fun now limit hop => ?_⟩
  obtain rfl : op = .due now limit := hop
  exact hacts

/-- **What a scheduler plans**: a schedule as it was due, which the schedule now follows, and a plan of its
occurrences with the latest one. -/
theorem planned {dueAt : Utc} {grace : Duration} {plan : FirePlan}
    (h : Reaches (schedulerSystem InRange) (idle given) s) (hgiv : Given given) (hproc : s.procs[i]? = some proc)
    (hdue : WasDue schedule dueAt now proc.log)
    (hplan : planFires schedule.spec schedule.missed dueAt now grace = .ok plan) :
    ∃ first current : Schedule, given[schedule.id]? = some first ∧ first.Follows schedule ∧
      s.world.schedules[schedule.id]? = some current ∧ schedule.Follows current ∧
      plan.Plans schedule.spec dueAt now ∧ ReadClock proc now ∧
      ∃ t, schedule.spec.Latest dueAt now t ∧ (t ∈ plan.fireTimes ∨ Late schedule.missed grace now t) := by
  obtain ⟨⟨wc, hclk, hnow⟩, ⟨w, limit, hent, hmem⟩, hnext⟩ := hdue
  obtain ⟨hlat, hfits⟩ := entry_inRange h hproc hent
  obtain ⟨⟨id, hget⟩, hle⟩ := mem_due hmem
  obtain ⟨first, hfst, hfol, rfl, hspec⟩ := hgiv.stays hlat hget
  obtain ⟨w', ⟨-, rfl⟩, hnowLater⟩ := (reaches_past h hproc).here _ hent
  obtain ⟨current, hcurrent, hfol'⟩ := hnowLater.schedules.stay _ _ hget
  obtain ⟨hplans, ht⟩ := planFires_spec (hle dueAt hnext) hnow (hfits now limit rfl schedule hmem dueAt hnext) hspec hplan
  exact ⟨first, current, hfst, hfol, hcurrent, hfol', hplans, ⟨wc, hclk⟩, ht⟩

/-! ## What is next -/

theorem step_moved (h : Reaches (schedulerSystem InRange) (idle given) s) (hgiv : Given given)
    (hstep : Step (schedulerSystem InRange) s s') (id : String) (schedule schedule' : Schedule)
    (hget : s.world.schedules[id]? = some schedule) (hget' : s'.world.schedules[id]? = some schedule') :
    schedule.spec.Moved schedule.nextFireAt schedule'.nextFireAt := by
  obtain ⟨-, -, -, hid, hspec⟩ := hgiv.stays (reaches_later h) hget
  have hsame : s'.world.schedules = s.world.schedules → schedule.spec.Moved schedule.nextFireAt schedule'.nextFireAt := by
    intro heq
    rw [heq, hget] at hget'
    obtain rfl := Option.some.inj hget'
    exact .refl hspec _
  have hpaused : ∀ (name : String) (paused : Bool) (result : Except AdkError Schedule),
      s.world.schedules.setPaused name paused = (result, s'.world.schedules) →
      schedule.spec.Moved schedule.nextFireAt schedule'.nextFireAt := by
    intro name paused result hr
    rcases ScheduleTable.setPaused_cases hr with heq | ⟨old, new, hold, -, hnext, heq⟩
    · exact hsame heq
    · rw [heq, Std.ExtTreeMap.getElem?_insert] at hget'
      by_cases hname : name = id
      · subst hname
        simp only [Std.compare_self, if_true] at hget'
        obtain rfl := Option.some.inj hget'
        obtain rfl := Option.some.inj (hget.symm.trans hold)
        exact hnext ▸ .refl hspec _
      · rw [if_neg (by simp [hname]), hget] at hget'
        obtain rfl := Option.some.inj hget'
        exact .refl hspec _
  cases hstep with
  | start _ => exact hsame rfl
  | stop _ => exact hsame rfl
  | move hmove =>
    rcases hmove with ⟨_, _, _, -, -, hsched⟩ | ⟨name, paused, result, hr, -⟩
    · exact hsame hsched
    · exact hpaused name paused result hr
  | @act i proc op rest r w hproc hlive hrest hacts hr =>
    cases op with
    | check => exact hsame (congrArg SchedulerWorld.schedules (show w = s.world from hr))
    | now | due now limit => exact hsame (congrArg SchedulerWorld.schedules hr.2)
    | enqueue run =>
      obtain ⟨-, -, -, -, hsched⟩ := hr
      exact hsame hsched
    | setPaused name paused => exact hpaused name paused r hr.1
    | advance name revision next =>
      rcases ScheduleTable.advance_cases hr.1 with ⟨heq, -⟩ | ⟨old, hold, hrevision, -, heq⟩
      · exact hsame heq
      · by_cases hname : name = id
        · subst hname
          obtain rfl := Option.some.inj (hget.symm.trans hold)
          obtain ⟨planning, dueAt, now, plan, hdue, hplan, -, rfl, rfl, rfl⟩ := prepared h hproc hrest
          obtain ⟨-, current, -, -, hcurrent, hfol, hplans, -⟩ := planned h hgiv hproc hdue hplan
          obtain rfl := Option.some.inj (hget.symm.trans hcurrent)
          have hget' : (s.world.schedules.insert planning.id _)[planning.id]? = some schedule' := heq ▸ hget'
          rw [Std.ExtTreeMap.getElem?_insert_self] at hget'
          obtain rfl := Option.some.inj hget'
          -- the revision is the one that was planned, and so is what was next
          intro t' ht'
          refine ⟨dueAt, (hfol.nextFireAt hrevision).trans hdue.nextFireAt, ?_⟩
          rw [hfol.spec]
          exact (hplans.next t' ht').1
        · have hoth : w.schedules[id]? = s.world.schedules[id]? := by
            rw [heq, Std.ExtTreeMap.getElem?_insert]
            simp [hname]
          obtain rfl := Option.some.inj (hget'.symm.trans (hoth.trans hget))
          exact .refl hspec _

/-- **What is next moves from an occurrence to one**, in every run. -/
theorem reaches_moved (h : Reaches (schedulerSystem InRange) (idle given) s) (hgiv : Given given)
    (h' : Reaches (schedulerSystem InRange) s s') (id : String) (schedule schedule' : Schedule)
    (hget : s.world.schedules[id]? = some schedule) (hget' : s'.world.schedules[id]? = some schedule') :
    schedule.spec.Moved schedule.nextFireAt schedule'.nextFireAt := by
  induction h' generalizing schedule' with
  | refl =>
    obtain rfl := Option.some.inj (hget.symm.trans hget')
    obtain ⟨-, -, -, -, hspec⟩ := hgiv.stays (reaches_later h) hget
    exact .refl hspec _
  | tail hmid hstep ih =>
    obtain ⟨middle, hmiddle, hfol⟩ := (reaches_later hmid).schedules.stay id schedule hget
    have hlast := step_moved (h.trans hmid) hgiv hstep id middle schedule' hmiddle hget'
    rw [hfol.spec] at hlast
    exact (ih middle hmiddle).trans hlast

theorem due_of_given {dueAt : Utc}
    (h : Reaches (schedulerSystem InRange) (idle given) s) (hgiv : Given given) (hproc : s.procs[i]? = some proc)
    (hdue : WasDue schedule dueAt now proc.log) {first : Schedule} (hfst : given[schedule.id]? = some first) :
    first.spec.Moved first.nextFireAt (some dueAt) := by
  obtain ⟨-, ⟨w, limit, hent, hmem⟩, hnext⟩ := hdue
  obtain ⟨before, later, hlog⟩ := List.append_of_mem hent
  have hmvd := h.entries (P := fun _ _ entry => ∀ (id : String) (schedule : Schedule),
    given[id]? = some first → entry.world.schedules[id]? = some schedule →
      first.spec.Moved first.nextFireAt schedule.nextFireAt) rfl
    (fun s i proc op rest r w hrea _ _ _ _ id schedule hfst hget =>
      reaches_moved .refl hgiv hrea id first schedule hfst hget) i proc hproc before _ later hlog
  obtain ⟨⟨id, hget⟩, -⟩ := mem_due hmem
  obtain ⟨-, -, -, rfl, -⟩ := hgiv.stays (entry_inRange h hproc hent).1 hget
  exact hnext ▸ hmvd _ schedule hfst hget

theorem entry_prepared (h : Reaches (schedulerSystem acts) (idle given) s) (hproc : s.procs[i]? = some proc)
    {entry : SchedulerEntry} {before later : List SchedulerEntry} (hlog : proc.log = before ++ entry :: later) :
    Prepared proc.call entry.op before :=
  h.entries (P := fun call before entry => Prepared call entry.op before) rfl
    (fun _ _ _ _ _ _ _ hrea hproc hrest _ _ => prepared hrea hproc hrest) i proc hproc before entry later hlog

/-! ## Runs -/

omit [CronSchedules] in

omit [CronSchedules] in
theorem runFor_key (schedule : Schedule) (t : Utc) :
    (schedule.runFor t).idempotencyKey = some (firingIdempotencyKey schedule.id t) := rfl

theorem runOf_enqueued {first : Schedule} {t : Utc} {enqueued : Enqueued}
    (h : Reaches (schedulerSystem InRange) (idle given) s) (hproc : s.procs[i]? = some proc)
    (hent : (⟨w, .enqueue (first.runFor t), .ok enqueued⟩ : SchedulerEntry) ∈ proc.log) :
    (∀ record, enqueued = .created record → s.world.RunOf first t record.runId) ∧
      ((∀ blocking, enqueued ≠ .rejected blocking) → ∃ runId, s.world.RunOf first t runId) := by
  obtain ⟨w', hr, hlat⟩ := (reaches_past h hproc).here _ hent
  have hidx := ((entry_inRange h hproc hent).1.runs RunTable.indexed_empty).1
  have hkept := (hlat.runs ((SchedulerWorld.answers_later hr).runs hidx).1).2
  obtain ⟨now, runId, -, hr, -⟩ := hr
  constructor
  · rintro record rfl
    exact ((RunTable.created_run hr (runFor_key first t)).2).kept hkept
  · intro hrej
    obtain ⟨id, hrun⟩ := RunTable.enqueue_hasRun hidx (runFor_key first t) hrej hr
    exact ⟨id, hrun.kept hkept⟩

def CreatedBy (s : SchedulerPool) (id : String) : Prop :=
  ∃ (i : Nat) (proc : SchedulerProc), s.procs[i]? = some proc ∧ ∃ w run record,
    (⟨w, .enqueue run, .ok (.created record)⟩ : SchedulerEntry) ∈ proc.log ∧ record.runId = id

theorem CreatedBy.step {id : String} (h : CreatedBy s id) (hstep : Step (schedulerSystem acts) s s') :
    CreatedBy s' id := by
  obtain ⟨i, proc, hproc, w, run, record, hent, hid⟩ := h
  obtain ⟨proc', hproc', -, hlog⟩ := hstep.grows hproc
  exact ⟨i, proc', hproc', w, run, record, hlog _ hent, hid⟩

/-- **A run of a schedule was created by a scheduler.** -/
theorem reaches_created (h : Reaches (schedulerSystem acts) (idle given) s) (id : String) (entry : RunEntry)
    (name : String) (t : Utc) (hget : s.world.runs.runs[id]? = some entry)
    (hkey : entry.record.idempotencyKey = some (firingIdempotencyKey name t)) : CreatedBy s id := by
  induction h generalizing entry with
  | refl => simp [idle] at hget
  | @tail s s' hrea hstep ih =>
    have hidx := reaches_indexed hrea
    have hold : (∃ old : RunEntry, s.world.runs.runs[id]? = some old ∧ old.record.SameRun entry.record) →
        CreatedBy s' id := by
      rintro ⟨old, hget, hsame⟩
      exact (ih old hget (hsame.idempotencyKey.symm.trans hkey)).step hstep
    have hsame : s'.world.runs = s.world.runs → CreatedBy s' id := fun heq =>
      hold ⟨entry, heq ▸ hget, .refl _⟩
    cases hstep with
    | start _ => exact hsame rfl
    | stop _ => exact hsame rfl
    | move hmove =>
      rcases hmove with ⟨_, _, _, hoths, hcall, -⟩ | ⟨_, _, _, -, hruns⟩
      · obtain ⟨-, -, hback⟩ := SchedulerWorld.others_effect hoths hidx hcall
        exact hold (hback id entry name t hget hkey)
      · exact hsame hruns
    | @act i proc op rest r w hproc hlive hrest hacts hr =>
      cases op with
      | check => exact hsame (congrArg SchedulerWorld.runs (show w = s.world from hr))
      | now | due now limit => exact hsame (congrArg SchedulerWorld.runs hr.2)
      | advance name revision next => exact hsame hr.2
      | setPaused name paused => exact hsame hr.2
      | enqueue run =>
        obtain ⟨now, runId, hfr, hr, -⟩ := hr
        obtain ⟨-, -, hback⟩ := (RunTable.enqueue_effect hidx.keyed hr).indexed hidx (fun _ h => by cases h)
          fun id run heq => by cases heq; exact hfr
        rcases hback id entry hget with hback | ⟨run', hcall, hans, -⟩
        · exact hold hback
        · obtain ⟨rfl, rfl⟩ := RunCall.enqueue.inj hcall
          obtain rfl := RunAnswer.enqueued.inj hans
          have hself := List.getElem?_set_self (a := proc.after s.world (.enqueue run)
            (.ok (.created (.queued runId run now))) (rest (.ok (.created (.queued runId run now)))))
            (List.getElem?_eq_some_iff.mp hproc).1
          exact ⟨i, _, hself, s.world, run, _, List.mem_append_right _ (List.mem_singleton_self _), rfl⟩

/-! ## The result -/

theorem reads_once (h : Reaches (schedulerSystem acts) (idle given) s) (hproc : s.procs[i]? = some proc)
    {now' : Utc} (hnow : ReadClock proc now) (hnow' : ReadClock proc now') : now = now' := by
  obtain ⟨w, hent⟩ := hnow
  obtain ⟨w', hent'⟩ := hnow'
  obtain ⟨before, later, hlog⟩ := List.append_of_mem hent
  rw [hlog] at hent'
  rcases List.mem_append.mp hent' with hbef | haft
  · have hnone : ∀ w now, (⟨w, .now, now⟩ : SchedulerEntry) ∉ before := entry_prepared h hproc hlog
    exact absurd hbef (hnone w' now')
  · rcases List.mem_cons.mp haft with heq | haft
    · cases heq
      rfl
    · obtain ⟨middle, rest, rfl⟩ := List.append_of_mem haft
      rw [← List.cons_append, ← List.append_assoc] at hlog
      have hnone : Prepared proc.call .now (before ++ ⟨w, .now, now⟩ :: middle) := entry_prepared h hproc hlog
      exact absurd (List.mem_append_right _ List.mem_cons_self) (hnone w now)

theorem created_due (h : Reaches (schedulerSystem InRange) (idle given) s) (hgiv : Given given)
    (hproc : s.procs[i]? = some proc) {run : NewRun} {record : RunRecord}
    (hent : (⟨w, .enqueue run, .ok (.created record)⟩ : SchedulerEntry) ∈ proc.log) :
    ∃ (id : String) (first : Schedule) (t now : Utc), given[id]? = some first ∧ run = first.runFor t ∧
      s.world.RunOf first t record.runId ∧ first.Occurs t ∧ ReadClock proc now ∧ t ≤ now := by
  obtain ⟨before, later, hlog⟩ := List.append_of_mem hent
  have hprep : Prepared proc.call (.enqueue run) before := entry_prepared h hproc hlog
  obtain ⟨schedule, dueAt, now, plan, t, hdue, hplan, ht, rfl⟩ := hprep
  have hdue := hdue.mono fun entry hent => hlog ▸ List.mem_append_left _ hent
  obtain ⟨first, -, hfst, hfol, -, -, hplans, hclk, -⟩ := planned h hgiv hproc hdue hplan
  obtain ⟨hfrom, hle⟩ := hplans.due t ht
  rw [hfol.spec] at hfrom
  rw [hfol.runFor t] at hent
  exact ⟨schedule.id, first, t, now, hfst, hfol.runFor t, (runOf_enqueued h hproc hent).1 record rfl,
    hgiv.occurs hfst (due_of_given h hgiv hproc hdue hfst) rfl hfrom, hclk, hle⟩

theorem advanced_caughtUp (h : Reaches (schedulerSystem InRange) (idle given) s) (hgiv : Given given)
    (hproc : s.procs[i]? = some proc) {id : String} {revision : Nat} {next : Option Utc}
    (hent : (⟨w, .advance id revision next, .ok true⟩ : SchedulerEntry) ∈ proc.log) :
    ∃ (first : Schedule) (dueAt now t : Utc), given[id]? = some first ∧ first.nextFireAt = some dueAt ∧
      ReadClock proc now ∧ first.spec.Latest dueAt now t ∧ ((∃ runId, s.world.RunOf first t runId) ∨
        Late first.missed proc.call.grace now t ∨
        ∃ w' blocking, (⟨w', .enqueue (first.runFor t), .ok (.rejected blocking)⟩ : SchedulerEntry) ∈ proc.log) := by
  obtain ⟨before, later, hlog⟩ := List.append_of_mem hent
  have hprep : Prepared proc.call (.advance id revision next) before := entry_prepared h hproc hlog
  obtain ⟨schedule, dueAt, now, plan, hdue, hplan, henq, rfl, -, -⟩ := hprep
  have hmore : ∀ entry ∈ before, entry ∈ proc.log := fun entry hent => hlog ▸ List.mem_append_left _ hent
  have hdue := hdue.mono hmore
  obtain ⟨first, -, hfst, hfol, -, -, -, hclk, t, hltst, ht⟩ := planned h hgiv hproc hdue hplan
  rw [hfol.spec] at hltst
  rw [hfol.missed] at ht
  obtain ⟨dueAt₀, hdue₀, hfrom⟩ := due_of_given h hgiv hproc hdue hfst dueAt rfl
  refine ⟨first, dueAt₀, now, t, hfst, hdue₀, hclk, hltst.from hfrom, ?_⟩
  rcases ht with ht | hlate
  · obtain ⟨w', enqueued, hmem⟩ := henq t ht
    have hmem := hmore _ hmem
    rw [hfol.runFor t] at hmem
    by_cases hrej : ∃ blocking, enqueued = .rejected blocking
    · obtain ⟨blocking, rfl⟩ := hrej
      exact .inr (.inr ⟨w', blocking, hmem⟩)
    · exact .inl ((runOf_enqueued h hproc hmem).2 fun blocking heq => hrej ⟨blocking, heq⟩)
  · exact .inr (.inl hlate)

/-- **Schedules fire each occurrence at most once and lose none**, and never go back, in every run in which the
schedules that are due are planned in 64 bits. -/
theorem firesOnce_inRange (h : Reaches (schedulerSystem InRange) (idle given) s) (hgiven : Given given) :
    FiresOnce given s ∧
      ∀ s', Reaches (schedulerSystem InRange) s s' → s.world.Forward s'.world := by
  have hindexed := reaches_indexed h
  refine ⟨⟨?once, ?apart, ?created, ?due, ?clock, ?next, ?caughtUp⟩, ?forward⟩
  case once => exact fun first t a b ha hb => hindexed.once ha hb
  case apart =>
    rintro first first' t t' runId ⟨entry, hget, -, hkey⟩ ⟨entry', hget', -, hkey'⟩
    obtain rfl := Option.some.inj (hget.symm.trans hget')
    exact firingIdempotencyKey_inj (Option.some.inj (hkey.symm.trans hkey'))
  case created => exact fun id entry name t hget hkey => reaches_created h id entry name t hget hkey
  case due => exact fun i proc hproc w run record hentry => created_due h hgiven hproc hentry
  case clock => exact fun i proc hproc now now' hnow hnow' => reads_once h hproc hnow hnow'
  case next =>
    intro id schedule t hget hnext
    obtain ⟨first, hfirst, hfollows, -, hspec⟩ := hgiven.stays (reaches_later h) hget
    have hmoved := reaches_moved .refl hgiven h id first schedule hfirst hget
    refine ⟨first, hfirst, hgiven.occurs hfirst hmoved hnext (ScheduleSpec.from_refl ?_ t)⟩
    rw [← hfollows.spec]
    exact hspec
  case caughtUp => exact fun i proc hproc w id revision next hentry => advanced_caughtUp h hgiven hproc hentry
  case forward =>
    intro s' h' id schedule schedule' hget hget' t' ht'
    obtain ⟨t, ht, hfrom⟩ := reaches_moved h hgiven h' id schedule schedule' hget hget' t' ht'
    exact ⟨t, ht, hfrom.le⟩

/-! ## Runs that are computed -/

instance {spec : ScheduleSpec} {dueAt now : Utc} : Decidable (spec.Fits dueAt now) :=
  match spec with
  | .every interval => inferInstanceAs (Decidable (now - dueAt + interval ≤ i64Max))
  | .at_ _ | .cron .. => inferInstanceAs (Decidable True)

instance {s : SchedulerPool} {i : Nat} {op : SchedulerOp} : Decidable (InRange s i op) :=
  match op with
  | .due now limit =>
    decidable_of_iff (∀ schedule ∈ s.world.schedules.due now limit, ∀ dueAt ∈ schedule.nextFireAt.toList,
      schedule.spec.Fits dueAt now) <| forall₂_congr fun _ _ => forall_congr' fun _ => by rw [Option.mem_toList]
  | .check | .now | .enqueue _ | .advance .. | .setPaused .. => inferInstanceAs (Decidable True)

def atEpoch : (op : SchedulerOp) → SchedulerWorld → op.Ret × SchedulerWorld
  | .check, w => (.ok (), w)
  | .now, w => ((0 : Int), w)
  | .due now limit, w => (.ok (w.schedules.due now limit), w)
  | .enqueue run, w => ((w.runs.enqueue 0 w.runs.freshId run).map id fun runs => { w with runs })
  | .advance id revision next, w =>
    ((w.schedules.advance id revision next).map (fun r => r) fun schedules => { w with schedules })
  | .setPaused id paused, w =>
    ((w.schedules.setPaused id paused).map (fun r => r) fun schedules => { w with schedules })

theorem answers_atEpoch (op : SchedulerOp) (w : SchedulerWorld) :
    SchedulerWorld.laws.answers op w (atEpoch op w).1 (atEpoch op w).2 := by
  cases op with
  | check => rfl
  | now => exact ⟨show (0 : Int) ≤ maxUtc by decide, rfl⟩
  | due now limit => exact ⟨rfl, rfl⟩
  | enqueue run => exact ⟨0, _, w.runs.runs_freshId, rfl, rfl⟩
  | advance id revision next => exact ⟨rfl, rfl⟩
  | setPaused id paused => exact ⟨rfl, rfl⟩

end Schedulers

/-- The build without cron expressions. -/
def cronUnavailable : CronSchedules where
  latestAndNext _ _ _ _ _ := .error {
    component := .agent
    category := .unsupported
    code := "schedule.cron_unavailable"
    message := "cron schedules need the `cron` feature of adk-core; enable it in Cargo.toml" }

/-- What a schedule enqueues. -/
def probe : NewRun := { queue := "q", appName := "app", userId := "u", target := "probe", input := .null }

/-- A schedule that is due at the epoch. -/
def repeating (interval : Duration) : ScheduleTable :=
  (∅ : ScheduleTable).insert "probe" {
    id := "probe", spec := .every interval, run := probe, missed := .skip, nextFireAt := some (0 : Int) }

theorem given_repeating (interval : Duration) : Given (repeating interval) := by
  have hget : ∀ (id : String) (schedule : Schedule), (repeating interval)[id]? = some schedule →
      id = "probe" ∧ schedule.id = "probe" ∧ schedule.spec = .every interval := by
    intro id schedule hget
    unfold repeating at hget
    rw [Std.ExtTreeMap.getElem?_insert] at hget
    split at hget
    next hid =>
      obtain rfl := Option.some.inj hget
      exact ⟨(Std.compare_eq_iff_eq.mp hid).symm, rfl, rfl⟩
    next => simp at hget
  refine ⟨fun id schedule h => ?_, fun id schedule h => ?_, fun id schedule h instant t hspec _ => ?_⟩
  · obtain ⟨rfl, hid, -⟩ := hget id schedule h
    exact hid
  · rw [(hget id schedule h).2.2]
    rfl
  · rw [(hget id schedule h).2.2] at hspec
    cases hspec

section Computed

local instance : CronSchedules := cronUnavailable

instance {acts : SchedulerPool → Nat → SchedulerOp → Prop} : ∀ s scheduler,
    Decidable ((schedulerSystem acts).starts s scheduler) :=
  fun _ _ => inferInstanceAs (Decidable True)

instance : ∀ s i op, Decidable ((schedulerSystem InRange).acts s i op) :=
  fun s i op => inferInstanceAs (Decidable (InRange s i op))

instance : ∀ s i op, Decidable ((schedulerSystem fun _ _ _ => True).acts s i op) :=
  fun _ _ _ => inferInstanceAs (Decidable True)

/-- Two schedulers fire a schedule of every minute at once. -/
def racing : SchedulerPool :=
  [.start {}, .start {}, .act 0, .act 1, .act 0, .act 1, .act 0, .act 1, .act 0, .act 1].foldl
    (ProcPool.next (schedulerSystem InRange) atEpoch) (idle (repeating 60000000000))

/-- One run is created, and one scheduler advances the schedule. -/
theorem firesOnce_inRange_racing : FiresOnce (repeating 60000000000) racing ∧
    (∀ s', Reaches (schedulerSystem InRange) racing s' → racing.world.Forward s'.world) ∧
    racing.world.runs.runs.size = 1 ∧
    racing.world.schedules["probe"]?.bind (·.nextFireAt) = some (60000000000 : Int) := by
  obtain ⟨honce, hforward⟩ := firesOnce_inRange (reaches_foldl answers_atEpoch _ _) (given_repeating 60000000000)
  exact ⟨honce, hforward, by decide +kernel, by decide +kernel⟩

/-- A scheduler fires a schedule of every 300 years. -/
def centuries : SchedulerPool :=
  [.start {}, .act 0, .act 0, .act 0, .act 0].foldl
    (ProcPool.next (schedulerSystem fun _ _ _ => True) atEpoch) (idle (repeating 9467280000000000000))

/-- **Not in every run**: an interval of more than 64 bits of nanoseconds is cut short. -/
theorem not_firesOnce : ¬ ∀ (given : ScheduleTable) (s : SchedulerPool), Given given →
    Reaches (schedulerSystem fun _ _ _ => True) (idle given) s → FiresOnce given s := by
  intro h
  have honce := h (repeating 9467280000000000000) centuries (given_repeating _) (reaches_foldl answers_atEpoch _ _)
  have hnext : centuries.world.schedules["probe"]?.bind (·.nextFireAt) = some i64Max := by decide +kernel
  obtain ⟨schedule, hget, hnext⟩ := Option.bind_eq_some_iff.mp hnext
  obtain ⟨first, hfirst, hoccurs⟩ := honce.next "probe" schedule _ hget hnext
  have hgiven : (repeating 9467280000000000000)["probe"]? = some first := hfirst
  unfold repeating at hgiven
  rw [Std.ExtTreeMap.getElem?_insert_self] at hgiven
  obtain rfl := Option.some.inj hgiven
  obtain ⟨dueAt, hdue, k, hk⟩ := hoccurs
  obtain rfl := Option.some.inj hdue
  have hk : (9223372036854775807 : Int) = 0 + (k : Int) * ((9467280000000000000 : Nat) : Int) := hk
  omega

end Computed

end Adk
