import AdkRust.Core.DerivedPrincipals
import AdkRust.Core.Rfc3339
import AdkRust.Runs.Store
import Mathlib.Data.List.Sort

/-!
# Schedules

What a schedule fires and when (`schedule.rs`), and the in-memory store of schedules. Spans of nanoseconds are
counted in 64 bits there, so a plan over more than 292 years saturates.

* `planFires`: the occurrences that fire at a moment, and the next one.
* `Schedule.runFor`, `firingIdempotencyKey`: the run of an occurrence and its key.
* `ScheduleTable.due`, `advance`, `setPaused`: the calls of the store.
* `planFires_spec`: where 64 bits suffice, the plan fires occurrences, the latest one among them.
* `firingIdempotencyKey_inj`: an occurrence has its own key.
-/

namespace Adk

/-! ## Runs of a service -/

def NewRun.withServiceSubject (run : NewRun) : NewRun :=
  let subject : SubjectRef := { kind := .service, id := run.userId }
  { run with
    principal :=
      match run.principal with
      | some principal => some { principal with onBehalfOf := principal.onBehalfOf.or (some subject) }
      | none => (AgentPrincipal.derived run.appName run.target).map fun agent => { agent, onBehalfOf := some subject } }

/-! ## Schedules -/

inductive ScheduleSpec where
  | cron (expr timezone : String)
  /-- Once. -/
  | at_ (instant : Utc)
  /-- Repeatedly, this far apart, counted from the first fire time. -/
  | every (interval : Duration)

/-- Which due occurrences fire when several are due at once. -/
inductive MissedFirePolicy where
  /-- The latest one, when it is on time. -/
  | skip
  /-- The latest one. -/
  | fireOnce
  /-- Up to so many of the latest ones, oldest first. -/
  | catchUp (count : Nat)
deriving DecidableEq

/-- A schedule and the run that it enqueues. -/
structure Schedule where
  id : String
  spec : ScheduleSpec
  run : NewRun
  missed : MissedFirePolicy
  /-- A paused schedule is never due. -/
  paused : Bool := false
  nextFireAt : Option Utc := none
  /-- Increases by one on every change. -/
  revision : Nat := 0

def firingIdempotencyKey (scheduleId : String) (fireTime : Utc) : String :=
  s!"schedule:{scheduleId}:{toRfc3339 fireTime}"

def Schedule.runFor (schedule : Schedule) (fireTime : Utc) : NewRun :=
  { schedule.run.withServiceSubject with idempotencyKey := some (firingIdempotencyKey schedule.id fireTime) }

def invalidScheduleError (reason : String) : AdkError where
  component := .agent
  category := .invalidInput
  code := "schedule.invalid"
  message := s!"invalid schedule: {reason}"

def scheduleNotFoundError (id : String) : AdkError where
  component := .agent
  category := .notFound
  code := "schedule.not_found"
  message := s!"schedule store has no schedule '{id}'; upsert it first"

/-! ## Plans -/

/-- What fires, oldest first, and what is next. -/
structure FirePlan where
  fireTimes : List Utc
  nextFireAt : Option Utc

/-- The occurrences of cron expressions. -/
class CronSchedules where
  latestAndNext : (expr timezone : String) → (dueAt now : Utc) → (wanted : Nat) → Except AdkError FirePlan

/-- The largest number of 64 bits. -/
def i64Max : Int := 9223372036854775807

def numNanoseconds (span : Int) : Int := if -i64Max - 1 ≤ span ∧ span ≤ i64Max then span else i64Max

/-- A number of 64 bits after it overflowed. -/
def wrapI64 (n : Int) : Int := (n + i64Max + 1) % (2 * (i64Max + 1)) - i64Max - 1

/-- The occurrence after so many others. -/
def occurrenceAt (dueAt : Utc) (step k : Int) : Option Utc :=
  let offset := max (-i64Max - 1) (min (k * step) i64Max)
  if dueAt + offset ≤ maxUtc then some (dueAt + offset) else none

def planEvery (interval : Duration) (wanted : Nat) (dueAt now : Utc) : Except AdkError FirePlan :=
  match (fromStd interval).filter (0 < ·) with
  | none => .error (invalidScheduleError "an Every interval must be positive")
  | some step =>
    let step := max (numNanoseconds step) 1
    let latest := numNanoseconds (now - dueAt) / step
    let first := max (latest - wanted + 1) 0
    .ok {
      fireTimes := (List.range (latest - first + 1).toNat).filterMap fun (k : Nat) =>
        occurrenceAt dueAt step (first + (k : Int))
      nextFireAt := occurrenceAt dueAt step (wrapI64 (latest + 1)) }

/-- How many of the due occurrences may fire. -/
def MissedFirePolicy.wanted : MissedFirePolicy → Except AdkError Nat
  | .skip | .fireOnce => .ok 1
  | .catchUp count =>
    if count = 0 then .error (invalidScheduleError "CatchUp must fire at least one occurrence") else .ok count

/-- A plan without what is too late to fire. -/
def FirePlan.onTime (plan : FirePlan) (missed : MissedFirePolicy) (now : Utc) (grace : Duration) : FirePlan :=
  if missed = .skip ∧ (plan.fireTimes.getLast?.any fun last => grace < (now - last).toNat) = true then
    { plan with fireTimes := [] }
  else plan

variable [CronSchedules]

def planFires (spec : ScheduleSpec) (missed : MissedFirePolicy) (dueAt now : Utc) (grace : Duration) :
    Except AdkError FirePlan :=
  if now < dueAt then .ok { fireTimes := [], nextFireAt := some dueAt }
  else
    match missed.wanted with
    | .error error => .error error
    | .ok wanted =>
      let plan : Except AdkError FirePlan :=
        match spec with
        | .at_ _ => .ok { fireTimes := [dueAt], nextFireAt := none }
        | .every interval => planEvery interval wanted dueAt now
        | .cron expr timezone => CronSchedules.latestAndNext expr timezone dueAt now wanted
      plan.map fun plan => plan.onTime missed now grace

/-! ## The store -/

abbrev ScheduleTable : Type := Dict Schedule

namespace ScheduleTable

def isDue (now : Utc) (schedule : Schedule) : Bool :=
  !schedule.paused && schedule.nextFireAt.any fun at_ => at_ ≤ now

def before (a b : Schedule) : Prop :=
  a.nextFireAt.getD 0 < b.nextFireAt.getD 0 ∨ a.nextFireAt.getD 0 = b.nextFireAt.getD 0 ∧ a.id ≤ b.id

instance : DecidableRel before := fun _ _ => inferInstanceAs (Decidable (_ ∨ _))

/-- Schedules that are due, earliest first, so many at most. -/
def due (table : ScheduleTable) (now : Utc) (limit : Nat) : List Schedule :=
  ((table.vals.filter (isDue now)).insertionSort before).take limit

def advance (table : ScheduleTable) (id : String) (expectedRevision : Nat) (nextFireAt : Option Utc) :
    Except AdkError Bool × ScheduleTable :=
  match table[id]? with
  | none => (.error (scheduleNotFoundError id), table)
  | some schedule =>
    if schedule.revision ≠ expectedRevision then (.ok false, table)
    else (.ok true, table.insert id { schedule with nextFireAt, revision := schedule.revision + 1 })

def setPaused (table : ScheduleTable) (id : String) (paused : Bool) : Except AdkError Schedule × ScheduleTable :=
  match table[id]? with
  | none => (.error (scheduleNotFoundError id), table)
  | some schedule =>
    let schedule :=
      if schedule.paused ≠ paused then { schedule with paused, revision := schedule.revision + 1 } else schedule
    (.ok schedule, table.insert id schedule)

end ScheduleTable

/-! ## What a plan fires -/

/-- The occurrences from one on. -/
def ScheduleSpec.From (spec : ScheduleSpec) (dueAt t : Utc) : Prop :=
  match spec with
  | .at_ _ => t = dueAt
  | .every interval => ∃ k : Nat, t = dueAt + k * interval
  | .cron .. => False

def ScheduleSpec.Latest (spec : ScheduleSpec) (dueAt now t : Utc) : Prop :=
  spec.From dueAt t ∧ t ≤ now ∧ ∀ u, spec.From dueAt u → u ≤ now → u ≤ t

/-- Whether a schedule fires at the times of a cron expression. -/
def ScheduleSpec.isCron : ScheduleSpec → Bool
  | .cron .. => true
  | _ => false

/-- The plan of a schedule is counted in 64 bits. -/
def ScheduleSpec.Fits (spec : ScheduleSpec) (dueAt now : Utc) : Prop :=
  match spec with
  | .every interval => now - dueAt + interval ≤ i64Max
  | _ => True

/-- A plan is one of what is due: occurrences by now, and the next one after. -/
structure FirePlan.Plans (plan : FirePlan) (spec : ScheduleSpec) (dueAt now : Utc) : Prop where
  due : ∀ t ∈ plan.fireTimes, spec.From dueAt t ∧ t ≤ now
  next : ∀ t, plan.nextFireAt = some t → spec.From dueAt t ∧ now < t

variable {dueAt : Utc} {plan : FirePlan} {missed : MissedFirePolicy}

omit [CronSchedules] in
/-- An occurrence that 64 bits suffice for. -/
theorem occurrenceAt_eq {step k : Int} (hstep : 0 ≤ step) (hk : 0 ≤ k) (hfits : k * step ≤ i64Max) :
    occurrenceAt dueAt step k = if dueAt + k * step ≤ maxUtc then some (dueAt + k * step) else none := by
  have hpos : 0 ≤ k * step := Int.mul_nonneg hk hstep
  have hoffset : max (-i64Max - 1) (min (k * step) i64Max) = k * step := by
    unfold i64Max at *
    omega
  rw [occurrenceAt, hoffset]

omit [CronSchedules] in
/-- A span that 64 bits suffice for. -/
theorem numNanoseconds_eq {span : Int} (hnonneg : 0 ≤ span) (hfits : span ≤ i64Max) : numNanoseconds span = span := by
  apply if_pos
  unfold i64Max at *
  omega

omit [CronSchedules] in
theorem wrapI64_eq {n : Int} (hnonneg : 0 ≤ n) (hfits : n ≤ i64Max) : wrapI64 n = n := by
  unfold wrapI64 i64Max at *
  omega

omit [CronSchedules] in
theorem ediv_between {elapsed span : Int} (hspan : 0 < span) (helapsed : 0 ≤ elapsed) :
    0 ≤ elapsed / span ∧ elapsed / span * span ≤ elapsed ∧ elapsed < (elapsed / span + 1) * span ∧
      elapsed / span + 1 ≤ (elapsed / span + 1) * span := by
  have hnonneg : 0 ≤ elapsed / span := Int.ediv_nonneg helapsed (by omega)
  refine ⟨hnonneg, Int.ediv_mul_le _ (by omega), Int.lt_ediv_add_one_mul_self _ hspan, ?_⟩
  have := Int.mul_le_mul_of_nonneg_left (show 1 ≤ span by omega) (show 0 ≤ elapsed / span + 1 by omega)
  rwa [Int.mul_one] at this

omit [CronSchedules] in
/-- **Where 64 bits suffice**, a plan of what fires again and again has the latest occurrence, and it alone where
one is wanted. -/
theorem planEvery_spec {interval : Duration} {wanted : Nat} {dueAt now : Int} (hwanted : 0 < wanted)
    (hdue : dueAt ≤ now) (hnow : now ≤ maxUtc) (hfits : now - dueAt + interval ≤ i64Max)
    (h : planEvery interval wanted dueAt now = .ok plan) :
    plan.Plans (.every interval) dueAt now ∧ ∃ t, (ScheduleSpec.every interval).Latest dueAt now t ∧
      t ∈ plan.fireTimes ∧ (wanted = 1 → plan.fireTimes = [t]) := by
  have helapsed : 0 ≤ now - dueAt := by omega
  unfold planEvery at h
  split at h
  · cases h
  next span hspan =>
  obtain ⟨hspan, hpositive⟩ := Option.filter_eq_some_iff.mp hspan
  obtain ⟨-, rfl⟩ := fromStd_eq_some.mp hspan
  have hpositive : (0 : Int) < (span : Int) := by simpa using hpositive
  have hstep : max (numNanoseconds (span : Int)) 1 = (span : Int) := by
    rw [numNanoseconds_eq] <;> omega
  dsimp only at h
  rw [hstep, numNanoseconds_eq helapsed (by omega)] at h
  -- the latest occurrence
  obtain ⟨hnonneg, hle, hlt, hsmall⟩ := ediv_between hpositive helapsed
  have hmul : ((now - dueAt) / (span : Int) + 1) * (span : Int) = (now - dueAt) / (span : Int) * span + span := by
    rw [Int.add_mul, Int.one_mul]
  have hlast : ∀ k : Int, k * span ≤ now - dueAt → k ≤ (now - dueAt) / (span : Int) := fun k hk =>
    Int.le_ediv_of_mul_le hpositive hk
  generalize (now - dueAt) / (span : Int) = latest at *
  rw [wrapI64_eq (by omega) (by omega)] at h
  obtain rfl := Except.ok.inj h
  have hbel : ∀ k : Int, k ≤ latest → k * (span : Int) ≤ latest * span := fun k hk =>
    Int.mul_le_mul_of_nonneg_right hk (by omega)
  have hat : ∀ k : Int, 0 ≤ k → k ≤ latest → occurrenceAt dueAt span k = some (dueAt + k * span) := by
    intro k hk hkl
    have := hbel k hkl
    have hsum : (dueAt : Int) + k * span ≤ maxUtc := by omega
    rw [occurrenceAt_eq (by omega) hk (by omega), if_pos hsum]
  have hfrom : ∀ k : Int, 0 ≤ k → (ScheduleSpec.every span).From dueAt (dueAt + k * span) := by
    intro k hk
    refine ⟨k.toNat, ?_⟩
    rw [Int.toNat_of_nonneg hk]
  have hatNow : (dueAt : Int) + latest * span ≤ now := by omega
  refine ⟨⟨fun t ht => ?due, fun t ht => ?next⟩, dueAt + latest * span, ⟨hfrom _ hnonneg, hatNow, ?_⟩, ?_, ?_⟩
  case due =>
    obtain ⟨k, hk, hocc⟩ := List.mem_filterMap.mp ht
    rw [List.mem_range] at hk
    have hkl : max (latest - wanted + 1) 0 + (k : Int) ≤ latest := by omega
    rw [hat _ (by omega) hkl] at hocc
    obtain rfl := Option.some.inj hocc
    have hle : (dueAt : Int) + (max (latest - wanted + 1) 0 + (k : Int)) * span ≤ now := by
      have := hbel _ hkl
      omega
    exact ⟨hfrom _ (by omega), hle⟩
  case next =>
    dsimp only at ht
    have hlat : (now : Int) < dueAt + (latest + 1) * span := by omega
    rw [occurrenceAt_eq (by omega) (by omega) (by omega)] at ht
    split at ht
    · obtain rfl := Option.some.inj ht
      exact ⟨hfrom _ (by omega), hlat⟩
    · cases ht
  · rintro u ⟨k, rfl⟩ hu
    have hu : (dueAt : Int) + (k : Int) * span ≤ now := hu
    have hkl := hbel k (hlast k (by omega))
    have hle : (dueAt : Int) + (k : Int) * span ≤ dueAt + latest * span := by omega
    exact hle
  · refine List.mem_filterMap.mpr ⟨(latest - max (latest - wanted + 1) 0).toNat, ?_, ?_⟩
    · rw [List.mem_range]
      omega
    · rw [show max (latest - wanted + 1) 0 + ((latest - max (latest - wanted + 1) 0).toNat : Int) = latest by omega]
      exact hat latest hnonneg (Int.le_refl _)
  · rintro rfl
    have hone : (latest - max (latest - ((1 : Nat) : Int) + 1) 0 + 1).toNat = 1 := by omega
    have hfst : max (latest - ((1 : Nat) : Int) + 1) 0 + ((0 : Nat) : Int) = latest := by omega
    dsimp only
    rw [hone, show List.range 1 = [0] from rfl, List.filterMap_cons, hfst, hat latest hnonneg (Int.le_refl _)]
    rfl

/-- Whether the latest occurrence is too late to fire. -/
def Late (missed : MissedFirePolicy) (grace : Duration) (now t : Utc) : Prop :=
  missed = .skip ∧ grace < (now - t).toNat

omit [CronSchedules] in
theorem wanted_pos {wanted : Nat} (h : missed.wanted = .ok wanted) : 0 < wanted := by
  cases missed with
  | skip | fireOnce =>
    obtain rfl := Except.ok.inj h
    omega
  | catchUp count =>
    rw [MissedFirePolicy.wanted] at h
    split at h
    · cases h
    · obtain rfl := Except.ok.inj h
      omega

omit [CronSchedules] in
theorem wanted_one {wanted : Nat} (h : missed.wanted = .ok wanted) (hskip : missed = .skip) : wanted = 1 := by
  subst hskip
  exact (Except.ok.inj h).symm

omit [CronSchedules] in
/-- What is too late is dropped, and nothing else. -/
theorem FirePlan.Plans.onTime {spec : ScheduleSpec} {now t : Utc}
    {grace : Duration} (h : plan.Plans spec dueAt now) (ht : t ∈ plan.fireTimes)
    (hone : missed = .skip → plan.fireTimes = [t]) :
    (plan.onTime missed now grace).Plans spec dueAt now ∧
      (t ∈ (plan.onTime missed now grace).fireTimes ∨ Late missed grace now t) := by
  unfold FirePlan.onTime
  split
  next hlate =>
    obtain ⟨hskip, hlast⟩ := hlate
    rw [hone hskip] at hlast
    refine ⟨⟨fun u hu => absurd hu List.not_mem_nil, h.next⟩, .inr ⟨hskip, ?_⟩⟩
    simpa using hlast
  next => exact ⟨h, .inl ht⟩

/-- **Where 64 bits suffice, the latest occurrence fires**, unless it is too late. -/
theorem planFires_spec {spec : ScheduleSpec} {now : Utc} {grace : Duration}
    (hdue : dueAt ≤ now) (hnow : now ≤ maxUtc) (hfits : spec.Fits dueAt now)
    (hspec : spec.isCron = false) (h : planFires spec missed dueAt now grace = .ok plan) :
    plan.Plans spec dueAt now ∧ ∃ t, spec.Latest dueAt now t ∧ (t ∈ plan.fireTimes ∨ Late missed grace now t) := by
  rw [planFires, if_neg (Int.not_lt.mpr hdue)] at h
  cases hwanted : missed.wanted with
  | error error =>
    rw [hwanted] at h
    cases h
  | ok wanted =>
    rw [hwanted] at h
    cases spec with
    | cron expr timezone => cases hspec
    | at_ instant =>
      obtain rfl := Except.ok.inj h
      have honce : FirePlan.Plans { fireTimes := [dueAt], nextFireAt := none } (.at_ instant) dueAt now := by
        refine ⟨fun t ht => ?_, fun t ht => by cases ht⟩
        obtain rfl := List.mem_singleton.mp ht
        exact ⟨rfl, hdue⟩
      obtain ⟨hplans, ht⟩ := honce.onTime (List.mem_singleton_self dueAt) fun _ => rfl
      exact ⟨hplans, dueAt, ⟨rfl, hdue, fun u hu _ => Int.le_of_eq hu⟩, ht⟩
    | every interval =>
      cases hplan : planEvery interval wanted dueAt now with
      | error error =>
        simp only [hplan] at h
        cases h
      | ok every =>
        simp only [hplan] at h
        obtain rfl := Except.ok.inj h
        obtain ⟨hplans, t, hltst, ht, hone⟩ := planEvery_spec (wanted_pos hwanted) hdue hnow hfits hplan
        obtain ⟨hplans, ht⟩ := hplans.onTime ht fun hskip => hone (wanted_one hwanted hskip)
        exact ⟨hplans, t, hltst, ht⟩

/-! ## Keys -/

omit [CronSchedules] in
theorem firingIdempotencyKey_toList (id : String) (t : Utc) :
    (firingIdempotencyKey id t).toList = "schedule:".toList ++ (id.toList ++ ':' :: (toRfc3339 t).toList) := by
  unfold firingIdempotencyKey
  simp only [String.toList_append, List.append_assoc]
  rfl

omit [CronSchedules] in
/-- **Every occurrence of every schedule has its own key**, whatever the identifiers are. -/
theorem firingIdempotencyKey_inj {id id' : String} {t t' : Utc}
    (h : firingIdempotencyKey id t = firingIdempotencyKey id' t') : id = id' ∧ t = t' := by
  have hlist := congrArg String.toList h
  rw [firingIdempotencyKey_toList, firingIdempotencyKey_toList] at hlist
  rcases List.append_eq_append_iff.mp (List.append_cancel_left hlist) with ⟨more, hid, hrest⟩ | ⟨more, hid, hrest⟩
  · cases more with
    | nil =>
      rw [List.append_nil] at hid
      exact ⟨String.toList_injective hid.symm, toRfc3339_inj (String.toList_injective (List.cons.inj hrest).2)⟩
    | cons c more => exact absurd (List.cons.inj hrest).2 toRfc3339_suffix
  · cases more with
    | nil =>
      rw [List.append_nil] at hid
      exact ⟨String.toList_injective hid, toRfc3339_inj (String.toList_injective (List.cons.inj hrest).2.symm)⟩
    | cons c more => exact absurd (List.cons.inj hrest).2 toRfc3339_suffix

end Adk
