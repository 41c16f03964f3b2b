import Mathlib.Data.Nat.Notation

/-!
# Days and months

The proleptic Gregorian calendar over days counted from 1970-01-01. A day is placed within its month by
placing it within its era of 400 years, its century, its four years, its year and its month, each of which
counts its days from zero; the year starts in March, so the leap day is the last.

* `monthStart`: the first day of a day's month. It is no later than the day (`monthStart_le`), and of two
  days the later has the later one (`monthStart_mono`).
-/

namespace Adk

/-- A day, counted from 1970-01-01 (`chrono::NaiveDate`). -/
abbrev Day : Type := Int

namespace Calendar

/-- A count of days that starts again from zero now and then. -/
structure Restarts (count : Int → Int) : Prop where
  zero : count 0 = 0
  nonneg : ∀ x, 0 ≤ x → 0 ≤ count x
  le : ∀ x, 0 ≤ x → count x ≤ x
  succ : ∀ x, 0 ≤ x → count (x + 1) = count x + 1 ∨ count (x + 1) = 0

/-- A count within a count. -/
theorem Restarts.comp {f g : Int → Int} (hf : Restarts f) (hg : Restarts g) :
    Restarts fun x => f (g x) where
  zero := by
    rw [hg.zero]
    exact hf.zero
  nonneg := fun x hx => hf.nonneg _ (hg.nonneg x hx)
  le := fun x hx => Int.le_trans (hf.le _ (hg.nonneg x hx)) (hg.le x hx)
  succ := by
    intro x hx
    rcases hg.succ x hx with hnext | hzero
    · rw [hnext]
      exact hf.succ _ (hg.nonneg x hx)
    · exact .inr (by rw [hzero]; exact hf.zero)

def dayOfCentury (doe : Int) : Int := doe - min (doe / 36524) 3 * 36524

/-- The day of its four years, of its century. -/
def dayOfQuad (doc : Int) : Int := doc % 1461

def dayOfYear (doq : Int) : Int := doq - min (doq / 365) 3 * 365

def dayOfMonth (doy : Int) : Int := doy - (153 * ((5 * doy + 2) / 153) + 2) / 5

def dayOfEra (day : Int) : Int := (day + 719468) % 146097

def monthStart (day : Int) : Int :=
  day - dayOfMonth (dayOfYear (dayOfQuad (dayOfCentury (dayOfEra day))))

example : monthStart 20736 = 20727 := by decide

theorem dayOfCentury_restarts : Restarts dayOfCentury := by
  unfold dayOfCentury
  constructor <;> intros <;> omega

theorem dayOfQuad_restarts : Restarts dayOfQuad := by
  unfold dayOfQuad
  constructor <;> intros <;> omega

theorem dayOfYear_restarts : Restarts dayOfYear := by
  unfold dayOfYear
  constructor <;> intros <;> omega

theorem dayOfMonth_restarts : Restarts dayOfMonth := by
  unfold dayOfMonth
  constructor
  case succ =>
    intro x hx
    -- The next day is in the same month or in the next one.
    have hmon : (5 * (x + 1) + 2) / 153 = (5 * x + 2) / 153 ∨
        (5 * (x + 1) + 2) / 153 = (5 * x + 2) / 153 + 1 := by omega
    rcases hmon with hmon | hmon <;> rw [hmon] <;> omega
  all_goals intros; omega

theorem inMonth_restarts :
    Restarts fun doe => dayOfMonth (dayOfYear (dayOfQuad (dayOfCentury doe))) :=
  dayOfMonth_restarts.comp (dayOfYear_restarts.comp (dayOfQuad_restarts.comp dayOfCentury_restarts))

theorem dayOfEra_nonneg (day : Int) : 0 ≤ dayOfEra day := by
  unfold dayOfEra
  omega

theorem dayOfEra_succ (day : Int) :
    dayOfEra (day + 1) = dayOfEra day + 1 ∨ dayOfEra (day + 1) = 0 := by
  unfold dayOfEra
  omega

theorem monthStart_le (day : Int) : monthStart day ≤ day := by
  have hnonneg := inMonth_restarts.nonneg _ (dayOfEra_nonneg day)
  unfold monthStart
  omega

theorem monthStart_succ (day : Int) :
    monthStart (day + 1) = monthStart day ∨ monthStart (day + 1) = day + 1 := by
  have hsucc := inMonth_restarts.succ _ (dayOfEra_nonneg day)
  have hzero := inMonth_restarts.zero
  unfold monthStart
  rcases dayOfEra_succ day with hnext | hreset
  · rw [hnext]
    omega
  · rw [hreset]
    omega

/-- **Months are in the order of their days.** -/
theorem monthStart_mono {day day' : Int} (h : day ≤ day') : monthStart day ≤ monthStart day' := by
  obtain ⟨n, rfl⟩ : ∃ n : Nat, day' = day + n := ⟨(day' - day).toNat, by omega⟩
  clear h
  induction n with
  | zero => simp
  | succ n ih =>
    have hle := monthStart_le day
    rcases monthStart_succ (day + n) with hsame | hsta
    · rw [show day + (n + 1 : Nat) = day + n + 1 by omega, hsame]
      exact ih
    · rw [show day + (n + 1 : Nat) = day + n + 1 by omega, hsta]
      omega

/-! ## Dates -/

/-- The month that a day's year has its day in, counted from March. -/
def monthOfYear (doy : Int) : Int := (5 * doy + 2) / 153

def yearOfEra (doe : Int) : Int :=
  min (doe / 36524) 3 * 100 + dayOfCentury doe / 1461 * 4 + min (dayOfQuad (dayOfCentury doe) / 365) 3

structure Date where
  year : Int
  month : Int
  day : Int
deriving DecidableEq

def date (day : Int) : Date :=
  let doe := dayOfEra day
  let doy := dayOfYear (dayOfQuad (dayOfCentury doe))
  let month := if monthOfYear doy < 10 then monthOfYear doy + 3 else monthOfYear doy - 9
  let year := (day + 719468) / 146097 * 400 + yearOfEra doe
  { year := if month ≤ 2 then year + 1 else year, month, day := dayOfMonth doy + 1 }

example : date 20743 = ⟨2026, 10, 17⟩ := by decide

theorem date_range (day : Int) : 1 ≤ (date day).month ∧ (date day).month ≤ 12 ∧ 1 ≤ (date day).day ∧
    (date day).day ≤ 31 := by
  have hdoe := dayOfEra_nonneg day
  have hlt : dayOfEra day < 146097 := Int.emod_lt_of_pos _ (by decide)
  have hdoy : 0 ≤ dayOfYear (dayOfQuad (dayOfCentury (dayOfEra day))) ∧
      dayOfYear (dayOfQuad (dayOfCentury (dayOfEra day))) < 366 := by
    unfold dayOfYear dayOfQuad dayOfCentury
    omega
  unfold date dayOfMonth monthOfYear
  dsimp only
  generalize dayOfYear (dayOfQuad (dayOfCentury (dayOfEra day))) = doy at *
  refine ⟨?_, ?_, ?_, ?_⟩ <;> (try split) <;> omega

theorem dayOfMonth_inj {doy doy' : Int} (hmon : monthOfYear doy = monthOfYear doy')
    (hday : dayOfMonth doy = dayOfMonth doy') : doy = doy' := by
  unfold dayOfMonth at hday
  unfold monthOfYear at hmon
  rw [hmon] at hday
  omega

theorem month_inj {doy doy' : Int} (hdoy : 0 ≤ doy ∧ doy < 366) (hdoy' : 0 ≤ doy' ∧ doy' < 366)
    (h : (if monthOfYear doy < 10 then monthOfYear doy + 3 else monthOfYear doy - 9) =
      if monthOfYear doy' < 10 then monthOfYear doy' + 3 else monthOfYear doy' - 9) :
    monthOfYear doy = monthOfYear doy' := by
  have hmon : 0 ≤ monthOfYear doy ∧ monthOfYear doy < 12 := by
    unfold monthOfYear
    omega
  have hmon' : 0 ≤ monthOfYear doy' ∧ monthOfYear doy' < 12 := by
    unfold monthOfYear
    omega
  split at h <;> split at h <;> omega

theorem dayOfEra_parts {doe : Int} (h : 0 ≤ doe) (hlt : doe < 146097) : ∃ c q y : Int, (0 ≤ c ∧ c ≤ 3) ∧
    (0 ≤ q ∧ q ≤ 24) ∧ (0 ≤ y ∧ y ≤ 3) ∧ yearOfEra doe = c * 100 + q * 4 + y ∧
    doe = c * 36524 + q * 1461 + y * 365 + dayOfYear (dayOfQuad (dayOfCentury doe)) ∧
    0 ≤ dayOfYear (dayOfQuad (dayOfCentury doe)) ∧ dayOfYear (dayOfQuad (dayOfCentury doe)) < 366 := by
  refine ⟨min (doe / 36524) 3, dayOfCentury doe / 1461, min (dayOfQuad (dayOfCentury doe) / 365) 3, by omega, ?_, ?_,
    rfl, ?_, ?_⟩
  · unfold dayOfCentury
    omega
  · unfold dayOfQuad
    omega
  · unfold dayOfYear dayOfQuad dayOfCentury
    omega
  · unfold dayOfYear dayOfQuad dayOfCentury
    omega

theorem yearOfEra_inj {doe doe' : Int} (h : 0 ≤ doe ∧ doe < 146097) (h' : 0 ≤ doe' ∧ doe' < 146097)
    (hyear : yearOfEra doe = yearOfEra doe')
    (hday : dayOfYear (dayOfQuad (dayOfCentury doe)) = dayOfYear (dayOfQuad (dayOfCentury doe'))) : doe = doe' := by
  obtain ⟨c, q, y, hc, hq, hy, hpts, hdoe, -⟩ := dayOfEra_parts h.1 h.2
  obtain ⟨c', q', y', hc', hq', hy', hpts', hdoe', -⟩ := dayOfEra_parts h'.1 h'.2
  omega

theorem date_inj {day day' : Int} (h : date day = date day') : day = day' := by
  have hera : dayOfEra day + 146097 * ((day + 719468) / 146097) = day + 719468 := Int.emod_add_mul_ediv _ _
  have hera' : dayOfEra day' + 146097 * ((day' + 719468) / 146097) = day' + 719468 := Int.emod_add_mul_ediv _ _
  have hdoe : 0 ≤ dayOfEra day ∧ dayOfEra day < 146097 :=
    ⟨dayOfEra_nonneg day, Int.emod_lt_of_pos _ (by decide)⟩
  have hdoe' : 0 ≤ dayOfEra day' ∧ dayOfEra day' < 146097 :=
    ⟨dayOfEra_nonneg day', Int.emod_lt_of_pos _ (by decide)⟩
  obtain ⟨c, q, y, hc, hq, hy, hpts, -, hdoy⟩ := dayOfEra_parts hdoe.1 hdoe.2
  obtain ⟨c', q', y', hc', hq', hy', hpts', -, hdoy'⟩ := dayOfEra_parts hdoe'.1 hdoe'.2
  unfold date at h
  simp only [Date.mk.injEq] at h
  obtain ⟨hyear, hmon, hday⟩ := h
  have hdays := dayOfMonth_inj (month_inj hdoy hdoy' hmon) (by omega)
  rw [hmon] at hyear
  have hyears : (day + 719468) / 146097 * 400 + yearOfEra (dayOfEra day) =
      (day' + 719468) / 146097 * 400 + yearOfEra (dayOfEra day') := by
    split at hyear <;> omega
  have heras : (day + 719468) / 146097 = (day' + 719468) / 146097 := by omega
  have hsame := yearOfEra_inj hdoe hdoe' (by omega) hdays
  omega

end Calendar

end Adk
