import AdkRust.Core.Time
import AdkRust.Lib.Calendar
import AdkRust.Lib.Text

/-!
# Moments as text

RFC 3339 in UTC, with the shortest exact fraction (`to_rfc3339_opts(SecondsFormat::AutoSi, true)`).

* `toRfc3339`: the text of a moment.
* `toRfc3339_inj`: different moments have different texts.
* `toRfc3339_suffix`: no text ends in the text of another moment after a colon.
-/

namespace Adk

namespace Rfc3339

def dayNanos : Int := 86400000000000

/-- A year: four digits, or a sign and at least four digits. -/
def yearText (year : Int) : List Char :=
  let digits := if year.natAbs < 10000 then pad 4 year.natAbs else Nat.toDigits 10 year.natAbs
  if year < 0 then '-' :: digits else if 10000 ≤ year then '+' :: digits else digits

/-- The fraction of a second: none, or milliseconds, microseconds or nanoseconds. -/
def fraction (nanos : Nat) : List Char :=
  if nanos = 0 then []
  else if nanos % 1000000 = 0 then '.' :: pad 3 (nanos / 1000000)
  else if nanos % 1000 = 0 then '.' :: pad 6 (nanos / 1000)
  else '.' :: pad 9 nanos

def dateText (date : Calendar.Date) : List Char :=
  yearText date.year ++ ('-' :: pad 2 date.month.toNat ++ '-' :: pad 2 date.day.toNat)

def timeText (nanos : Nat) : List Char :=
  let seconds := nanos / 1000000000
  (pad 2 (seconds / 3600) ++ ':' :: pad 2 (seconds / 60 % 60) ++ ':' :: pad 2 (seconds % 60)) ++
    (fraction (nanos % 1000000000) ++ ['Z'])

end Rfc3339

open Rfc3339 in
def toRfc3339 (moment : Utc) : String :=
  String.ofList (dateText (Calendar.date (moment / dayNanos)) ++ 'T' :: timeText (moment % dayNanos).toNat)

example : toRfc3339 1792054800250000000 = "2026-10-15T09:00:00.250Z" := by decide +kernel

namespace Rfc3339

/-! ## Parts of a text -/

theorem yearText_inj {year year' : Int} (h : yearText year = yearText year') : year = year' := by
  have hval : ∀ year : Int, Nat.ofDigitChars 10
      (if year.natAbs < 10000 then pad 4 year.natAbs else Nat.toDigits 10 year.natAbs) 0 = year.natAbs := by
    intro year
    split
    · rw [ofDigitChars_pad]
      omega
    · exact Nat.ofDigitChars_ten_toDigits
  have hdig : ∀ (year : Int) (c : Char), c.isDigit = false →
      c ∉ (if year.natAbs < 10000 then pad 4 year.natAbs else Nat.toDigits 10 year.natAbs) := by
    intro year c hc
    split
    · exact not_mem_pad hc _
    · exact not_mem_toDigits hc
  have hminus := hdig year '-' rfl
  have hplus := hdig year '+' rfl
  have hminus' := hdig year' '-' rfl
  have hplus' := hdig year' '+' rfl
  have hyear := hval year
  have hyear' := hval year'
  unfold yearText at h
  dsimp only at h
  generalize (if year.natAbs < 10000 then pad 4 year.natAbs else Nat.toDigits 10 year.natAbs) = digits at *
  generalize (if year'.natAbs < 10000 then pad 4 year'.natAbs else Nat.toDigits 10 year'.natAbs) = digits' at *
  split at h
  · split at h
    · obtain rfl := (List.cons.inj h).2
      omega
    · split at h
      · simp at h
      · rw [← h] at hminus'
        simp at hminus'
  · split at h
    · split at h
      · simp at h
      · split at h
        · obtain rfl := (List.cons.inj h).2
          omega
        · rw [← h] at hplus'
          simp at hplus'
    · split at h
      · rw [h] at hminus
        simp at hminus
      · split at h
        · rw [h] at hplus
          simp at hplus
        · obtain rfl := h
          omega

theorem dateText_inj {day day' : Day} (h : dateText (Calendar.date day) = dateText (Calendar.date day')) :
    day = day' := by
  obtain ⟨hmon, hmon', hday, hday'⟩ := Calendar.date_range day
  obtain ⟨hmon₂, hmon₂', hday₂, hday₂'⟩ := Calendar.date_range day'
  apply Calendar.date_inj
  unfold dateText at h
  obtain ⟨hyear, hrest⟩ := List.append_inj' h (by simp)
  obtain ⟨hmonths, hdays⟩ := List.append_inj (List.cons.inj hrest).2 (by simp)
  have hm := pad_inj (by omega) (by omega) hmonths
  have hd := pad_inj (by omega) (by omega) (List.cons.inj hdays).2
  have hy := yearText_inj hyear
  cases hdate : Calendar.date day
  cases hdate' : Calendar.date day'
  simp only [hdate, hdate', Calendar.Date.mk.injEq] at *
  omega

def nanosOf (fraction : List Char) : Nat := Nat.ofDigitChars 10 fraction.tail 0 * 10 ^ (9 - fraction.tail.length)

theorem nanosOf_fraction {nanos : Nat} (hlt : nanos < 1000000000) : nanosOf (fraction nanos) = nanos := by
  unfold nanosOf fraction
  split
  · simp [*]
  split
  · rw [List.tail_cons, ofDigitChars_pad, length_pad]
    omega
  split
  · rw [List.tail_cons, ofDigitChars_pad, length_pad]
    omega
  · rw [List.tail_cons, ofDigitChars_pad, length_pad]
    omega

theorem timeText_inj {nanos nanos' : Nat} (hlt : nanos < 86400000000000) (hlt' : nanos' < 86400000000000)
    (h : timeText nanos = timeText nanos') : nanos = nanos' := by
  unfold timeText at h
  dsimp only at h
  obtain ⟨hclk, hfrac⟩ := List.append_inj h (by simp)
  obtain ⟨hminutes, hseconds⟩ := List.append_inj hclk (by simp)
  obtain ⟨hhours, hminutes⟩ := List.append_inj hminutes (by simp)
  have hh := pad_inj (by omega) (by omega) hhours
  have hm := pad_inj (by omega) (by omega) (List.cons.inj hminutes).2
  have hs := pad_inj (by omega) (by omega) (List.cons.inj hseconds).2
  have hf := congrArg nanosOf (List.append_cancel_right hfrac)
  rw [nanosOf_fraction (by omega), nanosOf_fraction (by omega)] at hf
  omega

theorem not_mem_timeText (nanos : Nat) : 'T' ∉ timeText nanos := by
  have hpad : ∀ width n, 'T' ∉ pad width n := fun width n => not_mem_pad rfl n
  unfold timeText fraction
  dsimp only
  split
  · simp [hpad]
  split
  · simp [hpad]
  split <;> simp [hpad]

theorem not_mem_dateText (date : Calendar.Date) : ':' ∉ dateText date := by
  have hpad : ∀ width n, ':' ∉ pad width n := fun width n => not_mem_pad rfl n
  have hdig : ∀ n, ':' ∉ Nat.toDigits 10 n := fun n => not_mem_toDigits rfl
  unfold dateText yearText
  dsimp only
  split <;> split
  · simp [hpad]
  · simp [hpad, hdig]
  · split <;> simp [hpad, hdig]
  · split <;> simp [hpad, hdig]

end Rfc3339

open Rfc3339

theorem moment_inj {m n : Int} (hday : m / dayNanos = n / dayNanos)
    (hnanos : (m % dayNanos).toNat = (n % dayNanos).toNat) : m = n := by
  unfold dayNanos at *
  omega

/-- **Different moments have different texts.** -/
theorem toRfc3339_inj {moment moment' : Utc} (h : toRfc3339 moment = toRfc3339 moment') : moment = moment' := by
  obtain ⟨hdate, htime⟩ := append_cons_inj (not_mem_timeText _) (not_mem_timeText _) (String.ofList_injective h)
  have hlt : ∀ m : Int, (m % dayNanos).toNat < 86400000000000 := by
    intro m
    unfold dayNanos
    omega
  exact moment_inj (dateText_inj hdate) (timeText_inj (hlt _) (hlt _) htime)

/-- **No text ends in another one after a colon.** -/
theorem toRfc3339_suffix {moment moment' : Utc} {before : List Char} :
    (toRfc3339 moment).toList ≠ before ++ ':' :: (toRfc3339 moment').toList := by
  intro h
  unfold toRfc3339 at h
  rw [String.toList_ofList, String.toList_ofList, ← List.cons_append, ← List.append_assoc] at h
  obtain ⟨hdate, -⟩ := append_cons_inj (not_mem_timeText _) (not_mem_timeText _) h
  apply not_mem_dateText (Calendar.date (moment / dayNanos))
  rw [hdate]
  simp

end Adk
