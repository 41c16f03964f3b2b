import Mathlib.Algebra.Order.Ring.Nat

/-!
# Time

Spans and moments are counted in nanoseconds. A moment has a largest value, and so has the span that may
be added to it (`chrono`); adding past either is refused (`checkedAddSigned`, `fromStd`).
-/

namespace Adk

/-- A span of time in nanoseconds (`std::time::Duration`). -/
abbrev Duration : Type := Nat

/-- A moment in nanoseconds since the Unix epoch (`chrono::DateTime<Utc>`). -/
abbrev Utc : Type := Int

/-- The last moment, at the end of the year 262142 (`DateTime::<Utc>::MAX_UTC`). -/
def maxUtc : Utc := 8210266876799999999999

/-- The first moment, at the start of the year -262143 (`DateTime::<Utc>::MIN_UTC`). -/
def minUtc : Utc := -8334601228800000000000

/-- The longest span a moment can be moved by: `i64::MAX` milliseconds (`chrono::Duration::MAX`). -/
def maxSpan : Duration := 9223372036854775807 * 1000000

/-- The span as one that a moment can be moved by (`chrono::Duration::from_std`). -/
def fromStd (span : Duration) : Option Duration := if span ≤ maxSpan then some span else none

def checkedAddSigned (moment : Utc) (span : Duration) : Option Utc :=
  if moment + span ≤ maxUtc then some (moment + span) else none

/-- A number of units with its fraction, of `width` digits, as far as it has digits that count. -/
def decimal (whole fraction width : Nat) (suffix : String) : String :=
  let digits := (Nat.toDigits 10 (10 ^ width + fraction)).drop 1
  let digits := (digits.reverse.dropWhile (· == '0')).reverse
  let point := if digits.isEmpty then "" else "." ++ String.ofList digits
  s!"{whole}{point}{suffix}"

/-- The text of a span (its `Debug`). -/
def debugSpan (span : Duration) : String :=
  if 1000000000 ≤ span then decimal (span / 1000000000) (span % 1000000000) 9 "s"
  else if 1000000 ≤ span then decimal (span / 1000000) (span % 1000000) 6 "ms"
  else if 1000 ≤ span then decimal (span / 1000) (span % 1000) 3 "µs"
  else decimal span 0 0 "ns"

example : debugSpan 1500000000 = "1.5s" := by decide +kernel

theorem fromStd_eq_some {span span' : Duration} :
    fromStd span = some span' ↔ span ≤ maxSpan ∧ span' = span := by
  unfold fromStd
  split <;> simp [*, eq_comm]

theorem checkedAddSigned_eq_some {moment later : Utc} {span : Duration} :
    checkedAddSigned moment span = some later ↔ moment + span ≤ maxUtc ∧ later = moment + span := by
  unfold checkedAddSigned
  split <;> simp [*, eq_comm]

end Adk
