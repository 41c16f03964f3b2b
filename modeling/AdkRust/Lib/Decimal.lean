import AdkRust.Lib.Text
import Mathlib.Algebra.Order.Field.Basic
import Mathlib.Algebra.Order.Ring.Rat
import Mathlib.Data.List.Induction
import Mathlib.Tactic.FieldSimp
import Mathlib.Tactic.Linarith
import Mathlib.Tactic.Ring

/-!
# Decimal fractions

Fractions with a power of ten below, the integers of so many bits they are kept in, and the texts they are written
as.

* `Reduced`: a number by the least power of ten that it can be written over.
* `Numeral`, `Numeral.value`: the decimal numerals, and the number each of them denotes.
* `Numeral.power_bound`, `Numeral.magnitude_bound`: how far the digits reach, where the number has few places.
-/

namespace Adk

/-! ## Integers of so many bits -/

def FitsSigned (bits : Nat) (n : Int) : Prop := -2 ^ (bits - 1) ≤ n ∧ n < 2 ^ (bits - 1)

instance (bits : Nat) (n : Int) : Decidable (FitsSigned bits n) := inferInstanceAs (Decidable (_ ∧ _))

/-- A result that is there only if it fits. -/
def checkedInt (bits : Nat) (n : Int) : Option Int := if FitsSigned bits n then some n else none

variable {bits s : Nat} {n m : Int}

@[simp] theorem checkedInt_eq_some : checkedInt bits n = some m ↔ FitsSigned bits n ∧ n = m := by
  unfold checkedInt
  split <;> simp_all

theorem checkedInt_of_fits (h : FitsSigned bits n) : checkedInt bits n = some n := if_pos h

theorem checkedInt_eq_none : checkedInt bits n = none ↔ ¬FitsSigned bits n := by
  unfold checkedInt
  split <;> simp_all

theorem FitsSigned.zero (bits : Nat) : FitsSigned bits 0 := by
  have hmax : (0 : Int) < 2 ^ (bits - 1) := by positivity
  constructor
  · omega
  · exact hmax

/-- A number between zero and one that fits. -/
theorem FitsSigned.of_le (h : FitsSigned bits n) (hpos : 0 ≤ m) (hle : m ≤ n) :
    FitsSigned bits m := by
  have hmin : (0 : Int) ≤ 2 ^ (bits - 1) := by positivity
  obtain ⟨-, hmax⟩ := h
  constructor
  · omega
  · omega

/-- A divisor of a number that fits. -/
theorem FitsSigned.of_mul {k : Int} (hk : 0 < k) (h : FitsSigned bits (n * k)) : FitsSigned bits n := by
  have hmin : (0 : Int) < 2 ^ (bits - 1) := by positivity
  obtain ⟨hlow, hhigh⟩ := h
  rcases le_total 0 n with hpos | hneg
  · have hle : n * 1 ≤ n * k := mul_le_mul_of_nonneg_left hk hpos
    constructor <;> omega
  · have hle : n * k ≤ n * 1 := mul_le_mul_of_nonpos_left hk hneg
    constructor <;> omega

/-! ## Places -/

theorem tenPow_ne_zero (s : Nat) : (10 : ℚ) ^ s ≠ 0 := pow_ne_zero s (by norm_num)

theorem div_tenPow_inj : (n : ℚ) / 10 ^ s = m / 10 ^ s ↔ n = m := by
  rw [div_left_inj' (tenPow_ne_zero s), Int.cast_inj]

/-- A fraction with more places. -/
theorem div_tenPow_eq_iff {t : Nat} (hle : s ≤ t) :
    (n : ℚ) / 10 ^ s = m / 10 ^ t ↔ m = n * 10 ^ (t - s) := by
  obtain ⟨d, rfl⟩ := Nat.exists_eq_add_of_le hle
  rw [Nat.add_sub_cancel_left, div_eq_div_iff (tenPow_ne_zero _) (tenPow_ne_zero _), pow_add, ← mul_assoc,
    mul_right_comm, mul_left_inj' (tenPow_ne_zero _), eq_comm]
  exact_mod_cast Iff.rfl

/-- `q` is `n / 10 ^ s`, and cannot be written over a smaller power of ten. -/
structure Reduced (q : ℚ) (n : Int) (s : Nat) : Prop where
  eq : q = n / 10 ^ s
  least : ∀ (m : Int) (t : Nat), q = m / 10 ^ t → s ≤ t

theorem reduced_iff {q : ℚ} : Reduced q n s ↔ q = n / 10 ^ s ∧ (s = 0 ∨ ¬10 ∣ n) := by
  constructor
  · intro h
    refine ⟨h.eq, ?_⟩
    by_contra hboth
    obtain ⟨hpos, ⟨m, rfl⟩⟩ := not_or.mp hboth |>.imp_right not_not.mp
    obtain ⟨t, rfl⟩ := Nat.exists_eq_succ_of_ne_zero hpos
    have hsmaller : q = m / 10 ^ t := by
      rw [h.eq, eq_comm, div_tenPow_eq_iff (Nat.le_succ t), Nat.succ_sub (Nat.le_refl t), Nat.sub_self]
      ring
    have := h.least m t hsmaller
    omega
  · rintro ⟨rfl, hlast⟩
    refine ⟨rfl, fun m t heq => ?_⟩
    by_contra hless
    have hn := (div_tenPow_eq_iff (by omega : t ≤ s)).mp heq.symm
    rcases hlast with rfl | hlast
    · omega
    · apply hlast
      rw [hn]
      exact Dvd.dvd.mul_left (dvd_pow_self 10 (by omega)) m

theorem Reduced.unique {q : ℚ} {t : Nat} (h : Reduced q n s) (h' : Reduced q m t) : n = m ∧ s = t := by
  obtain rfl := Nat.le_antisymm (h.least m t h'.eq) (h'.least n s h.eq)
  exact ⟨div_tenPow_inj.mp (h.eq.symm.trans h'.eq), rfl⟩

/-! ## Numerals -/

def IsDigits (text : List Char) : Prop := text ≠ [] ∧ text.all Char.isDigit = true

instance (text : List Char) : Decidable (IsDigits text) := inferInstanceAs (Decidable (_ ∧ _))

def digitsValue (digits : List Char) : Nat := Nat.ofDigitChars 10 digits 0

@[simp] theorem digitsValue_nil : digitsValue [] = 0 := rfl

theorem digitsValue_append (digits more : List Char) :
    digitsValue (digits ++ more) = digitsValue digits * 10 ^ more.length + digitsValue more := by
  unfold digitsValue
  rw [Nat.ofDigitChars_append, Nat.ofDigitChars_eq_ofDigitChars_zero, Nat.mul_comm]

theorem digitsValue_concat (digits : List Char) (c : Char) :
    digitsValue (digits ++ [c]) = digitsValue digits * 10 + (c.toNat - '0'.toNat) := by
  rw [digitsValue_append]
  simp [digitsValue, Nat.ofDigitChars_cons]

theorem toNat_sub_lt {c : Char} (h : c.isDigit = true) : c.toNat - '0'.toNat < 10 := by
  have := Char.isDigit_iff_toNat.mp h
  have hzero : '0'.toNat = 48 := rfl
  have hnine : '9'.toNat = 57 := rfl
  omega

theorem digitsValue_lt {digits : List Char} (h : digits.all Char.isDigit = true) :
    digitsValue digits < 10 ^ digits.length := by
  induction digits using List.reverseRecOn with
  | nil => simp
  | append_singleton digits c ih =>
    rw [List.all_append, Bool.and_eq_true] at h
    have hlast := toNat_sub_lt (c := c) (by simpa using h.2)
    have hinit := ih h.1
    rw [digitsValue_concat, List.length_append, List.length_singleton, Nat.pow_succ]
    omega

/-- Zeros in front do not count. -/
theorem digitsValue_dropZeros (digits : List Char) : digitsValue (digits.dropWhile (· = '0')) = digitsValue digits := by
  induction digits with
  | nil => rfl
  | cons c digits ih =>
    by_cases hc : c = '0'
    · subst hc
      rw [List.dropWhile_cons_of_pos (by decide), ih, ← List.singleton_append, digitsValue_append]
      simp [digitsValue, Nat.ofDigitChars_cons]
    · rw [List.dropWhile_cons_of_neg (by simpa using hc)]

/-- Digits that do not begin with a zero are not those of zero. -/
theorem digitsValue_pos {c : Char} {digits : List Char} (hdgt : c.isDigit = true) (hc : c ≠ '0') :
    10 ^ digits.length ≤ digitsValue (c :: digits) := by
  have hfst : 1 ≤ c.toNat - '0'.toNat := by
    have := (Char.isDigit_iff_toNat.mp hdgt).1
    have hne : c.toNat ≠ '0'.toNat := fun heq => hc (Char.toNat_inj.mp heq)
    omega
  have hval : digitsValue [c] = c.toNat - '0'.toNat := by simp [digitsValue, Nat.ofDigitChars_cons]
  rw [← List.singleton_append, digitsValue_append, hval]
  calc 10 ^ digits.length = 1 * 10 ^ digits.length := (Nat.one_mul _).symm
    _ ≤ (c.toNat - '0'.toNat) * 10 ^ digits.length := Nat.mul_le_mul_right _ hfst
    _ ≤ _ := Nat.le_add_right _ _

/-- What follows the mark of an exponent. -/
structure Exponent where
  mark : Char
  sign : List Char
  digits : List Char
  mark_eq : mark = 'e' ∨ mark = 'E'
  sign_eq : sign = [] ∨ sign = ['+'] ∨ sign = ['-']
  isDigits : IsDigits digits

namespace Exponent

def text (e : Exponent) : List Char := e.sign ++ e.digits

def value (e : Exponent) : Int := if e.sign = ['-'] then -digitsValue e.digits else digitsValue e.digits

end Exponent

/-- A decimal numeral: whole digits, and perhaps a minus, digits after a point and an exponent. -/
structure Numeral where
  negative : Bool
  whole : List Char
  /-- Empty where there is no point. -/
  fraction : List Char
  exponent : Option Exponent
  isDigits_whole : IsDigits whole
  all_fraction : fraction.all Char.isDigit = true

namespace Numeral

/-- Sign, digits and point. -/
def mantissaText (x : Numeral) : List Char := x.whole ++ if x.fraction = [] then [] else '.' :: x.fraction

def text (x : Numeral) : List Char :=
  (if x.negative then ['-'] else []) ++ x.mantissaText ++ x.exponent.elim [] fun e => e.mark :: e.text

def digits (x : Numeral) : List Char := x.whole ++ x.fraction

/-- The digits as one integer. -/
def magnitude (x : Numeral) : Nat := digitsValue x.digits

def exponentValue (x : Numeral) : Int := x.exponent.elim 0 Exponent.value

/-- The power of ten that the last digit counts. -/
def power (x : Numeral) : Int := x.exponentValue - x.fraction.length

def sign (x : Numeral) : Int := if x.negative then -1 else 1

/-- The number that is denoted. -/
def value (x : Numeral) : ℚ := x.sign * x.magnitude * 10 ^ x.power

variable {x : Numeral} {n : Int} {s : Nat}

theorem natAbs_sign (x : Numeral) : x.sign.natAbs = 1 := by
  unfold sign
  split <;> rfl

theorem all_digits (x : Numeral) : x.digits.all Char.isDigit = true := by
  unfold digits
  rw [List.all_append, x.isDigits_whole.2, x.all_fraction]
  rfl

theorem magnitude_lt (x : Numeral) : x.magnitude < 10 ^ x.digits.length := digitsValue_lt x.all_digits

theorem value_eq_zero_iff : x.value = 0 ↔ x.magnitude = 0 := by
  have hsign : x.sign ≠ 0 := Int.natAbs_ne_zero.mp (by rw [natAbs_sign]; omega)
  have hpow : (10 : ℚ) ^ x.power ≠ 0 := zpow_ne_zero _ (by norm_num)
  simp [value, hsign, hpow]

/-- The number over a power of ten, where that leaves an integer. -/
theorem value_eq_div_iff (h : 0 ≤ x.power + s) :
    x.value = n / 10 ^ s ↔ n = x.sign * x.magnitude * 10 ^ (x.power + s).toNat := by
  have hpow : (10 : ℚ) ^ x.power * 10 ^ s = 10 ^ (x.power + s).toNat := by
    rw [← zpow_natCast, ← zpow_natCast, ← zpow_add₀ (by norm_num), Int.toNat_of_nonneg h]
  rw [value, eq_div_iff (tenPow_ne_zero s), mul_assoc, hpow, eq_comm]
  exact_mod_cast Iff.rfl

/-- The number over a power of ten, where the last digits must be zeros. -/
theorem value_eq_div_iff_of_nonpos (h : x.power + s ≤ 0) :
    x.value = n / 10 ^ s ↔ x.sign * x.magnitude = n * 10 ^ (-(x.power + s)).toNat := by
  have hpow : (10 : ℚ) ^ x.power * 10 ^ s * 10 ^ (-(x.power + s)).toNat = 1 := by
    rw [← zpow_natCast, ← zpow_natCast, ← zpow_add₀ (by norm_num), ← zpow_add₀ (by norm_num),
      Int.toNat_of_nonneg (by omega), add_neg_cancel, zpow_zero]
  rw [value, eq_div_iff (tenPow_ne_zero s), ← mul_left_inj' (tenPow_ne_zero (-(x.power + s)).toNat), mul_assoc,
    mul_assoc, ← mul_assoc ((10 : ℚ) ^ x.power), hpow, mul_one]
  exact_mod_cast Iff.rfl

/-- The last digit counts no less than the last place, less one place for every further digit. -/
theorem power_bound (hne : x.magnitude ≠ 0) (h : x.value = n / 10 ^ s) : -(x.power + s) < x.digits.length := by
  by_contra hless
  have hnonpos : x.power + s ≤ 0 := by omega
  have heq := congrArg Int.natAbs ((value_eq_div_iff_of_nonpos hnonpos).mp h)
  rw [Int.natAbs_mul, natAbs_sign, Nat.one_mul, Int.natAbs_natCast, Int.natAbs_mul, Int.natAbs_pow] at heq
  have hn : n.natAbs ≠ 0 := fun hzero => hne (by rw [heq, hzero, Nat.zero_mul])
  have hlarge : 10 ^ x.digits.length ≤ x.magnitude := by
    rw [heq]
    calc 10 ^ x.digits.length ≤ 10 ^ (-(x.power + s)).toNat := Nat.pow_le_pow_right (by omega) (by omega)
      _ ≤ n.natAbs * 10 ^ (-(x.power + s)).toNat := Nat.le_mul_of_pos_left _ (by omega)
  have := x.magnitude_lt
  omega

/-- An integer over so many places is no less than what its last digit counts. -/
theorem magnitude_bound (hne : x.magnitude ≠ 0) (h : x.value = n / 10 ^ s) (hpow : 0 ≤ x.power + s) :
    10 ^ (x.power + s).toNat ≤ n.natAbs := by
  have heq := congrArg Int.natAbs ((value_eq_div_iff hpow).mp h)
  rw [Int.natAbs_mul, Int.natAbs_mul, natAbs_sign, Nat.one_mul, Int.natAbs_natCast, Int.natAbs_pow] at heq
  rw [heq]
  exact Nat.le_mul_of_pos_left _ (by omega)

end Numeral

end Adk
