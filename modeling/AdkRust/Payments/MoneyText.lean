import AdkRust.Lib.Decimal
import AdkRust.Lib.Except
import AdkRust.Payments.Record
import Mathlib.Data.List.TakeWhile

/-!
# Amounts as texts

Amounts as they are parsed and written (`money.rs`).

* `parseDecimal_ok`, `parseDecimal_of_standsFor`: **a numeral is parsed to the least scale it can be written at, if
  that scale is not too high and the amount fits.**
* `parseDecimal_toDecimalString`: **what is written is read back.**
-/

namespace Adk

/-- Largest scale that parsing and rescaling accept (`MAX_MONEY_SCALE`). -/
def maxMoneyScale : Nat := 18

/-- Codes whose minor unit has no decimal places. -/
def zeroDecimalCurrencies : List String :=
  ["BIF", "CLP", "DJF", "GNF", "ISK", "JPY", "KMF", "KRW", "PYG", "RWF", "UGX", "UYI", "VND", "VUV", "XAF", "XOF",
    "XPF"]

/-- Codes whose minor unit has three decimal places. -/
def threeDecimalCurrencies : List String := ["BHD", "IQD", "JOD", "KWD", "LYD", "OMR", "TND"]

/-- Codes whose minor unit has four decimal places. -/
def fourDecimalCurrencies : List String := ["CLF", "UYW"]

def noMinorUnitCurrencies : List String :=
  ["XAG", "XAU", "XBA", "XBB", "XBC", "XBD", "XDR", "XPD", "XPT", "XSU", "XTS", "XUA", "XXX"]

/-- What parsing and arithmetic refuse. -/
inductive MoneyError where
  | invalidDecimal (value reason : String)
  | precisionTooHigh (value : String) (scale maxScale : Nat)
  | overflow (context : String)
  | currencyMismatch (expected found : String)
deriving DecidableEq

def MoneyError.display : MoneyError → String
  | .invalidDecimal value reason =>
    s!"`{value}` is not a valid decimal monetary value: {reason}. Send a plain decimal number such as `12.34`."
  | .precisionTooHigh value scale maxScale =>
    s!"`{value}` requires {scale} fraction digits, more than the allowed {maxScale}. Round the amount to at most {maxScale} decimal places."
  | .overflow context =>
    s!"monetary arithmetic overflowed while computing {context}. Reduce the amount or its precision."
  | .currencyMismatch expected found =>
    s!"currency `{found}` does not match `{expected}`. Express every amount in one cart or mandate in the same currency."

/-- Equal up to the case of ASCII letters. -/
def eqIgnoreAsciiCase (a b : String) : Bool := a.toList.map Char.toLower = b.toList.map Char.toLower

/-! ## Parsing -/

def isMark (c : Char) : Bool := c = 'e' || c = 'E'

/-- The text in front of the mark of an exponent, and what follows the mark. -/
def splitExponent (unsigned : List Char) : List Char × Option (List Char) :=
  match unsigned.dropWhile fun c => !isMark c with
  | [] => (unsigned, none)
  | _ :: exponent => (unsigned.takeWhile fun c => !isMark c, some exponent)

/-- The digits in front of the point and after it. -/
def readMantissa (value : String) (mantissa : List Char) : Except MoneyError (List Char × List Char) :=
  match splitOnce ['.'] mantissa with
  | some (whole, fraction) =>
    if fraction = [] then
      .error (.invalidDecimal value s!"`{String.ofList whole}.` has no digits after the decimal point")
    else .ok (whole, fraction)
  | none => .ok (mantissa, [])

/-- A text without the sign in front of it. -/
def stripSign : List Char → List Char
  | [] => []
  | c :: rest => if c = '+' ∨ c = '-' then rest else c :: rest

/-- The power of ten that is written out, if there is one. -/
def readExponent (value : String) : Option (List Char) → Except MoneyError Int
  | none => .ok 0
  | some exponent =>
    if ¬IsDigits (stripSign exponent) then
      .error (.invalidDecimal value "the exponent must be an optionally signed integer")
    else
      match readI64 exponent with
      | some n => .ok n
      | none => .error (.overflow s!"the exponent of `{value}`")

/-- The parts of a numeral: whether it has a minus, its digits in front of the point and after it, its exponent. -/
def readParts (value : String) : Except MoneyError (Bool × List Char × List Char × Int) := do
  let negative := decide (value.toList.head? = some '-')
  let unsigned := if negative then value.toList.tail else value.toList
  let (mantissa, exponent) := splitExponent unsigned
  let (whole, fraction) ← readMantissa value mantissa
  if ¬IsDigits whole then
    .error (.invalidDecimal value "the integer part must contain only ASCII digits")
  else if fraction.all Char.isDigit = false then
    .error (.invalidDecimal value "the fraction part must contain only ASCII digits")
  else
    let exponent ← readExponent value exponent
    return (negative, whole, fraction, exponent)

/-- Zeros at the end of the digits are dropped, each with a place of the scale, as long as there are places. The
digits are given from the last one on. -/
def dropTrailingZeros : List Char → Int → List Char × Int
  | [], scale => ([], scale)
  | c :: digits, scale => if 0 < scale ∧ c = '0' then dropTrailingZeros digits (scale - 1) else (c :: digits, scale)

/-- The digits as an `i128`. -/
def magnitudeOf (digits : List Char) (acc : Int) : Option Int :=
  digits.foldlM (fun acc digit =>
    (checkedInt 128 (acc * 10)).bind fun tens => checkedInt 128 (tens + (digit.toNat - '0'.toNat : Nat))) acc

/-- The digits as an `i128`, with the zeros of a negative scale. -/
def scaledMagnitude (digits : List Char) (scale : Int) : Option Int :=
  let magnitude := magnitudeOf digits 0
  if scale < 0 then
    magnitude.bind fun magnitude =>
      (if -scale < 2 ^ 32 then checkedInt 128 (10 ^ (-scale).toNat) else none).bind fun factor =>
        checkedInt 128 (magnitude * factor)
  else magnitude

def minorUnits (value : String) (negative : Bool) (digits : List Char) (scale : Int) : Except MoneyError (Int × Nat) :=
  if scale > maxMoneyScale then
    .error (.precisionTooHigh value (if scale < 2 ^ 32 then scale.toNat else 2 ^ 32 - 1) maxMoneyScale)
  else
    match (scaledMagnitude digits scale).bind fun magnitude =>
        checkedInt 64 (if negative then -magnitude else magnitude) with
    | some amountMinor => .ok (amountMinor, scale.toNat)
    | none => .error (.overflow s!"the minor units of `{value}`")

/-- The amount that the parts of a numeral stand for. -/
def fromParts (currency value : String) (negative : Bool) (whole fraction : List Char) (exponent : Int) :
    Except MoneyError Money :=
  let digits := (whole ++ fraction).dropWhile (· = '0')
  if digits = [] then .ok ⟨currency, 0, 0⟩
  else
    match checkedInt 64 fraction.length with
    | none => .error (.overflow s!"the fraction length of `{value}`")
    | some fractionLen =>
      match checkedInt 64 (fractionLen - exponent) with
      | none => .error (.overflow s!"the scale of `{value}`")
      | some scale =>
        let (reversed, scale) := dropTrailingZeros digits.reverse scale
        (minorUnits value negative reversed.reverse scale).map fun (amountMinor, scale) =>
          ⟨currency, amountMinor, scale⟩

/-! ### The parts of a numeral -/

theorem not_mem_digits {c : Char} {digits : List Char} (hdig : digits.all Char.isDigit = true)
    (hc : c.isDigit = false) : c ∉ digits := by
  intro hmem
  rw [List.all_eq_true.mp hdig c hmem] at hc
  cases hc

theorem splitExponent_mantissa (x : Numeral) :
    splitExponent (x.mantissaText ++ x.exponent.elim [] fun e => e.mark :: e.text) =
      (x.mantissaText, x.exponent.map Exponent.text) := by
  have hmantissa : ∀ c ∈ x.mantissaText, (!isMark c) = true := by
    intro c hc
    have hdgt : c.isDigit = true ∨ c = '.' := by
      unfold Numeral.mantissaText at hc
      rcases List.mem_append.mp hc with hc | hc
      · exact .inl (List.all_eq_true.mp x.isDigits_whole.2 c hc)
      · split at hc
        · cases hc
        · rcases List.mem_cons.mp hc with rfl | hc
          · exact .inr rfl
          · exact .inl (List.all_eq_true.mp x.all_fraction c hc)
    have he : c ≠ 'e' := by
      rintro rfl
      revert hdgt
      decide
    have hE : c ≠ 'E' := by
      rintro rfl
      revert hdgt
      decide
    simp [isMark, he, hE]
  unfold splitExponent
  cases hexp : x.exponent with
  | none => rw [Option.elim_none, List.append_nil, List.dropWhile_eq_nil_iff.mpr hmantissa, Option.map_none]
  | some e =>
    have hmark : isMark e.mark = true := by
      rcases e.mark_eq with h | h <;> simp [isMark, h]
    rw [Option.elim_some, List.dropWhile_append_of_pos hmantissa, List.takeWhile_append_of_pos hmantissa]
    simp [hmark]

theorem readMantissa_mantissa (value : String) (x : Numeral) :
    readMantissa value x.mantissaText = .ok (x.whole, x.fraction) := by
  have hpoint := not_mem_digits x.isDigits_whole.2 (by decide : '.'.isDigit = false)
  unfold readMantissa Numeral.mantissaText
  by_cases hfrac : x.fraction = []
  · rw [if_pos hfrac, List.append_nil, splitOnce_of_notMem hpoint, hfrac]
  · rw [if_neg hfrac, splitOnce_append _ hpoint]
    simp only [if_neg hfrac]

theorem stripSign_text (e : Exponent) : stripSign e.text = e.digits := by
  unfold Exponent.text
  rcases e.sign_eq with h | h | h
  · rw [h, List.nil_append]
    obtain ⟨hne, hall⟩ := e.isDigits
    cases hdig : e.digits with
    | nil => exact absurd hdig hne
    | cons c digits =>
      rw [hdig, List.all_cons, Bool.and_eq_true] at hall
      have hsign : ¬(c = '+' ∨ c = '-') := by
        rintro (rfl | rfl)
        · exact absurd hall.1 (by decide)
        · exact absurd hall.1 (by decide)
      exact if_neg hsign
  · rw [h]
    rfl
  · rw [h]
    rfl

theorem parseDigits_eq {digits : List Char} (h : IsDigits digits) : parseDigits digits = some (digitsValue digits) :=
  if_pos h

theorem readI64_text (e : Exponent) : readI64 e.text = checkedInt 64 e.value := by
  have hfilter : ∀ n : Int,
      (some n).filter (fun n => -9223372036854775808 ≤ n && n ≤ 9223372036854775807) = checkedInt 64 n := by
    intro n
    have hiff : (-9223372036854775808 ≤ n && n ≤ 9223372036854775807) = true ↔ FitsSigned 64 n := by
      simp only [Bool.and_eq_true, decide_eq_true_eq, FitsSigned]
      omega
    unfold checkedInt
    rw [Option.filter_some]
    exact if_congr hiff rfl rfl
  unfold readI64 Exponent.text Exponent.value
  rw [← hfilter]
  have hpar := parseDigits_eq e.isDigits
  rcases e.sign_eq with h | h | h
  · obtain ⟨hne, hall⟩ := e.isDigits
    rw [h, List.nil_append, if_neg (by simp)]
    generalize e.digits = digits at *
    split
    · simp at hall
    · simp at hall
    · rw [hpar]
      rfl
  · simp only [h, List.singleton_append, hpar, if_neg (by decide : ¬['+'] = ['-'])]
    rfl
  · simp only [h, List.singleton_append, hpar, if_true]
    rfl

theorem readExponent_text (value : String) (x : Numeral) (n : Int) :
    readExponent value (x.exponent.map Exponent.text) = .ok n ↔ x.exponentValue = n ∧ FitsSigned 64 n := by
  unfold Numeral.exponentValue
  cases hexp : x.exponent with
  | none =>
    simp only [Option.map_none, readExponent, Option.elim_none, Except.ok.injEq]
    constructor
    · rintro rfl
      exact ⟨rfl, by decide⟩
    · exact And.left
  | some e =>
    simp only [Option.map_some, readExponent, stripSign_text, e.isDigits, not_true_eq_false, if_false, readI64_text,
      Option.elim_some]
    cases hfits : checkedInt 64 e.value with
    | some m =>
      obtain ⟨hm, rfl⟩ := checkedInt_eq_some.mp hfits
      simp only [Except.ok.injEq]
      constructor
      · rintro rfl
        exact ⟨rfl, hm⟩
      · exact And.left
    | none =>
      have hnot := checkedInt_eq_none.mp hfits
      simp only [reduceCtorEq, false_iff, not_and]
      rintro rfl
      exact hnot

/-- What is in front of the digits of an exponent. -/
theorem stripSign_eq (text : List Char) :
    ∃ sign, (sign = [] ∨ sign = ['+'] ∨ sign = ['-']) ∧ text = sign ++ stripSign text := by
  cases text with
  | nil => exact ⟨[], .inl rfl, rfl⟩
  | cons c rest =>
    by_cases hc : c = '+' ∨ c = '-'
    · refine ⟨[c], ?_, ?_⟩
      · rcases hc with rfl | rfl <;> simp
      · rw [stripSign, if_pos hc]
        rfl
    · refine ⟨[], .inl rfl, ?_⟩
      rw [stripSign, if_neg hc]
      rfl

theorem readExponent_eq_ok {value : String} {text : List Char} {n : Int} (h : readExponent value (some text) = .ok n)
    {mark : Char} (hmark : mark = 'e' ∨ mark = 'E') : ∃ e : Exponent, e.mark = mark ∧ e.text = text := by
  obtain ⟨sign, hsign, htext⟩ := stripSign_eq text
  simp only [readExponent] at h
  split at h
  next => cases h
  next hdig => exact ⟨⟨mark, sign, stripSign text, hmark, hsign, not_not.mp hdig⟩, rfl, htext.symm⟩

theorem splitExponent_eq (unsigned : List Char) :
    ((splitExponent unsigned).2 = none ∧ (splitExponent unsigned).1 = unsigned) ∨
    ∃ mark exponent, (mark = 'e' ∨ mark = 'E') ∧ (splitExponent unsigned).2 = some exponent ∧
      unsigned = (splitExponent unsigned).1 ++ mark :: exponent := by
  unfold splitExponent
  cases hrest : unsigned.dropWhile fun c => !isMark c with
  | nil => exact .inl ⟨rfl, rfl⟩
  | cons mark exponent =>
    refine .inr ⟨mark, exponent, ?_, rfl, ?_⟩
    · have hmark := List.head?_dropWhile_not (fun c => !isMark c) unsigned
      rw [hrest] at hmark
      rw [or_iff_not_imp_left]
      simpa [isMark] using hmark
    · have happ := List.takeWhile_append_dropWhile (p := fun c => !isMark c) (l := unsigned)
      rw [hrest] at happ
      exact happ.symm

theorem readMantissa_eq_ok {value : String} {mantissa whole fraction : List Char}
    (h : readMantissa value mantissa = .ok (whole, fraction)) :
    mantissa = whole ++ if fraction = [] then [] else '.' :: fraction := by
  unfold readMantissa at h
  split at h
  next hsp =>
    split at h
    next => cases h
    next hne =>
      cases h
      rw [if_neg hne, splitOnce_eq hsp, List.append_assoc]
      rfl
  next =>
    cases h
    rw [if_pos rfl, List.append_nil]

theorem sign_append (text : List Char) :
    (if decide (text.head? = some '-') = true then ['-'] else []) ++
      (if decide (text.head? = some '-') = true then text.tail else text) = text := by
  cases text with
  | nil => rfl
  | cons c rest => by_cases hc : c = '-' <;> simp [hc]

namespace Numeral

theorem decide_head (x : Numeral) : decide (x.text.head? = some '-') = x.negative := by
  unfold text mantissaText
  cases x.negative with
  | true => rfl
  | false =>
    obtain ⟨hne, hall⟩ := x.isDigits_whole
    cases hwh : x.whole with
    | nil => exact absurd hwh hne
    | cons c whole =>
      rw [hwh, List.all_cons, Bool.and_eq_true] at hall
      have hc : c ≠ '-' := by
        rintro rfl
        exact absurd hall.1 (by decide)
      simp [hc]

theorem unsigned (x : Numeral) :
    (if x.negative = true then x.text.tail else x.text) =
      x.mantissaText ++ x.exponent.elim [] fun e => e.mark :: e.text := by
  unfold text
  cases x.negative <;> rfl

end Numeral

theorem readParts_eq_ok {value : String} {negative : Bool} {whole fraction : List Char} {exponent : Int} :
    readParts value = .ok (negative, whole, fraction, exponent) ↔
      ∃ x : Numeral, x.text = value.toList ∧ x.negative = negative ∧ x.whole = whole ∧ x.fraction = fraction ∧
        x.exponentValue = exponent ∧ FitsSigned 64 exponent := by
  constructor
  · intro h
    obtain ⟨⟨whole', fraction'⟩, hmantissa, h⟩ := bind_eq_ok.mp h
    simp only at h
    split at h
    next => cases h
    next hwh =>
      split at h
      next => cases h
      next hfrac =>
        obtain ⟨exponent', hexponent, h⟩ := bind_eq_ok.mp h
        cases h
        have hsign := sign_append value.toList
        generalize decide (value.toList.head? = some '-') = negative at *
        generalize (if negative = true then value.toList.tail else value.toList) = unsigned at *
        have hexponent : readExponent value (splitExponent unsigned).2 = .ok exponent := hexponent
        have htext : (splitExponent unsigned).1 = _ := readMantissa_eq_ok hmantissa
        rcases splitExponent_eq unsigned with ⟨hnone, hall⟩ | ⟨mark, text, hmark, hsome, hunsigned⟩
        · rw [hnone] at hexponent
          rw [hall] at htext
          let x : Numeral := ⟨negative, whole, fraction, none, not_not.mp hwh, by simpa using hfrac⟩
          have hx := (readExponent_text value x exponent).mp hexponent
          refine ⟨x, ?_, rfl, rfl, rfl, hx⟩
          rw [← hsign, htext]
          exact List.append_nil _
        · rw [hsome] at hexponent
          obtain ⟨e, rfl, rfl⟩ := readExponent_eq_ok hexponent hmark
          let x : Numeral := ⟨negative, whole, fraction, some e, not_not.mp hwh, by simpa using hfrac⟩
          have hx := (readExponent_text value x exponent).mp hexponent
          refine ⟨x, ?_, rfl, rfl, rfl, hx⟩
          rw [← hsign, hunsigned, htext]
          exact List.append_assoc _ _ _
  · rintro ⟨x, htext, rfl, rfl, rfl, rfl, hfits⟩
    have hexponent := (readExponent_text value x x.exponentValue).mpr ⟨rfl, hfits⟩
    have hfrac : ¬x.fraction.all Char.isDigit = false := by simp [x.all_fraction]
    unfold readParts
    rw [← htext, x.decide_head]
    simp only [x.unsigned, splitExponent_mantissa, readMantissa_mantissa, hexponent, x.isDigits_whole, hfrac, bind,
      Except.bind, not_true_eq_false, if_false]
    rfl

/-! ### The amount of a numeral -/

theorem dropTrailingZeros_spec (digits : List Char) (scale : Int) :
    ∃ k : Nat, digits = List.replicate k '0' ++ (dropTrailingZeros digits scale).1 ∧
      (dropTrailingZeros digits scale).2 = scale - k ∧ (0 < k → 0 ≤ scale - k) ∧
      (0 < (dropTrailingZeros digits scale).2 → (dropTrailingZeros digits scale).1.head? ≠ some '0') := by
  induction digits generalizing scale with
  | nil => exact ⟨0, rfl, by simp [dropTrailingZeros], by omega, by simp [dropTrailingZeros]⟩
  | cons c digits ih =>
    by_cases hc : 0 < scale ∧ c = '0'
    · obtain ⟨k, hdig, hsc, hplaces, hlast⟩ := ih (scale - 1)
      have hdrop : dropTrailingZeros (c :: digits) scale = dropTrailingZeros digits (scale - 1) := if_pos hc
      rw [hdrop]
      refine ⟨k + 1, ?_, by omega, ?_, hlast⟩
      · rw [List.replicate_succ, List.cons_append, ← hdig, hc.2]
      · intro _
        have := hc.1
        by_cases hk : 0 < k
        · have := hplaces hk
          omega
        · omega
    · have hdrop : dropTrailingZeros (c :: digits) scale = (c :: digits, scale) := if_neg hc
      rw [hdrop]
      refine ⟨0, rfl, by simp, by omega, ?_⟩
      intro hpos
      simpa using fun heq => hc ⟨hpos, heq⟩

theorem le_ofDigitChars (digits : List Char) (acc : Nat) : acc ≤ Nat.ofDigitChars 10 digits acc := by
  rw [Nat.ofDigitChars_eq_ofDigitChars_zero]
  calc acc ≤ 10 ^ digits.length * acc := Nat.le_mul_of_pos_left _ (by positivity)
    _ ≤ _ := Nat.le_add_right _ _

theorem magnitudeOf_cons (c : Char) (digits : List Char) (acc : Int) :
    magnitudeOf (c :: digits) acc =
      ((checkedInt 128 (acc * 10)).bind fun tens => checkedInt 128 (tens + (c.toNat - '0'.toNat : Nat))).bind
        (magnitudeOf digits) := List.foldlM_cons

/-- The steps fit an `i128` if the number does. -/
theorem magnitudeOf_eq {digits : List Char} {acc : Nat} (hacc : FitsSigned 128 acc) :
    magnitudeOf digits acc = checkedInt 128 (Nat.ofDigitChars 10 digits acc) := by
  induction digits generalizing acc with
  | nil =>
    rw [Nat.ofDigitChars_nil, checkedInt_of_fits hacc]
    rfl
  | cons c digits ih =>
    have hle := le_ofDigitChars digits (10 * acc + (c.toNat - '0'.toNat))
    have hcast : (acc : Int) * 10 + (c.toNat - '0'.toNat : Nat) = (10 * acc + (c.toNat - '0'.toNat) : Nat) := by
      push_cast
      ring
    rw [Nat.ofDigitChars_cons, magnitudeOf_cons]
    by_cases hfits : FitsSigned 128 (Nat.ofDigitChars 10 digits (10 * acc + (c.toNat - '0'.toNat)))
    · -- every number on the way is below the last one
      have htens : FitsSigned 128 ((acc : Int) * 10) := hfits.of_le (by omega) (by omega)
      have hsum : FitsSigned 128 (10 * acc + (c.toNat - '0'.toNat) : Nat) := hfits.of_le (by omega) (by omega)
      rw [checkedInt_of_fits htens, Option.bind_some, hcast, checkedInt_of_fits hsum, Option.bind_some, ih hsum]
    · rw [checkedInt_eq_none.mpr hfits]
      by_cases htens : FitsSigned 128 ((acc : Int) * 10)
      · rw [checkedInt_of_fits htens, Option.bind_some, hcast]
        by_cases hsum : FitsSigned 128 (10 * acc + (c.toNat - '0'.toNat) : Nat)
        · rw [checkedInt_of_fits hsum, Option.bind_some, ih hsum, checkedInt_eq_none.mpr hfits]
        · rw [checkedInt_eq_none.mpr hsum, Option.bind_none]
      · rw [checkedInt_eq_none.mpr htens, Option.bind_none, Option.bind_none]

def unitsOf (negative : Bool) (digits : List Char) (scale : Int) : Int :=
  (if negative then -1 else 1) * digitsValue digits * 10 ^ (-scale).toNat

theorem fits_tenPow {k : Nat} (h : k ≤ 38) : FitsSigned 128 (10 ^ k) := by
  have hle : (10 : Int) ^ k ≤ 10 ^ 38 := by exact_mod_cast Nat.pow_le_pow_right (by omega) h
  have hpos : (0 : Int) < 10 ^ k := by positivity
  unfold FitsSigned
  omega

theorem unitsOf_eq (negative : Bool) (digits : List Char) (scale : Int) :
    unitsOf negative digits scale =
      if negative then -(digitsValue digits * 10 ^ (-scale).toNat : Int) else digitsValue digits * 10 ^ (-scale).toNat := by
  unfold unitsOf
  split <;> ring

theorem scaledMagnitude_eq_some {digits : List Char} {scale magnitude : Int}
    (h : scaledMagnitude digits scale = some magnitude) : magnitude = digitsValue digits * 10 ^ (-scale).toNat := by
  have hzero : FitsSigned 128 (0 : Nat) := by decide
  have hdig : magnitudeOf digits 0 = checkedInt 128 (digitsValue digits) := magnitudeOf_eq hzero
  unfold scaledMagnitude at h
  simp only [hdig] at h
  split at h
  next =>
    obtain ⟨m, hm, h⟩ := Option.bind_eq_some_iff.mp h
    obtain ⟨factor, hfactor, h⟩ := Option.bind_eq_some_iff.mp h
    split at hfactor
    next =>
      obtain ⟨-, rfl⟩ := checkedInt_eq_some.mp hm
      obtain ⟨-, rfl⟩ := checkedInt_eq_some.mp hfactor
      exact (checkedInt_eq_some.mp h).2.symm
    next => cases hfactor
  next hsc =>
    have hnone : (-scale).toNat = 0 := by omega
    rw [hnone, pow_zero, mul_one]
    exact (checkedInt_eq_some.mp h).2.symm

theorem scaledMagnitude_of_fits {digits : List Char} {scale : Int} (hpos : 0 < digitsValue digits)
    (hfits : digitsValue digits * 10 ^ (-scale).toNat ≤ 2 ^ 63) :
    scaledMagnitude digits scale = some (digitsValue digits * 10 ^ (-scale).toNat : Int) := by
  have hzero : FitsSigned 128 (0 : Nat) := by decide
  have hdig : magnitudeOf digits 0 = checkedInt 128 (digitsValue digits) := magnitudeOf_eq hzero
  have hpower : 10 ^ (-scale).toNat ≤ digitsValue digits * 10 ^ (-scale).toNat := Nat.le_mul_of_pos_left _ hpos
  have hfew : (-scale).toNat < 19 := by
    by_contra hmany
    have hlarge : 10 ^ 19 ≤ 10 ^ (-scale).toNat := Nat.pow_le_pow_right (by omega) (by omega)
    omega
  have hall : FitsSigned 128 (digitsValue digits * 10 ^ (-scale).toNat : Nat) := by
    have hmax : FitsSigned 128 (2 ^ 63) := by decide
    exact hmax.of_le (by omega) (by exact_mod_cast hfits)
  have hone : FitsSigned 128 (digitsValue digits) := by
    refine hall.of_le (by omega) ?_
    exact_mod_cast Nat.le_mul_of_pos_right _ (by positivity)
  unfold scaledMagnitude
  simp only [hdig]
  split
  next hsc =>
    rw [checkedInt_of_fits hone, Option.bind_some, if_pos (by omega), checkedInt_of_fits (fits_tenPow (by omega)),
      Option.bind_some]
    rw [Nat.cast_mul, Nat.cast_pow] at hall
    exact checkedInt_of_fits hall
  next hsc =>
    have hnone : (-scale).toNat = 0 := by omega
    rw [hnone, pow_zero, mul_one, checkedInt_of_fits hone]

theorem minorUnits_eq_ok {value : String} {negative : Bool} {digits : List Char} {scale : Int} {n : Int} {s : Nat}
    (hpos : 0 < digitsValue digits) :
    minorUnits value negative digits scale = .ok (n, s) ↔
      scale ≤ maxMoneyScale ∧ FitsSigned 64 n ∧ n = unitsOf negative digits scale ∧ s = scale.toNat := by
  unfold minorUnits
  by_cases hsc : scale > maxMoneyScale
  · rw [if_pos hsc]
    simp only [reduceCtorEq, false_iff, not_and]
    intro hle
    omega
  · rw [if_neg hsc]
    by_cases hfits : FitsSigned 64 (unitsOf negative digits scale)
    · have hle : digitsValue digits * 10 ^ (-scale).toNat ≤ 2 ^ 63 := by
        rw [unitsOf_eq] at hfits
        unfold FitsSigned at hfits
        have : (digitsValue digits * 10 ^ (-scale).toNat : Int) ≤ 2 ^ 63 := by
          split at hfits <;> omega
        exact_mod_cast this
      have hchk : checkedInt 64 (if negative then -(digitsValue digits * 10 ^ (-scale).toNat : Int)
          else digitsValue digits * 10 ^ (-scale).toNat) = some (unitsOf negative digits scale) := by
        rw [← unitsOf_eq, checkedInt_of_fits hfits]
      rw [scaledMagnitude_of_fits hpos hle, Option.bind_some, hchk]
      simp only [Except.ok.injEq, Prod.mk.injEq]
      constructor
      · rintro ⟨rfl, rfl⟩
        exact ⟨by omega, hfits, rfl, rfl⟩
      · rintro ⟨-, -, rfl, rfl⟩
        exact ⟨rfl, rfl⟩
    · have hnone : (scaledMagnitude digits scale).bind
          (fun magnitude => checkedInt 64 (if negative then -magnitude else magnitude)) = none := by
        cases hmag : scaledMagnitude digits scale with
        | none => rfl
        | some magnitude =>
          rw [scaledMagnitude_eq_some hmag, Option.bind_some, ← unitsOf_eq]
          exact checkedInt_eq_none.mpr hfits
      rw [hnone]
      simp only [reduceCtorEq, false_iff, not_and]
      rintro - hn rfl
      exact absurd hn hfits

theorem digitsValue_replicate (digits : List Char) (k : Nat) :
    digitsValue (digits ++ List.replicate k '0') = digitsValue digits * 10 ^ k := by
  rw [digitsValue_append, List.length_replicate]
  have hzero : digitsValue (List.replicate k '0') = 0 := by
    unfold digitsValue
    rw [Nat.ofDigitChars_replicate_zero, Nat.mul_zero]
  rw [hzero, Nat.add_zero]

/-- The last digit tells whether ten divides the number. -/
theorem not_ten_dvd {digits : List Char} {c : Char} (hdgt : c.isDigit = true) (hc : c ≠ '0') :
    ¬10 ∣ digitsValue (digits ++ [c]) := by
  have hlt := toNat_sub_lt hdgt
  have hpos : 0 < c.toNat - '0'.toNat := by
    have hle := (Char.isDigit_iff_toNat.mp hdgt).1
    have hne : c.toNat ≠ '0'.toNat := fun heq => hc (Char.toNat_inj.mp heq)
    omega
  rw [digitsValue_concat]
  omega

/-- The digits without the zeros in front. -/
theorem digitsValue_significant (x : Numeral) : digitsValue (x.digits.dropWhile (· = '0')) = x.magnitude :=
  digitsValue_dropZeros x.digits

theorem significant_eq_nil_iff (x : Numeral) : x.digits.dropWhile (· = '0') = [] ↔ x.magnitude = 0 := by
  constructor
  · intro h
    rw [← digitsValue_significant, h, digitsValue_nil]
  · intro h
    have hval := digitsValue_significant x
    cases hdig : x.digits.dropWhile (· = '0') with
    | nil => rfl
    | cons c digits =>
      have hc := List.head?_dropWhile_not (· = '0') x.digits
      have hmem : c ∈ x.digits := (List.dropWhile_sublist _).subset (by rw [hdig]; exact List.mem_cons_self)
      have hdgt := List.all_eq_true.mp x.all_digits c hmem
      rw [hdig] at hc hval
      have hpos := @digitsValue_pos c digits hdgt (by simpa using hc)
      have hpow : 0 < 10 ^ digits.length := by positivity
      omega

/-- Without its last zeros, a numeral is over the least power of ten that it can be written over. -/
theorem reduced_dropTrailingZeros {x : Numeral} (hne : x.magnitude ≠ 0) {reversed : List Char} {scale : Int}
    (h : dropTrailingZeros (x.digits.dropWhile (· = '0')).reverse (-x.power) = (reversed, scale)) :
    0 < digitsValue reversed.reverse ∧ Reduced x.value (unitsOf x.negative reversed.reverse scale) scale.toNat := by
  obtain ⟨k, hdig, hsc, hplaces, hlast⟩ :=
    dropTrailingZeros_spec (x.digits.dropWhile (· = '0')).reverse (-x.power)
  rw [h] at hdig hsc hlast
  simp only at hdig hsc hlast
  have hsp : x.digits.dropWhile (· = '0') = reversed.reverse ++ List.replicate k '0' := by
    rw [← List.reverse_reverse (x.digits.dropWhile (· = '0')), hdig, List.reverse_append, List.reverse_replicate]
  have hmag : x.magnitude = digitsValue reversed.reverse * 10 ^ k := by
    rw [← digitsValue_significant, hsp, digitsValue_replicate]
  have hpos : 0 < digitsValue reversed.reverse := by
    refine Nat.pos_of_ne_zero fun hzero => hne ?_
    rw [hmag, hzero, Nat.zero_mul]
  have hsign : (if x.negative then -1 else 1 : Int) = x.sign := rfl
  refine ⟨hpos, reduced_iff.mpr ⟨?_, ?_⟩⟩
  · by_cases hneg : scale < 0
    · -- no zero was dropped
      have hk : k = 0 := by
        by_contra hk
        have := hplaces (Nat.pos_of_ne_zero hk)
        omega
      rw [Numeral.value_eq_div_iff (by omega)]
      have hpower : (x.power + scale.toNat).toNat = (-scale).toNat := by omega
      rw [unitsOf, hsign, hmag, hk, hpower, pow_zero, Nat.mul_one]
    · rw [Numeral.value_eq_div_iff_of_nonpos (by omega)]
      have hpower : (-(x.power + scale.toNat)).toNat = k := by omega
      have hnone : (-scale).toNat = 0 := by omega
      rw [unitsOf, hsign, hmag, hpower, hnone, pow_zero, mul_one]
      push_cast
      ring
  · by_cases hzero : scale.toNat = 0
    · exact .inl hzero
    · refine .inr ?_
      have hnone : (-scale).toNat = 0 := by omega
      have hhead := hlast (by omega)
      cases reversed with
      | nil => exact absurd hpos (by simp)
      | cons c rest =>
        have hmem : c ∈ x.digits := by
          apply (List.dropWhile_sublist (· = '0')).subset
          rw [hsp]
          simp
        have hdvd := @not_ten_dvd rest.reverse c (List.all_eq_true.mp x.all_digits c hmem) (by simpa using hhead)
        rw [unitsOf, hsign, hnone, pow_zero, mul_one, List.reverse_cons]
        intro hten
        apply hdvd
        have hnat := Int.natAbs_dvd_natAbs.mpr hten
        rw [Int.natAbs_mul, Numeral.natAbs_sign, Nat.one_mul, Int.natAbs_natCast] at hnat
        exact hnat

namespace Money

/-- An amount in a currency, at the least scale that its number can be written at. -/
structure StandsFor (m : Money) (currency : String) (q : ℚ) : Prop where
  currency : m.currency = currency
  reduced : Reduced q m.amountMinor m.scale
  scale_le : m.scale ≤ maxMoneyScale
  fits : FitsSigned 64 m.amountMinor

end Money

theorem fromParts_zero {currency value : String} {x : Numeral} (hzero : x.magnitude = 0) (e : Int) :
    fromParts currency value x.negative x.whole x.fraction e = .ok ⟨currency, 0, 0⟩ := by
  have hnil := (significant_eq_nil_iff x).mpr hzero
  unfold Numeral.digits at hnil
  unfold fromParts
  simp only [hnil, if_true]

theorem fromParts_eq {currency value : String} {x : Numeral} (hne : x.magnitude ≠ 0)
    (hfrac : FitsSigned 64 x.fraction.length) (hsc : FitsSigned 64 (-x.power)) {reversed : List Char}
    {scale : Int} (h : dropTrailingZeros (x.digits.dropWhile (· = '0')).reverse (-x.power) = (reversed, scale)) :
    fromParts currency value x.negative x.whole x.fraction x.exponentValue =
      (minorUnits value x.negative reversed.reverse scale).map fun (amountMinor, scale) =>
        ⟨currency, amountMinor, scale⟩ := by
  have hdig := mt (significant_eq_nil_iff x).mp hne
  have hpower : (x.fraction.length : Int) - x.exponentValue = -x.power := by
    unfold Numeral.power
    omega
  unfold Numeral.digits at hdig h
  unfold fromParts
  simp only [if_neg hdig, checkedInt_of_fits hfrac, hpower, checkedInt_of_fits hsc, h]

theorem fromParts_error {currency value : String} {x : Numeral} (hne : x.magnitude ≠ 0)
    (h : ¬(FitsSigned 64 x.fraction.length ∧ FitsSigned 64 (-x.power))) :
    fromParts currency value x.negative x.whole x.fraction x.exponentValue =
      .error (.overflow (if FitsSigned 64 x.fraction.length then s!"the scale of `{value}`"
        else s!"the fraction length of `{value}`")) := by
  have hdig := mt (significant_eq_nil_iff x).mp hne
  have hpower : (x.fraction.length : Int) - x.exponentValue = -x.power := by
    unfold Numeral.power
    omega
  unfold Numeral.digits at hdig
  unfold fromParts
  by_cases hfrac : FitsSigned 64 x.fraction.length
  · have hsc : ¬FitsSigned 64 (-x.power) := fun hsc => h ⟨hfrac, hsc⟩
    rw [if_pos hfrac]
    simp only [if_neg hdig, checkedInt_of_fits hfrac, hpower, checkedInt_eq_none.mpr hsc]
  · rw [if_neg hfrac]
    simp only [if_neg hdig, checkedInt_eq_none.mpr hfrac]

/-- A numeral that is parsed is parsed to its least scale. -/
theorem fromParts_ok {currency value : String} {x : Numeral} {m : Money}
    (h : fromParts currency value x.negative x.whole x.fraction x.exponentValue = .ok m) :
    m.StandsFor currency x.value := by
  by_cases hzero : x.magnitude = 0
  · rw [fromParts_zero hzero] at h
    cases h
    refine ⟨rfl, reduced_iff.mpr ⟨?_, .inl rfl⟩, Nat.zero_le _, .zero 64⟩
    rw [Numeral.value_eq_zero_iff.mpr hzero]
    simp
  · by_cases hfits : FitsSigned 64 x.fraction.length ∧ FitsSigned 64 (-x.power)
    · obtain ⟨⟨reversed, scale⟩, hdrop⟩ : ∃ p, dropTrailingZeros (x.digits.dropWhile (· = '0')).reverse (-x.power) = p :=
        ⟨_, rfl⟩
      obtain ⟨hpos, hreduced⟩ := reduced_dropTrailingZeros hzero hdrop
      rw [fromParts_eq hzero hfits.1 hfits.2 hdrop] at h
      cases hminor : minorUnits value x.negative reversed.reverse scale with
      | error error =>
        rw [hminor] at h
        cases h
      | ok units =>
        obtain ⟨n, s⟩ := units
        obtain ⟨hle, hn, rfl, rfl⟩ := (minorUnits_eq_ok hpos).mp hminor
        rw [hminor] at h
        cases h
        exact ⟨rfl, hreduced, Int.toNat_le.mpr hle, hn⟩
    · rw [fromParts_error hzero hfits] at h
      cases h

/-- A numeral is parsed if its least scale is not too high and the minor units fit. -/
theorem fromParts_of_standsFor {currency value : String} {x : Numeral} {m : Money}
    (hfits : FitsSigned 64 x.exponentValue) (hlen : x.digits.length + 17 < 2 ^ 63)
    (h : m.StandsFor currency x.value) :
    fromParts currency value x.negative x.whole x.fraction x.exponentValue = .ok m := by
  by_cases hzero : x.magnitude = 0
  · rw [fromParts_zero hzero]
    have hreduced : Reduced x.value 0 0 := by
      refine reduced_iff.mpr ⟨?_, .inl rfl⟩
      rw [Numeral.value_eq_zero_iff.mpr hzero]
      simp
    obtain ⟨hn, hs⟩ := h.reduced.unique hreduced
    have hcur := h.currency
    cases m
    simp_all
  · have hpts : x.digits.length = x.whole.length + x.fraction.length := List.length_append
    have hfrac : FitsSigned 64 x.fraction.length := by
      unfold FitsSigned
      omega
    -- the last digit cannot count less than the eighteenth place, but for the zeros behind it
    have hsc : FitsSigned 64 (-x.power) := by
      have hbd := Numeral.power_bound hzero h.reduced.eq
      have hle : m.scale ≤ 18 := h.scale_le
      unfold FitsSigned at *
      unfold Numeral.power at *
      omega
    obtain ⟨⟨reversed, scale⟩, hdrop⟩ : ∃ p, dropTrailingZeros (x.digits.dropWhile (· = '0')).reverse (-x.power) = p :=
      ⟨_, rfl⟩
    obtain ⟨hpos, hreduced⟩ := reduced_dropTrailingZeros hzero hdrop
    obtain ⟨hn, hs⟩ := h.reduced.unique hreduced
    have hle : m.scale ≤ maxMoneyScale := h.scale_le
    have hminor := (@minorUnits_eq_ok value _ _ _ _ _ hpos).mpr
      ⟨by omega, h.fits, hn, hs⟩
    rw [fromParts_eq hzero hfrac hsc hdrop, hminor]
    have hcur := h.currency
    cases m
    cases hcur
    rfl

theorem Numeral.length_digits_le (x : Numeral) : x.digits.length ≤ x.text.length := by
  unfold Numeral.digits Numeral.text Numeral.mantissaText
  by_cases hfrac : x.fraction = []
  · rw [hfrac]
    simp
    omega
  · simp [if_neg hfrac]
    omega

namespace Money

/-- The number of major units. -/
def value (m : Money) : ℚ := m.amountMinor / 10 ^ m.scale

/-- An amount as its type holds it, at a scale that parsing and rescaling accept. -/
structure Exact (m : Money) : Prop where
  fits : FitsSigned 64 m.amountMinor
  scale_le : m.scale ≤ maxMoneyScale

variable {m : Money} {currency text : String}

theorem StandsFor.value_eq {q : ℚ} (h : m.StandsFor currency q) : m.value = q :=
  h.reduced.eq.symm

/-- Parses a decimal text without rounding. -/
def parseDecimal (currency value : String) : Except MoneyError Money := do
  let (negative, whole, fraction, exponent) ← readParts value
  fromParts currency value negative whole fraction exponent

theorem parseDecimal_eq_ok :
    parseDecimal currency text = .ok m ↔
      ∃ x : Numeral, x.text = text.toList ∧ FitsSigned 64 x.exponentValue ∧
        fromParts currency text x.negative x.whole x.fraction x.exponentValue = .ok m := by
  unfold parseDecimal
  rw [bind_eq_ok]
  constructor
  · rintro ⟨⟨negative, whole, fraction, exponent⟩, hpts, h⟩
    obtain ⟨x, htext, rfl, rfl, rfl, rfl, hfits⟩ := readParts_eq_ok.mp hpts
    exact ⟨x, htext, hfits, h⟩
  · rintro ⟨x, htext, hfits, h⟩
    exact ⟨_, readParts_eq_ok.mpr ⟨x, htext, rfl, rfl, rfl, rfl, hfits⟩, h⟩

theorem parseDecimal_ok (h : parseDecimal currency text = .ok m) :
    ∃ x : Numeral, x.text = text.toList ∧ m.StandsFor currency x.value := by
  obtain ⟨x, htext, -, hpts⟩ := parseDecimal_eq_ok.mp h
  exact ⟨x, htext, fromParts_ok hpts⟩

/-- No amount that fits is written with an exponent that does not, unless it is zero. -/
theorem fits_exponentValue {x : Numeral} (hlen : x.digits.length + 17 < 2 ^ 63)
    (hzero : x.value = 0 → FitsSigned 64 x.exponentValue) (h : m.StandsFor currency x.value) :
    FitsSigned 64 x.exponentValue := by
  by_cases hmag : x.magnitude = 0
  · exact hzero (Numeral.value_eq_zero_iff.mpr hmag)
  · have hbd := Numeral.power_bound hmag h.reduced.eq
    have hsc : m.scale ≤ 18 := h.scale_le
    have hdig : x.digits.length = x.whole.length + x.fraction.length := List.length_append
    have hwh := List.length_pos_iff.mpr x.isDigits_whole.1
    have hpower : x.power = x.exponentValue - x.fraction.length := rfl
    unfold FitsSigned
    refine ⟨by omega, ?_⟩
    by_contra hlarge
    have hbig := Numeral.magnitude_bound hmag h.reduced.eq (by omega)
    have hmany : 10 ^ 19 ≤ 10 ^ (x.power + m.scale).toNat := Nat.pow_le_pow_right (by omega) (by omega)
    have hfits := h.fits
    unfold FitsSigned at hfits
    omega

theorem parseDecimal_of_standsFor {x : Numeral} (htext : x.text = text.toList)
    (hlen : text.length + 17 < 2 ^ 63) (hzero : x.value = 0 → FitsSigned 64 x.exponentValue)
    (h : m.StandsFor currency x.value) : parseDecimal currency text = .ok m := by
  have hdig := x.length_digits_le
  rw [htext, String.length_toList] at hdig
  have hfits := fits_exponentValue (by omega) hzero h
  exact parseDecimal_eq_ok.mpr ⟨x, htext, hfits, fromParts_of_standsFor hfits (by omega) h⟩

end Money

/-! ## Writing -/

namespace Money

/-- Digits with zeros in front, up to a width. -/
def zeroPadded (width n : Nat) : List Char :=
  List.replicate (width - (Nat.toDigits 10 n).length) '0' ++ Nat.toDigits 10 n

/-- The amount as a plain decimal text, or with an exponent where the scale is too high. -/
def toDecimalString (m : Money) : String :=
  let sign := if m.amountMinor < 0 then ['-'] else []
  let magnitude := m.amountMinor.natAbs
  if m.scale = 0 then String.ofList (sign ++ Nat.toDigits 10 magnitude)
  else if maxMoneyScale < m.scale then
    String.ofList (sign ++ Nat.toDigits 10 magnitude ++ ['e', '-'] ++ Nat.toDigits 10 m.scale)
  else
    let width := m.scale + 1
    let digits := zeroPadded width magnitude
    String.ofList
      (sign ++ digits.take (digits.length - (width - 1)) ++ ['.'] ++ digits.drop (digits.length - (width - 1)))

theorem all_toDigits (n : Nat) : (Nat.toDigits 10 n).all Char.isDigit = true :=
  List.all_eq_true.mpr fun _ hc => Nat.isDigit_of_mem_toDigits (by omega) (by omega) hc

theorem all_zeroPadded (width n : Nat) : (zeroPadded width n).all Char.isDigit = true := by
  unfold zeroPadded
  rw [List.all_append, all_toDigits, List.all_replicate]
  simp

theorem digitsValue_zeroPadded (width n : Nat) : digitsValue (zeroPadded width n) = n := by
  unfold zeroPadded digitsValue
  rw [Nat.ofDigitChars_append, Nat.ofDigitChars_replicate_zero, Nat.mul_zero, Nat.ofDigitChars_ten_toDigits]

theorem length_zeroPadded (width n : Nat) :
    (zeroPadded width n).length = max width (Nat.toDigits 10 n).length := by
  unfold zeroPadded
  rw [List.length_append, List.length_replicate]
  omega

theorem length_toDigits_natAbs {n : Int} (h : FitsSigned 64 n) : (Nat.toDigits 10 n.natAbs).length ≤ 19 := by
  apply (Nat.length_toDigits_le_iff (by omega) (by omega)).mpr
  unfold FitsSigned at h
  omega

theorem sign_mul_natAbs (n : Int) : (if decide (n < 0) = true then -1 else 1) * (n.natAbs : Int) = n := by
  by_cases hneg : n < 0
  · simp only [hneg, decide_true, if_true]
    omega
  · simp only [hneg, decide_false, Bool.false_eq_true, if_false]
    omega

/-- What is written is a numeral of the same number. -/
theorem exists_text_toDecimalString {m : Money} (h : m.Exact) :
    ∃ x : Numeral, x.text = m.toDecimalString.toList ∧ x.value = m.value ∧ x.exponent = none ∧
      x.digits.length ≤ 19 := by
  have hlen := length_toDigits_natAbs h.fits
  by_cases hzero : m.scale = 0
  · let x : Numeral := ⟨decide (m.amountMinor < 0), Nat.toDigits 10 m.amountMinor.natAbs, [], none,
      ⟨Nat.toDigits_ne_nil, all_toDigits _⟩, rfl⟩
    refine ⟨x, ?_, ?_, rfl, ?_⟩
    · unfold toDecimalString
      simp [hzero, Numeral.text, Numeral.mantissaText, x]
    · have hpower : x.power = 0 := rfl
      have hmag : x.magnitude = m.amountMinor.natAbs := by
        unfold Numeral.magnitude Numeral.digits
        rw [List.append_nil]
        exact Nat.ofDigitChars_ten_toDigits
      unfold value
      rw [Numeral.value_eq_div_iff (by omega), hpower, hzero, hmag]
      exact (sign_mul_natAbs _).symm.trans (mul_one _).symm
    · simpa [Numeral.digits, x] using hlen
  · have hsc : ¬maxMoneyScale < m.scale := Nat.not_lt.mpr h.scale_le
    have hle : m.scale ≤ 18 := h.scale_le
    have hwidth := length_zeroPadded (m.scale + 1) m.amountMinor.natAbs
    have hall := all_zeroPadded (m.scale + 1) m.amountMinor.natAbs
    have hval := digitsValue_zeroPadded (m.scale + 1) m.amountMinor.natAbs
    have htext : m.toDecimalString.toList =
        (if m.amountMinor < 0 then ['-'] else []) ++
          (zeroPadded (m.scale + 1) m.amountMinor.natAbs).take
            ((zeroPadded (m.scale + 1) m.amountMinor.natAbs).length - m.scale) ++ ['.'] ++
          (zeroPadded (m.scale + 1) m.amountMinor.natAbs).drop
            ((zeroPadded (m.scale + 1) m.amountMinor.natAbs).length - m.scale) := by
      unfold toDecimalString
      simp only [if_neg hzero, if_neg hsc, Nat.add_sub_cancel, String.toList_ofList]
    generalize zeroPadded (m.scale + 1) m.amountMinor.natAbs = digits at *
    have hsp := List.take_append_drop (digits.length - m.scale) digits
    have hfrac : (digits.drop (digits.length - m.scale)).length = m.scale := by
      rw [List.length_drop]
      omega
    have hne : digits.drop (digits.length - m.scale) ≠ [] := List.ne_nil_of_length_pos (by omega)
    rw [← hsp, List.all_append, Bool.and_eq_true] at hall
    let x : Numeral := ⟨decide (m.amountMinor < 0), digits.take (digits.length - m.scale),
      digits.drop (digits.length - m.scale), none,
      ⟨List.ne_nil_of_length_pos (by rw [List.length_take]; omega), hall.1⟩, hall.2⟩
    have hdig : x.digits = digits := hsp
    refine ⟨x, ?_, ?_, rfl, ?_⟩
    · rw [htext]
      simp [Numeral.text, Numeral.mantissaText, x, hne]
    · have hpower : x.power + m.scale = 0 := by
        show 0 - ((digits.drop (digits.length - m.scale)).length : Int) + m.scale = 0
        omega
      unfold value
      rw [Numeral.value_eq_div_iff (by omega), hpower, Numeral.magnitude, hdig, hval]
      exact (sign_mul_natAbs _).symm.trans (mul_one _).symm
    · rw [hdig, hwidth]
      omega

/-- An amount over the least power of ten. -/
theorem exists_standsFor {m : Money} (h : m.Exact) : ∃ m' : Money, m'.StandsFor m.currency m.value := by
  obtain ⟨currency, n, s⟩ := m
  have hfits : FitsSigned 64 n := h.fits
  have hsc : s ≤ maxMoneyScale := h.scale_le
  clear h
  induction s generalizing n with
  | zero => exact ⟨⟨currency, n, 0⟩, rfl, reduced_iff.mpr ⟨rfl, .inl rfl⟩, hsc, hfits⟩
  | succ s ih =>
    by_cases hdvd : 10 ∣ n
    · obtain ⟨k, rfl⟩ := hdvd
      have hval : value ⟨currency, 10 * k, s + 1⟩ = value ⟨currency, k, s⟩ := by
        unfold value
        rw [eq_comm, div_tenPow_eq_iff (Nat.le_succ s), Nat.succ_sub (Nat.le_refl s), Nat.sub_self]
        ring
      have hk : FitsSigned 64 k := by
        unfold FitsSigned at *
        omega
      rw [hval]
      exact ih k hk (Nat.le_of_succ_le hsc)
    · exact ⟨⟨currency, n, s + 1⟩, rfl, reduced_iff.mpr ⟨rfl, .inr hdvd⟩, hsc, hfits⟩

/-- **What is written is read back.** -/
theorem parseDecimal_toDecimalString {m : Money} (h : m.Exact) :
    ∃ m', parseDecimal m.currency m.toDecimalString = .ok m' ∧ m'.currency = m.currency ∧ m'.value = m.value := by
  obtain ⟨x, htext, hval, hexponent, hlen⟩ := exists_text_toDecimalString h
  obtain ⟨m', hm'⟩ := exists_standsFor h
  have hfits : FitsSigned 64 x.exponentValue := by
    unfold Numeral.exponentValue
    rw [hexponent]
    exact .zero 64
  rw [← hval] at hm'
  refine ⟨m', ?_, hm'.currency, hm'.value_eq.trans hval⟩
  exact parseDecimal_eq_ok.mpr ⟨x, htext, hfits, fromParts_of_standsFor hfits (by omega) hm'⟩

end Money

end Adk
