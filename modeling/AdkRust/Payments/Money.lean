import AdkRust.Payments.MoneyText

/-!
# Exact amounts

Amounts moved between scales, added and compared (`money.rs`), as the rationals they stand for.

* `rescaled_eq_ok`: **an amount is moved to any scale that is accepted, if one of 64 bits is there.**
* `checkedCombine_ok`, `checkedCombine_of_isAt`: sums and differences are exact, and there where both amounts fit at
  the larger scale.
* `compareAmount_eq`: amounts are compared as the rationals they are.
* `exactly`: reading, writing and arithmetic together.
-/

namespace Adk.Money

def isoMinorUnitScale (currency : String) : Option Nat :=
  if currency.toList.length ≠ 3 ∨ currency.toList.all Char.isAlpha = false then none
  else
    let code := String.ofList (currency.toList.map Char.toUpper)
    if code ∈ noMinorUnitCurrencies then none
    else if code ∈ zeroDecimalCurrencies then some 0
    else if code ∈ threeDecimalCurrencies then some 3
    else if code ∈ fourDecimalCurrencies then some 4
    else some 2

/-- A power of ten that fits an `i64`. -/
def checkedPow (power : Nat) : Option Int := checkedInt 64 (10 ^ power)

/-- The amount at another scale, without rounding. -/
def rescaled (m : Money) (scale : Nat) : Except MoneyError Money :=
  if maxMoneyScale < scale then .error (.precisionTooHigh m.toDecimalString scale maxMoneyScale)
  else if scale = m.scale then .ok ⟨m.currency, m.amountMinor, scale⟩
  else if m.scale < scale then
    match (checkedPow (scale - m.scale)).bind fun factor => checkedInt 64 (m.amountMinor * factor) with
    | some amountMinor => .ok ⟨m.currency, amountMinor, scale⟩
    | none => .error (.overflow s!"`{m.toDecimalString}` at scale {scale}")
  else
    match (checkedPow (m.scale - scale)).filter fun factor => m.amountMinor.tmod factor = 0 with
    | some factor => .ok ⟨m.currency, m.amountMinor.tdiv factor, scale⟩
    | none =>
      if m.amountMinor = 0 then .ok ⟨m.currency, 0, scale⟩
      else .error (.precisionTooHigh m.toDecimalString m.scale scale)

/-- Two amounts of one currency at the larger of their scales. -/
def alignedWith (m other : Money) : Except MoneyError (Money × Money) :=
  if ¬eqIgnoreAsciiCase m.currency other.currency then
    .error (.currencyMismatch m.currency other.currency)
  else do
    let left ← m.rescaled (max m.scale other.scale)
    let right ← other.rescaled (max m.scale other.scale)
    return (left, right)

/-- Two amounts of one currency combined by their minor units. -/
def checkedCombine (combine : Int → Int → Int) (symbol : String) (m other : Money) : Except MoneyError Money := do
  let (left, right) ← m.alignedWith other
  match checkedInt 64 (combine left.amountMinor right.amountMinor) with
  | some amountMinor => .ok ⟨left.currency, amountMinor, left.scale⟩
  | none => .error (.overflow s!"`{m.toDecimalString}` {symbol} `{other.toDecimalString}`")

/-- The sum of two amounts of one currency. -/
def checkedAdd (m other : Money) : Except MoneyError Money := checkedCombine (· + ·) "+" m other

/-- The difference of two amounts of one currency. -/
def checkedSub (m other : Money) : Except MoneyError Money := checkedCombine (· - ·) "-" m other

/-- The minor units at a scale that is no smaller, as an `i128`. -/
def widen (m : Money) (scale : Nat) : Option Int :=
  (checkedInt 128 (10 ^ (scale - m.scale))).bind fun factor => checkedInt 128 (m.amountMinor * factor)

/-- The order of two amounts of one currency, if their values can be aligned. -/
def compareAmount (m other : Money) : Option Ordering :=
  if ¬eqIgnoreAsciiCase m.currency other.currency then none
  else
    (m.widen (max m.scale other.scale)).bind fun left =>
      (other.widen (max m.scale other.scale)).map fun right => compare left right

/-! ## Scales -/

/-- An amount of one number, in a currency and at a scale. -/
structure IsAt (m : Money) (currency : String) (q : ℚ) (scale : Nat) : Prop where
  currency : m.currency = currency
  scale : m.scale = scale
  fits : FitsSigned 64 m.amountMinor
  value : m.value = q

variable {m other m' : Money} {scale : Nat}

theorem value_eq_value_iff (hle : m.scale ≤ m'.scale) :
    m.value = m'.value ↔ m'.amountMinor = m.amountMinor * 10 ^ (m'.scale - m.scale) := div_tenPow_eq_iff hle

theorem fits_checkedPow {power : Nat} (h : power ≤ 18) : checkedPow power = some (10 ^ power) := by
  apply checkedInt_of_fits
  have hle : (10 : Int) ^ power ≤ 10 ^ 18 := by exact_mod_cast Nat.pow_le_pow_right (by omega) h
  have hpos : (0 : Int) < 10 ^ power := by positivity
  unfold FitsSigned
  omega

theorem IsAt.unique {currency : String} {q : ℚ} (h : m.IsAt currency q scale) (h' : m'.IsAt currency q scale) :
    m = m' := by
  obtain ⟨code, n, s⟩ := m
  obtain ⟨code', n', s'⟩ := m'
  obtain rfl : code = currency := h.currency
  obtain rfl : code' = code := h'.currency
  obtain rfl : s = scale := h.scale
  obtain rfl : s' = s := h'.scale
  have hval : (n : ℚ) / 10 ^ s' = n' / 10 ^ s' := h.value.trans h'.value.symm
  rw [div_tenPow_inj.mp hval]

/-- An amount is moved to a scale that is accepted, if an amount of 64 bits is there. -/
theorem rescaled_eq_ok (h : m.Exact) :
    m.rescaled scale = .ok m' ↔ scale ≤ maxMoneyScale ∧ m'.IsAt m.currency m.value scale := by
  have hplaces : m.scale ≤ 18 := h.scale_le
  unfold rescaled
  by_cases hhigh : maxMoneyScale < scale
  · rw [if_pos hhigh]
    simp only [reduceCtorEq, false_iff, not_and]
    omega
  · have hle : scale ≤ maxMoneyScale := Nat.not_lt.mp hhigh
    have hle' : scale ≤ 18 := hle
    rw [if_neg hhigh, and_iff_right hle]
    rcases Nat.lt_trichotomy scale m.scale with hless | rfl | hmore
    · -- fewer places: the last digits must be zeros
      rw [if_neg (by omega), if_neg (by omega), fits_checkedPow (by omega), Option.filter_some]
      have hiff : ∀ k : Money, k.scale = scale → (k.value = m.value ↔
          m.amountMinor = k.amountMinor * 10 ^ (m.scale - scale)) := by
        rintro k rfl
        exact value_eq_value_iff (Nat.le_of_lt hless)
      by_cases hdvd : (10 ^ (m.scale - scale) : Int) ∣ m.amountMinor
      · have hmod : m.amountMinor.tmod (10 ^ (m.scale - scale)) = 0 := Int.tmod_eq_zero_of_dvd hdvd
        have hquotient : m.amountMinor = m.amountMinor.tdiv (10 ^ (m.scale - scale)) * 10 ^ (m.scale - scale) :=
          (Int.tdiv_mul_cancel hdvd).symm
        have hfits : FitsSigned 64 (m.amountMinor.tdiv (10 ^ (m.scale - scale))) := by
          have hfits := h.fits
          rw [hquotient] at hfits
          exact hfits.of_mul (by positivity)
        have hat : IsAt ⟨m.currency, m.amountMinor.tdiv (10 ^ (m.scale - scale)), scale⟩ m.currency m.value scale :=
          ⟨rfl, rfl, hfits, (hiff _ rfl).mpr hquotient⟩
        simp only [hmod, decide_true, if_true, Except.ok.injEq]
        constructor
        · rintro rfl
          exact hat
        · exact hat.unique
      · have hmod : ¬m.amountMinor.tmod (10 ^ (m.scale - scale)) = 0 := fun hzero =>
          hdvd (Int.dvd_of_tmod_eq_zero hzero)
        have hne : ¬m.amountMinor = 0 := by
          intro hzero
          rw [hzero] at hdvd
          exact hdvd (dvd_zero _)
        simp only [hmod, decide_false, Bool.false_eq_true, if_false, hne, reduceCtorEq, false_iff]
        intro hat
        apply hdvd
        rw [(hiff m' hat.scale).mp hat.value]
        exact Dvd.intro_left _ rfl
    · have hat : IsAt ⟨m.currency, m.amountMinor, m.scale⟩ m.currency m.value m.scale := ⟨rfl, rfl, h.fits, rfl⟩
      rw [if_pos rfl, Except.ok.injEq]
      constructor
      · rintro rfl
        exact hat
      · exact hat.unique
    · rw [if_neg (by omega), if_pos hmore, fits_checkedPow (by omega), Option.bind_some]
      have hiff : ∀ k : Money, k.scale = scale → (k.value = m.value ↔
          k.amountMinor = m.amountMinor * 10 ^ (scale - m.scale)) := by
        rintro k rfl
        rw [eq_comm]
        exact value_eq_value_iff (Nat.le_of_lt hmore)
      by_cases hfits : FitsSigned 64 (m.amountMinor * 10 ^ (scale - m.scale))
      · have hat : IsAt ⟨m.currency, m.amountMinor * 10 ^ (scale - m.scale), scale⟩ m.currency m.value scale :=
          ⟨rfl, rfl, hfits, (hiff _ rfl).mpr rfl⟩
        simp only [checkedInt_of_fits hfits, Except.ok.injEq]
        constructor
        · rintro rfl
          exact hat
        · exact hat.unique
      · simp only [checkedInt_eq_none.mpr hfits, reduceCtorEq, false_iff]
        intro hat
        apply hfits
        rw [← (hiff m' hat.scale).mp hat.value]
        exact hat.fits

/-- A number that an amount of 64 bits stands for at a scale. -/
def FitsAt (scale : Nat) (q : ℚ) : Prop := ∃ n : Int, FitsSigned 64 n ∧ q = n / 10 ^ scale

theorem IsAt.exact {currency : String} {q : ℚ} (h : m.IsAt currency q scale) (hsc : scale ≤ maxMoneyScale) :
    m.Exact := ⟨h.fits, h.scale.symm ▸ hsc⟩

/-- An amount is moved to a larger scale, unless it does not fit there. -/
theorem rescaled_ends (h : m.Exact) (hle : m.scale ≤ scale) (hmax : scale ≤ maxMoneyScale) :
    Ends (fun result => result.IsAt m.currency m.value scale)
      (fun error => (∃ context, error = .overflow context) ∧ ¬FitsAt scale m.value) (m.rescaled scale) := by
  cases hres : m.rescaled scale with
  | ok result => exact ((rescaled_eq_ok h).mp hres).2
  | error error =>
    constructor
    · unfold rescaled at hres
      rw [if_neg (Nat.not_lt.mpr hmax)] at hres
      split at hres
      next => cases hres
      next hne =>
        rw [if_pos (by omega)] at hres
        split at hres
        next => cases hres
        next =>
          cases hres
          exact ⟨_, rfl⟩
    · rintro ⟨n, hfits, hval⟩
      have hok := (rescaled_eq_ok h).mpr ⟨hmax, (⟨rfl, rfl, hfits, hval.symm⟩ : IsAt ⟨m.currency, n, scale⟩ _ _ _)⟩
      rw [hres] at hok
      cases hok

theorem rescaled_isAt (h : m.Exact) (hm : m.rescaled scale = .ok m') : m'.IsAt m.currency m.value scale :=
  ((rescaled_eq_ok h).mp hm).2

/-! ## Sums and differences -/

theorem alignedWith_eq_ok (h : m.Exact) (ho : other.Exact) {left right : Money} :
    m.alignedWith other = .ok (left, right) ↔ eqIgnoreAsciiCase m.currency other.currency = true ∧
      left.IsAt m.currency m.value (max m.scale other.scale) ∧
      right.IsAt other.currency other.value (max m.scale other.scale) := by
  have hsc : max m.scale other.scale ≤ maxMoneyScale := Nat.max_le.mpr ⟨h.scale_le, ho.scale_le⟩
  unfold alignedWith
  by_cases hcur : eqIgnoreAsciiCase m.currency other.currency = true
  · rw [if_neg (not_not.mpr hcur), bind_eq_ok, and_iff_right hcur]
    constructor
    · rintro ⟨left', hleft, hrest⟩
      obtain ⟨right', hrt, heq⟩ := bind_eq_ok.mp hrest
      cases heq
      exact ⟨rescaled_isAt h hleft, rescaled_isAt ho hrt⟩
    · rintro ⟨hleft, hrt⟩
      exact ⟨left, (rescaled_eq_ok h).mpr ⟨hsc, hleft⟩,
        bind_eq_ok.mpr ⟨right, (rescaled_eq_ok ho).mpr ⟨hsc, hrt⟩, rfl⟩⟩
  · rw [if_pos hcur]
    simp [hcur]

/-- Two amounts that both fit at the larger of their scales. -/
def Aligns (m other : Money) : Prop :=
  (∃ left : Money, left.IsAt m.currency m.value (max m.scale other.scale)) ∧
  ∃ right : Money, right.IsAt other.currency other.value (max m.scale other.scale)

/-- `combine` on minor units is `operation` on amounts. -/
def Combines (combine : Int → Int → Int) (operation : ℚ → ℚ → ℚ) : Prop :=
  ∀ (a b : Int) (s : Nat), ((combine a b : Int) : ℚ) / 10 ^ s = operation (a / 10 ^ s) (b / 10 ^ s)

theorem combines_add : Combines (· + ·) (· + ·) := by
  intro a b s
  simp only [Int.cast_add, add_div]

theorem combines_sub : Combines (· - ·) (· - ·) := by
  intro a b s
  simp only [Int.cast_sub, sub_div]

section Combine

variable {combine : Int → Int → Int} {operation : ℚ → ℚ → ℚ} {symbol : String} {result : Money}

theorem value_eq_iff_of_isAt (hcombine : Combines combine operation) {left right : Money} {currency currency' : String}
    {q q' : ℚ} (hleft : left.IsAt currency q scale) (hrt : right.IsAt currency' q' scale)
    (hres : result.scale = scale) :
    result.value = operation q q' ↔ result.amountMinor = combine left.amountMinor right.amountMinor := by
  rw [← hleft.value, ← hrt.value, value, value, value, hleft.scale, hrt.scale, hres, ← hcombine]
  exact div_tenPow_inj

theorem checkedCombine_ok (hcombine : Combines combine operation) (h : m.Exact) (ho : other.Exact)
    (hres : checkedCombine combine symbol m other = .ok result) :
    eqIgnoreAsciiCase m.currency other.currency = true ∧ m.Aligns other ∧
      result.IsAt m.currency (operation m.value other.value) (max m.scale other.scale) := by
  obtain ⟨⟨left, right⟩, haligned, hchk⟩ := bind_eq_ok.mp hres
  obtain ⟨hcur, hleft, hrt⟩ := (alignedWith_eq_ok h ho).mp haligned
  simp only at hchk
  by_cases hfits : FitsSigned 64 (combine left.amountMinor right.amountMinor)
  · rw [checkedInt_of_fits hfits] at hchk
    cases hchk
    refine ⟨hcur, ⟨⟨left, hleft⟩, right, hrt⟩, hleft.currency, hleft.scale, hfits, ?_⟩
    apply (value_eq_iff_of_isAt hcombine hleft hrt _).mpr
    · rfl
    · exact hleft.scale
  · rw [checkedInt_eq_none.mpr hfits] at hchk
    cases hchk

/-- A result that fits is found where both amounts fit at its scale. -/
theorem checkedCombine_of_isAt (hcombine : Combines combine operation) (h : m.Exact) (ho : other.Exact)
    (hcur : eqIgnoreAsciiCase m.currency other.currency = true) (haligns : m.Aligns other)
    (hres : result.IsAt m.currency (operation m.value other.value) (max m.scale other.scale)) :
    checkedCombine combine symbol m other = .ok result := by
  obtain ⟨⟨left, hleft⟩, right, hrt⟩ := haligns
  have haligned := (alignedWith_eq_ok h ho).mpr ⟨hcur, hleft, hrt⟩
  have hunits := (value_eq_iff_of_isAt hcombine hleft hrt hres.scale).mp hres.value
  have hfits := hres.fits
  rw [hunits] at hfits
  refine bind_eq_ok.mpr ⟨(left, right), haligned, ?_⟩
  simp only [checkedInt_of_fits hfits]
  obtain ⟨currency, n, s⟩ := result
  rw [hleft.currency, hleft.scale, ← hunits, ← hres.currency, ← hres.scale]

theorem checkedCombine_ends (hcombine : Combines combine operation) {left right : Money} {currency currency' : String}
    {q q' : ℚ} (hleft : left.IsAt currency q scale) (hrt : right.IsAt currency' q' scale)
    (hmax : scale ≤ maxMoneyScale) (hcur : eqIgnoreAsciiCase currency currency' = true) :
    Ends (fun result => result.IsAt currency (operation q q') scale)
      (fun error => (∃ context, error = .overflow context) ∧ ¬FitsAt scale (operation q q'))
      (checkedCombine combine symbol left right) := by
  have hsc : max left.scale right.scale = scale := by rw [hleft.scale, hrt.scale, max_self]
  have hsame : eqIgnoreAsciiCase left.currency right.currency = true := by
    rw [hleft.currency, hrt.currency]
    exact hcur
  have haligned : left.alignedWith right = .ok (left, right) := by
    refine (alignedWith_eq_ok (hleft.exact hmax) (hrt.exact hmax)).mpr ⟨hsame, ?_, ?_⟩
    · exact ⟨rfl, hleft.scale.trans hsc.symm, hleft.fits, rfl⟩
    · exact ⟨rfl, hrt.scale.trans hsc.symm, hrt.fits, rfl⟩
  have haligns : left.Aligns right := by
    obtain ⟨-, hl, hr⟩ := (alignedWith_eq_ok (hleft.exact hmax) (hrt.exact hmax)).mp haligned
    exact ⟨⟨left, hl⟩, right, hr⟩
  cases hres : checkedCombine combine symbol left right with
  | ok result =>
    obtain ⟨-, -, hat⟩ := checkedCombine_ok hcombine (hleft.exact hmax) (hrt.exact hmax) hres
    rwa [hleft.currency, hleft.value, hrt.value, hsc] at hat
  | error error =>
    constructor
    · unfold checkedCombine at hres
      rw [haligned] at hres
      simp only [bind, Except.bind] at hres
      split at hres
      next => cases hres
      next =>
        cases hres
        exact ⟨_, rfl⟩
    · rintro ⟨n, hfits, hval⟩
      have hat : IsAt ⟨left.currency, n, scale⟩ left.currency (operation left.value right.value)
          (max left.scale right.scale) := by
        rw [hleft.value, hrt.value]
        exact ⟨rfl, hsc.symm, hfits, hval.symm⟩
      have hok : checkedCombine combine symbol left right = _ :=
        checkedCombine_of_isAt hcombine (hleft.exact hmax) (hrt.exact hmax) hsame haligns hat
      rw [hres] at hok
      cases hok

end Combine

/-! ## Order -/

theorem widen_eq {units : Int} (hle : m.scale ≤ scale) (h : m.widen scale = some units) :
    m.value = units / 10 ^ scale := by
  obtain ⟨factor, hfactor, hunits⟩ := Option.bind_eq_some_iff.mp h
  have hfactor := (checkedInt_eq_some.mp hfactor).2
  have hunits := (checkedInt_eq_some.mp hunits).2
  apply (div_tenPow_eq_iff hle).mpr
  rw [← hunits, ← hfactor]

theorem compareAmount_eq {order : Ordering} (h : m.compareAmount other = some order) :
    order = compare m.value other.value := by
  unfold compareAmount at h
  split at h
  next => cases h
  next =>
    obtain ⟨left, hleft, hrt⟩ := Option.bind_eq_some_iff.mp h
    obtain ⟨right, hrt, horder⟩ := Option.map_eq_some_iff.mp hrt
    have hpos : (0 : ℚ) < 10 ^ max m.scale other.scale := by positivity
    rw [← horder, widen_eq (le_max_left _ _) hleft, widen_eq (le_max_right _ _) hrt]
    rcases lt_trichotomy left right with hlt | rfl | hgt
    · rw [compare_lt_iff_lt.mpr hlt, compare_lt_iff_lt.mpr]
      exact (div_lt_div_iff_of_pos_right hpos).mpr (by exact_mod_cast hlt)
    · rw [compare_eq_iff_eq.mpr rfl, compare_eq_iff_eq.mpr rfl]
    · rw [compare_gt_iff_gt.mpr hgt, compare_gt_iff_gt.mpr]
      exact (div_lt_div_iff_of_pos_right hpos).mpr (by exact_mod_cast hgt)

/-! ## All of it -/

def ZeroFits (text : String) : Prop :=
  ∀ x : Numeral, x.text = text.toList → x.value = 0 → FitsSigned 64 x.exponentValue

/-- Without an exponent there is none that does not fit. -/
theorem zeroFits_of_notMem {text : String} (he : 'e' ∉ text.toList) (hE : 'E' ∉ text.toList) : ZeroFits text := by
  intro x htext _
  unfold Numeral.exponentValue
  cases hexp : x.exponent with
  | none => exact .zero 64
  | some e =>
    have hmark : e.mark ∈ x.text := by
      unfold Numeral.text
      rw [hexp]
      simp
    rw [htext] at hmark
    rcases e.mark_eq with h | h
    · rw [h] at hmark
      exact absurd hmark he
    · rw [h] at hmark
      exact absurd hmark hE

/-- **Amounts are read, written and reckoned with exactly.** -/
theorem exactly (currency text : String) (m other : Money) (scale : Nat) (hm : m.Exact) (ho : other.Exact) :
    (∀ parsed, parseDecimal currency text = .ok parsed →
      ∃ x : Numeral, x.text = text.toList ∧ parsed.StandsFor currency x.value) ∧
    (text.length + 17 < 2 ^ 63 → ZeroFits text → ∀ (x : Numeral) (parsed : Money), x.text = text.toList →
      parsed.StandsFor currency x.value → parseDecimal currency text = .ok parsed) ∧
    (∃ parsed, parseDecimal m.currency m.toDecimalString = .ok parsed ∧ parsed.currency = m.currency ∧
      parsed.value = m.value) ∧
    (∀ result, m.rescaled scale = .ok result ↔ scale ≤ maxMoneyScale ∧ result.IsAt m.currency m.value scale) ∧
    (∀ sum, m.checkedAdd other = .ok sum → sum.IsAt m.currency (m.value + other.value) (max m.scale other.scale)) ∧
    (eqIgnoreAsciiCase m.currency other.currency = true → m.Aligns other → ∀ sum : Money,
      sum.IsAt m.currency (m.value + other.value) (max m.scale other.scale) → m.checkedAdd other = .ok sum) ∧
    (∀ difference, m.checkedSub other = .ok difference →
      difference.IsAt m.currency (m.value - other.value) (max m.scale other.scale)) ∧
    (eqIgnoreAsciiCase m.currency other.currency = true → m.Aligns other → ∀ difference : Money,
      difference.IsAt m.currency (m.value - other.value) (max m.scale other.scale) →
        m.checkedSub other = .ok difference) ∧
    ∀ order, m.compareAmount other = some order → order = compare m.value other.value := by
  refine ⟨fun parsed => parseDecimal_ok, ?_, parseDecimal_toDecimalString hm, fun result => rescaled_eq_ok hm, ?_, ?_,
    ?_, ?_, fun order => compareAmount_eq⟩
  · intro hlength hzero x parsed htext hparsed
    exact parseDecimal_of_standsFor htext hlength (hzero x htext) hparsed
  · intro sum hsum
    exact (checkedCombine_ok combines_add hm ho hsum).2.2
  · intro hcurrency haligns sum hsum
    exact checkedCombine_of_isAt combines_add hm ho hcurrency haligns hsum
  · intro difference hdifference
    exact (checkedCombine_ok combines_sub hm ho hdifference).2.2
  · intro hcurrency haligns difference hdifference
    exact checkedCombine_of_isAt combines_sub hm ho hcurrency haligns hdifference

/-- Dollars are parsed, and amounts of three and of one decimal place added up. -/
theorem exactly_dollars :
    parseDecimal "USD" "1.125" = .ok ⟨"USD", 1125, 3⟩ ∧
    checkedAdd ⟨"USD", 1125, 3⟩ ⟨"usd", 25, 1⟩ = .ok ⟨"USD", 3625, 3⟩ := by
  have hm : Exact ⟨"USD", 1125, 3⟩ := ⟨by decide, by decide⟩
  have ho : Exact ⟨"usd", 25, 1⟩ := ⟨by decide, by decide⟩
  obtain ⟨-, hparse, -, -, -, hadd, -⟩ := exactly "USD" "1.125" ⟨"USD", 1125, 3⟩ ⟨"usd", 25, 1⟩ 3 hm ho
  constructor
  · let x : Numeral := ⟨false, ['1'], ['1', '2', '5'], none, ⟨by decide, by decide⟩, by decide⟩
    have hvalue : x.value = (1125 : Int) / 10 ^ 3 := by
      rw [Numeral.value_eq_div_iff (by decide)]
      rfl
    refine hparse (by decide) (zeroFits_of_notMem (by decide) (by decide)) x _ rfl ?_
    exact ⟨rfl, reduced_iff.mpr ⟨hvalue, .inr (by decide)⟩, by decide, by decide⟩
  · refine hadd (by decide) ⟨⟨⟨"USD", 1125, 3⟩, rfl, rfl, by decide, rfl⟩, ⟨"usd", 2500, 3⟩, rfl, rfl, by decide, ?_⟩ _ ?_
    · norm_num [value]
    · refine ⟨rfl, rfl, by decide, ?_⟩
      norm_num [value]

/-- No amount is moved to nineteen decimal places, though one is there. -/
theorem rescaled_nineteen :
    Exact ⟨"USD", 5, 18⟩ ∧ IsAt ⟨"USD", 50, 19⟩ "USD" (value ⟨"USD", 5, 18⟩) 19 ∧
    ¬∃ result, rescaled ⟨"USD", 5, 18⟩ 19 = .ok result := by
  refine ⟨⟨by decide, by decide⟩, ⟨rfl, rfl, by decide, by norm_num [value]⟩, ?_⟩
  rintro ⟨result, hresult⟩
  unfold rescaled at hresult
  rw [if_pos (by decide)] at hresult
  cases hresult

end Adk.Money
