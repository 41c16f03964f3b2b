import AdkRust.Core.ToolCall
import AdkRust.Payments.Money

/-!
# Carts of AP2 mandates

The canonical cart of a cart mandate, and what is paid for it (`protocol/ap2/mapper.rs`, `adapter.rs`). Of the
mandates, the fields that these functions read are here. The texts of numbers, the reading of a timestamp and its
text are other people's code.

* `cartFromCartMandate_ends`: **a cart balances without rounding, or a currency or a number that does not fit is the
  reason that there is none.**
* `executePaymentCommand_amount`: **what is paid under a mandate that the cart admits is the total of the cart.**
-/

namespace Adk

/-! ## Mandates -/

structure PaymentCurrencyAmount where
  currency : String
  value : Number

structure PaymentItem where
  label : String
  amount : PaymentCurrencyAmount
  pending : Option Bool := none
  refundPeriod : Nat := 30

structure PaymentShippingOption where
  id : String
  label : String
  amount : PaymentCurrencyAmount
  selected : Bool := false

structure PaymentDetailsModifier where
  supportedMethods : String
  additionalDisplayItems : Option (List PaymentItem) := none

structure PaymentDetailsInit where
  id : String
  displayItems : List PaymentItem := []
  shippingOptions : Option (List PaymentShippingOption) := none
  modifiers : Option (List PaymentDetailsModifier) := none
  total : PaymentItem

structure PaymentRequest where
  details : PaymentDetailsInit

structure CartContents where
  id : String
  paymentRequest : PaymentRequest
  cartExpiry : String

/-- What a merchant signs. -/
structure CartMandate where
  contents : CartContents

structure PaymentResponse where
  requestId : String
  methodName : String
  details : Option (List (String × Value)) := none

structure PaymentMandateContents where
  paymentMandateId : String
  paymentDetailsId : String
  paymentDetailsTotal : PaymentItem
  paymentResponse : PaymentResponse

/-- What a user signs. -/
structure PaymentMandate where
  paymentMandateContents : PaymentMandateContents

structure PaymentMethodSelection where
  selectionKind : String
  reference : Option String
  displayHint : Option String := none
  extensions : ProtocolExtensions := []
deriving DecidableEq

structure ExecutePaymentCommand (Context : Type) where
  context : Context
  amount : Money
  selectedPaymentMethod : Option PaymentMethodSelection
  supportingEvidenceRefs : List EvidenceReference
  extensions : ProtocolExtensions := []

/-- What is refused here. -/
inductive Ap2Error where
  | invalidTimestamp (field value : String)
  | expiredArtifact (field expiresAt : String)
  | paymentMandateMismatch (paymentMandateId field : String)
  | invalidAmount (error : MoneyError)
deriving DecidableEq

def Ap2Error.display : Ap2Error → String
  | .invalidTimestamp field value =>
    s!"timestamp field `{field}` contains an invalid RFC 3339 value `{value}`. Normalize the AP2 artifact timestamp before retrying."
  | .expiredArtifact field expiresAt =>
    s!"the AP2 artifact in `{field}` expired at `{expiresAt}`. Refresh the mandate or obtain a new authorization before retrying."
  | .paymentMandateMismatch paymentMandateId field =>
    s!"payment mandate `{paymentMandateId}` does not match the current cart for field `{field}`. Rebuild the payment mandate from the latest cart state before retrying."
  | .invalidAmount error => s!"invalid AP2 amount: {error.display}"

/-- A refused amount refuses the mandate. -/
def amountOf {α : Type} (x : Except MoneyError α) : Except Ap2Error α := x.mapError .invalidAmount

/-- A refused amount refuses the mandate for the same reason. -/
theorem Ends.amountOf {α : Type} {P : α → Prop} {E : MoneyError → Prop} {F : Ap2Error → Prop} {x : Except MoneyError α}
    (h : Ends P E x) (hF : ∀ error, E error → F (.invalidAmount error)) : Ends P F (amountOf x) := by
  cases x with
  | error error => exact hF error h
  | ok a => exact h

theorem isoMinorUnitScale_le (currency : String) : (Money.isoMinorUnitScale currency).getD 0 ≤ maxMoneyScale := by
  unfold Money.isoMinorUnitScale
  split
  · exact Nat.zero_le _
  · simp only
    split
    · exact Nat.zero_le _
    · split
      · exact Nat.zero_le _
      · split
        · simp [maxMoneyScale]
        · split <;> simp [maxMoneyScale]

theorem eqIgnoreAsciiCase_comm (a b : String) : eqIgnoreAsciiCase a b = eqIgnoreAsciiCase b a := by
  unfold eqIgnoreAsciiCase
  exact decide_eq_decide.mpr eq_comm

/-- Equality of numbers: of integers, or of doubles, of which the two zeros are equal. -/
def Number.same : Number → Number → Bool
  | .int a, .int b => a = b
  | .float a, .float b => a = b ∨ (a <<< 1 = 0 ∧ b <<< 1 = 0)
  | _, _ => false

section Mapper

variable [JsonText]

namespace PaymentCurrencyAmount

/-- The amount at its own scale. -/
def toExactMoney (amount : PaymentCurrencyAmount) : Except Ap2Error Money :=
  amountOf (Money.parseDecimal amount.currency (JsonText.text (.number amount.value)))

/-- Equality of the currencies and of the decimal values. -/
def same (amount other : PaymentCurrencyAmount) : Bool :=
  amount.currency = other.currency &&
    match amount.toExactMoney, other.toExactMoney with
    | .ok left, .ok right => left = right
    | _, _ => amount.value.same other.value

end PaymentCurrencyAmount

def PaymentItem.same (item other : PaymentItem) : Bool :=
  item.label = other.label && item.amount.same other.amount && item.pending = other.pending &&
    item.refundPeriod = other.refundPeriod

/-! ## The cart -/

namespace CartMandate

def details (mandate : CartMandate) : PaymentDetailsInit := mandate.contents.paymentRequest.details

def selectedShipping (mandate : CartMandate) : List PaymentShippingOption :=
  (mandate.details.shippingOptions.getD []).filter fun option => option.selected

def modifierItems (mandate : CartMandate) : List (PaymentDetailsModifier × PaymentItem × Nat) :=
  (mandate.details.modifiers.getD []).flatMap fun modifier =>
    (modifier.additionalDisplayItems.getD []).zipIdx.map fun item => (modifier, item)

end CartMandate

def cartAmounts (mandate : CartMandate) : List PaymentCurrencyAmount :=
  mandate.details.displayItems.map PaymentItem.amount ++ [mandate.details.total.amount] ++
    mandate.selectedShipping.map PaymentShippingOption.amount ++
    mandate.modifierItems.map fun item => item.2.1.amount

def raiseScale (currency : String) (scale : Nat) (amount : PaymentCurrencyAmount) : Except Ap2Error Nat :=
  if ¬eqIgnoreAsciiCase amount.currency currency then
    .error (.invalidAmount (.currencyMismatch currency amount.currency))
  else do
    let money ← amount.toExactMoney
    return max scale money.scale

def cartAmountScale (mandate : CartMandate) : Except Ap2Error Nat :=
  let currency := mandate.details.total.amount.currency
  (cartAmounts mandate).foldlM (raiseScale currency) ((Money.isoMinorUnitScale currency).getD 0)

def moneyAtScale (amount : PaymentCurrencyAmount) (scale : Nat) : Except Ap2Error Money := do
  let money ← amount.toExactMoney
  amountOf (money.rescaled scale)

def addLine (cartId : String) (scale : Nat) (acc : Money × List CartLine) (item : PaymentItem × Nat) :
    Except Ap2Error (Money × List CartLine) := do
  let lineTotal ← moneyAtScale item.1.amount scale
  let subtotal ← amountOf (acc.1.checkedAdd lineTotal)
  return (subtotal, acc.2 ++
    [{ lineId := s!"{cartId}:{item.2}"
       merchantSku := none
       title := item.1.label
       quantity := 1
       unitPrice := lineTotal
       totalPrice := lineTotal
       productClass := none }])

def shippingAdjustment (scale : Nat) (option : PaymentShippingOption) : Except Ap2Error PriceAdjustment := do
  let amount ← moneyAtScale option.amount scale
  return ⟨option.id, .shipping, option.label, amount, []⟩

def modifierAdjustment (scale : Nat) (item : PaymentDetailsModifier × PaymentItem × Nat) :
    Except Ap2Error PriceAdjustment := do
  let amount ← moneyAtScale item.2.1.amount scale
  return ⟨s!"{item.1.supportedMethods}:{item.2.2}", .fee, item.2.1.label, amount, []⟩

/-- The adjustment for what the total has besides. -/
def reconciliation (unallocated : Money) : PriceAdjustment :=
  ⟨"ap2_unallocated_delta", .other "ap2", "AP2 total reconciliation", unallocated, []⟩

def cartFromCartMandate (mandate : CartMandate) : Except Ap2Error Cart := do
  let scale ← cartAmountScale mandate
  let total ← moneyAtScale mandate.details.total.amount scale
  let (subtotal, lines) ←
    mandate.details.displayItems.zipIdx.foldlM (addLine mandate.contents.id scale) (⟨total.currency, 0, scale⟩, [])
  let shipping ← mandate.selectedShipping.mapM (shippingAdjustment scale)
  let fees ← mandate.modifierItems.mapM (modifierAdjustment scale)
  let adjustments := shipping ++ fees
  let allocated ← adjustments.foldlM (fun allocated adjustment => amountOf (allocated.checkedAdd adjustment.amount))
    subtotal
  let unallocated ← amountOf (total.checkedSub allocated)
  return {
    cartId := some mandate.contents.id
    lines
    subtotal := some subtotal
    adjustments := adjustments ++ if unallocated.amountMinor ≠ 0 then [reconciliation unallocated] else []
    total }

/-! ## The payment -/

/-- The time of a field, if it is not over yet. -/
def validateNotExpired (parse : String → Option Utc) (toText : Utc → String) (now : Utc) (field value : String) :
    Except Ap2Error Unit :=
  match parse value with
  | none => .error (.invalidTimestamp field value)
  | some timestamp => if timestamp < now then .error (.expiredArtifact field (toText timestamp)) else .ok ()

def validatePaymentMandateAgainstCart (parse : String → Option Utc) (toText : Utc → String) (now : Utc)
    (payment : PaymentMandate) (cart : CartMandate) : Except Ap2Error Unit :=
  let contents := payment.paymentMandateContents
  if contents.paymentDetailsId ≠ cart.details.id then
    .error (.paymentMandateMismatch contents.paymentMandateId "payment_details_id")
  else if contents.paymentResponse.requestId ≠ cart.details.id then
    .error (.paymentMandateMismatch contents.paymentMandateId "payment_response.request_id")
  else if ¬contents.paymentDetailsTotal.same cart.details.total then
    .error (.paymentMandateMismatch contents.paymentMandateId "payment_details_total")
  else validateNotExpired parse toText now "cart_expiry" cart.contents.cartExpiry

/-- The payment method, by the token in the details of the response. -/
def paymentMethodSelection (payment : PaymentMandate) : PaymentMethodSelection :=
  let response := payment.paymentMandateContents.paymentResponse
  let reference := do
    let .object token ← (← response.details).lookup "token" | none
    let .string id ← token.lookup "id" | none
    return id
  { selectionKind := response.methodName, reference }

def paymentAmount (payment : PaymentMandate) (scale : Nat) : Except Ap2Error Money :=
  moneyAtScale payment.paymentMandateContents.paymentDetailsTotal.amount scale

def executePaymentCommand {Context : Type} (payment : PaymentMandate) (scale : Nat) (context : Context)
    (supportingEvidenceRefs : List EvidenceReference) : Except Ap2Error (ExecutePaymentCommand Context) := do
  let amount ← paymentAmount payment scale
  return { context, amount, selectedPaymentMethod := some (paymentMethodSelection payment), supportingEvidenceRefs }

/-! ## Exactness -/

namespace PaymentCurrencyAmount

/-- The number of an amount that parses. -/
def exactValue (amount : PaymentCurrencyAmount) : ℚ :=
  match amount.toExactMoney with
  | .ok money => money.value
  | .error _ => 0

/-- The amount is a numeral that an amount of 64 bits stands for. -/
def Parses (amount : PaymentCurrencyAmount) : Prop := ∃ money, amount.toExactMoney = .ok money

variable {amount : PaymentCurrencyAmount} {money : Money}

theorem parseDecimal_of_toExactMoney (h : amount.toExactMoney = .ok money) :
    Money.parseDecimal amount.currency (JsonText.text (.number amount.value)) = .ok money := by
  unfold toExactMoney amountOf at h
  cases hpar : Money.parseDecimal amount.currency (JsonText.text (.number amount.value)) with
  | error error =>
    rw [hpar] at h
    cases h
  | ok money' =>
    rw [hpar] at h
    cases h
    rfl

theorem value_of_toExactMoney (h : amount.toExactMoney = .ok money) : money.value = amount.exactValue := by
  unfold exactValue
  rw [h]

theorem exists_numeral (h : amount.Parses) :
    ∃ x : Numeral, x.text = (JsonText.text (.number amount.value)).toList ∧ amount.exactValue = x.value := by
  obtain ⟨money, hmon⟩ := h
  obtain ⟨x, htext, hx⟩ := Money.parseDecimal_ok (parseDecimal_of_toExactMoney hmon)
  exact ⟨x, htext, (value_of_toExactMoney hmon).symm.trans hx.value_eq⟩

theorem standsFor_of_toExactMoney (h : amount.toExactMoney = .ok money) :
    money.StandsFor amount.currency amount.exactValue := by
  obtain ⟨x, -, hx⟩ := Money.parseDecimal_ok (parseDecimal_of_toExactMoney h)
  rw [← value_of_toExactMoney h, hx.value_eq]
  exact hx

theorem exact_of_toExactMoney (h : amount.toExactMoney = .ok money) : money.Exact :=
  ⟨(standsFor_of_toExactMoney h).fits, (standsFor_of_toExactMoney h).scale_le⟩

end PaymentCurrencyAmount

structure IsLine (scale : Nat) (item : PaymentItem) (line : CartLine) : Prop where
  totalPrice : line.totalPrice.IsAt item.amount.currency item.amount.exactValue scale
  unitPrice : line.unitPrice = line.totalPrice
  quantity : line.quantity = 1

def IsAdjustment (scale : Nat) (amount : PaymentCurrencyAmount) (adjustment : PriceAdjustment) : Prop :=
  adjustment.amount.IsAt amount.currency amount.exactValue scale

namespace CartMandate

def currency (mandate : CartMandate) : String := mandate.details.total.amount.currency

def adjusting (mandate : CartMandate) : List PaymentCurrencyAmount :=
  mandate.selectedShipping.map PaymentShippingOption.amount ++ mandate.modifierItems.map fun item => item.2.1.amount

/-- The numbers that are added up, in this order. -/
def summed (mandate : CartMandate) : List ℚ :=
  (mandate.details.displayItems.map fun item => item.amount.exactValue) ++
    mandate.adjusting.map PaymentCurrencyAmount.exactValue

/-- Why there is no cart: an amount in another currency, or an amount or a sum that does not fit at the scale of the
cart. -/
inductive Refuses (mandate : CartMandate) : Ap2Error → Prop
  | currency {amount : PaymentCurrencyAmount} (hmem : amount ∈ cartAmounts mandate)
      (hcurrency : eqIgnoreAsciiCase amount.currency mandate.currency = false) :
      Refuses mandate (.invalidAmount (.currencyMismatch mandate.currency amount.currency))
  | amount {amount : PaymentCurrencyAmount} {scale : Nat} {context : String} (hmem : amount ∈ cartAmounts mandate)
      (hscale : cartAmountScale mandate = .ok scale) (hlarge : ¬Money.FitsAt scale amount.exactValue) :
      Refuses mandate (.invalidAmount (.overflow context))
  | sum {part : List ℚ} {scale : Nat} {context : String} (hpart : part <+: mandate.summed)
      (hscale : cartAmountScale mandate = .ok scale) (hlarge : ¬Money.FitsAt scale part.sum) :
      Refuses mandate (.invalidAmount (.overflow context))
  | rest {scale : Nat} {context : String} (hscale : cartAmountScale mandate = .ok scale)
      (hlarge : ¬Money.FitsAt scale (mandate.details.total.amount.exactValue - mandate.summed.sum)) :
      Refuses mandate (.invalidAmount (.overflow context))

/-- A cart has the amounts of the mandate, and the difference to its total, at one scale. -/
structure Balances (mandate : CartMandate) (scale : Nat) (cart : Cart) : Prop where
  total : cart.total.IsAt mandate.currency mandate.details.total.amount.exactValue scale
  lines : List.Forall₂ (IsLine scale) mandate.details.displayItems cart.lines
  adjustments : ∃ adjustments difference, cart.adjustments = adjustments ++ difference ∧
    List.Forall₂ (IsAdjustment scale) mandate.adjusting adjustments ∧
    (difference = [] ∨ ∃ amount : Money, difference = [reconciliation amount] ∧ amount.amountMinor ≠ 0 ∧
      amount.IsAt mandate.currency (mandate.details.total.amount.exactValue - mandate.summed.sum) scale)
  balance : ∃ subtotal, cart.subtotal = some subtotal ∧
    subtotal.IsAt mandate.currency (cart.lines.map fun line => line.totalPrice.value).sum scale ∧
    subtotal.value + (cart.adjustments.map fun adjustment => adjustment.amount.value).sum = cart.total.value

end CartMandate

/-- A scale that every amount of a cart can be moved to. -/
structure Covers (mandate : CartMandate) (scale : Nat) : Prop where
  scale_le : scale ≤ maxMoneyScale
  currency : ∀ amount ∈ cartAmounts mandate, eqIgnoreAsciiCase amount.currency mandate.currency = true
  places : ∀ amount ∈ cartAmounts mandate, ∀ money, amount.toExactMoney = .ok money → money.scale ≤ scale

variable {mandate : CartMandate} {scale : Nat}

def CoversAll (mandate : CartMandate) (amounts : List PaymentCurrencyAmount) (scale : Nat) : Prop :=
  ∀ amount ∈ amounts, eqIgnoreAsciiCase amount.currency mandate.currency = true ∧
    ∀ money, amount.toExactMoney = .ok money → money.scale ≤ scale

variable {amount : PaymentCurrencyAmount}

theorem raiseScale_ends {done : List PaymentCurrencyAmount}
    (hmem : amount ∈ cartAmounts mandate) (hpar : amount.Parses) (hmax : scale ≤ maxMoneyScale)
    (hdone : CoversAll mandate done scale) :
    Ends (fun next => next ≤ maxMoneyScale ∧ CoversAll mandate (done ++ [amount]) next) mandate.Refuses
      (raiseScale mandate.currency scale amount) := by
  obtain ⟨money, hmon⟩ := hpar
  have hexact := PaymentCurrencyAmount.exact_of_toExactMoney hmon
  unfold raiseScale
  by_cases hcur : eqIgnoreAsciiCase amount.currency mandate.currency = true
  · rw [if_neg (not_not.mpr hcur), hmon]
    refine ⟨Nat.max_le.mpr ⟨hmax, hexact.scale_le⟩, ?_⟩
    intro other hoth
    rcases List.mem_append.mp hoth with hoth | hoth
    · obtain ⟨hsame, hplaces⟩ := hdone other hoth
      exact ⟨hsame, fun money' hmon' => (hplaces money' hmon').trans (le_max_left _ _)⟩
    · obtain rfl := List.mem_singleton.mp hoth
      refine ⟨hcur, fun money' hmon' => ?_⟩
      rw [hmon] at hmon'
      cases hmon'
      exact le_max_right _ _
  · rw [if_pos hcur]
    exact .currency hmem (by simpa using hcur)

theorem cartAmountScale_ends (hpar : ∀ amount ∈ cartAmounts mandate, amount.Parses) :
    Ends (Covers mandate) mandate.Refuses (cartAmountScale mandate) := by
  have hfold : Ends (fun scale => scale ≤ maxMoneyScale ∧ ∃ done, cartAmounts mandate = done ++ [] ∧
      CoversAll mandate done scale) mandate.Refuses (cartAmountScale mandate) := by
    refine ends_foldlM_left (P := fun rest scale => scale ≤ maxMoneyScale ∧ ∃ done, cartAmounts mandate = done ++ rest ∧
      CoversAll mandate done scale) ?_ ⟨isoMinorUnitScale_le _, [], rfl, by simp [CoversAll]⟩
    rintro amount rest scale ⟨hmax, done, hall, hdone⟩
    have hmem : amount ∈ cartAmounts mandate := by simp [hall]
    have hstep := raiseScale_ends hmem (hpar amount hmem) hmax hdone
    have hsp : cartAmounts mandate = (done ++ [amount]) ++ rest := by simp [hall]
    refine hstep.imp ?_
    rintro next ⟨hmax', hdone'⟩
    exact ⟨hmax', done ++ [amount], hsp, hdone'⟩
  refine hfold.imp ?_
  rintro scale ⟨hmax, done, hall, hdone⟩
  rw [List.append_nil] at hall
  rw [← hall] at hdone
  exact ⟨hmax, fun amount hmem => (hdone amount hmem).1, fun amount hmem => (hdone amount hmem).2⟩

theorem moneyAtScale_ends (hsc : cartAmountScale mandate = .ok scale) (hcov : Covers mandate scale)
    (hmem : amount ∈ cartAmounts mandate) (hpar : amount.Parses) :
    Ends (fun money => money.IsAt amount.currency amount.exactValue scale) mandate.Refuses
      (moneyAtScale amount scale) := by
  obtain ⟨money, hmon⟩ := hpar
  have hstds := PaymentCurrencyAmount.standsFor_of_toExactMoney hmon
  have hends := Money.rescaled_ends (PaymentCurrencyAmount.exact_of_toExactMoney hmon)
    (hcov.places amount hmem money hmon) hcov.scale_le
  rw [hstds.currency, hstds.value_eq] at hends
  unfold moneyAtScale
  rw [hmon]
  refine hends.amountOf ?_
  rintro error ⟨⟨context, rfl⟩, hlarge⟩
  exact .amount hmem hsc hlarge

theorem checkedAdd_ends (hsc : cartAmountScale mandate = .ok scale) (hcov : Covers mandate scale)
    (hmem : amount ∈ cartAmounts mandate) {sum money : Money} {part : List ℚ}
    (hsum : sum.IsAt mandate.currency part.sum scale) (hmon : money.IsAt amount.currency amount.exactValue scale)
    (hpart : part ++ [amount.exactValue] <+: mandate.summed) :
    Ends (fun next => next.IsAt mandate.currency (part ++ [amount.exactValue]).sum scale) mandate.Refuses
      (amountOf (sum.checkedAdd money)) := by
  have hcur := hcov.currency amount hmem
  rw [eqIgnoreAsciiCase_comm] at hcur
  have htot : (part ++ [amount.exactValue]).sum = part.sum + amount.exactValue := by simp
  have hends : Ends _ _ (sum.checkedAdd money) :=
    Money.checkedCombine_ends Money.combines_add hsum hmon hcov.scale_le hcur
  rw [htot]
  refine hends.amountOf ?_
  rintro error ⟨⟨context, rfl⟩, hlarge⟩
  rw [← htot] at hlarge
  exact .sum hpart hsc hlarge

theorem addLine_ends (hsc : cartAmountScale mandate = .ok scale) (hcov : Covers mandate scale)
    (hpar : ∀ amount ∈ cartAmounts mandate, amount.Parses) {currency : String} (hcur : currency = mandate.currency) :
    Ends (fun acc => acc.1.IsAt mandate.currency (mandate.details.displayItems.map fun item => item.amount.exactValue).sum
        scale ∧ List.Forall₂ (IsLine scale) mandate.details.displayItems acc.2) mandate.Refuses
      (mandate.details.displayItems.zipIdx.foldlM (addLine mandate.contents.id scale) (⟨currency, 0, scale⟩, [])) := by
  have hfold : Ends (fun acc : Money × List CartLine => ∃ done, mandate.details.displayItems.zipIdx = done ++ [] ∧
        acc.1.IsAt mandate.currency (done.map fun item => item.1.amount.exactValue).sum scale ∧
        List.Forall₂ (fun item => IsLine scale item.1) done acc.2) mandate.Refuses
      (mandate.details.displayItems.zipIdx.foldlM (addLine mandate.contents.id scale) (⟨currency, 0, scale⟩, [])) := by
    refine ends_foldlM_left (P := fun rest (acc : Money × List CartLine) => ∃ done,
        mandate.details.displayItems.zipIdx = done ++ rest ∧
        acc.1.IsAt mandate.currency (done.map fun item => item.1.amount.exactValue).sum scale ∧
        List.Forall₂ (fun item => IsLine scale item.1) done acc.2) ?_ ?_
    · rintro item rest ⟨subtotal, lines⟩ ⟨done, hall, hsum, hlns⟩
      have hits : mandate.details.displayItems = done.map Prod.fst ++ item.1 :: rest.map Prod.fst := by
        rw [← List.zipIdx_map_fst 0 mandate.details.displayItems, hall, List.map_append, List.map_cons]
      have hitem : item.1 ∈ mandate.details.displayItems := by simp [hits]
      have hmem : item.1.amount ∈ cartAmounts mandate := by
        simp only [cartAmounts, List.mem_append, List.mem_map]
        exact .inl (.inl (.inl ⟨item.1, hitem, rfl⟩))
      have hpart : (done.map fun item => item.1.amount.exactValue) ++ [item.1.amount.exactValue] <+: mandate.summed := by
        refine ⟨(rest.map fun item => item.1.amount.exactValue) ++
          mandate.adjusting.map PaymentCurrencyAmount.exactValue, ?_⟩
        unfold CartMandate.summed
        rw [hits]
        simp [Function.comp_def]
      refine (moneyAtScale_ends hsc hcov hmem (hpar _ hmem)).bind fun lineTotal hline => ?_
      refine (checkedAdd_ends hsc hcov hmem hsum hline hpart).bind fun next hnext => ?_
      refine ⟨done ++ [item], by simp [hall], ?_, ?_⟩
      · simpa using hnext
      · exact List.rel_append hlns (.cons ⟨hline, rfl, rfl⟩ .nil)
    · exact ⟨[], rfl, ⟨hcur, rfl, .zero 64, by simp [Money.value]⟩, .nil⟩
  refine hfold.imp ?_
  rintro ⟨subtotal, lines⟩ ⟨done, hall, hsum, hlns⟩
  have hits : mandate.details.displayItems = done.map Prod.fst := by
    rw [← List.zipIdx_map_fst 0 mandate.details.displayItems, hall, List.append_nil]
  rw [hits, List.map_map, List.forall₂_map_left_iff]
  exact ⟨hsum, hlns⟩

/-- The adjustments have the amounts of the selected shipping options and of the items of the modifiers. -/
theorem adjustments_ends (hsc : cartAmountScale mandate = .ok scale) (hcov : Covers mandate scale)
    (hpar : ∀ amount ∈ cartAmounts mandate, amount.Parses) :
    Ends (List.Forall₂ (fun option => IsAdjustment scale option.amount) mandate.selectedShipping) mandate.Refuses
      (mandate.selectedShipping.mapM (shippingAdjustment scale)) ∧
    Ends (List.Forall₂ (fun item => IsAdjustment scale item.2.1.amount) mandate.modifierItems) mandate.Refuses
      (mandate.modifierItems.mapM (modifierAdjustment scale)) := by
  constructor
  · refine ends_mapM fun option hoption => ?_
    have hmem : option.amount ∈ cartAmounts mandate := by
      simp only [cartAmounts, List.mem_append, List.mem_map]
      exact .inl (.inr ⟨option, hoption, rfl⟩)
    exact (moneyAtScale_ends hsc hcov hmem (hpar _ hmem)).bind fun amount ham => ham
  · refine ends_mapM fun item hitem => ?_
    have hmem : item.2.1.amount ∈ cartAmounts mandate := by
      simp only [cartAmounts, List.mem_append, List.mem_map]
      exact .inr ⟨item, hitem, rfl⟩
    exact (moneyAtScale_ends hsc hcov hmem (hpar _ hmem)).bind fun amount ham => ham

theorem values_of_isAdjustment {amounts : List PaymentCurrencyAmount} {adjustments : List PriceAdjustment}
    (h : List.Forall₂ (IsAdjustment scale) amounts adjustments) :
    (adjustments.map fun adjustment => adjustment.amount.value) = amounts.map PaymentCurrencyAmount.exactValue := by
  induction h with
  | nil => rfl
  | cons hadjustment _ ih => rw [List.map_cons, List.map_cons, ih, hadjustment.value]

theorem values_of_isLine {items : List PaymentItem} {lines : List CartLine} (h : List.Forall₂ (IsLine scale) items lines) :
    (lines.map fun line => line.totalPrice.value) = items.map fun item => item.amount.exactValue := by
  induction h with
  | nil => rfl
  | cons hline _ ih => rw [List.map_cons, List.map_cons, ih, hline.totalPrice.value]

omit [JsonText] in
theorem mem_cartAmounts_of_mem_adjusting (h : amount ∈ mandate.adjusting) :
    amount ∈ cartAmounts mandate := by
  unfold CartMandate.adjusting at h
  unfold cartAmounts
  rw [List.append_assoc]
  exact List.mem_append_right _ h

theorem allocated_ends (hsc : cartAmountScale mandate = .ok scale) (hcov : Covers mandate scale)
    {adjustments : List PriceAdjustment} (hadj : List.Forall₂ (IsAdjustment scale) mandate.adjusting adjustments)
    {subtotal : Money}
    (hsubtotal : subtotal.IsAt mandate.currency
      (mandate.details.displayItems.map fun item => item.amount.exactValue).sum scale) :
    Ends (fun allocated => allocated.IsAt mandate.currency mandate.summed.sum scale) mandate.Refuses
      (adjustments.foldlM (fun allocated adjustment => amountOf (allocated.checkedAdd adjustment.amount)) subtotal) := by
  have hfold := ends_foldlM_left (E := mandate.Refuses)
    (P := fun rest (allocated : Money) => ∃ done left, mandate.adjusting = done ++ left ∧
      List.Forall₂ (IsAdjustment scale) left rest ∧
      allocated.IsAt mandate.currency ((mandate.details.displayItems.map fun item => item.amount.exactValue) ++
        done.map PaymentCurrencyAmount.exactValue).sum scale)
    (f := fun allocated adjustment => amountOf (allocated.checkedAdd adjustment.amount)) ?_
    ⟨[], mandate.adjusting, rfl, hadj, by simpa using hsubtotal⟩
  · refine hfold.imp ?_
    rintro allocated ⟨done, left, hall, hleft, hallocated⟩
    cases hleft
    unfold CartMandate.summed
    rw [hall, List.append_nil]
    exact hallocated
  · rintro adjustment rest allocated ⟨done, left, hall, hleft, hallocated⟩
    obtain ⟨amount, left, hadjustment, hoths, rfl⟩ := List.forall₂_cons_right_iff.mp hleft
    have hmem := @mem_cartAmounts_of_mem_adjusting mandate amount (by simp [hall])
    have hpart : (mandate.details.displayItems.map fun item => item.amount.exactValue) ++
        done.map PaymentCurrencyAmount.exactValue ++ [amount.exactValue] <+: mandate.summed := by
      refine ⟨left.map PaymentCurrencyAmount.exactValue, ?_⟩
      unfold CartMandate.summed
      rw [hall]
      simp
    refine (checkedAdd_ends hsc hcov hmem hallocated hadjustment hpart).imp fun next hnext => ?_
    refine ⟨done ++ [amount], left, by simp [hall], hoths, ?_⟩
    simpa using hnext

/-- **A cart balances without rounding, or there is a reason that there is none.** -/
theorem cartFromCartMandate_ends (hpar : ∀ amount ∈ cartAmounts mandate, amount.Parses) :
    Ends (fun cart => ∃ scale, cartAmountScale mandate = .ok scale ∧ mandate.Balances scale cart) mandate.Refuses
      (cartFromCartMandate mandate) := by
  cases hsc : cartAmountScale mandate with
  | error error =>
    have href := (cartAmountScale_ends hpar).failure hsc
    unfold cartFromCartMandate
    rw [hsc]
    exact href
  | ok scale =>
    have hcov := (cartAmountScale_ends hpar).result hsc
    have htot : mandate.details.total.amount ∈ cartAmounts mandate := by simp [cartAmounts]
    unfold cartFromCartMandate
    rw [hsc]
    refine (moneyAtScale_ends hsc hcov htot (hpar _ htot)).bind fun total ht => ?_
    refine (addLine_ends hsc hcov hpar ht.currency).bind fun acc hacc => ?_
    obtain ⟨subtotal, lines⟩ := acc
    obtain ⟨hsubtotal, hlns⟩ := hacc
    refine (adjustments_ends hsc hcov hpar).1.bind fun shipping hshipping => ?_
    refine (adjustments_ends hsc hcov hpar).2.bind fun fees hfees => ?_
    have hadj : List.Forall₂ (IsAdjustment scale) mandate.adjusting (shipping ++ fees) :=
      List.rel_append (List.forall₂_map_left_iff.mpr hshipping) (List.forall₂_map_left_iff.mpr hfees)
    refine (allocated_ends hsc hcov hadj hsubtotal).bind fun allocated hallocated => ?_
    have hrest : Ends _ _ (total.checkedSub allocated) :=
      Money.checkedCombine_ends Money.combines_sub ht hallocated hcov.scale_le (by simp [eqIgnoreAsciiCase, CartMandate.currency])
    have hrefuses : ∀ error, ((∃ context, error = MoneyError.overflow context) ∧
        ¬Money.FitsAt scale (mandate.details.total.amount.exactValue - mandate.summed.sum)) →
        mandate.Refuses (.invalidAmount error) := by
      rintro error ⟨⟨context, rfl⟩, hlarge⟩
      exact .rest hsc hlarge
    refine (hrest.amountOf hrefuses).bind fun unallocated hunallocated => ?_
    refine ⟨scale, rfl, ht, hlns, ⟨_, _, rfl, hadj, ?_⟩, subtotal, rfl, ?_, ?_⟩
    · by_cases hzero : unallocated.amountMinor = 0
      · exact .inl (if_neg (not_not.mpr hzero))
      · exact .inr ⟨unallocated, if_pos hzero, hzero, hunallocated⟩
    · rw [values_of_isLine hlns]
      exact hsubtotal
    · have hdiff : ((if unallocated.amountMinor ≠ 0 then [reconciliation unallocated] else []).map
          fun adjustment => adjustment.amount.value).sum = unallocated.value := by
        by_cases hzero : unallocated.amountMinor = 0
        · rw [if_neg (not_not.mpr hzero), Money.value, hzero]
          simp
        · rw [if_pos hzero]
          simp [reconciliation]
      have hsummed : mandate.summed.sum =
          (mandate.details.displayItems.map fun item => item.amount.exactValue).sum +
            (mandate.adjusting.map PaymentCurrencyAmount.exactValue).sum := by
        unfold CartMandate.summed
        rw [List.sum_append]
      rw [List.map_append, List.sum_append, hdiff, values_of_isAdjustment hadj, hsubtotal.value,
        hunallocated.value, ht.value, hsummed]
      ring

/-! ## What is paid -/

theorem toExactMoney_eq_of_same {other : PaymentCurrencyAmount} (h : amount.same other = true) {left right : Money}
    (hleft : amount.toExactMoney = .ok left) (hrt : other.toExactMoney = .ok right) : left = right := by
  unfold PaymentCurrencyAmount.same at h
  rw [hleft, hrt, Bool.and_eq_true] at h
  exact of_decide_eq_true h.2

/-- **What is paid under a mandate that the cart admits is the total of the cart.** -/
theorem executePaymentCommand_amount {cart : Cart} (hbalances : mandate.Balances scale cart)
    (htot : mandate.details.total.amount.Parses) {parse : String → Option Utc} {toText : Utc → String} {now : Utc}
    {payment : PaymentMandate} (hval : validatePaymentMandateAgainstCart parse toText now payment mandate = .ok ())
    {Context : Type} {context : Context} {refs : List EvidenceReference} {command : ExecutePaymentCommand Context}
    (hcommand : executePaymentCommand payment scale context refs = .ok command) : command.amount = cart.total := by
  obtain ⟨amount, ham, heq⟩ := bind_eq_ok.mp hcommand
  cases heq
  obtain ⟨money, hmon, hrescaled⟩ := bind_eq_ok.mp ham
  obtain ⟨total, htot⟩ := htot
  have hsame : payment.paymentMandateContents.paymentDetailsTotal.amount.same mandate.details.total.amount = true := by
    unfold validatePaymentMandateAgainstCart at hval
    simp only at hval
    split at hval
    next => cases hval
    next =>
      split at hval
      next => cases hval
      next =>
        split at hval
        next => cases hval
        next hitem =>
          have hitem := not_not.mp hitem
          unfold PaymentItem.same at hitem
          simp only [Bool.and_eq_true] at hitem
          exact hitem.1.1.2
  obtain rfl := toExactMoney_eq_of_same hsame hmon htot
  have hstds := PaymentCurrencyAmount.standsFor_of_toExactMoney htot
  have hends := (PaymentCurrencyAmount.exact_of_toExactMoney htot)
  have hat : amount.IsAt money.currency money.value scale := by
    cases hres : money.rescaled scale with
    | error error =>
      rw [hres] at hrescaled
      cases hrescaled
    | ok result =>
      rw [hres] at hrescaled
      cases hrescaled
      exact Money.rescaled_isAt hends hres
  rw [hstds.currency, hstds.value_eq] at hat
  exact hat.unique hbalances.total

/-- **A cart of a cart mandate balances without rounding, and its total is what is paid for it.** -/
theorem cart_balances (mandate : CartMandate) (hparse : ∀ amount ∈ cartAmounts mandate, amount.Parses) :
    (∃ error, cartFromCartMandate mandate = .error error ∧ mandate.Refuses error) ∨
    ∃ cart scale, cartFromCartMandate mandate = .ok cart ∧ cartAmountScale mandate = .ok scale ∧
      mandate.Balances scale cart ∧
      (∀ amount ∈ cartAmounts mandate, ∃ x : Numeral, x.text = (JsonText.text (.number amount.value)).toList ∧
        amount.exactValue = x.value) ∧
      ∀ (parse : String → Option Utc) (toText : Utc → String) (now : Utc) (payment : PaymentMandate) (Context : Type)
        (context : Context) (refs : List EvidenceReference) (command : ExecutePaymentCommand Context),
        validatePaymentMandateAgainstCart parse toText now payment mandate = .ok () →
        executePaymentCommand payment scale context refs = .ok command → command.amount = cart.total := by
  have hends := cartFromCartMandate_ends hparse
  cases hcart : cartFromCartMandate mandate with
  | error error => exact .inl ⟨error, rfl, hends.failure hcart⟩
  | ok cart =>
    obtain ⟨scale, hscale, hbalances⟩ := hends.result hcart
    have htotal : mandate.details.total.amount ∈ cartAmounts mandate := by simp [cartAmounts]
    refine .inr ⟨cart, scale, rfl, hscale, hbalances, ?_, ?_⟩
    · exact fun amount hmem => PaymentCurrencyAmount.exists_numeral (hparse amount hmem)
    · intro parse toText now payment Context context refs command hvalid hcommand
      exact executePaymentCommand_amount hbalances (hparse _ htotal) hvalid hcommand

end Mapper

/-- Two coffees and their delivery, for more than both. -/
def coffeeMandate : CartMandate :=
  { contents :=
      { id := "cart-1"
        paymentRequest :=
          { details :=
              { id := "order-1"
                displayItems := [⟨"Espresso", ⟨"USD", .int 3⟩, none, 30⟩, ⟨"Filter", ⟨"usd", .int 4⟩, none, 30⟩]
                shippingOptions := some [⟨"bike", "By bike", ⟨"USD", .int 2⟩, true⟩]
                total := ⟨"Total", ⟨"USD", .int 10⟩, none, 30⟩ } }
        cartExpiry := "2030-01-01T00:00:00Z" } }

theorem cart_balances_coffee :
    ∃ cart, @cartFromCartMandate plainText coffeeMandate = .ok cart ∧
      @CartMandate.Balances plainText coffeeMandate 2 cart := by
  let _ : JsonText := plainText
  have hparse : ∀ amount ∈ cartAmounts coffeeMandate, amount.Parses := by
    intro amount hmem
    have hall : cartAmounts coffeeMandate =
        [⟨"USD", .int 3⟩, ⟨"usd", .int 4⟩, ⟨"USD", .int 10⟩, ⟨"USD", .int 2⟩] := rfl
    rw [hall] at hmem
    simp only [List.mem_cons, List.not_mem_nil, or_false] at hmem
    rcases hmem with rfl | rfl | rfl | rfl
    · exact ⟨⟨"USD", 3, 0⟩, by decide +kernel⟩
    · exact ⟨⟨"usd", 4, 0⟩, by decide +kernel⟩
    · exact ⟨⟨"USD", 10, 0⟩, by decide +kernel⟩
    · exact ⟨⟨"USD", 2, 0⟩, by decide +kernel⟩
  have hscale : cartAmountScale coffeeMandate = .ok 2 := by decide +kernel
  have hok : (cartFromCartMandate coffeeMandate).toOption.isSome = true := by decide +kernel
  obtain ⟨error, herror, -⟩ | ⟨cart, scale, hcart, hscale', hbalances, -, -⟩ := cart_balances coffeeMandate hparse
  · rw [herror] at hok
    cases hok
  · rw [hscale] at hscale'
    cases hscale'
    exact ⟨cart, hcart, hbalances⟩

end Adk
