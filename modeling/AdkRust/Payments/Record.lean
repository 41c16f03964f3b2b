import AdkRust.Core.Identity
import AdkRust.Core.Error
import AdkRust.Core.Time

/-!
# Transactions

The canonical data of a payment (`domain/`): actors, carts, interventions, orders, and the record of a transaction.
The safe summary of a record, which is computed from the rest of it, is left out.

* `TransactionState`, `OrderState`, `ReceiptState`: where each of them stands.
* `TransactionRecord`: the record.
-/

namespace Adk

/-! ## Who and what -/

/-- A canonical transaction identifier. -/
abbrev TransactionId : Type := String

/-- The protocol and version that originated canonical data. -/
structure ProtocolDescriptor where
  name : String
  version : Option String
deriving DecidableEq

structure EvidenceReference where
  evidenceId : String
  protocol : ProtocolDescriptor
  artifactKind : String
  digest : Option String
deriving DecidableEq

/-- Protocol-specific fields preserved alongside canonical state. -/
structure ProtocolExtensionEnvelope where
  protocol : ProtocolDescriptor
  fields : Dict Value := ∅
  evidenceRefs : List EvidenceReference := []
deriving DecidableEq

/-- The envelopes attached to something. -/
abbrev ProtocolExtensions : Type := List ProtocolExtensionEnvelope

inductive CommerceActorRole where
  | shopper
  | merchant
  | credentialsProvider
  | paymentProcessor
  | agentSurface
  | system
  | custom (name : String)
deriving DecidableEq

structure CommerceActor where
  actorId : String
  role : CommerceActorRole
  displayName : Option String := none
  tenantId : Option String := none
  extensions : ProtocolExtensions := []
deriving DecidableEq

structure MerchantRef where
  merchantId : String
  legalName : String
  displayName : Option String := none
  statementDescriptor : Option String := none
  countryCode : Option String := none
  website : Option String := none
  extensions : ProtocolExtensions := []
deriving DecidableEq

structure PaymentProcessorRef where
  processorId : String
  name : String
  processorType : Option String := none
  extensions : ProtocolExtensions := []
deriving DecidableEq

/-- Whether the user is present, or authorized the commerce before. -/
inductive CommerceMode where
  | humanPresent
  | humanNotPresent
deriving DecidableEq

/-! ## Carts -/

/-- An amount in minor units with its scale: `amountMinor / 10 ^ scale`. -/
structure Money where
  currency : String
  amountMinor : Int
  scale : Nat
deriving DecidableEq

structure CartLine where
  lineId : String
  merchantSku : Option String
  title : String
  quantity : Nat
  unitPrice : Money
  totalPrice : Money
  productClass : Option String
  extensions : ProtocolExtensions := []
deriving DecidableEq

inductive PriceAdjustmentKind where
  | tax
  | shipping
  | discount
  | fee
  | surcharge
  | credit
  | other (name : String)
deriving DecidableEq

/-- A component of a total outside the lines. -/
structure PriceAdjustment where
  adjustmentId : String
  kind : PriceAdjustmentKind
  label : String
  amount : Money
  extensions : ProtocolExtensions := []
deriving DecidableEq

structure AffiliateAttribution where
  partnerId : String
  campaignId : Option String := none
  source : Option String := none
  extensions : ProtocolExtensions := []
deriving DecidableEq

/-- Contents and totals of a cart. -/
structure Cart where
  cartId : Option String
  lines : List CartLine
  subtotal : Option Money
  adjustments : List PriceAdjustment
  total : Money
  affiliateAttribution : Option AffiliateAttribution := none
  extensions : ProtocolExtensions := []
deriving DecidableEq

/-- How a cart is fulfilled. -/
inductive FulfillmentKind where
  | shipping
  | pickup
  | delivery
  | digital
  | service
  | other (name : String)
deriving DecidableEq

/-- Where a cart is delivered. -/
structure FulfillmentDestination where
  recipientName : Option String := none
  locality : Option String := none
  region : Option String := none
  countryCode : Option String := none
  postalCode : Option String := none
deriving DecidableEq

structure FulfillmentSelection where
  fulfillmentId : String
  kind : FulfillmentKind
  label : String
  amount : Option Money
  destination : Option FulfillmentDestination := none
  requiresUserSelection : Bool
  extensions : ProtocolExtensions := []
deriving DecidableEq

/-! ## States -/

inductive InterventionKind where
  | threeDsChallenge
  | biometricConfirmation
  | addressVerification
  | buyerReconfirmation
  | merchantReview
  | other (name : String)
deriving DecidableEq

inductive InterventionStatus where
  | pending
  | inProgress
  | satisfied
  | expired
  | failed
  | cancelled
deriving DecidableEq

/-- An intervention that a transaction waits for. -/
structure InterventionState where
  interventionId : String
  kind : InterventionKind
  status : InterventionStatus
  instructions : Option String := none
  continuationToken : Option String := none
  requestedBy : Option CommerceActor := none
  expiresAt : Option Utc := none
  extensions : ProtocolExtensions := []
deriving DecidableEq

inductive TransactionState where
  | draft
  | negotiating
  | awaitingUserAuthorization
  | awaitingPaymentMethod
  | interventionRequired (intervention : InterventionState)
  | authorized
  | completed
  | canceled
  | failed
deriving DecidableEq

namespace TransactionState

/-- Whether no further progress is expected. -/
def isTerminal (state : TransactionState) : Bool :=
  state = .completed || state = .canceled || state = .failed

end TransactionState

inductive OrderState where
  | draft
  | pendingPayment
  | authorized
  | fulfillmentPending
  | fulfilled
  | completed
  | canceled
  | refunded
  | partiallyRefunded
  | failed
deriving DecidableEq

inductive ReceiptState where
  | notRequested
  | pending
  | authorized
  | settled
  | failed
  | partiallyRefunded
  | refunded
  | voided
deriving DecidableEq

/-- Order and receipt of a transaction. -/
structure OrderSnapshot where
  orderId : Option String
  receiptId : Option String
  state : OrderState
  receiptState : ReceiptState
  extensions : ProtocolExtensions := []
deriving DecidableEq

/-! ## The record -/

/-- A protocol reference that has no slot of its own. -/
structure ProtocolReference where
  protocol : ProtocolDescriptor
  referenceKind : String
  referenceValue : String
deriving DecidableEq

/-- The protocol identifiers of a transaction. -/
structure ProtocolRefs where
  acpCheckoutSessionId : Option String := none
  acpOrderId : Option String := none
  acpDelegatePaymentId : Option String := none
  ap2IntentMandateId : Option String := none
  ap2CartMandateId : Option String := none
  ap2PaymentMandateId : Option String := none
  ap2PaymentReceiptId : Option String := none
  additional : List ProtocolReference := []
deriving DecidableEq

/-- Digest of a stored artifact. -/
structure ProtocolEnvelopeDigest where
  evidenceRef : EvidenceReference
  createdAt : Utc
deriving DecidableEq

structure TransactionRecord where
  transactionId : TransactionId
  sessionIdentity : Option AdkIdentity := none
  initiatedBy : CommerceActor
  merchantOfRecord : MerchantRef
  paymentProcessor : Option PaymentProcessorRef := none
  mode : CommerceMode
  state : TransactionState := .draft
  cart : Cart
  fulfillment : Option FulfillmentSelection := none
  order : Option OrderSnapshot := none
  protocolRefs : ProtocolRefs := {}
  extensions : ProtocolExtensions := []
  evidenceRefs : List EvidenceReference := []
  evidenceDigests : List ProtocolEnvelopeDigest := []
  createdAt : Utc
  lastUpdatedAt : Utc
deriving DecidableEq

namespace TransactionRecord

/-- A new record in the `draft` state. -/
def new (transactionId : TransactionId) (initiatedBy : CommerceActor) (merchantOfRecord : MerchantRef)
    (mode : CommerceMode) (cart : Cart) (createdAt : Utc) : TransactionRecord :=
  { transactionId, initiatedBy, merchantOfRecord, mode, cart, createdAt, lastUpdatedAt := createdAt }

end TransactionRecord

end Adk
