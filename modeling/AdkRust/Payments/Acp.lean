import AdkRust.Lib.Dict
import AdkRust.SignedAudit.Record

/-!
# ACP checkout routes

The POST routes of an ACP router (`protocol/acp/server.rs`) and the verification of their requests
(`protocol/acp/verification.rs`). A request with an `Idempotency-Key` reserves its key in a store before its operation
is started, and its handler settles the reservation by hand where it returns.

* `InMemoryIdempotencyStore`: the entries of a store and its operations.
* `AcpPhase`: where a handler stands. Between any two phases other handlers run, and at an await it can be dropped.
* `AcpWorld.step`: one step of a handler.
-/

namespace Adk

namespace Acp

open SignedAudit (asBytes AuditHash)

/-! ## Requests -/

/-- A POST route, with the checkout session that was decoded from the URL. -/
inductive AcpRoute where
  | createCheckoutSession
  | updateCheckoutSession (checkoutSessionId : String)
  | completeCheckoutSession (checkoutSessionId : String)
  | cancelCheckoutSession (checkoutSessionId : String)
  | delegatePayment
deriving DecidableEq

namespace AcpRoute

/-- The path of a route, built again from the decoded segment. -/
def path : AcpRoute → String
  | .createCheckoutSession => "/checkout_sessions"
  | .updateCheckoutSession checkoutSessionId => s!"/checkout_sessions/{checkoutSessionId}"
  | .completeCheckoutSession checkoutSessionId => s!"/checkout_sessions/{checkoutSessionId}/complete"
  | .cancelCheckoutSession checkoutSessionId => s!"/checkout_sessions/{checkoutSessionId}/cancel"
  | .delegatePayment => "/agentic_commerce/delegate_payment"

/-- A segment may decode to more than one. -/
example : (updateCheckoutSession "cs_1/complete").path = (completeCheckoutSession "cs_1").path := by decide

def successStatus : AcpRoute → Nat
  | .createCheckoutSession | .delegatePayment => 201
  | .updateCheckoutSession _ | .completeCheckoutSession _ | .cancelCheckoutSession _ => 200

end AcpRoute

structure AcpRequest where
  route : AcpRoute
  requestId : Option String := none
  idempotencyKey : Option String
  body : List UInt8
deriving DecidableEq

def AcpRequest.responseHeaders (request : AcpRequest) : Dict String :=
  let headers := match request.requestId with
    | some requestId => (∅ : Dict String).insert "Request-Id" requestId
    | none => ∅
  match request.idempotencyKey with
  | some idempotencyKey => headers.insert "Idempotency-Key" idempotencyKey
  | none => headers

structure AcpErrorResponse where
  type : String
  code : String
  message : String
  param : Option String := none
deriving DecidableEq

structure AcpApiError where
  status : Nat
  payload : AcpErrorResponse
  headers : Dict String

/-- Cached ACP response used for deterministic idempotent replay. -/
structure StoredIdempotentResponse where
  status : Nat
  body : List UInt8
  headers : Dict String

/-- JSON of the requests and errors of the routes (`serde_json`). -/
class AcpJson where
  /-- Reads the body of a request; an error has a text. -/
  fromSlice : AcpRoute → List UInt8 → Except String Unit
  toVec : AcpErrorResponse → List UInt8

/-! ## The store -/

inductive InMemoryEntry where
  | inFlight (fingerprint : String)
  | complete (fingerprint : String) (response : StoredIdempotentResponse)

/-- Store decision for one ACP POST request. -/
inductive IdempotencyDecision where
  | proceed
  | replay (response : StoredIdempotentResponse)
  | conflict
  | inFlight

abbrev InMemoryIdempotencyStore : Type := Dict InMemoryEntry

namespace InMemoryIdempotencyStore

variable (entries : InMemoryIdempotencyStore) (scope idempotencyKey fingerprint : String)

def entryKey : String := s!"{scope}:{idempotencyKey}"

/-- Starts an attempt for one scoped request. -/
def beginRequest : IdempotencyDecision × InMemoryIdempotencyStore :=
  match entries[entryKey scope idempotencyKey]? with
  | some (.inFlight stored) => if stored = fingerprint then (.inFlight, entries) else (.conflict, entries)
  | some (.complete stored response) =>
    if stored = fingerprint then (.replay response, entries) else (.conflict, entries)
  | none => (.proceed, entries.insert (entryKey scope idempotencyKey) (.inFlight fingerprint))

/-- Stores a successful or client-error response for replay. -/
def finishRequest (response : StoredIdempotentResponse) : InMemoryIdempotencyStore :=
  entries.insert (entryKey scope idempotencyKey) (.complete fingerprint response)

/-- Releases an in-flight reservation after a non-cacheable failure. -/
def abortRequest : InMemoryIdempotencyStore :=
  match entries[entryKey scope idempotencyKey]? with
  | some (.inFlight stored) => if stored = fingerprint then entries.erase (entryKey scope idempotencyKey) else entries
  | _ => entries

end InMemoryIdempotencyStore

/-! ## Verification -/

/-- Replay policy for ACP POST operations. -/
inductive IdempotencyMode where
  | optional
  | requireForPost
deriving DecidableEq

/-- What is found wrong with the version, the timestamp or the signature of a request. -/
inductive AcpHeaderError where
  | missingApiVersion
  | unsupportedApiVersion
  | missingTimestamp
  | invalidTimestamp
  | timestampSkew
  | missingSignature
  | signatureVerifierNotConfigured
  | invalidSignature
deriving DecidableEq

inductive AcpVerificationError where
  | header (error : AcpHeaderError)
  | missingIdempotencyKey
  | idempotencyConflict
  | idempotencyInFlight
deriving DecidableEq

def AcpVerificationError.statusCode : AcpVerificationError → Nat
  | .header .signatureVerifierNotConfigured => 500
  | .header _ | .missingIdempotencyKey => 400
  | .idempotencyConflict | .idempotencyInFlight => 409

section Verifier

variable [Sha256]

/-- What tells the bodies of a request apart: a hash of the method, the path and the body. -/
def fingerprint (method path : String) (body : List UInt8) : String :=
  (AuditHash.mk (Sha256.digest (asBytes method ++ asBytes ":" ++ asBytes path ++ asBytes ":" ++ body))).display

def AcpRequest.fingerprint (request : AcpRequest) : String := Acp.fingerprint "POST" request.route.path request.body

/-- Reserves the key of a request, if it has one, or finds the response to replay. -/
def prepareIdempotency (entries : InMemoryIdempotencyStore) (request : AcpRequest) :
    Except AcpVerificationError (Option StoredIdempotentResponse) × InMemoryIdempotencyStore :=
  match request.idempotencyKey with
  | none => (.ok none, entries)
  | some idempotencyKey =>
    match entries.beginRequest request.route.path idempotencyKey request.fingerprint with
    | (.proceed, entries) => (.ok none, entries)
    | (.replay response, entries) => (.ok (some response), entries)
    | (.conflict, entries) => (.error .idempotencyConflict, entries)
    | (.inFlight, entries) => (.error .idempotencyInFlight, entries)

/-- Settles the reservation of a request: a response from 500 on is not kept. -/
def finalize (entries : InMemoryIdempotencyStore) (request : AcpRequest) (response : StoredIdempotentResponse) :
    InMemoryIdempotencyStore :=
  match request.idempotencyKey with
  | none => entries
  | some idempotencyKey =>
    if 500 ≤ response.status then entries.abortRequest request.route.path idempotencyKey request.fingerprint
    else entries.finishRequest request.route.path idempotencyKey request.fingerprint response

end Verifier

/-! ## Handlers -/

/-- What the caller receives. -/
inductive AcpReply where
  | rejected (error : AcpVerificationError)
  | replayed (response : StoredIdempotentResponse)
  | answered (response : StoredIdempotentResponse)

def AcpReply.status : AcpReply → Nat
  | .rejected error => error.statusCode
  | .replayed response | .answered response => response.status

inductive AcpPhase where
  | arrived
  /-- The request is verified, and its key is reserved. -/
  | verified
  /-- The backend is at work. -/
  | started
  /-- The response is known, and the reservation is to be settled. -/
  | finalizing (response : StoredIdempotentResponse)
  | returned (reply : AcpReply)
  | dropped

structure AcpHandler where
  request : AcpRequest
  phase : AcpPhase := .arrived

/-- The store, the handlers in the order in which their requests came, and the starts of the backend in their order. -/
structure AcpWorld where
  entries : InMemoryIdempotencyStore := ∅
  handlers : List AcpHandler := []
  starts : List Nat := []

inductive AcpMove where
  | arrive (request : AcpRequest)
  /-- The headers are checked, with an error or none, and the key is reserved. -/
  | verify (i : Nat) (error : Option AcpHeaderError)
  | parse (i : Nat)
  /-- The backend answers with a payload, or with a status and an error. -/
  | answer (i : Nat) (result : Except (Nat × AcpErrorResponse) (List UInt8))
  | finalize (i : Nat)
  /-- The caller goes away while the handler awaits. -/
  | drop (i : Nat)

section Steps

variable [Sha256] [AcpJson]

/-- Reads the body of a request. A cancellation needs none. -/
def parseJsonBody (request : AcpRequest) : Except AcpApiError Unit :=
  match request.route, request.body with
  | .cancelCheckoutSession _, [] => .ok ()
  | route, body =>
    match AcpJson.fromSlice route body with
    | .ok () => .ok ()
    | .error error => .error {
        status := 400
        payload := {
          type := "invalid_request"
          code := "invalid_json"
          message := s!"invalid ACP JSON body for `{route.path}`: {error}" }
        headers := ∅ }

def AcpApiError.stored (error : AcpApiError) : StoredIdempotentResponse where
  status := error.status
  body := AcpJson.toVec error.payload
  headers := error.headers

/-- The response to what the backend answers. The payloads of the routes always serialize. -/
def postResult (request : AcpRequest) : Except (Nat × AcpErrorResponse) (List UInt8) → StoredIdempotentResponse
  | .ok body => { status := request.route.successStatus, body, headers := request.responseHeaders }
  | .error (status, payload) => AcpApiError.stored { status, payload, headers := request.responseHeaders }

namespace AcpWorld

/-- A handler goes on to a phase. -/
def become (w : AcpWorld) (i : Nat) (request : AcpRequest) (phase : AcpPhase) : AcpWorld :=
  { w with handlers := w.handlers.set i { request, phase } }

/-- Verifies a request whose version, timestamp and signature were checked. -/
def verify (mode : IdempotencyMode) (w : AcpWorld) (i : Nat) (request : AcpRequest) : Option AcpHeaderError → AcpWorld
  | some error => w.become i request (.returned (.rejected (.header error)))
  | none =>
    if mode = .requireForPost ∧ request.idempotencyKey = none then
      w.become i request (.returned (.rejected .missingIdempotencyKey))
    else
      match prepareIdempotency w.entries request with
      | (.ok none, entries) => { w with entries }.become i request .verified
      | (.ok (some response), entries) => { w with entries }.become i request (.returned (.replayed response))
      | (.error error, entries) => { w with entries }.become i request (.returned (.rejected error))

/-- One step. A handler awaits the verification, its backend and the settlement. -/
def step (mode : IdempotencyMode) (w : AcpWorld) : AcpMove → Option AcpWorld
  | .arrive request => some { w with handlers := w.handlers ++ [{ request }] }
  | .verify i error =>
    match w.handlers[i]? with
    | some ⟨request, .arrived⟩ => some (w.verify mode i request error)
    | _ => none
  | .parse i =>
    match w.handlers[i]? with
    | some ⟨request, .verified⟩ =>
      match parseJsonBody request with
      | .ok () => some ({ w with starts := w.starts ++ [i] }.become i request .started)
      | .error error => some (w.become i request (.finalizing error.stored))
    | _ => none
  | .answer i result =>
    match w.handlers[i]? with
    | some ⟨request, .started⟩ => some (w.become i request (.finalizing (postResult request result)))
    | _ => none
  | .finalize i =>
    match w.handlers[i]? with
    | some ⟨request, .finalizing response⟩ =>
      some ({ w with entries := Acp.finalize w.entries request response }.become i request
        (.returned (.answered response)))
    | _ => none
  | .drop i =>
    match w.handlers[i]? with
    | some ⟨request, .arrived⟩ | some ⟨request, .started⟩ | some ⟨request, .finalizing _⟩ =>
      some (w.become i request .dropped)
    | _ => none

end AcpWorld

end Steps

end Acp

end Adk
