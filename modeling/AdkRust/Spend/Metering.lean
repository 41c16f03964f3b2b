import AdkRust.Lib.ProcPool
import AdkRust.Spend.Caps

/-!
# Metered model calls

A model call reserves its upper-bound cost in the spend ledger before it is sent, and its hold is settled from the
responses of its stream (`metering.rs`). The spend ledger is asked one operation at a time.

* `vendorForModel`, `LlmSpendEstimate.estimate`: what a call is reserved under, and what it commits without a cost.
* `HoldState.observe`, `settle`: a hold, and what is committed or released of it.
* `commitOnCompletion`: a stream that settles its hold.
* `generate`: a call.
* `meterSystem`: any calls over one ledger.
-/

namespace Adk

/-! ## What a call reserves -/

/-- The hold of a call whose cost cannot be bounded (`i64::MAX`). -/
def unboundedHoldMicroUsd : Nat := 9223372036854775807

/-- What an unbounded call commits when its response reports no cost. -/
structure LlmSpendEstimate where
  perCallMicroUsd : Nat := 50000
  /-- Output price in micro-USD per million tokens. -/
  outputMicroUsdPerMillionTokens : Option Nat := none

def LlmSpendEstimate.estimate (self : LlmSpendEstimate) (maxOutputTokens : Option Int) : Nat :=
  match maxOutputTokens.filter fun tokens => 0 ≤ tokens, self.outputMicroUsdPerMillionTokens with
  | some tokens, some price => (min (tokens.toNat * price) maxAmount + 999999) / 1000000
  | _, _ => self.perCallMicroUsd

/-- The vendor that a model belongs to, read from the last part of its name. -/
def vendorForModel (model : String) : String :=
  let name := ((model.toList.reverse.takeWhile (· ≠ '/')).reverse).map Char.toLower
  let starts := fun prefixes : List String => prefixes.any fun start => start.toList.isPrefixOf name
  if starts ["gemini"] then "gemini"
  else if starts ["claude"] then "anthropic"
  else if starts ["gpt-", "chatgpt", "o1", "o3", "o4", "codex"] then "openai"
  else if starts ["deepseek"] then "deepseek"
  else if starts ["grok"] then "xai"
  else if starts ["mistral", "magistral", "codestral", "devstral", "ministral", "pixtral"] then "mistral"
  else "unknown"

/-- A call of a model: what it is attributed to, what bounds it, and how often its stream is polled before it is
dropped. -/
structure MeteredCall where
  org : String
  agent : Option String := none
  /-- The model of the request. -/
  model : String
  /-- The most that the call may cost. -/
  maxCostMicroUsd : Option Nat
  estimate : LlmSpendEstimate := {}
  maxOutputTokens : Option Int := none
  /-- Whether the run has a budget. -/
  budget : Bool := false
  polls : Nat

namespace MeteredCall

def spendKey (call : MeteredCall) : SpendKey where
  org := call.org
  agent := call.agent
  vendor := some (vendorForModel call.model)

def bound (call : MeteredCall) : Nat := call.maxCostMicroUsd.getD unboundedHoldMicroUsd

/-- What a call commits when no response reports a cost. -/
def unpriced (call : MeteredCall) : Nat :=
  call.maxCostMicroUsd.getD (call.estimate.estimate call.maxOutputTokens)

end MeteredCall

/-- What a hold observes of a response. -/
structure LlmResponse where
  /-- The cost it reports, in micro-USD; a cost may be no amount. -/
  cost : Option (Option Nat) := none
  provider : Option String := none
  turnComplete : Bool := false
  partial_ : Bool := false

structure HoldState where
  reservation : ReservationId
  key : SpendKey
  estimate : Nat
  sawResponse : Bool := false
  cost : Option (Option Nat) := none
  provider : Option String := none

namespace HoldState

/-- Records the cost and provider that a response reports. -/
def observe (state : HoldState) (response : LlmResponse) : HoldState :=
  { state with
    sawResponse := true
    cost := response.cost.or state.cost
    provider := response.provider.or state.provider }

def amount (state : HoldState) : Nat := (state.cost.getD none).getD state.estimate

/-- The provider that was reported, when it is not the reserved vendor. -/
def reported (state : HoldState) : Option String :=
  state.provider.filter fun provider => state.key.vendor ≠ some provider

end HoldState

/-! ## A call -/

inductive StreamItem where
  | response (response : LlmResponse)
  | error
  | ended

/-- What the model answers a request with; the call may be dropped before. -/
inductive ModelAnswer where
  | stream
  | error
  | dropped

inductive MeterOp where
  | reserve (key : SpendKey) (amount : Nat)
  /-- A reservation of nothing under the provider that was reported. -/
  | correct (key : SpendKey)
  | commit (id : ReservationId) (amount : Nat)
  | release (id : ReservationId)
  | beginModelCall
  | generateContent
  | next

/-- What an operation returns. An operation of the ledger whose future is dropped while it waits has no answer. -/
abbrev MeterOp.Ret : MeterOp → Type
  | .reserve .. | .correct _ => Option (Except SpendError ReservationId)
  | .commit .. | .release _ => Option (Except SpendError Unit)
  | .beginModelCall => Bool
  | .generateContent => ModelAnswer
  | .next => StreamItem

/-- A program that ends where its future is dropped. -/
abbrev MeterProg : Type → Type := ExceptT Unit (Prog MeterOp MeterOp.Ret)

def askMeter (op : MeterOp) : MeterProg op.Ret := ExceptT.lift (Prog.perform op)

def waited {α : Type} : Option α → MeterProg α
  | some answer => pure answer
  | none => throw ()

/-- Commits under the reserved vendor. An error is only logged. -/
def commitReserved (state : HoldState) : MeterProg Unit := do
  let answer ← askMeter (.commit state.reservation state.amount)
  let _ ← waited answer
  return ()

/-- Drops the hold. An error is only logged. -/
def releaseReserved (state : HoldState) : MeterProg Unit := do
  let answer ← askMeter (.release state.reservation)
  let _ ← waited answer
  return ()

/-- What follows a commit under the reported provider. -/
def afterCorrected (state : HoldState) : Except SpendError Unit → MeterProg Unit
  | .ok () => releaseReserved state
  | .error _ => commitReserved state

/-- Commits under the reported provider, where it may be reserved. -/
def commitCorrected (state : HoldState) : Except SpendError ReservationId → MeterProg Unit
  | .ok corrected => do
    let answer ← askMeter (.commit corrected state.amount)
    let committed ← waited answer
    afterCorrected state committed
  | .error _ => commitReserved state

/-- Commits what was observed, or releases the hold when no response arrived. -/
def HoldState.settle (state : HoldState) : MeterProg Unit :=
  if state.sawResponse = false then releaseReserved state
  else
    match state.reported with
    | none => commitReserved state
    | some provider => do
      let answer ← askMeter (.correct { state.key with vendor := some provider })
      let corrected ← waited answer
      commitCorrected state corrected

def settleOpen : Option HoldState → MeterProg Unit
  | some state => state.settle
  | none => pure ()

def observeItem (response : LlmResponse) : Option HoldState → MeterProg (Option HoldState)
  | none => pure none
  | some state =>
    if response.turnComplete && !response.partial_ then do
      (state.observe response).settle
      return none
    else return some (state.observe response)

def commitOnCompletion : Nat → Option HoldState → MeterProg Unit
  | 0, hold => settleOpen hold
  | polls + 1, hold => do
    let item ← askMeter .next
    match item with
    | .response response => do
      let hold ← observeItem response hold
      commitOnCompletion polls hold
    | .error => commitOnCompletion polls hold
    | .ended => settleOpen hold

inductive CallEnd where
  | refused (error : SpendError)
  | exceeded
  | failed
  | streamed

def streamCall (call : MeteredCall) (hold : HoldState) : ModelAnswer → MeterProg CallEnd
  | .stream => do
    commitOnCompletion call.polls (some hold)
    return .streamed
  | .error | .dropped => do
    hold.settle
    return .failed

/-- Sends a request that the budget allows. A hold that saw no response is released. -/
def sendCall (call : MeteredCall) (hold : HoldState) (allowed : Bool) : MeterProg CallEnd :=
  if allowed = false then do
    hold.settle
    return .exceeded
  else do
    let answer ← askMeter .generateContent
    streamCall call hold answer

def budgetCall (call : MeteredCall) (hold : HoldState) : MeterProg CallEnd :=
  if call.budget then do
    let allowed ← askMeter .beginModelCall
    sendCall call hold allowed
  else sendCall call hold true

def holdCall (call : MeteredCall) : Except SpendError ReservationId → MeterProg CallEnd
  | .error error => return .refused error
  | .ok reservation => budgetCall call { reservation, key := call.spendKey, estimate := call.unpriced }

/-- Calls a model under a spend ledger. -/
def generate (call : MeteredCall) : MeterProg CallEnd := do
  let answer ← askMeter (.reserve call.spendKey call.bound)
  let reserved ← waited answer
  holdCall call reserved

/-! ## The system -/

def SpendRun.reserved (ledger : SpendLedger) (r : SpendRun) (id : ReservationId) (key : SpendKey) (amount : Nat) :
    Except SpendError ReservationId × SpendRun :=
  ((ledger.reserve r.state r.now id key amount).1,
    { r with state := (ledger.reserve r.state r.now id key amount).2, issued := id :: r.issued })

def SpendRun.committed (r : SpendRun) (id : ReservationId) (amount : Nat) : Except SpendError Unit × SpendRun :=
  ((SpendLedger.commit r.state r.now id amount).1,
    { r with
      state := (SpendLedger.commit r.state r.now id amount).2
      settled := r.settled ++ settledBy id (SpendLedger.commit r.state r.now id amount).1
      spends := r.spends ++
        (r.state.holds[id]?.map fun hold => { key := hold.key, amount, moment := r.now }).toList })

def SpendRun.released (r : SpendRun) (id : ReservationId) : Except SpendError Unit × SpendRun :=
  ((SpendLedger.release r.state id).1,
    { r with
      state := (SpendLedger.release r.state id).2
      settled := r.settled ++ settledBy id (SpendLedger.release r.state id).1 })

/-- The ledger answers, with a new identifier for each reservation, or the future that waits for it is dropped. The
budget, the model and its stream answer anything. Time passes. -/
def meterLaws (ledger : SpendLedger) : Laws MeterOp MeterOp.Ret SpendRun where
  answers
    | .reserve key amount, r, answer, r' => (answer = none ∧ r' = r) ∨ ∃ id, id ∉ r.issued ∧
        answer = some (r.reserved ledger id key amount).1 ∧ r' = (r.reserved ledger id key amount).2
    | .correct key, r, answer, r' => (answer = none ∧ r' = r) ∨ ∃ id, id ∉ r.issued ∧
        answer = some (r.reserved ledger id key 0).1 ∧ r' = (r.reserved ledger id key 0).2
    | .commit id amount, r, answer, r' => (answer = none ∧ r' = r) ∨
        answer = some (r.committed id amount).1 ∧ r' = (r.committed id amount).2
    | .release id, r, answer, r' => (answer = none ∧ r' = r) ∨
        answer = some (r.released id).1 ∧ r' = (r.released id).2
    | .beginModelCall, r, _, r' => r' = r
    | .generateContent, r, _, r' => r' = r
    | .next, r, _, r' => r' = r
  moves r r' := ∃ now, r.now ≤ now ∧ r' = { r with now }

abbrev MeterEntry : Type := Entry MeterOp.Ret SpendRun

abbrev MeterPool : Type := ProcPool (fun _ : MeteredCall => Except Unit CallEnd) MeterOp.Ret SpendRun

abbrev MeterProc : Type := Proc (fun _ : MeteredCall => Except Unit CallEnd) MeterOp.Ret SpendRun

def meterSystem (ledger : SpendLedger) : System (fun _ : MeteredCall => Except Unit CallEnd) MeterOp.Ret SpendRun where
  laws := meterLaws ledger
  program call := (generate call).run

/-- A new ledger, without calls. -/
def noMeteredCalls (begun : Utc) : MeterPool := { world := { now := begun } }

end Adk
