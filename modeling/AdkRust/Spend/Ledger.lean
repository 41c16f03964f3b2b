import AdkRust.Core.Error
import AdkRust.Core.Time
import AdkRust.Lib.Calendar
import AdkRust.Lib.Total

/-!
# The spend ledger

The in-memory spend ledger (`spend.rs`): limits over scopes and calendar windows, holds, and what was
committed on each day. It reads its clock and changes its state under one lock. The random identifier of a
reservation is handed to `reserve`.

* `SpendKey.covers`, `SpendPeriod.windowStart`: which spend a limit is about.
* `LedgerState.committedIn`, `LedgerState.held`: what counts towards a limit.
* `SpendLedger.reserve`, `commit`, `release`, `spent`: the calls.
-/

namespace Adk

/-- The largest amount (`u64::MAX`). -/
def maxAmount : Nat := 18446744073709551615

/-- The sum of two amounts, as far as it fits. -/
def saturatingAdd (a b : Nat) : Nat := min (a + b) maxAmount

/-- Calendar window over which spend is summed. Boundaries are UTC. -/
inductive SpendPeriod where
  | day
  | month
  | lifetime
deriving DecidableEq

def dayLength : Int := 86400000000000

def dateNaive (at_ : Utc) : Day := at_ / dayLength

/-- The first moment of a day. -/
def midnight (day : Day) : Utc := day * dayLength

namespace SpendPeriod

/-- The start of the window that contains a moment; `none` for all time. -/
def windowStart (period : SpendPeriod) (at_ : Utc) : Option Utc :=
  match period with
  | .day => some (midnight (dateNaive at_))
  | .month => some (midnight (Calendar.monthStart (dateNaive at_)))
  | .lifetime => none

def toString : SpendPeriod → String
  | .day => "day"
  | .month => "month"
  | .lifetime => "lifetime"

end SpendPeriod

/-- A scope of spend and the window it is summed over. -/
structure SpendKey where
  org : String
  /-- Agent that spent, or `none` for any agent. -/
  agent : Option String := none
  /-- Vendor paid, or `none` for any vendor. -/
  vendor : Option String := none
  /-- Window the key sums over when used as a limit. -/
  period : SpendPeriod := .lifetime
deriving DecidableEq

namespace SpendKey

/-- Whether spend attributed to `entry` falls inside the scope. The periods are not compared. -/
def covers (key entry : SpendKey) : Bool :=
  key.org = entry.org && (key.agent.all fun agent => entry.agent = some agent) &&
    key.vendor.all fun vendor => entry.vendor = some vendor

def toString (key : SpendKey) : String :=
  s!"org={key.org}" ++ (key.agent.map fun agent => s!" agent={agent}").getD "" ++
    (key.vendor.map fun vendor => s!" vendor={vendor}").getD "" ++ s!" period={key.period.toString}"

def toValue (key : SpendKey) : Value :=
  .object ((key.agent.map fun agent => ("agent", Value.string agent)).toList ++
    [("org", .string key.org), ("period", .string key.period.toString)] ++
    (key.vendor.map fun vendor => ("vendor", Value.string vendor)).toList)

end SpendKey

/-- One cap: spend covered by the key within its period must not exceed the maximum. -/
structure SpendLimit where
  key : SpendKey
  maxMicroUsd : Nat

abbrev ReservationId : Type := String

/-- How a call of the ledger fails. -/
inductive SpendError where
  | limitExceeded (limit : SpendKey) (maxMicroUsd consumedMicroUsd requestedMicroUsd : Nat)
  | unknownReservation (id : ReservationId)

namespace SpendError

def toString : SpendError → String
  | .limitExceeded limit max consumed requested =>
    s!"spend limit exceeded for {limit.toString}: {consumed} micro-USD already consumed plus " ++
      s!"{requested} requested exceeds the cap of {max}. Raise the limit or wait for the window to reset"
  | .unknownReservation id =>
    s!"reservation {id} is unknown or already settled. Commit or release each reservation exactly once"

/-- The error as the core reports it. -/
def toAdkError (error : SpendError) : AdkError :=
  match error with
  | .limitExceeded limit max consumed requested => {
      component := .guardrail
      category := .forbidden
      code := "spend.limit_exceeded"
      message := error.toString
      metadata := Dict.ofList [("limit", limit.toValue), ("max_micro_usd", .ofInt max),
        ("consumed_micro_usd", .ofInt consumed), ("requested_micro_usd", .ofInt requested)] }
  | .unknownReservation _ => {
      component := .guardrail
      category := .notFound
      code := "spend.unknown_reservation"
      message := error.toString }

end SpendError

/-- A held reservation. -/
structure Hold where
  key : SpendKey
  amount : Nat
  expiresAt : Utc
deriving DecidableEq

/-- Attribution of committed spend, without the period. -/
structure Attribution where
  org : String
  agent : Option String
  vendor : Option String
deriving DecidableEq

namespace Attribution

def of (key : SpendKey) : Attribution := { org := key.org, agent := key.agent, vendor := key.vendor }

def asKey (self : Attribution) : SpendKey := { org := self.org, agent := self.agent, vendor := self.vendor }

end Attribution

/-- The spend of one attribution on one day. -/
structure Bucket where
  attribution : Attribution
  day : Day
  amount : Nat

namespace Bucket

def add (attribution : Attribution) (day : Day) (amount : Nat) : List Bucket → List Bucket
  | [] => [{ attribution, day, amount := saturatingAdd 0 amount }]
  | bucket :: rest =>
    if bucket.attribution = attribution ∧ bucket.day = day then
      { bucket with amount := saturatingAdd bucket.amount amount } :: rest
    else bucket :: add attribution day amount rest

end Bucket

/-- The state of an `InMemorySpendLedger`. -/
structure LedgerState where
  /-- Committed spend per attribution and UTC day. -/
  committed : List Bucket := []
  holds : Dict Hold := ∅

namespace LedgerState

/-- Whether a day is in the window that `since` starts. -/
def inWindow (since : Option Day) (day : Day) : Bool := since.all fun since => since ≤ day

/-- The committed spend of a scope in the window that contains `now`. -/
def committedIn (state : LedgerState) (scope : SpendKey) (period : SpendPeriod) (now : Utc) : Nat :=
  let since := (period.windowStart now).map dateNaive
  ((state.committed.filter fun bucket =>
    inWindow since bucket.day && scope.covers bucket.attribution.asKey).map (·.amount)).foldl saturatingAdd 0

/-- The live holds of a scope. -/
def held (state : LedgerState) (scope : SpendKey) (now : Utc) : Nat :=
  ((state.holds.vals.filter fun hold => now < hold.expiresAt && scope.covers hold.key).map
    (·.amount)).foldl saturatingAdd 0

end LedgerState

/-- An `InMemorySpendLedger`, without its state. -/
structure SpendLedger where
  limits : List SpendLimit := []
  /-- How long an unsettled reservation holds budget. -/
  ttl : Duration := 15 * 60 * 1000000000

namespace SpendLedger

/-- The caps that apply to spend attributed to `entry`. -/
def applicable (ledger : SpendLedger) (entry : SpendKey) : List SpendLimit :=
  ledger.limits.filter fun limit => limit.key.covers entry

/-- What a limit counts already. -/
def consumed (state : LedgerState) (limit : SpendLimit) (now : Utc) : Nat :=
  saturatingAdd (state.committedIn limit.key limit.key.period now) (state.held limit.key now)

def refusal (state : LedgerState) (now : Utc) (amount : Nat) (limit : SpendLimit) : Option SpendError :=
  if limit.maxMicroUsd < saturatingAdd (consumed state limit now) amount then
    some (.limitExceeded limit.key limit.maxMicroUsd (consumed state limit now) amount)
  else none

/-- When a hold taken now stops counting. -/
def expiry (ledger : SpendLedger) (now : Utc) : Utc :=
  (checkedAddSigned now ((fromStd ledger.ttl).getD maxSpan)).getD maxUtc

def reserve (ledger : SpendLedger) (state : LedgerState) (now : Utc) (id : ReservationId) (key : SpendKey)
    (amount : Nat) : Except SpendError ReservationId × LedgerState :=
  match (ledger.applicable key).findSome? (refusal state now amount) with
  | some error => (.error error, state)
  | none =>
    (.ok id, { state with holds := state.holds.insert id { key, amount, expiresAt := ledger.expiry now } })

/-- Records an amount as spent and drops the hold. -/
def commit (state : LedgerState) (now : Utc) (id : ReservationId) (actual : Nat) :
    Except SpendError Unit × LedgerState :=
  match state.holds[id]? with
  | none => (.error (.unknownReservation id), state)
  | some hold =>
    (.ok (), {
      committed := Bucket.add (.of hold.key) (dateNaive now) actual state.committed
      holds := state.holds.erase id })

/-- Drops the hold. -/
def release (state : LedgerState) (id : ReservationId) : Except SpendError Unit × LedgerState :=
  match state.holds[id]? with
  | none => (.error (.unknownReservation id), state)
  | some _ => (.ok (), { state with holds := state.holds.erase id })

/-- The committed spend of a scope in the current window of a period. -/
def spent (state : LedgerState) (key : SpendKey) (period : SpendPeriod) (now : Utc) : Nat :=
  state.committedIn key period now

end SpendLedger

end Adk
