import AdkRust.Core.Error
import AdkRust.Core.Time
import AdkRust.Lib.Path

/-!
# Leases

The in-memory lease store (`lease.rs`). Each call reads the clock before it takes the lock, so a call comes
with its reading and calls may take effect in any order of their readings.

* `LeaseStore.acquire`, `renew`, `release`, `current`: the calls. A call that fails leaves the store as it
  was, and says so by returning it.
* `LeaseStore.Step`: one call of a history, with what it answered.

An epoch is a count of grants, taken here without its bound of `2^64`.
-/

namespace Adk

/-- A time-limited grant of a resource to one owner. -/
structure Lease where
  resource : String
  owner : String
  /-- One higher than the resource's previous grant. -/
  epoch : Nat
  /-- When the lease lapses unless renewed. -/
  expiresAt : Utc
deriving DecidableEq

/-- The code of a lease or run write that carries an epoch that is no longer current. -/
def leaseStaleEpochCode : String := "lease.stale_epoch"

def leaseStaleEpochError (resource : String) (epoch : Nat) : AdkError where
  component := .agent
  category := .conflict
  code := leaseStaleEpochCode
  message := s!"lease on '{resource}' at epoch {epoch} is no longer held; stop work done under it " ++
    "and acquire the resource again"

/-- `now + ttl`; a `ttl` that is zero or does not fit is refused with the given code. -/
def deadline (now : Utc) (ttl : Duration) (code : String) : Except AdkError Utc :=
  match ((fromStd ttl).filter fun _ => ttl ≠ 0).bind (checkedAddSigned now) with
  | some at_ => .ok at_
  | none => .error {
      component := .agent
      category := .invalidInput
      code
      message := s!"time to live {debugSpan ttl} must be greater than zero and fit in a timestamp" }

/-- What is kept of a resource. -/
structure LeaseSlot where
  lease : Lease
  released : Bool
deriving DecidableEq

namespace LeaseSlot

/-- Whether the lease is neither released nor past its expiry. -/
def live (slot : LeaseSlot) (now : Utc) : Bool := !slot.released && decide (now < slot.lease.expiresAt)

def holds (slot : LeaseSlot) (lease : Lease) : Bool :=
  slot.lease.epoch = lease.epoch && slot.lease.owner = lease.owner

end LeaseSlot

/-- The store of an `InMemoryLeaseStore`. -/
structure LeaseStore where
  slots : Dict LeaseSlot := ∅

namespace LeaseStore

/-- The code of a `ttl` that is refused. -/
def invalidTtlCode : String := "lease.invalid_ttl"

def put (store : LeaseStore) (slot : LeaseSlot) : LeaseStore :=
  { slots := store.slots.insert slot.lease.resource slot }

/-- Grants a resource under the epoch after `previous`. -/
def grant (store : LeaseStore) (resource owner : String) (expiresAt : Utc) (previous : Nat) :
    Except AdkError (Option Lease) × LeaseStore :=
  let lease : Lease := { resource, owner, epoch := previous + 1, expiresAt }
  (.ok (some lease), store.put { lease, released := false })

/-- Grants a resource, unless another owner holds it. -/
def acquire (store : LeaseStore) (now : Utc) (resource owner : String) (ttl : Duration) :
    Except AdkError (Option Lease) × LeaseStore :=
  match deadline now ttl invalidTtlCode with
  | .error error => (.error error, store)
  | .ok expiresAt =>
    match store.slots[resource]? with
    | some slot =>
      if slot.live now && slot.lease.owner ≠ owner then (.ok none, store)
      else store.grant resource owner expiresAt slot.lease.epoch
    | none => store.grant resource owner expiresAt 0

/-- Extends a lease, keeping its epoch. -/
def renew (store : LeaseStore) (now : Utc) (lease : Lease) (ttl : Duration) :
    Except AdkError Lease × LeaseStore :=
  match deadline now ttl invalidTtlCode with
  | .error error => (.error error, store)
  | .ok expiresAt =>
    match store.slots[lease.resource]? with
    | some slot =>
      if !slot.released && slot.holds lease then
        let renewed := { slot.lease with expiresAt }
        (.ok renewed, { slots := store.slots.insert lease.resource { slot with lease := renewed } })
      else (.error (leaseStaleEpochError lease.resource lease.epoch), store)
    | none => (.error (leaseStaleEpochError lease.resource lease.epoch), store)

def release (store : LeaseStore) (lease : Lease) : LeaseStore :=
  match store.slots[lease.resource]? with
  | some slot =>
    if slot.holds lease then
      { slots := store.slots.insert lease.resource { slot with released := true } }
    else store
  | none => store

def current (store : LeaseStore) (now : Utc) (resource : String) : Option Lease :=
  (store.slots[resource]?.filter (·.live now)).map (·.lease)

/-! ## Histories -/

inductive Call where
  | acquire (resource owner : String) (ttl : Duration)
  | renew (lease : Lease) (ttl : Duration)
  | release (lease : Lease)
  | current (resource : String)

inductive Answer where
  | acquired (result : Except AdkError (Option Lease))
  | renewed (result : Except AdkError Lease)
  | released
  | current (lease : Option Lease)

/-- A call with the clock reading it was made at, and its answer. -/
structure Event where
  now : Utc
  call : Call
  answer : Answer

def run (store : LeaseStore) (now : Utc) : Call → Answer × LeaseStore
  | .acquire resource owner ttl =>
    let (result, store) := store.acquire now resource owner ttl
    (.acquired result, store)
  | .renew lease ttl =>
    let (result, store) := store.renew now lease ttl
    (.renewed result, store)
  | .release lease => (.released, store.release lease)
  | .current resource => (.current (store.current now resource), store)

/-- One call of a history. -/
def Step (store : LeaseStore) (event : Event) (store' : LeaseStore) : Prop :=
  store.run event.now event.call = (event.answer, store')

abbrev Reaches (history : List Event) (store : LeaseStore) : Prop := Path Step {} history store

def Event.granted (event : Event) : Option Lease :=
  match event.answer with
  | .acquired (.ok lease) => lease
  | _ => none

/-- The epochs handed out for a resource, in the order the calls took effect. -/
def epochsOf (resource : String) (history : List Event) : List Nat :=
  (history.filterMap Event.granted).filterMap fun lease =>
    if lease.resource = resource then some lease.epoch else none

end LeaseStore

end Adk
