import AdkRust.Core.Error
import AdkRust.Core.Principal
import AdkRust.Core.Time
import AdkRust.Lib.Path

/-!
# Freeze state of the kill switch

The in-memory store of the freeze state of each scope (`governance_state.rs`). A change is a compare-and-swap
on the epoch of the scope.

* `GovernanceStore.set`: the change. A change whose epoch has moved leaves the store as it was.
* `GovernanceStore.Written`: writes one after another, as a path of the store.

An epoch is taken here without its bound of `2^64`.
-/

namespace Adk

/-- What a governance state applies to. -/
inductive GovernanceScope where
  | org
  | tenant (tenant : String)
  | agent (agent : AgentId)
deriving DecidableEq

def GovernanceScope.key : GovernanceScope → String
  | .org => "org"
  | .tenant name => s!"tenant:{name}"
  | .agent id => s!"agent:{id.asStr}"

/-- The freeze state of one scope. -/
structure GovernanceState where
  scope : GovernanceScope
  /-- Whether new runs and further actions in the scope are refused. -/
  frozen : Bool
  reason : Option String
  issuedBy : Option SubjectRef
  issuedAt : Utc
  /-- Increases by one on every change. -/
  epoch : Nat
deriving DecidableEq

/-- The code of a change whose epoch moved. -/
def governanceConflictCode : String := "governance.conflict"

/-- The error of a change whose epoch moved. -/
def governanceConflictError (scope : GovernanceScope) (expectedEpoch currentEpoch : Nat) : AdkError where
  component := .agent
  category := .conflict
  code := governanceConflictCode
  message := s!"governance state of '{scope.key}' is at epoch {currentEpoch}, not {expectedEpoch}; another " ++
    "change landed first, so re-read the state and decide again"
  metadata := (∅ : Dict Value).insert "current_epoch" (.number (.int currentEpoch))

@[simp] theorem governanceConflictError_isConflict (scope : GovernanceScope) (expected current : Nat) :
    (governanceConflictError scope expected current).isConflict = true := rfl

/-- The states of an `InMemoryGovernanceStateStore`. -/
structure GovernanceStore where
  states : Dict GovernanceState := ∅

namespace GovernanceStore

def get (store : GovernanceStore) (scope : GovernanceScope) : Option GovernanceState :=
  store.states[scope.key]?

def epoch (store : GovernanceStore) (scope : GovernanceScope) : Nat :=
  ((store.get scope).map (·.epoch)).getD 0

def put (store : GovernanceStore) (state : GovernanceState) : GovernanceStore :=
  { states := store.states.insert state.scope.key state }

def set (store : GovernanceStore) (scope : GovernanceScope) (expectedEpoch : Nat) (frozen : Bool)
    (reason : Option String) (issuedBy : Option SubjectRef) (issuedAt : Utc) :
    Except AdkError GovernanceState × GovernanceStore :=
  let currentEpoch := store.epoch scope
  if currentEpoch ≠ expectedEpoch then
    (.error (governanceConflictError scope expectedEpoch currentEpoch), store)
  else
    let state : GovernanceState :=
      { scope, frozen, reason, issuedBy, issuedAt, epoch := currentEpoch + 1 }
    (.ok state, store.put state)

/-- A change lands, or loses to a change that has moved the epoch. -/
theorem set_cases (store : GovernanceStore) (scope : GovernanceScope) (expectedEpoch : Nat) (frozen : Bool)
    (reason : Option String) (issuedBy : Option SubjectRef) (issuedAt : Utc) :
    (store.epoch scope ≠ expectedEpoch ∧
      store.set scope expectedEpoch frozen reason issuedBy issuedAt =
        (.error (governanceConflictError scope expectedEpoch (store.epoch scope)), store)) ∨
    (∃ state : GovernanceState, store.epoch scope = expectedEpoch ∧ state.scope = scope ∧
      state.frozen = frozen ∧ state.epoch = store.epoch scope + 1 ∧
      store.set scope expectedEpoch frozen reason issuedBy issuedAt = (.ok state, store.put state)) := by
  by_cases hmvd : store.epoch scope ≠ expectedEpoch
  · left
    refine ⟨hmvd, ?_⟩
    unfold set
    rw [if_pos hmvd]
  · right
    refine ⟨{ scope, frozen, reason, issuedBy, issuedAt, epoch := store.epoch scope + 1 },
      Decidable.not_not.mp hmvd, rfl, rfl, rfl, ?_⟩
    unfold set
    rw [if_neg hmvd]

def frozen (store : GovernanceStore) (scope : GovernanceScope) : Bool := (store.get scope).any (·.frozen)

theorem get_put (store : GovernanceStore) (state : GovernanceState) (scope : GovernanceScope) :
    (store.put state).get scope = if state.scope.key = scope.key then some state else store.get scope := by
  unfold get put
  rw [Std.ExtTreeMap.getElem?_insert]
  simp only [Std.LawfulEqCmp.compare_eq_iff_eq]

theorem get_put_of_ne {store : GovernanceStore} {state : GovernanceState} {scope : GovernanceScope}
    (h : state.scope.key ≠ scope.key) : (store.put state).get scope = store.get scope := by
  rw [get_put, if_neg h]

theorem get_put_of_eq {store : GovernanceStore} {state : GovernanceState} {scope : GovernanceScope}
    (h : state.scope.key = scope.key) : (store.put state).get scope = some state := by
  rw [get_put, if_pos h]

/-! ## Writes one after another -/

def Write (store : GovernanceStore) (state : GovernanceState) (store' : GovernanceStore) : Prop :=
  state.epoch = store.epoch state.scope + 1 ∧ store' = store.put state

/-- Writes one after another. -/
abbrev Written : GovernanceStore → List GovernanceState → GovernanceStore → Prop := Path Write

def writesOf (scope : GovernanceScope) (writes : List GovernanceState) : List GovernanceState :=
  writes.filter fun state => state.scope.key = scope.key

variable {store store' : GovernanceStore} {writes : List GovernanceState} {scope : GovernanceScope}

/-- **The store holds the last write** of a scope, or what it held before them. -/
theorem last (h : Written store writes store') (scope : GovernanceScope) :
    store'.get scope = (writesOf scope writes).getLast?.or (store.get scope) := by
  induction h with
  | nil => rfl
  | @cons store _ _ state writes hwrite _ ih =>
    obtain ⟨-, rfl⟩ := hwrite
    rw [ih]
    by_cases hkey : state.scope.key = scope.key
    · have hmine : writesOf scope (state :: writes) = state :: writesOf scope writes := by
        simp [writesOf, hkey]
      rw [hmine, get_put_of_eq hkey, List.getLast?_cons]
      cases (writesOf scope writes).getLast? <;> rfl
    · have hoth : writesOf scope (state :: writes) = writesOf scope writes := by
        simp [writesOf, hkey]
      rw [hoth, get_put_of_ne hkey]

/-- **The epochs of a scope count its writes.** -/
theorem epochs (h : Written store writes store') (scope : GovernanceScope) :
    (writesOf scope writes).map (·.epoch) =
        List.range' (store.epoch scope + 1) (writesOf scope writes).length ∧
      store'.epoch scope = store.epoch scope + (writesOf scope writes).length := by
  induction h with
  | nil => exact ⟨rfl, rfl⟩
  | @cons store _ _ state writes hwrite _ ih =>
    obtain ⟨hep, rfl⟩ := hwrite
    obtain ⟨hrng, hlast⟩ := ih
    by_cases hkey : state.scope.key = scope.key
    · have hmine : writesOf scope (state :: writes) = state :: writesOf scope writes := by
        simp [writesOf, hkey]
      have hsame : store.epoch state.scope = store.epoch scope := by
        unfold epoch get
        rw [hkey]
      have hnext : (store.put state).epoch scope = store.epoch scope + 1 := by
        show (((store.put state).get scope).map (·.epoch)).getD 0 = _
        rw [get_put_of_eq hkey, ← hsame]
        exact hep
      rw [hnext] at hrng hlast
      rw [hmine, List.map_cons, List.length_cons, hrng, List.range'_succ, hep, hsame]
      exact ⟨rfl, by omega⟩
    · have hoth : writesOf scope (state :: writes) = writesOf scope writes := by
        simp [writesOf, hkey]
      have hsame : (store.put state).epoch scope = store.epoch scope := by
        unfold epoch
        rw [get_put_of_ne hkey]
      rw [hsame] at hrng hlast
      rw [hoth]
      exact ⟨hrng, hlast⟩

/-- A freeze that is no longer in force was lifted by a later write. -/
theorem lifted (h : Written store writes store') (hbef : store.frozen scope = true)
    (haft : store'.frozen scope = false) :
    ∃ (m : Nat) (state : GovernanceState), writes[m]? = some state ∧ state.scope.key = scope.key ∧ state.frozen = false := by
  unfold frozen at haft
  rw [last h scope] at haft
  cases hlast : (writesOf scope writes).getLast? with
  | none =>
    rw [hlast, Option.none_or] at haft
    exact absurd hbef (by rw [frozen, haft]; decide)
  | some state =>
    rw [hlast] at haft
    have hmem : state ∈ writesOf scope writes := List.mem_of_getLast? hlast
    obtain ⟨hmem, hkey⟩ := List.mem_filter.mp hmem
    obtain ⟨m, hm⟩ := List.mem_iff_getElem?.mp hmem
    exact ⟨m, state, hm, of_decide_eq_true hkey, by simpa using haft⟩

/-- A freeze that was written and is no longer in force was lifted by a later write. -/
theorem lifted_after (h : Written store writes store') {n : Nat} {state : GovernanceState}
    (hn : writes[n]? = some state) (hkey : state.scope.key = scope.key) (hfrz : state.frozen = true)
    (haft : store'.frozen scope = false) :
    ∃ (m : Nat) (state : GovernanceState), n < m ∧ writes[m]? = some state ∧ state.scope.key = scope.key ∧ state.frozen = false := by
  induction h generalizing n with
  | nil => cases hn
  | @cons store _ _ first writes hwrite hrest ih =>
    cases n with
    | zero =>
      obtain rfl := Option.some.inj hn
      obtain ⟨-, rfl⟩ := hwrite
      have hbef : (store.put first).frozen scope = true := by
        unfold frozen
        rw [get_put_of_eq hkey]
        exact hfrz
      obtain ⟨m, state, hm, hst⟩ := lifted hrest hbef haft
      exact ⟨m + 1, state, by omega, hm, hst⟩
    | succ n =>
      obtain ⟨m, state, hlt, hm, hst⟩ := ih hn haft
      exact ⟨m + 1, state, by omega, hm, hst⟩

end GovernanceStore

end Adk
