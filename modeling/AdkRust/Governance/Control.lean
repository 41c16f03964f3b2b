import AdkRust.Governance.State
import AdkRust.Lib.ProcPool

/-!
# The replicated kill switch

A control that mirrors a store of freeze states (`GovernanceControl` of `governance.rs`). Its calls read and
write the store, and then the local state, one access at a time.

* `ControlState`, `ControlWorld.check`: the local state, and what every run asks.
* `refresh`, `freezeReplicated`, `unfreezeReplicated`: the calls, over `ControlOp`.
* `ControlWorld.laws`: what each access answers and does. Between accesses time passes, and other replicas
  write the store.

The audit records and the wake-up of the mirror task are left out.
-/

namespace Adk

/-- The code of a refusal of a control that has not read its store for too long. -/
def governanceStaleCode : String := "governance.stale"

def governanceFrozenCode : String := "governance.frozen"

/-- How a control mirrors its store. -/
structure GovernanceMirrorConfig where
  /-- How long the control trusts its last successful read. -/
  maxStaleness : Duration := 30000000000
  failOpen : Bool := false
  /-- The scopes mirrored; the first is the one a replicated freeze writes. -/
  scopes : List GovernanceScope := [.org]

/-- The scope that replicated freezes write. -/
def GovernanceMirrorConfig.primaryScope (config : GovernanceMirrorConfig) : GovernanceScope :=
  config.scopes.head?.getD .org

structure ControlState where
  frozen : Bool := false
  reason : Option String := none
  /-- The reason of a freeze read from the mirrored store, while one is in force. -/
  replicated : Option String := none
  /-- When the store was last read. -/
  lastRefresh : Option Nat := none
deriving DecidableEq

namespace ControlState

/-- Whether execution is frozen, locally or by the mirrored store. -/
def isFrozen (control : ControlState) : Bool := control.frozen || control.replicated.isSome

def freezeReason (control : ControlState) : Option String :=
  if control.frozen then control.reason else control.replicated

/-- How long ago the mirrored store was last read. -/
def staleness (control : ControlState) (now : Nat) : Option Duration :=
  control.lastRefresh.map fun refreshed => now - refreshed

/-- Whether the last read is too long ago. -/
def isStale (control : ControlState) (config : GovernanceMirrorConfig) (now : Nat) : Bool :=
  (control.staleness now).all fun age => decide (config.maxStaleness < age)

/-- The refusal of a control that is frozen, or stale and not to fail open. -/
def check (control : ControlState) (config : GovernanceMirrorConfig) (now : Nat) : Except AdkError Unit :=
  if control.isFrozen then
    let reason := control.freezeReason.getD "no reason given"
    .error {
      component := .agent
      category := .forbidden
      code := governanceFrozenCode
      message := s!"execution is frozen by the governance kill switch ({reason}); no model call " ++
        "or tool runs until an operator unfreezes it" }
  else if !config.failOpen && control.isStale config now then
    let age := ((control.staleness now).map fun age => s!"{age / 1000000000}s ago").getD "never"
    .error {
      component := .agent
      category := .unavailable
      code := governanceStaleCode
      message := s!"the governance kill switch state was last read {age}, past its " ++
        s!"{config.maxStaleness / 1000000000}s staleness limit, so execution is refused until the " ++
        "governance store is reachable again" }
  else .ok ()

theorem check_of_frozen {control : ControlState} (config : GovernanceMirrorConfig) (now : Nat)
    (h : control.isFrozen = true) : ∃ error, control.check config now = .error error := by
  unfold check
  rw [if_pos h]
  exact ⟨_, rfl⟩

end ControlState

/-! ## The calls -/

/-- The accesses of the calls. -/
inductive ControlOp where
  | get (scope : GovernanceScope)
  | set (scope : GovernanceScope) (expectedEpoch : Nat) (frozen : Bool) (reason : Option String)
      (issuedBy : Option SubjectRef)
  /-- Notes the time of the read, and takes over what was read. -/
  | replaceReplicated (reason : Option String)
  | setFrozen (reason : String)
  | clearFrozen

abbrev ControlOp.Ret : ControlOp → Type
  | .get _ => Option GovernanceState
  | .set .. => Except AdkError GovernanceState
  | .replaceReplicated _ => Unit
  | .setFrozen _ => Unit
  | .clearFrozen => Unit

abbrev ControlProg : Type → Type := ExceptT AdkError (Prog ControlOp ControlOp.Ret)

def ControlProg.perform (op : ControlOp) : ControlProg op.Ret := ExceptT.lift (Prog.perform op)

def replicatedWriteAttempts : Nat := 5

section Calls

variable (config : GovernanceMirrorConfig)

/-- Reads the scopes one after another, keeping the first freeze found. -/
def readScopes : List GovernanceScope → Option GovernanceState → ControlProg (Option GovernanceState)
  | [], frozenBy => pure frozenBy
  | scope :: scopes, frozenBy => do
    let state ← ControlProg.perform (.get scope)
    readScopes scopes (frozenBy.or (state.filter (·.frozen)))

/-- Reads the mirrored scopes once and applies them. -/
def refresh : ControlProg Unit := do
  let frozenBy ← readScopes config.scopes none
  let reason := frozenBy.map fun state => state.reason.getD s!"{state.scope.key} frozen"
  ControlProg.perform (.replaceReplicated reason)

def writeReplicated (frozen : Bool) (reason : Option String) (issuedBy : Option SubjectRef) :
    Nat → Option AdkError → ControlProg (Option GovernanceState)
  | 0, lastError => throw (lastError.getD (governanceConflictError config.primaryScope 0 0))
  | attempts + 1, _ => do
    let scope := config.primaryScope
    let current ← ControlProg.perform (.get scope)
    let epoch := (current.map (·.epoch)).getD 0
    if !frozen && current.all (!·.frozen) then
      refresh config
      return current
    match ← ControlProg.perform (.set scope epoch frozen reason issuedBy) with
    | .ok state =>
      refresh config
      return some state
    | .error error =>
      if error.isConflict then writeReplicated frozen reason issuedBy attempts (some error)
      else throw error

/-- Freezes execution on every replica, and this one whether or not the store is written. -/
def freezeReplicated (reason : String) (issuedBy : Option SubjectRef) :
    ControlProg (Option GovernanceState) :=
  tryCatch (writeReplicated config true (some reason) issuedBy replicatedWriteAttempts none) fun error => do
    ControlProg.perform (.setFrozen reason)
    throw error

/-- Lifts a replicated freeze, and any local one. -/
def unfreezeReplicated (issuedBy : Option SubjectRef) : ControlProg (Option GovernanceState) := do
  let state ← writeReplicated config false none issuedBy replicatedWriteAttempts none
  ControlProg.perform .clearFrozen
  return state

end Calls

inductive ControlCall where
  | refresh
  | freezeReplicated (reason : String) (issuedBy : Option SubjectRef)
  | unfreezeReplicated (issuedBy : Option SubjectRef)

abbrev ControlCall.Res : ControlCall → Type
  | .refresh => Except AdkError Unit
  | .freezeReplicated .. => Except AdkError (Option GovernanceState)
  | .unfreezeReplicated _ => Except AdkError (Option GovernanceState)

def ControlCall.program (config : GovernanceMirrorConfig) :
    (call : ControlCall) → Prog ControlOp ControlOp.Ret call.Res
  | .refresh => (Adk.refresh config).run
  | .freezeReplicated reason issuedBy => (Adk.freezeReplicated config reason issuedBy).run
  | .unfreezeReplicated issuedBy => (Adk.unfreezeReplicated config issuedBy).run

/-! ## The world of the calls -/

/-- A store and a control that mirrors it. -/
structure ControlWorld where
  store : GovernanceStore
  control : ControlState := {}
  now : Nat := 0
  /-- What was written to the store, in order. -/
  writes : List GovernanceState := []

namespace ControlWorld

/-- A write to the store. -/
def set (w : ControlWorld) (scope : GovernanceScope) (expectedEpoch : Nat) (frozen : Bool)
    (reason : Option String) (issuedBy : Option SubjectRef) (issuedAt : Utc) :
    Except AdkError GovernanceState × ControlWorld :=
  let (result, store) := w.store.set scope expectedEpoch frozen reason issuedBy issuedAt
  (result, { w with store, writes := w.writes ++ result.toOption.toList })

/-- What an access answers and does, a write being stamped with the given time. -/
def run (issuedAt : Utc) : (op : ControlOp) → ControlWorld → op.Ret × ControlWorld
  | .get scope, w => (w.store.get scope, w)
  | .set scope expectedEpoch frozen reason issuedBy, w =>
    w.set scope expectedEpoch frozen reason issuedBy issuedAt
  | .replaceReplicated reason, w =>
    ((), { w with control := { w.control with lastRefresh := some w.now, replicated := reason } })
  | .setFrozen reason, w =>
    ((), { w with control := { w.control with reason := some reason, frozen := true } })
  | .clearFrozen, w => ((), { w with control := { w.control with frozen := false, reason := none } })

/-- An access answers as its run does, at some time. Time passes by itself, and other replicas write. -/
def laws : Laws ControlOp ControlOp.Ret ControlWorld where
  answers op w r w' := ∃ issuedAt, (r, w') = run issuedAt op w
  moves w w' := (∃ span, w' = { w with now := w.now + span }) ∨
    ∃ scope expectedEpoch frozen reason issuedBy issuedAt,
      w' = (w.set scope expectedEpoch frozen reason issuedBy issuedAt).2

/-- A write lands, or loses and leaves the world as it was. -/
theorem set_cases (w : ControlWorld) (scope : GovernanceScope) (expectedEpoch : Nat) (frozen : Bool)
    (reason : Option String) (issuedBy : Option SubjectRef) (issuedAt : Utc) :
    (w.store.epoch scope ≠ expectedEpoch ∧
      w.set scope expectedEpoch frozen reason issuedBy issuedAt =
        (.error (governanceConflictError scope expectedEpoch (w.store.epoch scope)), w)) ∨
    (∃ state : GovernanceState, w.store.epoch scope = expectedEpoch ∧ state.scope = scope ∧
      state.frozen = frozen ∧ state.epoch = w.store.epoch scope + 1 ∧
      w.set scope expectedEpoch frozen reason issuedBy issuedAt =
        (.ok state, { w with store := w.store.put state, writes := w.writes ++ [state] })) := by
  unfold set
  rcases w.store.set_cases scope expectedEpoch frozen reason issuedBy issuedAt with
    ⟨hmvd, hset⟩ | ⟨state, hep, hscp, hfrz, hnext, hset⟩
  · left
    rw [hset]
    exact ⟨hmvd, by simp [Except.toOption]⟩
  · right
    rw [hset]
    exact ⟨state, hep, hscp, hfrz, hnext, rfl⟩

def new (store : GovernanceStore) : ControlWorld := { store }

/-- A world with what has been written to its store since. -/
def Later (w w' : ControlWorld) : Prop :=
  ∃ written, w'.writes = w.writes ++ written ∧ GovernanceStore.Written w.store written w'.store

theorem Later.refl (w : ControlWorld) : Later w w := ⟨[], (List.append_nil _).symm, .nil _⟩

theorem Later.trans (w₁ w₂ w₃ : ControlWorld) (h : Later w₁ w₂) (h' : Later w₂ w₃) : Later w₁ w₃ := by
  obtain ⟨written, hwrs, hsto⟩ := h
  obtain ⟨written', hwrs', hsto'⟩ := h'
  exact ⟨written ++ written', by rw [hwrs', hwrs, List.append_assoc], hsto.append hsto'⟩

theorem Later.getElem? {w w' : ControlWorld} (h : Later w w') {n : Nat} {state : GovernanceState}
    (hn : w.writes[n]? = some state) : w'.writes[n]? = some state := by
  obtain ⟨written, hwrs, -⟩ := h
  have hlt : n < w.writes.length := (List.getElem?_eq_some_iff.mp hn).1
  rw [hwrs, List.getElem?_append_left hlt]
  exact hn

theorem Later.length {w w' : ControlWorld} (h : Later w w') : w.writes.length ≤ w'.writes.length := by
  obtain ⟨written, hwrs, -⟩ := h
  rw [hwrs, List.length_append]
  omega

theorem set_later (w : ControlWorld) (scope : GovernanceScope) (expectedEpoch : Nat) (frozen : Bool)
    (reason : Option String) (issuedBy : Option SubjectRef) (issuedAt : Utc) :
    Later w (w.set scope expectedEpoch frozen reason issuedBy issuedAt).2 := by
  rcases w.set_cases scope expectedEpoch frozen reason issuedBy issuedAt with
    ⟨-, hset⟩ | ⟨state, -, hscp, -, hep, hset⟩
  · rw [hset]
    exact .refl w
  · rw [hset]
    exact ⟨[state], rfl, .single ⟨by rw [hscp]; exact hep, rfl⟩⟩

theorem answers_later {op : ControlOp} {w w' : ControlWorld} {r : op.Ret} (h : laws.answers op w r w') :
    Later w w' := by
  obtain ⟨issuedAt, h⟩ := h
  cases op with
  | get scope =>
    obtain ⟨-, rfl⟩ := Prod.mk.inj h
    exact .refl _
  | set scope expectedEpoch frozen reason issuedBy =>
    have hset := w.set_later scope expectedEpoch frozen reason issuedBy issuedAt
    have hw : w' = (w.set scope expectedEpoch frozen reason issuedBy issuedAt).2 := congrArg Prod.snd h
    rw [hw]
    exact hset
  | replaceReplicated reason =>
    obtain ⟨-, rfl⟩ := Prod.mk.inj h
    exact ⟨[], (List.append_nil _).symm, .nil _⟩
  | setFrozen reason =>
    obtain ⟨-, rfl⟩ := Prod.mk.inj h
    exact ⟨[], (List.append_nil _).symm, .nil _⟩
  | clearFrozen =>
    obtain ⟨-, rfl⟩ := Prod.mk.inj h
    exact ⟨[], (List.append_nil _).symm, .nil _⟩

theorem moves_later {w w' : ControlWorld} (h : laws.moves w w') : Later w w' := by
  rcases h with ⟨span, rfl⟩ | ⟨scope, expectedEpoch, frozen, reason, issuedBy, issuedAt, rfl⟩
  · exact ⟨[], (List.append_nil _).symm, .nil _⟩
  · exact w.set_later scope expectedEpoch frozen reason issuedBy issuedAt

/-- What every run asks of the control. -/
def check (w : ControlWorld) (config : GovernanceMirrorConfig) : Except AdkError Unit :=
  w.control.check config w.now

end ControlWorld

abbrev ControlProc : Type := Proc ControlCall.Res ControlOp.Ret ControlWorld

/-- A control and the calls that run on it. -/
abbrev ControlPool : Type := ProcPool ControlCall.Res ControlOp.Ret ControlWorld

def mirroredControl (config : GovernanceMirrorConfig) :
    System ControlCall.Res ControlOp.Ret ControlWorld where
  laws := ControlWorld.laws
  program := ControlCall.program config

end Adk
