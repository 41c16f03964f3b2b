import AdkRust.Lib.ProcPool
import AdkRust.Sessions.State

/-!
# The in-memory session service

Sessions and the tiers they share, each behind a lock (`inmemory.rs`). A call takes one lock after another: an append
writes the session and then the tiers, a create holds the lock of the sessions while it writes the tiers.

* `createSession`, `appendTo`, `truncate`, `getForIdentity`: the calls, one lock at a time.
* `SessionWorld.laws`: what is done under each lock.
* `sessionSystem`: any calls.
-/

namespace Adk

def identityNotFound (identity : AdkIdentity) : AdkError where
  component := .session
  category := .notFound
  code := "session.not_found"
  message := s!"session '{identity.sessionId}' was not found for app '{identity.appName}' and user '{identity.userId}'"

def sessionAlreadyExists (identity : AdkIdentity) : AdkError where
  component := .session
  category := .conflict
  code := "session.already_exists"
  message := s!"session '{identity.sessionId}' already exists for app '{identity.appName}' and user " ++
    s!"'{identity.userId}'; read it with get, or omit session_id to create a new one"

def rewindEventNotFound (identity : AdkIdentity) (eventId : String) : AdkError where
  component := .session
  category := .notFound
  code := "session.event_not_found"
  message := s!"event '{eventId}' is not in session '{identity.sessionId}'; rewind targets an event the session holds"

def rewindStepsExceed (identity : AdkIdentity) (steps events : Nat) : AdkError where
  component := .session
  category := .invalidInput
  code := "session.rewind.too_many_steps"
  message := s!"cannot rewind {steps} steps: session '{identity.sessionId}' holds {events} events"

/-! ## The data -/

structure SessionData where
  events : List SessionEvent
  state : StateMap
  /-- The session tier the session was created with; rewind rebuilds from it. -/
  initialState : StateMap
  updatedAt : Utc

namespace SessionData

def push (data : SessionData) (event : SessionEvent) (delta : StateMap) : SessionData :=
  { data with updatedAt := event.timestamp, state := data.state.extend delta, events := data.events ++ [event] }

/-- A session with its first events only. -/
def truncated (data : SessionData) (keep : Nat) (now : Utc) : SessionData :=
  let events := data.events.take keep
  { data with events, state := rebuildSessionState data.initialState events, updatedAt := now }

end SessionData

inductive SharedTier where
  | app (appName : String)
  | user (appName userId : String)
deriving DecidableEq

namespace SharedTier

def isOf (identity : AdkIdentity) : SharedTier → Bool
  | .app appName => decide (appName = identity.appName)
  | .user appName userId => decide (appName = identity.appName ∧ userId = identity.userId)

def delta (tier : SharedTier) (state : StateMap) : StateMap :=
  match tier with
  | .app _ => (extractStateDeltas state).app
  | .user .. => (extractStateDeltas state).user

end SharedTier

/-- A session as callers see it. -/
structure SessionView where
  identity : AdkIdentity
  state : StateMap
  events : List SessionEvent
  updatedAt : Utc

/-! ## The calls -/

/-- A call of the service. The identifier of a session that is created without one is random. -/
inductive SessionCall where
  | create (appName userId : String) (sessionId : Option String) (random : String) (state : StateMap)
  | appendEvent (identity : AdkIdentity) (event : SessionEvent)
  | rewind (identity : AdkIdentity) (targetEventId : String)
  | rewindSteps (identity : AdkIdentity) (steps : Nat)
  | getForIdentity (identity : AdkIdentity)

inductive SessionAnswer where
  | session (view : SessionView)
  | appended

/-- What is done under one lock. -/
inductive SessionOp where
  | now
  /-- Takes the lock of the sessions, and keeps it when the session is not there. -/
  | lockSessions (identity : AdkIdentity)
  | extendTier (tier : SharedTier) (delta : StateMap)
  /-- Inserts a session and gives the lock of the sessions up. -/
  | insertSession (identity : AdkIdentity) (state : StateMap) (now : Utc)
  | readSession (identity : AdkIdentity)
  | readTier (tier : SharedTier)
  | pushEvent (identity : AdkIdentity) (event : SessionEvent) (delta : StateMap)
  | truncate (identity : AdkIdentity) (keep : List SessionEvent → Except AdkError Nat)

abbrev SessionOp.Ret : SessionOp → Type
  | .now => Utc
  | .lockSessions _ => Bool
  | .extendTier .. => StateMap
  | .insertSession .. => Unit
  | .readSession _ => Option SessionData
  | .readTier _ => StateMap
  | .pushEvent .. => Bool
  | .truncate .. => Except AdkError SessionData

abbrev SessionProg : Type → Type := Prog SessionOp SessionOp.Ret

/-- The session as callers see it, with the current tiers. -/
def viewSession (identity : AdkIdentity) (data : SessionData) : SessionProg (Except AdkError SessionAnswer) :=
  .ask (.readTier (.app identity.appName)) fun app =>
    .ask (.readTier (.user identity.appName identity.userId)) fun user =>
      .pure (.ok (.session {
        identity
        state := mergeStates app user data.state
        events := data.events
        updatedAt := data.updatedAt }))

def createSession (appName userId : String) (sessionId : Option String) (random : String) (state : StateMap) :
    SessionProg (Except AdkError SessionAnswer) :=
  match makeIdentity appName userId (sessionId.getD random) with
  | .error error => .pure (.error error)
  | .ok identity =>
    let deltas := extractStateDeltas state
    .ask .now fun now => .ask (.lockSessions identity) fun held =>
      if held then
        .ask (.extendTier (.app appName) deltas.app) fun app =>
          .ask (.extendTier (.user appName userId) deltas.user) fun user =>
            .ask (.insertSession identity deltas.session now) fun _ =>
              .pure (.ok (.session {
                identity, state := mergeStates app user deltas.session, events := [], updatedAt := now }))
      else .pure (.error (sessionAlreadyExists identity))

/-- Writes what an event sets in a tier, when it sets something. -/
def extendShared (tier : SharedTier) (delta : StateMap) : SessionProg Unit :=
  if delta.isEmpty then .pure () else .ask (.extendTier tier delta) fun _ => .pure ()

/-- An event without the keys of the invocation. -/
def SessionEvent.persisted (event : SessionEvent) : SessionEvent :=
  { event with stateDelta := event.stateDelta.filter fun key _ => !startsWith key "temp:" }

def appendTo (identity : AdkIdentity) (event : SessionEvent) : SessionProg (Except AdkError SessionAnswer) :=
  let event := event.persisted
  let deltas := extractStateDeltas event.stateDelta
  .ask (.pushEvent identity event deltas.session) fun found =>
    if found then
      (extendShared (.app identity.appName) deltas.app).bind fun _ =>
        (extendShared (.user identity.appName identity.userId) deltas.user).bind fun _ =>
          .pure (.ok .appended)
    else .pure (.error (identityNotFound identity))

def truncateSession (identity : AdkIdentity) (keep : List SessionEvent → Except AdkError Nat) :
    SessionProg (Except AdkError SessionAnswer) :=
  .ask (.truncate identity keep) fun
    | .error error => .pure (.error error)
    | .ok data => viewSession identity data

def getForIdentity (identity : AdkIdentity) : SessionProg (Except AdkError SessionAnswer) :=
  .ask (.readSession identity) fun
    | none => .pure (.error (identityNotFound identity))
    | some data => viewSession identity data

/-- How many events stay when a session is rewound to one of them. -/
def keepUpTo (identity : AdkIdentity) (targetEventId : String) (events : List SessionEvent) : Except AdkError Nat :=
  match events.findIdx? fun event => event.id = targetEventId with
  | some index => .ok (index + 1)
  | none => .error (rewindEventNotFound identity targetEventId)

def keepBut (identity : AdkIdentity) (steps : Nat) (events : List SessionEvent) : Except AdkError Nat :=
  if steps ≤ events.length then .ok (events.length - steps)
  else .error (rewindStepsExceed identity steps events.length)

def sessionProgram : SessionCall → SessionProg (Except AdkError SessionAnswer)
  | .create appName userId sessionId random state => createSession appName userId sessionId random state
  | .appendEvent identity event => appendTo identity event
  | .rewind identity targetEventId => truncateSession identity (keepUpTo identity targetEventId)
  | .rewindSteps identity steps =>
    if steps = 0 then getForIdentity identity else truncateSession identity (keepBut identity steps)
  | .getForIdentity identity => getForIdentity identity

/-! ## The locks -/

structure SessionWorld where
  sessions : AdkIdentity → Option SessionData := fun _ => none
  tiers : SharedTier → StateMap := fun _ => ∅
  /-- The session that is being created, while its create has the lock of the sessions. -/
  creating : Option AdkIdentity := none

namespace SessionWorld

def setSession (w : SessionWorld) (identity : AdkIdentity) (data : SessionData) : SessionWorld :=
  { w with sessions := fun other => if other = identity then some data else w.sessions other }

def setTier (w : SessionWorld) (tier : SharedTier) (state : StateMap) : SessionWorld :=
  { w with tiers := fun other => if other = tier then state else w.tiers other }

@[simp] theorem setSession_self (w : SessionWorld) (identity : AdkIdentity) (data : SessionData) :
    (w.setSession identity data).sessions identity = some data := if_pos rfl

theorem setSession_other {w : SessionWorld} {identity other : AdkIdentity} {data : SessionData}
    (h : other ≠ identity) : (w.setSession identity data).sessions other = w.sessions other := if_neg h

theorem setSession_eq_some {w : SessionWorld} {identity other : AdkIdentity} {data found : SessionData}
    (h : (w.setSession identity data).sessions other = some found) :
    (other = identity ∧ found = data) ∨ (other ≠ identity ∧ w.sessions other = some found) := by
  by_cases hoth : other = identity
  · subst hoth
    rw [setSession_self] at h
    exact .inl ⟨rfl, (Option.some.inj h).symm⟩
  · rw [setSession_other hoth] at h
    exact .inr ⟨hoth, h⟩

@[simp] theorem setTier_self (w : SessionWorld) (tier : SharedTier) (state : StateMap) :
    (w.setTier tier state).tiers tier = state := if_pos rfl

theorem setTier_other {w : SessionWorld} {tier other : SharedTier} {state : StateMap} (h : other ≠ tier) :
    (w.setTier tier state).tiers other = w.tiers other := if_neg h

/-- What is done under each lock. What needs the lock of the sessions waits while a create has it. -/
def laws : Laws SessionOp SessionOp.Ret SessionWorld where
  answers
    | .now, w, _, w' => w' = w
    | .lockSessions identity, w, held, w' => w.creating = none ∧
        (held = false ∧ (w.sessions identity).isSome = true ∧ w' = w ∨
          held = true ∧ w.sessions identity = none ∧ w' = { w with creating := some identity })
    | .extendTier tier delta, w, state, w' => state = (w.tiers tier).extend delta ∧ w' = w.setTier tier state
    | .insertSession identity state now, w, _, w' =>
        w' = { w.setSession identity { events := [], state, initialState := state, updatedAt := now } with
          creating := none }
    | .readSession identity, w, data, w' => w.creating = none ∧ data = w.sessions identity ∧ w' = w
    | .readTier tier, w, state, w' => state = w.tiers tier ∧ w' = w
    | .pushEvent identity event delta, w, found, w' => w.creating = none ∧
        (found = false ∧ w.sessions identity = none ∧ w' = w ∨
          ∃ data, found = true ∧ w.sessions identity = some data ∧ w' = w.setSession identity (data.push event delta))
    | .truncate identity keep, w, result, w' => w.creating = none ∧
        ((∃ error, result = .error error ∧ w' = w ∧
            (w.sessions identity = none ∧ error = identityNotFound identity ∨
              ∃ data, w.sessions identity = some data ∧ keep data.events = .error error)) ∨
          ∃ data count now, w.sessions identity = some data ∧ keep data.events = .ok count ∧
            result = .ok (data.truncated count now) ∧ w' = w.setSession identity (data.truncated count now))
  moves _ _ := False

end SessionWorld

abbrev SessionEntry : Type := Entry SessionOp.Ret SessionWorld

abbrev SessionProc : Type := Proc (fun _ : SessionCall => Except AdkError SessionAnswer) SessionOp.Ret SessionWorld

abbrev SessionPool : Type :=
  ProcPool (fun _ : SessionCall => Except AdkError SessionAnswer) SessionOp.Ret SessionWorld

/-- Calls of the service, one lock at a time. -/
def sessionSystem (acts : SessionPool → Nat → SessionOp → Prop) :
    System (fun _ : SessionCall => Except AdkError SessionAnswer) SessionOp.Ret SessionWorld where
  laws := SessionWorld.laws
  program := sessionProgram
  acts

end Adk
