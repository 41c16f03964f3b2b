import AdkRust.Sessions.Memory
import Mathlib.Data.List.Induction

/-!
# Session state is the fold of the logs

Any number of calls of an in-memory session service, interleaved at their locks, and stopping anywhere. The session tier
is written with the log, under one lock; the tiers that sessions share are written after it, so that two appends to one
session may write them in the other order.

* `StateIsFold`: what holds of the sessions and the tiers.
* `stateIsFold_ordered`: **it holds in every run** in which no append writes a key of a tier after a later event of the
  session has.
* `not_stateIsFold`: it does not hold in every run.
-/

namespace Adk

open ProcPool

/-! ## The property -/

def foldEvents (initial : StateMap) (events : List SessionEvent) : StateMap :=
  events.foldl (fun state event => state.extend (extractStateDeltas event.stateDelta).session) initial

def lastSet (tier : SharedTier) (key : String) (events : List SessionEvent) : Option Value :=
  events.foldl (fun value event => (tier.delta event.stateDelta)[key]?.or value) none

def SessionCall.identity : SessionCall → Option AdkIdentity
  | .create appName userId sessionId random _ => (makeIdentity appName userId (sessionId.getD random)).toOption
  | .appendEvent identity _ | .rewind identity _ | .rewindSteps identity _ | .getForIdentity identity => some identity

def WroteTier (log : List SessionEntry) (tier : SharedTier) (key : String) (value : Value) : Prop :=
  ∃ w delta state, (⟨w, .extendTier tier delta, state⟩ : SessionEntry) ∈ log ∧ delta[key]? = some value

def PushedAt (log : List SessionEntry) (identity : AdkIdentity) (place : Nat) : Prop :=
  ∃ w event delta data, (⟨w, .pushEvent identity event delta, true⟩ : SessionEntry) ∈ log ∧
    w.sessions identity = some data ∧ data.events.length = place

def OnlyWriter (s : SessionPool) (identity : AdkIdentity) (tier : SharedTier) (key : String) : Prop :=
  ∀ proc ∈ s.procs, ∀ value, WroteTier proc.log tier key value → proc.call.identity = some identity

def Unrewound (s : SessionPool) (identity : AdkIdentity) : Prop :=
  ∀ proc ∈ s.procs, ∀ w keep result, (⟨w, .truncate identity keep, result⟩ : SessionEntry) ∉ proc.log

/-- What a rewind to an event leaves of a session: the events up to the first one with the identifier, and their
fold. -/
def RewoundTo (identity : AdkIdentity) (targetEventId : String) (w w' : SessionWorld) : Prop :=
  ∃ data data' before target after, w.sessions identity = some data ∧ w'.sessions identity = some data' ∧
    data.events = before ++ target :: after ∧ target.id = targetEventId ∧
    (∀ event ∈ before, event.id ≠ targetEventId) ∧ data'.events = before ++ [target] ∧
    data'.initialState = data.initialState ∧ data'.state = foldEvents data'.initialState data'.events

/-- **Session state is the fold of the logs.** -/
structure StateIsFold (s : SessionPool) : Prop where
  /-- The session tier of a session is the fold of its events over the state it was created with. -/
  folded : ∀ identity data, s.world.sessions identity = some data →
    data.state = foldEvents data.initialState data.events
  created : ∀ identity data, s.world.sessions identity = some data →
    ∃ proc ∈ s.procs, ∃ appName userId sessionId random state,
      proc.call = .create appName userId sessionId random state ∧
      makeIdentity appName userId (sessionId.getD random) = .ok identity ∧
      data.initialState = (extractStateDeltas state).session
  rewinds : ∀ proc ∈ s.procs, ∀ identity targetEventId, proc.call = .rewind identity targetEventId →
    ∀ entry ∈ proc.log, ∀ w, SessionWorld.laws.answers entry.op entry.world entry.ret w →
      w.tiers = entry.world.tiers ∧ (∀ other, other ≠ identity → w.sessions other = entry.world.sessions other) ∧
      (w.sessions identity = entry.world.sessions identity ∨ RewoundTo identity targetEventId entry.world w)
  rewound : ∀ proc ∈ s.procs, ∀ identity targetEventId answer, proc.call = .rewind identity targetEventId →
    proc.returned = some (.ok answer) → ∃ entry ∈ proc.log, ∀ w,
      SessionWorld.laws.answers entry.op entry.world entry.ret w → RewoundTo identity targetEventId entry.world w
  refused : ∀ proc ∈ s.procs, ∀ appName userId sessionId random state error,
    proc.call = .create appName userId sessionId random state → proc.returned = some (.error error) →
      ∀ entry ∈ proc.log, ∀ w, SessionWorld.laws.answers entry.op entry.world entry.ret w → w = entry.world
  /-- While no call is in progress, a key that only one session writes, which was not rewound, has the value of the
  session's last event that sets it. -/
  latest : (∀ proc ∈ s.procs, proc.returned.isSome = true) → ∀ identity data tier key value,
    s.world.sessions identity = some data → tier.isOf identity = true → OnlyWriter s identity tier key →
      Unrewound s identity → lastSet tier key data.events = some value → (s.world.tiers tier)[key]? = some value

/-- An append writes the keys of a tier before the appends of later events of its session do, where the key is of one
session that was not rewound. -/
def InOrder (s : SessionPool) (i : Nat) : SessionOp → Prop
  | .extendTier tier delta => ∀ identity place key, PushedAt (s.logOf i) identity place → delta[key]?.isSome = true →
      OnlyWriter s identity tier key → Unrewound s identity →
        ∀ proc ∈ s.procs, ∀ later value, PushedAt proc.log identity later → place < later →
          ¬ WroteTier proc.log tier key value
  | _ => True

/-! ## What a call does -/

variable {call : SessionCall} {log : List SessionEntry}

/-- A call has the lock of the sessions. -/
def Holding (log : List SessionEntry) (identity : AdkIdentity) : Prop :=
  (∃ w, (⟨w, .lockSessions identity, true⟩ : SessionEntry) ∈ log) ∧
    ∀ w other state now, (⟨w, .insertSession other state now, ()⟩ : SessionEntry) ∉ log

/-- What a call has done before an operation. -/
def PreparedSession (call : SessionCall) : SessionOp → List SessionEntry → Prop
  | .lockSessions identity, log => call.identity = some identity ∧ ∀ entry ∈ log, entry.op = .now
  | .extendTier tier delta, log =>
    (∃ appName userId sessionId random state identity, call = .create appName userId sessionId random state ∧
      call.identity = some identity ∧ Holding log identity) ∨
    ∃ identity event place, call = .appendEvent identity event ∧ PushedAt log identity place ∧
      tier.isOf identity = true ∧ delta = tier.delta event.persisted.stateDelta
  | .insertSession identity state _, log => Holding log identity ∧ ∃ appName userId sessionId random initial,
      call = .create appName userId sessionId random initial ∧
      makeIdentity appName userId (sessionId.getD random) = .ok identity ∧ state = (extractStateDeltas initial).session
  | .pushEvent identity event delta, log => log = [] ∧ ∃ event', call = .appendEvent identity event' ∧
      event = event'.persisted ∧ delta = (extractStateDeltas event.stateDelta).session
  | .truncate identity keep, _ => (∃ target, call = .rewind identity target ∧ keep = keepUpTo identity target) ∨
      ∃ steps, call = .rewindSteps identity steps
  | .now, _ | .readSession _, _ | .readTier _, _ => True

def SessionDone (call : SessionCall) (result : Except AdkError SessionAnswer) (log : List SessionEntry) : Prop :=
  match call with
  | .create .. => ∀ error, result = .error error → ∀ entry ∈ log,
      entry.op = .now ∨ ∃ w identity, entry = ⟨w, .lockSessions identity, false⟩
  | .appendEvent identity event => ∀ place, PushedAt log identity place → ∀ tier : SharedTier,
      tier.isOf identity = true → ∀ key value, (tier.delta event.persisted.stateDelta)[key]? = some value →
        WroteTier log tier key value
  | .rewind identity target => ∀ answer, result = .ok answer → ∃ w data,
      (⟨w, .truncate identity (keepUpTo identity target), .ok data⟩ : SessionEntry) ∈ log
  | .rewindSteps .. | .getForIdentity _ => True

abbrev PreparesSession (call : SessionCall) (p : SessionProg (Except AdkError SessionAnswer))
    (log : List SessionEntry) : Prop :=
  p.Holds (recording SessionWorld.laws) (PreparedSession call) (SessionDone call) log

theorem SharedTier.isOf_iff {tier : SharedTier} {identity : AdkIdentity} : tier.isOf identity = true ↔
    tier = .app identity.appName ∨ tier = .user identity.appName identity.userId := by
  cases tier <;> simp [isOf]

/-- The rule for reading the tiers of a session. -/
theorem viewSession_local {identity : AdkIdentity} {data : SessionData}
    (h : ∀ answer more, SessionDone call (.ok answer) (log ++ more)) :
    PreparesSession call (viewSession identity data) log := by
  refine holds_ask.mpr ⟨trivial, fun w app w' _ => holds_ask.mpr ⟨trivial, fun w₁ user w₁' _ => ?_⟩⟩
  rw [List.append_assoc]
  exact holds_pure.mpr (h _ _)

theorem create_local (appName userId : String) (sessionId : Option String) (random : String) (state : StateMap) :
    PreparesSession (.create appName userId sessionId random state)
      (createSession appName userId sessionId random state) [] := by
  unfold createSession
  cases hident : makeIdentity appName userId (sessionId.getD random) with
  | error error => exact holds_pure.mpr fun _ _ entry h => by cases h
  | ok identity =>
    have hcall : (SessionCall.create appName userId sessionId random state).identity = some identity := by
      show (makeIdentity appName userId (sessionId.getD random)).toOption = _
      rw [hident]
      rfl
    refine holds_ask.mpr ⟨trivial, fun w now w' _ => ?_⟩
    have hnow : ∀ entry ∈ [(⟨w, .now, now⟩ : SessionEntry)], entry.op = .now := by
      intro entry hent
      obtain rfl := List.mem_singleton.mp hent
      rfl
    refine holds_ask.mpr ⟨⟨hcall, hnow⟩, fun w₁ held w₁' hheld => ?_⟩
    cases held with
    | false =>
      refine holds_pure.mpr fun error _ entry hent => ?_
      rcases List.mem_append.mp hent with hent | hent
      · exact .inl (hnow entry hent)
      · exact .inr ⟨w₁, identity, List.mem_singleton.mp hent⟩
    | true =>
      have hholding : ∀ more : List SessionEntry, (∀ entry ∈ more, ∃ tier delta, entry.op = .extendTier tier delta) →
          Holding ([⟨w, .now, now⟩] ++ [⟨w₁, .lockSessions identity, true⟩] ++ more) identity := by
        intro more hmore
        refine ⟨⟨w₁, by simp⟩, fun w' other state' now' hmem => ?_⟩
        simp only [List.mem_append, List.mem_singleton] at hmem
        rcases hmem with (h | h) | h
        · cases (Entry.mk.inj h).2.1
        · cases (Entry.mk.inj h).2.1
        · obtain ⟨tier, delta, hop⟩ := hmore _ h
          cases hop
      have hemp := hholding [] fun entry h => by cases h
      rw [List.append_nil] at hemp
      refine holds_ask.mpr ⟨.inl ⟨_, _, _, _, _, identity, rfl, hcall, hemp⟩, fun w₂ app w₂' _ => ?_⟩
      have happ := hholding [⟨w₂, .extendTier (.app appName) (extractStateDeltas state).app, app⟩] fun entry h => by
        obtain rfl := List.mem_singleton.mp h
        exact ⟨_, _, rfl⟩
      refine holds_ask.mpr ⟨.inl ⟨_, _, _, _, _, identity, rfl, hcall, happ⟩, fun w₃ user w₃' _ => ?_⟩
      have huser := hholding [⟨w₂, .extendTier (.app appName) (extractStateDeltas state).app, app⟩,
        ⟨w₃, .extendTier (.user appName userId) (extractStateDeltas state).user, user⟩] fun entry h => by
          rcases List.mem_cons.mp h with rfl | h
          · exact ⟨_, _, rfl⟩
          · obtain rfl := List.mem_singleton.mp h
            exact ⟨_, _, rfl⟩
      refine holds_ask.mpr ⟨⟨?_, appName, userId, sessionId, random, state, rfl, hident, rfl⟩, fun w₄ r w₄' _ => ?_⟩
      · rw [List.append_assoc]
        exact huser
      · exact holds_pure.mpr fun error h => by cases h

theorem PushedAt.grow {log' : List SessionEntry} {identity : AdkIdentity} {place : Nat}
    (h : PushedAt log identity place) (hlog : ∀ entry ∈ log, entry ∈ log') : PushedAt log' identity place := by
  obtain ⟨w, event, delta, data, hmem, hrest⟩ := h
  exact ⟨w, event, delta, data, hlog _ hmem, hrest⟩

theorem WroteTier.grow {log' : List SessionEntry} {tier : SharedTier} {key : String} {value : Value}
    (h : WroteTier log tier key value) (hlog : ∀ entry ∈ log, entry ∈ log') : WroteTier log' tier key value := by
  obtain ⟨w, delta, state, hmem, hdel⟩ := h
  exact ⟨w, delta, state, hlog _ hmem, hdel⟩

theorem extendShared_local (tier : SharedTier) {identity : AdkIdentity} {event : SessionEvent} {place : Nat}
    {f : Unit → SessionProg (Except AdkError SessionAnswer)} (htier : tier.isOf identity = true)
    (hpsh : PushedAt log identity place)
    (h : ∀ more, (∀ key value, (tier.delta event.persisted.stateDelta)[key]? = some value →
        WroteTier (log ++ more) tier key value) → PreparesSession (.appendEvent identity event) (f ()) (log ++ more)) :
    PreparesSession (.appendEvent identity event)
      ((extendShared tier (tier.delta event.persisted.stateDelta)).bind f) log := by
  unfold extendShared
  split
  next hemp =>
    have hrest := h [] fun key value hval => ?_
    · rw [List.append_nil] at hrest
      exact hrest
    · rw [Std.ExtTreeMap.isEmpty_iff.mp hemp] at hval
      simp at hval
  next =>
    refine holds_ask.mpr ⟨.inr ⟨identity, event, place, rfl, hpsh, htier, rfl⟩, fun w state w' _ => ?_⟩
    apply h
    exact fun key value hval => ⟨w, _, state, List.mem_append_right _ (List.mem_singleton_self _), hval⟩

theorem append_local (identity : AdkIdentity) (event : SessionEvent) :
    PreparesSession (.appendEvent identity event) (appendTo identity event) [] := by
  refine holds_ask.mpr ⟨⟨rfl, event, rfl, rfl, rfl⟩, fun w found w' hr => ?_⟩
  cases found with
  | false =>
    refine holds_pure.mpr ?_
    rintro place ⟨w₁, event', delta, data, hmem, -⟩
    obtain ⟨-, heq⟩ := Entry.mk.inj (List.mem_singleton.mp hmem)
    obtain ⟨-, hret⟩ := heq
    cases hret
  | true =>
    obtain ⟨-, ⟨hfls, -⟩ | ⟨data, -, hdata, -⟩⟩ := hr
    · cases hfls
    have hpsh : PushedAt [⟨w, .pushEvent identity event.persisted
        (extractStateDeltas event.persisted.stateDelta).session, true⟩] identity data.events.length :=
      ⟨w, _, _, data, List.mem_singleton_self _, hdata, rfl⟩
    refine extendShared_local (.app identity.appName) (SharedTier.isOf_iff.mpr (.inl rfl)) hpsh
      fun more happ => ?_
    refine extendShared_local (.user identity.appName identity.userId) (SharedTier.isOf_iff.mpr (.inr rfl))
      (hpsh.grow fun _ h => List.mem_append_left _ h)
      fun more' huser => holds_pure.mpr fun place _ tier htier key value hval => ?_
    rcases SharedTier.isOf_iff.mp htier with rfl | rfl
    · exact (happ key value hval).grow fun _ h => List.mem_append_left _ h
    · exact huser key value hval

theorem get_local (hdone : ∀ result log, SessionDone call result log) (identity : AdkIdentity) :
    PreparesSession call (getForIdentity identity) [] := by
  refine holds_ask.mpr ⟨trivial, fun w data w' _ => ?_⟩
  cases data with
  | none => exact holds_pure.mpr (hdone _ _)
  | some data => exact viewSession_local fun _ _ => hdone _ _

theorem truncate_local {identity : AdkIdentity} {keep : List SessionEvent → Except AdkError Nat}
    (hcall : (∃ target, call = .rewind identity target ∧ keep = keepUpTo identity target) ∨
      ∃ steps, call = .rewindSteps identity steps)
    (herr : ∀ error log, SessionDone call (.error error) log)
    (hok : ∀ answer w data more, SessionDone call (.ok answer)
      ((⟨w, .truncate identity keep, .ok data⟩ : SessionEntry) :: more)) :
    PreparesSession call (truncateSession identity keep) [] := by
  refine holds_ask.mpr ⟨hcall, fun w result w' _ => ?_⟩
  cases result with
  | error error => exact holds_pure.mpr (herr _ _)
  | ok data => exact viewSession_local fun answer more => hok answer w data more

/-- **A call prepares each of its operations.** -/
theorem session_local (call : SessionCall) : PreparesSession call (sessionProgram call) [] := by
  cases call with
  | create appName userId sessionId random state => exact create_local appName userId sessionId random state
  | appendEvent identity event => exact append_local identity event
  | rewind identity target =>
    refine truncate_local (.inl ⟨target, rfl, rfl⟩) (fun error log answer h => by cases h) ?_
    exact fun answer w data more _ _ => ⟨w, data, List.mem_cons_self⟩
  | rewindSteps identity steps =>
    have hdone : ∀ result log, SessionDone (.rewindSteps identity steps) result log := fun _ _ => trivial
    show PreparesSession _ (if steps = 0 then _ else _) []
    split
    · exact get_local hdone identity
    · exact truncate_local (.inr ⟨steps, rfl⟩) (fun _ _ => trivial) fun _ _ _ _ => trivial
  | getForIdentity identity =>
    have hdone : ∀ result log, SessionDone (.getForIdentity identity) result log := fun _ _ => trivial
    exact get_local hdone identity

/-! ## What every step keeps -/

def noSessions : SessionPool := { world := {} }

section Runs

variable {s s' : SessionPool} {entry : SessionEntry}

variable {i place : Nat} {proc : SessionProc} {tier : SharedTier} {key : String} {value : Value} {w : SessionWorld}

theorem call_prepares {acts : SessionPool → Nat → SessionOp → Prop} (hrea : Reaches (sessionSystem acts) noSessions s)
    (hproc : s.procs[i]? = some proc) :
    Keeps SessionWorld.laws PreparedSession SessionDone proc :=
  hrea.local rfl session_local i proc hproc

theorem Holding.of_concat {identity : AdkIdentity} (h : Holding (log ++ [entry]) identity) :
    Holding log identity ∨ ∃ w, entry = ⟨w, .lockSessions identity, true⟩ := by
  obtain ⟨⟨w, hmem⟩, hnone⟩ := h
  rcases List.mem_append.mp hmem with hmem | hmem
  · exact .inl ⟨⟨w, hmem⟩, fun w other state now h => hnone w other state now (List.mem_append_left _ h)⟩
  · exact .inr ⟨w, (List.mem_singleton.mp hmem).symm⟩

theorem PushedAt.of_concat {identity : AdkIdentity} (h : PushedAt (log ++ [entry]) identity place) :
    PushedAt log identity place ∨ PushedAt [entry] identity place := by
  obtain ⟨w, event, delta, data, hmem, hrest⟩ := h
  rcases List.mem_append.mp hmem with hmem | hmem
  · exact .inl ⟨w, event, delta, data, hmem, hrest⟩
  · exact .inr ⟨w, event, delta, data, hmem, hrest⟩

theorem WroteTier.of_concat (h : WroteTier (log ++ [entry]) tier key value) :
    WroteTier log tier key value ∨ WroteTier [entry] tier key value := by
  obtain ⟨w, delta, state, hmem, hdel⟩ := h
  rcases List.mem_append.mp hmem with hmem | hmem
  · exact .inl ⟨w, delta, state, hmem, hdel⟩
  · exact .inr ⟨w, delta, state, hmem, hdel⟩

theorem not_pushedAt {op : SessionOp} {r : op.Ret} {identity : AdkIdentity}
    (hop : ∀ event delta, op ≠ .pushEvent identity event delta) : ¬ PushedAt [⟨w, op, r⟩] identity place := by
  rintro ⟨w', event, delta, data, hmem, -⟩
  obtain ⟨-, heq⟩ := Entry.mk.inj (List.mem_singleton.mp hmem)
  exact hop event delta heq.1.symm

theorem not_wroteTier {op : SessionOp} {r : op.Ret}
    (hop : ∀ delta, op = .extendTier tier delta → delta[key]? ≠ some value) :
    ¬ WroteTier [⟨w, op, r⟩] tier key value := by
  rintro ⟨w', delta, state, hmem, hdel⟩
  obtain ⟨-, heq⟩ := Entry.mk.inj (List.mem_singleton.mp hmem)
  exact hop delta heq.1.symm hdel

structure LockHeld (s : SessionPool) : Prop where
  held : ∀ i identity, Holding (s.logOf i) identity → s.world.creating = some identity
  one : ∀ i j identity identity', Holding (s.logOf i) identity → Holding (s.logOf j) identity' → i = j
  absent : ∀ identity, s.world.creating = some identity → s.world.sessions identity = none

/-- **A create that has the lock of the sessions has it alone**, and its session is not there. -/
theorem lockHeld_reaches (hrea : Reaches (sessionSystem InOrder) noSessions s) : LockHeld s := by
  induction hrea with
  | refl =>
    have hnone : ∀ i, noSessions.logOf i = [] := fun i => rfl
    refine ⟨fun i identity h => ?_, fun i j identity identity' h => ?_, fun identity h => by cases h⟩
    · obtain ⟨⟨w, hmem⟩, -⟩ := h
      cases hmem
    · obtain ⟨⟨w, hmem⟩, -⟩ := h
      cases hmem
  | @tail s s' hrea hstep ih =>
    rcases hstep.logs with ⟨hwld, hlogs⟩ | ⟨i, proc, op, next, r, hproc, hrest, hacts, hr, -, hlog, hoths⟩
    · obtain hwld | hfls := hwld
      · refine ⟨fun i identity h => ?_, fun i j identity identity' h h' => ?_, fun identity h => ?_⟩
        · rw [hwld]
          exact ih.held i identity (hlogs i ▸ h)
        · exact ih.one i j identity identity' (hlogs i ▸ h) (hlogs j ▸ h')
        · rw [hwld] at h ⊢
          exact ih.absent identity h
      · exact hfls.elim
    · have hprep := (call_prepares hrea hproc).performs hrest
      rw [← logOf_eq hproc] at hprep
      -- where no lock is taken, what holds it held it before
      have hback : (∀ identity w, (⟨s.world, op, r⟩ : SessionEntry) ≠ ⟨w, .lockSessions identity, true⟩) →
          ∀ j identity, Holding (s'.logOf j) identity → Holding (s.logOf j) identity := by
        intro hne j identity h
        by_cases hj : j = i
        · subst hj
          rw [hlog] at h
          rcases h.of_concat with h | ⟨w, heq⟩
          · exact h
          · exact absurd heq (hne identity w)
        · rw [hoths j hj] at h
          exact h
      have hkeep : (∀ identity w, (⟨s.world, op, r⟩ : SessionEntry) ≠ ⟨w, .lockSessions identity, true⟩) →
          s'.world.creating = s.world.creating →
          (∀ identity, s.world.creating = some identity → s'.world.sessions = s.world.sessions) → LockHeld s' := by
        intro hne hcreating hsess
        refine ⟨fun j identity h => ?_, fun j k identity identity' h h' => ?_, fun identity h => ?_⟩
        · rw [hcreating]
          exact ih.held j identity (hback hne j identity h)
        · exact ih.one j k identity identity' (hback hne j identity h) (hback hne k identity' h')
        · rw [hcreating] at h
          rw [hsess identity h]
          exact ih.absent identity h
      cases op with
      | now =>
        have hw : s'.world = s.world := hr
        exact hkeep (fun _ _ h => by cases (Entry.mk.inj h).2.1) (by rw [hw]) fun _ _ => by rw [hw]
      | readSession identity =>
        obtain ⟨-, -, hw⟩ := hr
        exact hkeep (fun _ _ h => by cases (Entry.mk.inj h).2.1) (by rw [hw]) fun _ _ => by rw [hw]
      | readTier tier =>
        obtain ⟨-, hw⟩ := hr
        exact hkeep (fun _ _ h => by cases (Entry.mk.inj h).2.1) (by rw [hw]) fun _ _ => by rw [hw]
      | extendTier tier delta =>
        obtain ⟨-, hw⟩ := hr
        exact hkeep (fun _ _ h => by cases (Entry.mk.inj h).2.1) (by rw [hw]; rfl) fun _ _ => by rw [hw]; rfl
      | pushEvent identity event delta =>
        obtain ⟨hfree, hr⟩ := hr
        refine hkeep (fun _ _ h => by cases (Entry.mk.inj h).2.1) ?_ fun identity' h => ?_
        · rcases hr with ⟨-, -, hw⟩ | ⟨data, -, -, hw⟩ <;> rw [hw]
          rfl
        · rw [hfree] at h
          cases h
      | truncate identity keep =>
        obtain ⟨hfree, hr⟩ := hr
        refine hkeep (fun _ _ h => by cases (Entry.mk.inj h).2.1) ?_ fun identity' h => ?_
        · rcases hr with ⟨error, -, hw, -⟩ | ⟨data, count, now, -, -, -, hw⟩ <;> rw [hw]
          rfl
        · rw [hfree] at h
          cases h
      | insertSession identity state now =>
        obtain ⟨hholding, -⟩ := hprep
        have hw : s'.world = _ := hr
        have hnone : ∀ j identity', ¬ Holding (s'.logOf j) identity' := by
          intro j identity' h
          have hold := hback (fun _ _ h => by cases (Entry.mk.inj h).2.1) j identity' h
          obtain rfl := ih.one i j identity identity' hholding hold
          rw [hlog] at h
          exact h.2 _ _ _ _ (List.mem_append_right _ (List.mem_singleton_self _))
        refine ⟨fun j identity' h => absurd h (hnone j identity'), fun j k identity' _ h => absurd h (hnone j identity'),
          fun identity' h => ?_⟩
        rw [hw] at h
        cases h
      | lockSessions identity =>
        obtain ⟨hfree, ⟨rfl, -, hw⟩ | ⟨rfl, habsent, hw⟩⟩ := hr
        · refine hkeep (fun _ _ h => ?_) (by rw [hw]) fun _ _ => by rw [hw]
          obtain ⟨-, heq⟩ := Entry.mk.inj h
          cases heq.2
        · -- nobody had the lock
          have hnone : ∀ j identity', ¬ Holding (s.logOf j) identity' := by
            intro j identity' h
            have := ih.held j identity' h
            rw [hfree] at this
            cases this
          have hself : ∀ j identity', Holding (s'.logOf j) identity' → j = i ∧ identity' = identity := by
            intro j identity' h
            by_cases hj : j = i
            · subst hj
              rw [hlog] at h
              rcases h.of_concat with h | ⟨w, heq⟩
              · exact absurd h (hnone j identity')
              · obtain ⟨-, heq⟩ := Entry.mk.inj heq
                exact ⟨rfl, (SessionOp.lockSessions.inj heq.1).symm⟩
            · rw [hoths j hj] at h
              exact absurd h (hnone j identity')
          refine ⟨fun j identity' h => ?_, fun j k identity' identity'' h h' => ?_, fun identity' h => ?_⟩
          · obtain ⟨-, rfl⟩ := hself j identity' h
            rw [hw]
          · rw [(hself j identity' h).1, (hself k identity'' h').1]
          · rw [hw] at h ⊢
            obtain rfl := Option.some.inj h
            exact habsent

/-! ### The session tier -/

structure Folded (s : SessionPool) : Prop where
  folded : ∀ identity data, s.world.sessions identity = some data →
    data.state = foldEvents data.initialState data.events
  /-- What a session was created with has no keys of other tiers. -/
  initial : ∀ identity data, s.world.sessions identity = some data →
    (extractStateDeltas data.initialState).session = data.initialState
  created : ∀ identity data, s.world.sessions identity = some data →
    ∃ proc ∈ s.procs, ∃ appName userId sessionId random state,
      proc.call = .create appName userId sessionId random state ∧
      makeIdentity appName userId (sessionId.getD random) = .ok identity ∧
      data.initialState = (extractStateDeltas state).session

theorem calls_grow (hstep : Step (sessionSystem InOrder) s s') {P : SessionCall → Prop}
    (h : ∃ proc ∈ s.procs, P proc.call) : ∃ proc ∈ s'.procs, P proc.call := by
  obtain ⟨proc, hproc, hP⟩ := h
  obtain ⟨i, hi⟩ := List.mem_iff_getElem?.mp hproc
  obtain ⟨proc', hi', hcall, -⟩ := hstep.grows hi
  exact ⟨proc', List.mem_of_getElem? hi', by rw [hcall]; exact hP⟩

theorem foldEvents_concat (initial : StateMap) (events : List SessionEvent) (event : SessionEvent) :
    foldEvents initial (events ++ [event]) =
      (foldEvents initial events).extend (extractStateDeltas event.stateDelta).session := by
  unfold foldEvents
  rw [List.foldl_append]
  rfl

/-- **The session tier is the fold of the log, in every run.** -/
theorem folded_reaches (hrea : Reaches (sessionSystem InOrder) noSessions s) : Folded s := by
  induction hrea with
  | refl => exact ⟨fun _ _ h => (by cases h), fun _ _ h => (by cases h), fun _ _ h => (by cases h)⟩
  | @tail s s' hrea hstep ih =>
    have hcr : ∀ {identity data}, s.world.sessions identity = some data → _ :=
      fun {identity data} h => calls_grow (P := fun call => ∃ appName userId sessionId random state,
        call = .create appName userId sessionId random state ∧
        makeIdentity appName userId (sessionId.getD random) = .ok identity ∧
        data.initialState = (extractStateDeltas state).session) hstep (ih.created identity data h)
    have hkeep : s'.world.sessions = s.world.sessions → Folded s' := by
      intro hsame
      refine ⟨fun identity data h => ?_, fun identity data h => ?_, fun identity data h => ?_⟩ <;> rw [hsame] at h
      · exact ih.folded identity data h
      · exact ih.initial identity data h
      · exact hcr h
    -- a session that is written is a fold again
    have hset : ∀ (identity : AdkIdentity) (data : SessionData),
        s'.world.sessions = (s.world.setSession identity data).sessions →
        data.state = foldEvents data.initialState data.events →
        (extractStateDeltas data.initialState).session = data.initialState →
        (∃ proc ∈ s'.procs, ∃ appName userId sessionId random state,
          proc.call = .create appName userId sessionId random state ∧
          makeIdentity appName userId (sessionId.getD random) = .ok identity ∧
          data.initialState = (extractStateDeltas state).session) → Folded s' := by
      intro identity data hsess hfold hinit hcall
      refine ⟨fun other found h => ?_, fun other found h => ?_, fun other found h => ?_⟩ <;> rw [hsess] at h <;>
        rcases SessionWorld.setSession_eq_some h with ⟨rfl, rfl⟩ | ⟨-, hold⟩
      · exact hfold
      · exact ih.folded other found hold
      · exact hinit
      · exact ih.initial other found hold
      · exact hcall
      · exact hcr hold
    rcases hstep.logs with ⟨hwld, -⟩ | ⟨i, proc, op, next, r, hproc, hrest, -, hr, -, -, -⟩
    · obtain hwld | hfls := hwld
      · exact hkeep (by rw [hwld])
      · exact hfls.elim
    · have hprep := (call_prepares hrea hproc).performs hrest
      cases op with
      | now =>
        have hw : s'.world = s.world := hr
        exact hkeep (by rw [hw])
      | readSession identity => exact hkeep (by rw [hr.2.2])
      | readTier tier => exact hkeep (by rw [hr.2])
      | extendTier tier delta => exact hkeep (by rw [hr.2]; rfl)
      | lockSessions identity =>
        obtain ⟨-, ⟨-, -, hw⟩ | ⟨-, -, hw⟩⟩ := hr
        · exact hkeep (by rw [hw])
        · exact hkeep (by rw [hw])
      | pushEvent identity event delta =>
        obtain ⟨-, ⟨-, -, hw⟩ | ⟨data, -, hdata, hw⟩⟩ := hr
        · exact hkeep (by rw [hw])
        · obtain ⟨-, event', -, -, rfl⟩ := hprep
          refine hset identity (data.push event _) (by rw [hw]) ?_ (ih.initial identity data hdata)
            (@hcr identity data hdata)
          show data.state.extend _ = foldEvents data.initialState (data.events ++ [event])
          rw [foldEvents_concat, ← ih.folded identity data hdata]
      | truncate identity keep =>
        obtain ⟨-, ⟨error, -, hw, -⟩ | ⟨data, count, now, hdata, -, -, hw⟩⟩ := hr
        · exact hkeep (by rw [hw])
        · have hinit := ih.initial identity data hdata
          refine hset identity (data.truncated count now) (by rw [hw]) ?_ hinit
            (@hcr identity data hdata)
          show rebuildSessionState data.initialState _ = foldEvents data.initialState _
          unfold rebuildSessionState
          rw [hinit]
          rfl
      | insertSession identity state now =>
        have hw : s'.world = { s.world.setSession identity
          { events := [], state, initialState := state, updatedAt := now } with creating := none } := hr
        obtain ⟨-, appName, userId, sessionId, random, initial, hcall, hident, rfl⟩ := hprep
        refine hset identity _ (by rw [hw]) rfl (extractStateDeltas_session_idem initial) ?_
        exact calls_grow (P := fun call => ∃ appName userId sessionId random state,
          call = .create appName userId sessionId random state ∧
          makeIdentity appName userId (sessionId.getD random) = .ok identity ∧
          (extractStateDeltas initial).session = (extractStateDeltas state).session) hstep
          ⟨proc, List.mem_of_getElem? hproc, appName, userId, sessionId, random, initial, hcall, hident, rfl⟩

/-! ### The places of events -/

theorem pushedAt_singleton {identity identity' : AdkIdentity} {event : SessionEvent} {delta : StateMap} {found : Bool}
    (h : PushedAt [⟨w, .pushEvent identity event delta, found⟩] identity' place) :
    found = true ∧ identity' = identity ∧ ∃ data, w.sessions identity = some data ∧ data.events.length = place := by
  obtain ⟨w', event', delta', data, hmem, hdata, hpl⟩ := h
  obtain ⟨rfl, heq⟩ := Entry.mk.inj (List.mem_singleton.mp hmem)
  obtain ⟨hop, hret⟩ := heq
  obtain ⟨rfl, rfl, rfl⟩ := SessionOp.pushEvent.inj hop
  exact ⟨(eq_of_heq hret).symm, rfl, data, hdata, hpl⟩

/-- A session that was not rewound up to a step was not rewound before it. -/
theorem Unrewound.back (hstep : Step (sessionSystem InOrder) s s') {identity : AdkIdentity}
    (h : Unrewound s' identity) : Unrewound s identity := by
  intro proc hproc w keep result hmem
  obtain ⟨i, hi⟩ := List.mem_iff_getElem?.mp hproc
  obtain ⟨proc', hi', -, hlog⟩ := hstep.grows hi
  exact h proc' (List.mem_of_getElem? hi') w keep result (hlog _ hmem)

theorem OnlyWriter.back (hstep : Step (sessionSystem InOrder) s s') {identity : AdkIdentity}
    (h : OnlyWriter s' identity tier key) : OnlyWriter s identity tier key := by
  intro proc hproc value hwr
  obtain ⟨i, hi⟩ := List.mem_iff_getElem?.mp hproc
  obtain ⟨proc', hi', hcall, hlog⟩ := hstep.grows hi
  rw [← hcall]
  exact h proc' (List.mem_of_getElem? hi') value (hwr.grow hlog)

/-- What the appends put into the logs. -/
structure Placed (s : SessionPool) : Prop where
  there : ∀ i identity place, PushedAt (s.logOf i) identity place → (s.world.sessions identity).isSome = true
  /-- An append puts its event at one place. -/
  once : ∀ i identity identity' place place', PushedAt (s.logOf i) identity place →
    PushedAt (s.logOf i) identity' place' → place = place'
  place : ∀ identity, Unrewound s identity → ∀ i n, PushedAt (s.logOf i) identity n → ∃ data proc event,
    s.world.sessions identity = some data ∧ s.procs[i]? = some proc ∧ proc.call = .appendEvent identity event ∧
      data.events[n]? = some event.persisted
  /-- Every place is of an append. -/
  logged : ∀ identity, Unrewound s identity → ∀ data, s.world.sessions identity = some data →
    ∀ n, n < data.events.length → ∃ i, PushedAt (s.logOf i) identity n

/-- **Every event of a session is of an append**, in every run. -/
theorem placed_reaches (hrea : Reaches (sessionSystem InOrder) noSessions s) : Placed s := by
  induction hrea with
  | refl =>
    have hnone : ∀ i identity n, ¬ PushedAt (noSessions.logOf i) identity n := by
      rintro i identity n ⟨w, event, delta, data, hmem, -⟩
      cases hmem
    refine ⟨fun i identity n h => absurd h (hnone i identity n),
      fun i identity _ n _ h => absurd h (hnone i identity n),
      fun identity _ i n h => absurd h (hnone i identity n), fun identity _ data h => by cases h⟩
  | @tail s s' hrea hstep ih =>
    -- a step that puts no event into a log, and leaves the sessions that were not rewound
    have hframe : (∀ j identity n, PushedAt (s'.logOf j) identity n ↔ PushedAt (s.logOf j) identity n) →
        (∀ identity, (s.world.sessions identity).isSome = true → (s'.world.sessions identity).isSome = true) →
        (∀ identity, Unrewound s' identity → s'.world.sessions identity = s.world.sessions identity) → Placed s' := by
      intro hpsh hmore hsame
      refine ⟨fun j identity n h => ?_, fun j identity identity' n n' h h' => ?_, fun identity hun j n h => ?_,
        fun identity hun data h n hn => ?_⟩
      · exact hmore identity (ih.there j identity n ((hpsh j identity n).mp h))
      · exact ih.once j identity identity' n n' ((hpsh j identity n).mp h) ((hpsh j identity' n').mp h')
      · obtain ⟨data, proc, event, hdata, hproc, hcall, hev⟩ :=
          ih.place identity (hun.back hstep) j n ((hpsh j identity n).mp h)
        obtain ⟨proc', hproc', hcall', -⟩ := hstep.grows hproc
        exact ⟨data, proc', event, (hsame identity hun).trans hdata, hproc', hcall'.trans hcall, hev⟩
      · obtain ⟨j, hj⟩ := ih.logged identity (hun.back hstep) data ((hsame identity hun).symm.trans h) n hn
        exact ⟨j, (hpsh j identity n).mpr hj⟩
    rcases hstep.logs with ⟨hwld, hlogs⟩ | ⟨i, proc, op, next, r, hproc, hrest, hacts, hr, hself, hlog, hoths⟩
    · obtain hwld | hfls := hwld
      · exact hframe (fun j _ _ => by rw [hlogs j]) (fun _ h => by rw [hwld]; exact h) fun _ _ => by rw [hwld]
      · exact hfls.elim
    · have hprep := (call_prepares hrea hproc).performs hrest
      rw [← logOf_eq hproc] at hprep
      have hgrow : ∀ j identity n, PushedAt (s.logOf j) identity n → PushedAt (s'.logOf j) identity n :=
        fun j identity n h => h.grow fun entry hent => hstep.logOf_grows hent
      have hqt : (∀ identity n, ¬ PushedAt [(⟨s.world, op, r⟩ : SessionEntry)] identity n) →
          ∀ j identity n, PushedAt (s'.logOf j) identity n ↔ PushedAt (s.logOf j) identity n := by
        intro hnone j identity n
        refine ⟨fun h => ?_, hgrow j identity n⟩
        by_cases hj : j = i
        · subst hj
          rw [hlog] at h
          exact h.of_concat.resolve_right (hnone identity n)
        · rw [hoths j hj] at h
          exact h
      have hsame : s'.world.sessions = s.world.sessions →
          (∀ identity n, ¬ PushedAt [(⟨s.world, op, r⟩ : SessionEntry)] identity n) → Placed s' := by
        intro hsess hnone
        exact hframe (hqt hnone) (fun _ h => by rw [hsess]; exact h) fun _ _ => by rw [hsess]
      cases op with
      | now =>
        have hw : s'.world = s.world := hr
        exact hsame (by rw [hw]) fun _ _ => not_pushedAt fun _ _ h => by cases h
      | readSession identity => exact hsame (by rw [hr.2.2]) fun _ _ => not_pushedAt fun _ _ h => by cases h
      | readTier tier => exact hsame (by rw [hr.2]) fun _ _ => not_pushedAt fun _ _ h => by cases h
      | extendTier tier delta => exact hsame (by rw [hr.2]; rfl) fun _ _ => not_pushedAt fun _ _ h => by cases h
      | lockSessions identity =>
        refine hsame ?_ fun _ _ => not_pushedAt fun _ _ h => by cases h
        obtain ⟨-, ⟨-, -, hw⟩ | ⟨-, -, hw⟩⟩ := hr <;> rw [hw]
      | truncate identity keep =>
        have hnone : ∀ identity' n, ¬ PushedAt [(⟨s.world, .truncate identity keep, r⟩ : SessionEntry)] identity' n :=
          fun _ _ => not_pushedAt fun _ _ h => by cases h
        obtain ⟨-, ⟨error, -, hw, -⟩ | ⟨data, count, now, hdata, -, -, hw⟩⟩ := hr
        · exact hsame (by rw [hw]) hnone
        · refine hframe (hqt hnone) (fun other h => ?_) fun other hun => ?_
          · rw [hw]
            by_cases hoth : other = identity
            · subst hoth
              rw [SessionWorld.setSession_self]
              rfl
            · rw [SessionWorld.setSession_other hoth]
              exact h
          · have hoth : other ≠ identity := by
              rintro rfl
              refine hun _ (List.mem_of_getElem? hself) s.world keep r ?_
              rw [Proc.after_log]
              exact List.mem_append_right _ (List.mem_singleton_self _)
            rw [hw, SessionWorld.setSession_other hoth]
      | insertSession identity state now =>
        have hw : s'.world = { s.world.setSession identity
          { events := [], state, initialState := state, updatedAt := now } with creating := none } := hr
        have hpsh := hqt fun _ _ => not_pushedAt fun _ _ h => by cases h
        -- the session was not there, so that nothing was appended to it
        have hlock := lockHeld_reaches hrea
        have habsent := hlock.absent identity (hlock.held i identity hprep.1)
        have hnone : ∀ j n, ¬ PushedAt (s.logOf j) identity n := by
          intro j n h
          have := ih.there j identity n h
          rw [habsent] at this
          cases this
        have hoth : ∀ other, other ≠ identity → s'.world.sessions other = s.world.sessions other := by
          intro other hne
          rw [hw]
          exact SessionWorld.setSession_other hne
        have hne : ∀ {j other n}, PushedAt (s'.logOf j) other n → other ≠ identity := by
          rintro j other n h rfl
          exact hnone j n ((hpsh j other n).mp h)
        refine ⟨fun j other n h => ?_, fun j other other' n n' h h' => ?_, fun other hun j n h => ?_,
          fun other hun data h n hn => ?_⟩
        · rw [hoth other (hne h)]
          exact ih.there j other n ((hpsh j other n).mp h)
        · exact ih.once j other other' n n' ((hpsh j other n).mp h) ((hpsh j other' n').mp h')
        · obtain ⟨data, proc₁, event, hdata, hproc₁, hcall, hev⟩ :=
            ih.place other (hun.back hstep) j n ((hpsh j other n).mp h)
          obtain ⟨proc', hproc', hcall', -⟩ := hstep.grows hproc₁
          exact ⟨data, proc', event, (hoth other (hne h)).trans hdata, hproc', hcall'.trans hcall, hev⟩
        · rw [hw] at h
          rcases SessionWorld.setSession_eq_some h with ⟨rfl, rfl⟩ | ⟨-, hold⟩
          · cases hn
          · obtain ⟨j, hj⟩ := ih.logged other (hun.back hstep) data hold n hn
            exact ⟨j, hgrow j other n hj⟩
      | pushEvent identity event delta =>
        obtain ⟨-, ⟨rfl, -, hw⟩ | ⟨data, rfl, hdata, hw⟩⟩ := hr
        · refine hsame (by rw [hw]) fun _ _ h => ?_
          cases (pushedAt_singleton h).1
        · obtain ⟨hemp, event', hcall, rfl, -⟩ := hprep
          rw [hemp] at hlog
          -- the append that acts has put its event at the end
          have hmine : ∀ {other n}, PushedAt (s'.logOf i) other n → other = identity ∧ n = data.events.length := by
            intro other n h
            rw [hlog] at h
            obtain ⟨-, rfl, data', hdata', rfl⟩ := pushedAt_singleton h
            rw [hdata] at hdata'
            obtain rfl := Option.some.inj hdata'
            exact ⟨rfl, rfl⟩
          have hold : ∀ {j other n}, j ≠ i → PushedAt (s'.logOf j) other n → PushedAt (s.logOf j) other n := by
            intro j other n hj h
            rw [hoths j hj] at h
            exact h
          refine ⟨fun j other n h => ?_, fun j other other' n n' h h' => ?_, fun other hun j n h => ?_,
            fun other hun found h n hn => ?_⟩
          · rw [hw]
            by_cases hoth : other = identity
            · subst hoth
              rw [SessionWorld.setSession_self]
              rfl
            · rw [SessionWorld.setSession_other hoth]
              by_cases hj : j = i
              · subst hj
                exact absurd (hmine h).1 hoth
              · exact ih.there j other n (hold hj h)
          · by_cases hj : j = i
            · subst hj
              rw [(hmine h).2, (hmine h').2]
            · exact ih.once j other other' n n' (hold hj h) (hold hj h')
          · by_cases hj : j = i
            · subst hj
              obtain ⟨rfl, rfl⟩ := hmine h
              refine ⟨_, _, event', by rw [hw, SessionWorld.setSession_self], hself, hcall, ?_⟩
              exact List.getElem?_concat_length
            · obtain ⟨data₁, proc₁, event₁, hdata₁, hproc₁, hcall₁, hev₁⟩ :=
                ih.place other (hun.back hstep) j n (hold hj h)
              obtain ⟨proc', hproc', hcall', -⟩ := hstep.grows hproc₁
              rw [hw]
              by_cases hoth : other = identity
              · subst hoth
                rw [hdata] at hdata₁
                obtain rfl := Option.some.inj hdata₁
                refine ⟨_, proc', event₁, SessionWorld.setSession_self .., hproc', hcall'.trans hcall₁, ?_⟩
                have hlt := (List.getElem?_eq_some_iff.mp hev₁).1
                exact (List.getElem?_append_left hlt).trans hev₁
              · exact ⟨data₁, proc', event₁, (SessionWorld.setSession_other hoth).trans hdata₁, hproc',
                  hcall'.trans hcall₁, hev₁⟩
          · rw [hw] at h
            rcases SessionWorld.setSession_eq_some h with ⟨rfl, rfl⟩ | ⟨-, hfnd⟩
            · have hlen : (data.push event'.persisted delta).events.length = data.events.length + 1 :=
                List.length_append
              by_cases hlast : n = data.events.length
              · refine ⟨i, s.world, event'.persisted, delta, data, ?_, hdata, hlast.symm⟩
                rw [hlog]
                exact List.mem_singleton_self _
              · obtain ⟨j, hj⟩ := ih.logged other (hun.back hstep) data hdata n (by omega)
                exact ⟨j, hgrow j other n hj⟩
            · obtain ⟨j, hj⟩ := ih.logged other (hun.back hstep) found hfnd n hn
              exact ⟨j, hgrow j other n hj⟩

/-! ### The tiers that sessions share -/

def Applied (s : SessionPool) (identity : AdkIdentity) (tier : SharedTier) (key : String) (place : Nat)
    (value : Value) : Prop :=
  ∃ i, PushedAt (s.logOf i) identity place ∧ WroteTier (s.logOf i) tier key value

/-- A key of a tier has the value of the last event whose append wrote it, once one has. -/
def Latest (s : SessionPool) (identity : AdkIdentity) (tier : SharedTier) (key : String) : Prop :=
  ∀ place value, Applied s identity tier key place value → ∃ last value',
    Applied s identity tier key last value' ∧ (s.world.tiers tier)[key]? = some value' ∧
      ∀ place' value', Applied s identity tier key place' value' → place' ≤ last

/-- A step that adds no write for an event, and leaves the key. -/
theorem Latest.frame {identity : AdkIdentity} (h : Latest s identity tier key)
    (hstep : Step (sessionSystem InOrder) s s')
    (hback : ∀ place value, Applied s' identity tier key place value → Applied s identity tier key place value)
    (hkey : (s'.world.tiers tier)[key]? = (s.world.tiers tier)[key]?) : Latest s' identity tier key := by
  intro place value happlied
  obtain ⟨last, value', ⟨i, hpsh, hwr⟩, htier, hmax⟩ := h place value (hback place value happlied)
  have hgrow : ∀ entry ∈ s.logOf i, entry ∈ s'.logOf i := fun entry hent => hstep.logOf_grows hent
  refine ⟨last, value', ⟨i, hpsh.grow hgrow, hwr.grow hgrow⟩, hkey.trans htier, ?_⟩
  exact fun place' value' h' => hmax place' value' (hback place' value' h')

/-- **In a run in order, a key that one session writes has the value of the last event that wrote it.** -/
theorem latest_reaches (hrea : Reaches (sessionSystem InOrder) noSessions s) {identity : AdkIdentity}
    (hwriter : OnlyWriter s identity tier key) (hun : Unrewound s identity) :
    Latest s identity tier key := by
  induction hrea with
  | refl =>
    rintro place value ⟨i, ⟨w, event, delta, data, hmem, -⟩, -⟩
    cases hmem
  | @tail s s' hrea hstep ih =>
    have hltst := ih (hwriter.back hstep) (hun.back hstep)
    rcases hstep.logs with ⟨hwld, hlogs⟩ | ⟨i, proc, op, next, r, hproc, hrest, hacts, hr, hself, hlog, hoths⟩
    · have hback : ∀ place value, Applied s' identity tier key place value → Applied s identity tier key place value := by
        rintro place value ⟨j, hpsh, hwr⟩
        exact ⟨j, hlogs j ▸ hpsh, hlogs j ▸ hwr⟩
      obtain hwld | hfls := hwld
      · exact hltst.frame hstep hback (by rw [hwld])
      · exact hfls.elim
    · have hprep := (call_prepares hrea hproc).performs hrest
      rw [← logOf_eq hproc] at hprep
      -- an operation that neither puts an event into a log nor writes the key
      have hneither : (∀ place, ¬ PushedAt [(⟨s.world, op, r⟩ : SessionEntry)] identity place) →
          (∀ value, ¬ WroteTier [(⟨s.world, op, r⟩ : SessionEntry)] tier key value) →
          ∀ place value, Applied s' identity tier key place value → Applied s identity tier key place value := by
        rintro hpush hwrite place value ⟨j, hpsh, hwr⟩
        by_cases hj : j = i
        · subst hj
          rw [hlog] at hpsh hwr
          exact ⟨j, hpsh.of_concat.resolve_right (hpush place), hwr.of_concat.resolve_right (hwrite value)⟩
        · rw [hoths j hj] at hpsh hwr
          exact ⟨j, hpsh, hwr⟩
      have hoth : (∀ event delta, op ≠ .pushEvent identity event delta) → (∀ delta, op ≠ .extendTier tier delta) →
          s'.world.tiers = s.world.tiers → Latest s' identity tier key := by
        intro hpush hwrite htiers
        refine hltst.frame hstep (hneither (fun place => not_pushedAt hpush) fun value => ?_) (by rw [htiers])
        exact not_wroteTier fun delta hop => absurd hop (hwrite delta)
      cases op with
      | now =>
        have hw : s'.world = s.world := hr
        exact hoth (fun _ _ h => by cases h) (fun _ h => by cases h) (by rw [hw])
      | readSession other => exact hoth (fun _ _ h => by cases h) (fun _ h => by cases h) (by rw [hr.2.2])
      | readTier other => exact hoth (fun _ _ h => by cases h) (fun _ h => by cases h) (by rw [hr.2])
      | lockSessions other =>
        refine hoth (fun _ _ h => by cases h) (fun _ h => by cases h) ?_
        obtain ⟨-, ⟨-, -, hw⟩ | ⟨-, -, hw⟩⟩ := hr <;> rw [hw]
      | truncate other keep =>
        refine hoth (fun _ _ h => by cases h) (fun _ h => by cases h) ?_
        obtain ⟨-, ⟨error, -, hw, -⟩ | ⟨data, count, now, -, -, -, hw⟩⟩ := hr <;> rw [hw]
        rfl
      | insertSession other state now =>
        have hw : s'.world = { s.world.setSession other
          { events := [], state, initialState := state, updatedAt := now } with creating := none } := hr
        exact hoth (fun _ _ h => by cases h) (fun _ h => by cases h) (by rw [hw]; rfl)
      | pushEvent other event delta =>
        -- an append that puts its event into a log has written no tier yet
        obtain ⟨hemp, -⟩ := hprep
        have hback : ∀ place value, Applied s' identity tier key place value →
            Applied s identity tier key place value := by
          rintro place value ⟨j, hpsh, hwr⟩
          by_cases hj : j = i
          · subst hj
            rw [hlog, hemp] at hwr
            exact absurd hwr (not_wroteTier fun delta hop => by cases hop)
          · rw [hoths j hj] at hpsh hwr
            exact ⟨j, hpsh, hwr⟩
        refine hltst.frame hstep hback ?_
        obtain ⟨-, ⟨-, -, hw⟩ | ⟨data, -, -, hw⟩⟩ := hr <;> rw [hw]
        rfl
      | extendTier written delta =>
        obtain ⟨rfl, hw⟩ := hr
        by_cases htouched : written = tier ∧ delta[key]?.isSome = true
        · obtain ⟨rfl, hset⟩ := htouched
          obtain ⟨value, hval⟩ := Option.isSome_iff_exists.mp hset
          have hwr : WroteTier (s'.logOf i) written key value := by
            rw [hlog]
            exact ⟨s.world, delta, _, List.mem_append_right _ (List.mem_singleton_self _), hval⟩
          have hcall : proc.call.identity = some identity := by
            have haft := logOf_eq hself ▸ hwr
            have hmine := hwriter _ (List.mem_of_getElem? hself) value haft
            exact hmine
          have hpush : ∀ j place, PushedAt (s'.logOf j) identity place → PushedAt (s.logOf j) identity place := by
            intro j place h
            by_cases hj : j = i
            · subst hj
              rw [hlog] at h
              exact h.of_concat.resolve_right (not_pushedAt fun _ _ h => by cases h)
            · rw [hoths j hj] at h
              exact h
          rcases hprep with ⟨-, -, -, -, -, identity', -, hcall', hholding⟩ | ⟨identity', event, place, hcall', hpsh, -⟩
          · -- a create writes it: the session has no events yet
            obtain rfl := Option.some.inj (hcall.symm.trans hcall')
            have hlock := lockHeld_reaches hrea
            have habsent := hlock.absent identity (hlock.held i identity hholding)
            rintro place _ ⟨j, hpsh, -⟩
            have hthe := (placed_reaches hrea).there j identity place (hpush j place hpsh)
            rw [habsent] at hthe
            cases hthe
          · -- an append writes it: no later event has
            rw [hcall'] at hcall
            obtain rfl := Option.some.inj hcall
            have hgrow : ∀ entry ∈ s.logOf i, entry ∈ s'.logOf i := fun entry hent => hstep.logOf_grows hent
            intro _ _ _
            refine ⟨place, value, ⟨i, hpsh.grow hgrow, hwr⟩, ?_, ?_⟩
            · rw [hw, SessionWorld.setTier_self, Dict.getElem?_extend, hval]
              rfl
            · rintro place' value' ⟨j, hpsh', hwr'⟩
              by_cases hj : j = i
              · subst hj
                exact Nat.le_of_eq ((placed_reaches hrea).once j _ _ _ _ (hpush j place' hpsh') hpsh)
              · rw [hoths j hj] at hwr' hpsh'
                by_contra hlat
                obtain ⟨proc', hproc'⟩ : ∃ proc', s.procs[j]? = some proc' := by
                  obtain ⟨w, delta, state, hmem, -⟩ := hwr'
                  cases hproc' : s.procs[j]? with
                  | some proc' => exact ⟨proc', rfl⟩
                  | none =>
                    unfold logOf at hmem
                    rw [hproc'] at hmem
                    cases hmem
                rw [logOf_eq hproc'] at hwr' hpsh'
                exact hacts identity' place key hpsh hset (hwriter.back hstep) (hun.back hstep) proc'
                  (List.mem_of_getElem? hproc') place' value' hpsh' (by omega) hwr'
        · have hkey : (s'.world.tiers tier)[key]? = (s.world.tiers tier)[key]? := by
            rw [hw]
            by_cases hsame : written = tier
            · subst hsame
              have hnone : delta[key]? = none := by
                rw [← Option.not_isSome_iff_eq_none]
                exact fun hset => htouched ⟨rfl, hset⟩
              rw [SessionWorld.setTier_self, Dict.getElem?_extend, hnone]
              rfl
            · rw [SessionWorld.setTier_other (Ne.symm hsame)]
          refine hltst.frame hstep (hneither (fun place => not_pushedAt fun _ _ h => by cases h) fun value => ?_) hkey
          refine not_wroteTier fun delta' hop hval => htouched ?_
          obtain ⟨rfl, rfl⟩ := SessionOp.extendTier.inj hop
          exact ⟨rfl, by rw [hval]; rfl⟩

theorem lastSet_eq_some {events : List SessionEvent}
    (h : lastSet tier key events = some value) : ∃ (n : Nat) (event : SessionEvent), events[n]? = some event ∧
      (tier.delta event.stateDelta)[key]? = some value ∧ ∀ (m : Nat) (event' : SessionEvent),
        events[m]? = some event' → n < m → (tier.delta event'.stateDelta)[key]? = none := by
  induction events using List.reverseRecOn with
  | nil => cases h
  | append_singleton events event ih =>
    unfold lastSet at h
    rw [List.foldl_append] at h
    have hor : ((tier.delta event.stateDelta)[key]?.or (lastSet tier key events)) = some value := h
    rcases Option.or_eq_some_iff.mp hor with hset | ⟨hnone, hearl⟩
    · refine ⟨events.length, event, List.getElem?_concat_length, hset, fun m event' hm hlt => ?_⟩
      have hlen := (List.getElem?_eq_some_iff.mp hm).1
      rw [List.length_append, List.length_singleton] at hlen
      omega
    · obtain ⟨n, event₀, hn, hset, hlat⟩ := ih hearl
      have hlt := (List.getElem?_eq_some_iff.mp hn).1
      refine ⟨n, event₀, (List.getElem?_append_left hlt).trans hn, hset, fun m event' hm hnm => ?_⟩
      by_cases hlast : m < events.length
      · rw [List.getElem?_append_left hlast] at hm
        exact hlat m event' hm hnm
      · have hlen := (List.getElem?_eq_some_iff.mp hm).1
        rw [List.length_append, List.length_singleton] at hlen
        obtain rfl : m = events.length := by omega
        rw [List.getElem?_concat_length] at hm
        obtain rfl := Option.some.inj hm
        exact hnone

/-- What holds of each operation of a call. -/
def PerformedSession (call : SessionCall) (before : List SessionEntry) (entry : SessionEntry) : Prop :=
  PreparedSession call entry.op before ∧ ∀ identity data, entry.world.sessions identity = some data →
    (extractStateDeltas data.initialState).session = data.initialState

theorem call_performed (hrea : Reaches (sessionSystem InOrder) noSessions s)
    (hproc : s.procs[i]? = some proc) (hent : entry ∈ proc.log) :
    ∃ before later, proc.log = before ++ entry :: later ∧ PerformedSession proc.call before entry := by
  obtain ⟨before, later, hsp⟩ := List.append_of_mem hent
  refine ⟨before, later, hsp, ?_⟩
  refine hrea.entries rfl ?_ i proc hproc before entry later hsp
  intro s' j proc' op next r w hrea' hproc' hrest _ _
  exact ⟨(call_prepares hrea' hproc').performs hrest, (folded_reaches hrea').initial⟩

theorem WroteTier.set (hrea : Reaches (sessionSystem InOrder) noSessions s)
    (hproc : s.procs[i]? = some proc) {identity : AdkIdentity} {event : SessionEvent}
    (hcall : proc.call = .appendEvent identity event)
    (h : WroteTier proc.log tier key value) : (tier.delta event.persisted.stateDelta)[key]? = some value := by
  obtain ⟨w, delta, state, hmem, hdel⟩ := h
  obtain ⟨before, later, -, hprep, -⟩ := call_performed hrea hproc hmem
  rcases hprep with ⟨_, _, _, _, _, _, hcreate, -⟩ | ⟨identity', event', place, happend, -, -, rfl⟩
  · rw [hcall] at hcreate
    cases hcreate
  · rw [hcall] at happend
    obtain ⟨-, rfl⟩ := SessionCall.appendEvent.inj happend
    exact hdel

/-- **While no call is in progress, a key that one session writes has the value of its last event that sets it.** -/
theorem lastSet_quiet (hrea : Reaches (sessionSystem InOrder) noSessions s)
    (hqt : ∀ proc ∈ s.procs, proc.returned.isSome = true) {identity : AdkIdentity} {data : SessionData}
    (hdata : s.world.sessions identity = some data)
    (htier : tier.isOf identity = true) (hwriter : OnlyWriter s identity tier key) (hun : Unrewound s identity)
    (hlast : lastSet tier key data.events = some value) : (s.world.tiers tier)[key]? = some value := by
  have hplcd := placed_reaches hrea
  obtain ⟨n, event, hev, hset, hlat⟩ := lastSet_eq_some hlast
  -- the append of that event has written the key
  obtain ⟨i, hpsh⟩ := hplcd.logged identity hun data hdata n (List.getElem?_eq_some_iff.mp hev).1
  obtain ⟨data', proc, event', hdata', hproc, hcall, hev'⟩ := hplcd.place identity hun i n hpsh
  obtain rfl := Option.some.inj (hdata.symm.trans hdata')
  obtain rfl := Option.some.inj (hev.symm.trans hev')
  have hwr : WroteTier proc.log tier key value := by
    obtain ⟨a, ha⟩ := Option.isSome_iff_exists.mp (hqt proc (List.mem_of_getElem? hproc))
    have hdone := (call_prepares hrea hproc).returned (Proc.returned_eq ha)
    unfold SessionDone at hdone
    rw [logOf_eq hproc] at hpsh
    generalize hcalled : proc.call = called at hcall hdone
    subst hcall
    exact hdone n hpsh tier htier key value hset
  rw [← logOf_eq hproc] at hwr
  obtain ⟨last, value', ⟨j, hpsh', hwr'⟩, hkey, hmax⟩ :=
    latest_reaches hrea hwriter hun n value ⟨i, hpsh, hwr⟩
  rw [hkey]
  -- and no append of a later event has
  obtain ⟨data', proc', event'', hdata', hproc', hcall', hev''⟩ := hplcd.place identity hun j last hpsh'
  obtain rfl := Option.some.inj (hdata.symm.trans hdata')
  rw [logOf_eq hproc'] at hwr'
  have hset' := WroteTier.set hrea hproc' hcall' hwr'
  have hle := hmax n value ⟨i, hpsh, hwr⟩
  by_cases heq : n = last
  · subst heq
    rw [hev] at hev''
    rw [← Option.some.inj hev'', hset] at hset'
    exact hset'.symm
  · have hnone := hlat last _ hev'' (by omega)
    rw [hset'] at hnone
    cases hnone

/-! ### Rewinds -/

theorem keepUpTo_eq_ok {identity : AdkIdentity} {target : String} {events : List SessionEvent} {count : Nat}
    (h : keepUpTo identity target events = .ok count) : ∃ before event after, events = before ++ event :: after ∧
      event.id = target ∧ (∀ event ∈ before, event.id ≠ target) ∧ events.take count = before ++ [event] := by
  unfold keepUpTo at h
  split at h
  next index hidx =>
    obtain rfl := Except.ok.inj h
    obtain ⟨hlt, hid, hbef⟩ := List.findIdx?_eq_some_iff_getElem.mp hidx
    refine ⟨events.take index, events[index], events.drop (index + 1), ?_, of_decide_eq_true hid, ?_, ?_⟩
    · rw [List.getElem_cons_drop, List.take_append_drop]
    · intro event hev
      obtain ⟨m, hm, rfl⟩ := List.mem_take_iff_getElem.mp hev
      have hne := hbef m (by omega)
      simpa using hne
    · exact (List.take_concat_get' events index hlt).symm
  next => cases h

/-- A session is rewound under one lock, or stays. -/
theorem truncate_rewinds {identity : AdkIdentity} {target : String} {w' : SessionWorld}
    {result : Except AdkError SessionData}
    (hr : SessionWorld.laws.answers (.truncate identity (keepUpTo identity target)) w result w')
    (hinit : ∀ data, w.sessions identity = some data →
      (extractStateDeltas data.initialState).session = data.initialState) :
    w'.tiers = w.tiers ∧ (∀ other, other ≠ identity → w'.sessions other = w.sessions other) ∧
      ((∃ error, result = .error error) ∧ w' = w ∨ RewoundTo identity target w w') := by
  obtain ⟨-, ⟨error, rfl, rfl, -⟩ | ⟨data, count, now, hdata, hkeep, rfl, rfl⟩⟩ := hr
  · exact ⟨rfl, fun _ _ => rfl, .inl ⟨⟨error, rfl⟩, rfl⟩⟩
  · refine ⟨rfl, fun other hoth => SessionWorld.setSession_other hoth, .inr ?_⟩
    obtain ⟨before, event, after, hevents, hid, hbef, htake⟩ := keepUpTo_eq_ok hkeep
    refine ⟨data, data.truncated count now, before, event, after, hdata, SessionWorld.setSession_self .., hevents, hid,
      hbef, htake, rfl, ?_⟩
    show rebuildSessionState data.initialState _ = foldEvents data.initialState _
    unfold rebuildSessionState
    rw [hinit data hdata]
    rfl

/-- **In every run** in which no append writes a key of a tier after a later event of the session has, session state
is the fold of the logs. -/
theorem stateIsFold_ordered (hreach : Reaches (sessionSystem InOrder) noSessions s) : StateIsFold s := by
  have hfolded := folded_reaches hreach
  constructor
  case folded => exact hfolded.folded
  case created => exact hfolded.created
  case rewinds =>
    intro proc hproc identity target hcall entry hentry w hr
    obtain ⟨i, hi⟩ := List.mem_iff_getElem?.mp hproc
    obtain ⟨before, later, -, hprepared, hinitial⟩ := call_performed hreach hi hentry
    rw [hcall] at hprepared
    obtain ⟨w₀, op, r⟩ := entry
    have hsame : w.tiers = w₀.tiers → w.sessions = w₀.sessions → w.tiers = w₀.tiers ∧
        (∀ other, other ≠ identity → w.sessions other = w₀.sessions other) ∧
        (w.sessions identity = w₀.sessions identity ∨ RewoundTo identity target w₀ w) := by
      intro htiers hsessions
      rw [hsessions]
      exact ⟨htiers, fun _ _ => rfl, .inl rfl⟩
    cases op with
    | now =>
      have hw : w = w₀ := hr
      exact hsame (by rw [hw]) (by rw [hw])
    | readSession other => exact hsame (by rw [hr.2.2]) (by rw [hr.2.2])
    | readTier tier => exact hsame (by rw [hr.2]) (by rw [hr.2])
    | lockSessions other => obtain ⟨-, ⟨-, -, hw⟩ | ⟨-, -, hw⟩⟩ := hr <;> exact hsame (by rw [hw]) (by rw [hw])
    | extendTier tier delta =>
      obtain ⟨_, _, _, _, _, _, hcreate, -⟩ | ⟨_, _, _, happend, -⟩ := hprepared
      · cases hcreate
      · cases happend
    | insertSession other state now =>
      obtain ⟨-, _, _, _, _, _, hcreate, -⟩ := hprepared
      cases hcreate
    | pushEvent other event delta =>
      obtain ⟨-, _, happend, -⟩ := hprepared
      cases happend
    | truncate other keep =>
      obtain ⟨target', htarget, rfl⟩ | ⟨steps, hsteps⟩ := hprepared
      · obtain ⟨rfl, rfl⟩ := SessionCall.rewind.inj htarget
        obtain ⟨htiers, hothers, ⟨-, rfl⟩ | hrewound⟩ := truncate_rewinds hr (hinitial identity)
        · exact hsame rfl rfl
        · exact ⟨htiers, hothers, .inr hrewound⟩
      · cases hsteps
  case rewound =>
    intro proc hproc identity target answer hcall hreturned
    obtain ⟨i, hi⟩ := List.mem_iff_getElem?.mp hproc
    have hdone := (call_prepares hreach hi).returned (Proc.returned_eq hreturned)
    unfold SessionDone at hdone
    rw [hcall] at hdone
    obtain ⟨w₀, data, hentry⟩ := hdone answer rfl
    obtain ⟨before, later, -, -, hinitial⟩ := call_performed hreach hi hentry
    refine ⟨_, hentry, fun w hr => ?_⟩
    obtain ⟨-, -, ⟨⟨error, herror⟩, -⟩ | hrewound⟩ := truncate_rewinds hr (hinitial identity)
    · cases herror
    · exact hrewound
  case refused =>
    intro proc hproc appName userId sessionId random state error hcall hreturned entry hentry w hr
    obtain ⟨i, hi⟩ := List.mem_iff_getElem?.mp hproc
    have hdone := (call_prepares hreach hi).returned (Proc.returned_eq hreturned)
    unfold SessionDone at hdone
    rw [hcall] at hdone
    rcases hdone error rfl entry hentry with hop | ⟨w₀, identity, rfl⟩
    · obtain ⟨w₀, op, r⟩ := entry
      obtain rfl : op = .now := hop
      exact hr
    · obtain ⟨-, ⟨-, -, hw⟩ | ⟨hheld, -⟩⟩ := hr
      · exact hw
      · cases hheld
  case latest =>
    intro hquiet identity data tier key value hdata htier hwriter hun hlast
    exact lastSet_quiet hreach hquiet hdata htier hwriter hun hlast

end Runs

/-! ## Runs that are computed -/

section Computed

def SessionOp.waits : SessionOp → Bool
  | .lockSessions _ | .readSession _ | .pushEvent .. | .truncate .. => true
  | .now | .extendTier .. | .insertSession .. | .readTier _ => false

/-- A service whose clock stays at 0. -/
def sessionRun : (op : SessionOp) → SessionWorld → op.Ret × SessionWorld
  | .now, w => ((0 : Int), w)
  | .lockSessions identity, w =>
    if (w.sessions identity).isSome then (false, w) else (true, { w with creating := some identity })
  | .extendTier tier delta, w => ((w.tiers tier).extend delta, w.setTier tier ((w.tiers tier).extend delta))
  | .insertSession identity state now, w =>
    ((), { w.setSession identity { events := [], state, initialState := state, updatedAt := now } with creating := none })
  | .readSession identity, w => (w.sessions identity, w)
  | .readTier tier, w => (w.tiers tier, w)
  | .pushEvent identity event delta, w =>
    match w.sessions identity with
    | none => (false, w)
    | some data => (true, w.setSession identity (data.push event delta))
  | .truncate identity keep, w =>
    match w.sessions identity with
    | none => (.error (identityNotFound identity), w)
    | some data =>
      match keep data.events with
      | .error error => (.error error, w)
      | .ok count => (.ok (data.truncated count 0), w.setSession identity (data.truncated count 0))

theorem answers_sessionRun (op : SessionOp) (w : SessionWorld) (hfree : op.waits = true → w.creating = none) :
    SessionWorld.laws.answers op w (sessionRun op w).1 (sessionRun op w).2 := by
  cases op with
  | now => rfl
  | insertSession identity state now => rfl
  | extendTier tier delta => exact ⟨rfl, rfl⟩
  | readTier tier => exact ⟨rfl, rfl⟩
  | readSession identity => exact ⟨hfree rfl, rfl, rfl⟩
  | lockSessions identity =>
    refine ⟨hfree rfl, ?_⟩
    by_cases hthe : (w.sessions identity).isSome = true
    · simp [sessionRun, hthe]
    · exact .inr (by simp [sessionRun, Option.not_isSome_iff_eq_none.mp hthe])
  | pushEvent identity event delta =>
    refine ⟨hfree rfl, ?_⟩
    cases hdata : w.sessions identity with
    | none => exact .inl (by simp [sessionRun, hdata])
    | some data => exact .inr ⟨data, by simp [sessionRun, hdata]⟩
  | truncate identity keep =>
    refine ⟨hfree rfl, ?_⟩
    cases hdata : w.sessions identity with
    | none => exact .inl ⟨identityNotFound identity, by simp [sessionRun, hdata]⟩
    | some data =>
      cases hkeep : keep data.events with
      | error error => exact .inl ⟨error, by simp [sessionRun, hdata, hkeep]⟩
      | ok count => exact .inr ⟨data, count, 0, by simp [sessionRun, hdata, hkeep]⟩

/-- The places where a call put events. -/
def pushes (log : List SessionEntry) : List (AdkIdentity × Nat) :=
  log.filterMap fun
    | ⟨w, .pushEvent identity _ _, true⟩ => (w.sessions identity).map fun data => (identity, data.events.length)
    | _ => none

theorem mem_pushes {log : List SessionEntry} {identity : AdkIdentity} {place : Nat} (h : PushedAt log identity place) :
    (identity, place) ∈ pushes log := by
  obtain ⟨w, event, delta, data, hmem, hdata, rfl⟩ := h
  refine List.mem_filterMap.mpr ⟨_, hmem, ?_⟩
  simp only [hdata]
  rfl

def overlaps (tier : SharedTier) (delta : StateMap) : SessionOp → Bool
  | .extendTier tier' delta' => decide (tier' = tier) && delta'.keys.any fun key => delta.contains key
  | _ => false

/-- The lock is free where it is needed, and no append of a later event has written a key that is written now. -/
def inOrder (s : SessionPool) (i : Nat) (op : SessionOp) : Bool :=
  (!op.waits || s.world.creating.isNone) &&
    match op with
    | .extendTier tier delta => (pushes (s.logOf i)).all fun push => s.procs.all fun proc =>
        (pushes proc.log).all fun later => !decide (later.1 = push.1 ∧ push.2 < later.2) ||
          proc.log.all fun entry => !overlaps tier delta entry.op
    | _ => true

theorem inOrder_of_check {s : SessionPool} {i : Nat} {op : SessionOp} (h : inOrder s i op = true) :
    InOrder s i op := by
  cases op with
  | extendTier tier delta =>
    intro identity place key hpsh hset _ _ proc hproc later value hlat hlt hwr
    obtain ⟨w, delta', state, hent, hval⟩ := hwr
    unfold inOrder at h
    rw [Bool.and_eq_true, List.all_eq_true] at h
    have hproc' := List.all_eq_true.mp (h.2 _ (mem_pushes hpsh)) proc hproc
    have hlat' := List.all_eq_true.mp hproc' _ (mem_pushes hlat)
    rw [decide_eq_true ⟨rfl, hlt⟩, Bool.not_true, Bool.false_or, List.all_eq_true] at hlat'
    have hnone := hlat' _ hent
    have hkey : key ∈ delta'.keys := Std.ExtTreeMap.mem_keys.mpr (Std.ExtTreeMap.mem_iff_isSome_getElem?.mpr (by
      rw [hval]
      rfl))
    have hboth : overlaps tier delta (.extendTier tier delta') = true := by
      show (decide (tier = tier) && _) = true
      rw [decide_eq_true rfl, Bool.true_and]
      refine List.any_eq_true.mpr ⟨key, hkey, ?_⟩
      exact Std.ExtTreeMap.contains_iff_mem.mpr (Std.ExtTreeMap.mem_iff_isSome_getElem?.mpr hset)
    rw [hboth] at hnone
    cases hnone
  | _ => trivial

def orderedSystem := sessionSystem fun s i op => inOrder s i op = true

/-- What is done when the lock is free. -/
def freeSystem := sessionSystem fun s _ op => (!op.waits || s.world.creating.isNone) = true

instance : ∀ s call, Decidable (orderedSystem.starts s call) := fun _ _ => .isTrue trivial

instance : ∀ s i op, Decidable (orderedSystem.acts s i op) := fun s i op =>
  decidable_of_iff (inOrder s i op = true) Iff.rfl

instance : ∀ s call, Decidable (freeSystem.starts s call) := fun _ _ => .isTrue trivial

instance : ∀ s i op, Decidable (freeSystem.acts s i op) := fun s _ op =>
  decidable_of_iff ((!op.waits || s.world.creating.isNone) = true) Iff.rfl

theorem free_of_check {s : SessionPool} {op : SessionOp} (h : (!op.waits || s.world.creating.isNone) = true)
    (hwaits : op.waits = true) : s.world.creating = none := by
  rw [hwaits] at h
  exact Option.isNone_iff_eq_none.mp h

theorem reaches_ordered (events : List (ProcPool.Event SessionCall)) :
    Reaches (sessionSystem InOrder) noSessions (events.foldl (next orderedSystem sessionRun) noSessions) := by
  have hrea : Reaches orderedSystem noSessions (events.foldl (next orderedSystem sessionRun) noSessions) := by
    refine reaches_foldl_acts (fun s i op h => answers_sessionRun op s.world ?_) _ _
    exact free_of_check (Bool.and_eq_true_iff.mp h).1
  exact hrea.weaken fun s i op h => inOrder_of_check h

theorem reaches_free (events : List (ProcPool.Event SessionCall)) :
    Reaches (sessionSystem fun _ _ _ => True) noSessions (events.foldl (next freeSystem sessionRun) noSessions) := by
  have hrea : Reaches freeSystem noSessions (events.foldl (next freeSystem sessionRun) noSessions) :=
    reaches_foldl_acts (fun s i op h => answers_sessionRun op s.world (free_of_check h)) _ _
  exact hrea.weaken fun _ _ _ _ => trivial

def chatIdentity : AdkIdentity := { appName := "chat", userId := "user", sessionId := "session" }

/-- An event that sets a key of the app. -/
def settingEvent (id : String) (theme : String) : SessionEvent where
  id
  timestamp := 0
  stateDelta := (∅ : StateMap).insert "app:theme" (.string theme)

/-- A session, and two appends to it that are both in the log before one of them writes the tier. -/
def overlappingAppends : List (ProcPool.Event SessionCall) :=
  [.start (.create "chat" "user" (some "session") "" ∅), .act 0, .act 0, .act 0, .act 0, .act 0,
    .start (.appendEvent chatIdentity (settingEvent "e1" "dark")), .act 1,
    .start (.appendEvent chatIdentity (settingEvent "e2" "light")), .act 2]

/-- The appends write the tier in the order of the log, and the session is rewound. -/
def inOrderRewound : List (ProcPool.Event SessionCall) :=
  overlappingAppends ++ [.act 1, .act 2, .start (.rewind chatIdentity "e1"), .act 3, .act 3, .act 3]

def orderedAppends : SessionPool := inOrderRewound.foldl (next orderedSystem sessionRun) noSessions

theorem stateIsFold_ordered_appends : StateIsFold orderedAppends ∧
    (orderedAppends.world.sessions chatIdentity).map (·.events.map (·.id)) = some ["e1"] ∧
    (orderedAppends.world.tiers (.app "chat"))["theme"]? = some (.string "light") :=
  ⟨stateIsFold_ordered (reaches_ordered _), by decide +kernel, by decide +kernel⟩

/-- The append of the later event writes the tier first. -/
def crossing : List (ProcPool.Event SessionCall) := overlappingAppends ++ [.act 2, .act 1]

def crossedAppends : SessionPool := crossing.foldl (next freeSystem sessionRun) noSessions

theorem crossedAppends_quiet : (∀ proc ∈ crossedAppends.procs, proc.returned.isSome = true) ∧
    (∀ proc ∈ crossedAppends.procs, proc.call.identity = some chatIdentity) ∧
    (∀ proc ∈ crossedAppends.procs, ∀ entry ∈ proc.log, (match entry.op with
      | .truncate .. => false
      | _ => true) = true) ∧
    (crossedAppends.world.sessions chatIdentity).map (fun data => lastSet (.app "chat") "theme" data.events) =
      some (some (.string "light")) ∧
    (crossedAppends.world.tiers (.app "chat"))["theme"]? = some (.string "dark") := by
  decide +kernel

/-- **Not in every run**: when two appends to a session overlap, the tier may keep the value of the earlier event. -/
theorem not_stateIsFold : ¬ ∀ s, Reaches (sessionSystem fun _ _ _ => True) noSessions s → StateIsFold s := by
  intro h
  obtain ⟨hquiet, hidentity, huncut, hlast, htier⟩ := crossedAppends_quiet
  obtain ⟨data, hdata, hlast⟩ := Option.map_eq_some_iff.mp hlast
  have hlatest := (h crossedAppends (reaches_free _)).latest hquiet chatIdentity data (.app "chat") "theme"
    (.string "light") hdata rfl (fun proc hproc _ _ => hidentity proc hproc)
    (fun proc hproc w keep result hmem => Bool.false_ne_true (huncut proc hproc _ hmem)) hlast
  rw [htier] at hlatest
  exact absurd hlatest (by decide)

end Computed

end Adk
