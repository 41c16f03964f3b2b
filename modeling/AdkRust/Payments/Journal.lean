import AdkRust.Lib.ProcPool
import AdkRust.Payments.Record

/-!
# The payment journal

The transaction store in the app state of the sessions (`journal/store.rs`, `journal/session_state.rs`): the records
of an app and two indexes of their locators.

* `upsert`, `listUnresolved`: the calls, over `JournalOp`.
* `journalSystem`: any upserts of an app, one access at a time; in `serial` no other upsert appends between the read
  of an upsert and its own append.
* `JournalRun.journaled`: in a serial run the indexes agree with the records. Without the condition an upsert
  writes over the index entry of another one (`JournalRun.unjournaled`).

The text of a journal event, and the hash of an identity (`identity_hash`, a parameter), are left open.
-/

namespace Adk

/-! ## Records and indexes -/

/-- Locates an entry of the journal. -/
structure TransactionLocator where
  identity : AdkIdentity
  transactionId : TransactionId
deriving DecidableEq

structure JournalState where
  records : Dict TransactionRecord := ∅
  active : List TransactionLocator := []
  completed : List TransactionLocator := []
deriving DecidableEq

/-- The event that mirrors an upsert into the app state. -/
structure JournalEvent where
  key : String
  record : TransactionRecord
  active : List TransactionLocator
  completed : List TransactionLocator
deriving DecidableEq

def upsertLocator (index : List TransactionLocator) (locator : TransactionLocator) : List TransactionLocator :=
  (index.filter (· ≠ locator) ++ [locator]).insertionSort fun left right => left.transactionId ≤ right.transactionId

def removeLocator (index : List TransactionLocator) (locator : TransactionLocator) : List TransactionLocator :=
  index.filter (· ≠ locator)

section Store

variable (identityHash : AdkIdentity → String)

def transactionStateKey (locator : TransactionLocator) : String :=
  s!"payments:tx:{identityHash locator.identity}:{locator.transactionId}"

def journalEvent (record : TransactionRecord) (locator : TransactionLocator) (state : JournalState) :
    JournalEvent where
  key := transactionStateKey identityHash locator
  record
  active := if record.state.isTerminal then removeLocator state.active locator else upsertLocator state.active locator
  completed :=
    if record.state.isTerminal then upsertLocator state.completed locator else removeLocator state.completed locator

/-- The state after an event: its delta replaces the values of its keys. -/
def JournalState.apply (state : JournalState) (event : JournalEvent) : JournalState where
  records := state.records.insert event.key event.record
  active := event.active
  completed := event.completed

/-- The accesses of the store. -/
inductive JournalOp where
  /-- Reads the session of an identity, with the app state as it is. -/
  | getForIdentity (identity : AdkIdentity)
  | appendEvent (identity : AdkIdentity) (event : JournalEvent)
  | indexSummary (identity : AdkIdentity) (record : TransactionRecord)

abbrev JournalOp.Ret : JournalOp → Type
  | .getForIdentity _ => Except AdkError JournalState
  | .appendEvent .. => Except AdkError Unit
  | .indexSummary .. => Except AdkError Unit

abbrev JournalProg : Type → Type := ExceptT AdkError (Prog JournalOp JournalOp.Ret)

namespace JournalProg

/-- The result of an access that may fail. -/
def ofResult {α : Type} : Except AdkError α → JournalProg α
  | .ok a => pure a
  | .error error => throw error

/-- Reads a session. -/
def getForIdentity (identity : AdkIdentity) : JournalProg JournalState := do
  ofResult (← ExceptT.lift (Prog.perform (JournalOp.getForIdentity identity)))

def appendEvent (identity : AdkIdentity) (event : JournalEvent) : JournalProg Unit := do
  ofResult (← ExceptT.lift (Prog.perform (JournalOp.appendEvent identity event)))

end JournalProg

def requireIdentity (identity : Option AdkIdentity) (code : String) : JournalProg AdkIdentity :=
  match identity with
  | some identity => pure identity
  | none => throw {
      component := .session
      category := .invalidInput
      code
      message := "transaction journal operations require a session identity" }

/-- Stores a record, and moves its locator into the index of its state. -/
def upsert (memoryIndex : Bool) (record : TransactionRecord) : JournalProg Unit := do
  let identity ← requireIdentity record.sessionIdentity "payments.journal.identity_required"
  let session ← JournalProg.getForIdentity identity
  let locator : TransactionLocator := { identity, transactionId := record.transactionId }
  JournalProg.appendEvent identity (journalEvent identityHash record locator session)
  if memoryIndex then
    JournalProg.ofResult (← ExceptT.lift (Prog.perform (JournalOp.indexSummary identity record)))

def getTransaction (identity : AdkIdentity) (transactionId : TransactionId) :
    JournalProg (Option TransactionRecord) := do
  let session ← JournalProg.getForIdentity identity
  return session.records[transactionStateKey identityHash { identity, transactionId }]?

def unresolvedOf (identity : AdkIdentity) : List TransactionLocator → JournalProg (List TransactionRecord)
  | [] => pure []
  | locator :: locators => do
    let found ← getTransaction identityHash identity locator.transactionId
    let records ← unresolvedOf identity locators
    return (found.filter fun record => !record.state.isTerminal).toList ++ records

def listUnresolved (identity : Option AdkIdentity) : JournalProg (List TransactionRecord) := do
  let identity ← requireIdentity identity "payments.journal.list_identity_required"
  let session ← JournalProg.getForIdentity identity
  let records ← unresolvedOf identityHash identity (session.active.filter fun locator => locator.identity = identity)
  return records.insertionSort fun left right => left.transactionId ≤ right.transactionId

/-! ## The upserts of an app -/

/-- A session read answers the state, and an append applies its event; each may fail and then changes nothing. -/
def JournalState.laws : Laws JournalOp JournalOp.Ret JournalState where
  answers
    | .getForIdentity _, state, r, state' => state' = state ∧ ((∃ error, r = .error error) ∨ r = .ok state)
    | .appendEvent _ event, state, r, state' =>
      (∃ error, r = .error error) ∧ state' = state ∨ r = .ok () ∧ state' = state.apply event
    | .indexSummary .., state, _, state' => state' = state
  moves _ _ := False

/-- An upsert in progress, or one that has returned. -/
abbrev JournalProc : Type := Proc (fun _ : TransactionRecord => Except AdkError Unit) JournalOp.Ret JournalState

/-- The app state and the upserts. -/
abbrev JournalPool : Type := ProcPool (fun _ : TransactionRecord => Except AdkError Unit) JournalOp.Ret JournalState

def TransactionRecord.locator (record : TransactionRecord) : Option TransactionLocator :=
  record.sessionIdentity.map fun identity => { identity, transactionId := record.transactionId }

def journalSystem (memoryIndex : Bool) :
    System (fun _ : TransactionRecord => Except AdkError Unit) JournalOp.Ret JournalState where
  laws := JournalState.laws
  program record := (upsert identityHash memoryIndex record).run

/-- Whether the app state is the one that a process read. -/
def unmoved (log : List (Entry JournalOp.Ret JournalState)) (now : JournalState) : Bool :=
  log.all fun entry =>
    match entry.op with
    | .getForIdentity _ => entry.world.active = now.active && entry.world.completed = now.completed
    | _ => true

/-- **The condition**: an upsert appends its event to the indexes that it read. -/
def appendsUnmoved (s : JournalPool) (i : Nat) : JournalOp → Bool
  | .appendEvent .. => unmoved (s.logOf i) s.world
  | _ => true

/-- Upserts that append one after another. -/
def serial (memoryIndex : Bool) :
    System (fun _ : TransactionRecord => Except AdkError Unit) JournalOp.Ret JournalState where
  laws := JournalState.laws
  program record := (upsert identityHash memoryIndex record).run
  acts s i op := appendsUnmoved s i op = true

end Store

namespace JournalRun

open ProcPool

variable {identityHash : AdkIdentity → String} {memoryIndex : Bool}

structure Indexed (identityHash : AdkIdentity → String) (state : JournalState) (key : String)
    (record : TransactionRecord) (locator : TransactionLocator) : Prop where
  located : record.locator = some locator
  key : key = transactionStateKey identityHash locator
  active : locator ∈ state.active ↔ record.state.isTerminal = false
  completed : locator ∈ state.completed ↔ record.state.isTerminal = true

/-- **The journal loses no transaction**: each stored record is in exactly the index of its state, and is listed
as unresolved exactly when its state is not terminal. -/
structure Journaled (identityHash : AdkIdentity → String) (state : JournalState) : Prop where
  indexed : ∀ (key : String) (record : TransactionRecord), state.records[key]? = some record →
    ∃ locator, Indexed identityHash state key record locator
  listed : ∀ (key : String) (record : TransactionRecord), state.records[key]? = some record →
    ∀ (records : List TransactionRecord) (state' : JournalState), Prog.Reaches JournalState.laws
      ((listUnresolved identityHash record.sessionIdentity).run, state) (.pure (.ok records), state') → (record ∈ records ↔ record.state.isTerminal = false)

/-! ## The indexes -/

section Indexes

variable {index : List TransactionLocator} {locator other : TransactionLocator}

theorem mem_removeLocator : other ∈ removeLocator index locator ↔ other ∈ index ∧ other ≠ locator := by
  unfold removeLocator
  rw [List.mem_filter, decide_eq_true_iff]

theorem mem_upsertLocator : other ∈ upsertLocator index locator ↔ other ∈ index ∨ other = locator := by
  unfold upsertLocator
  rw [List.mem_insertionSort, List.mem_append, List.mem_filter, decide_eq_true_iff, List.mem_singleton]
  constructor
  · rintro (⟨hmem, -⟩ | h)
    · exact .inl hmem
    · exact .inr h
  · intro h
    by_cases hsame : other = locator
    · exact .inr hsame
    · exact .inl ⟨h.resolve_right hsame, hsame⟩

/-- What an event makes of the indexes. -/
theorem mem_active {record : TransactionRecord} {state : JournalState} :
    other ∈ (journalEvent identityHash record locator state).active ↔
      if other = locator then record.state.isTerminal = false else other ∈ state.active := by
  unfold journalEvent
  by_cases hsame : other = locator
  · cases hterm : record.state.isTerminal with
    | true => simp [mem_removeLocator, hsame]
    | false => simp [mem_upsertLocator, hsame]
  · cases hterm : record.state.isTerminal with
    | true => simp [mem_removeLocator, hsame]
    | false => simp [mem_upsertLocator, hsame]

theorem mem_completed {record : TransactionRecord} {state : JournalState} :
    other ∈ (journalEvent identityHash record locator state).completed ↔
      if other = locator then record.state.isTerminal = true else other ∈ state.completed := by
  unfold journalEvent
  by_cases hsame : other = locator
  · cases hterm : record.state.isTerminal with
    | true => simp [mem_upsertLocator, hsame]
    | false => simp [mem_removeLocator, hsame]
  · cases hterm : record.state.isTerminal with
    | true => simp [mem_upsertLocator, hsame]
    | false => simp [mem_removeLocator, hsame]

end Indexes

/-! ## Listing -/

section Listing

variable {state : JournalState}

/-- The state does not move by itself. -/
theorem still (inv : JournalState → Prop) : Prog.Stable JournalState.laws inv := fun _ _ h => h.elim

abbrev Returns {α : Type} (state : JournalState) (Q : α → Prop) (p : JournalProg α) : Prop :=
  Prog.Ensures JournalState.laws (fun _ _ => True) (fun _ _ => True) (fun a w => w = state ∧ Q a) p state

theorem returns_pure {α : Type} {Q : α → Prop} {a : α} (h : Q a) : Returns state Q (pure a) :=
  (still fun w => w = state).ensures_pure rfl fun _ hw => ⟨hw, h⟩

theorem Returns.bind {α β : Type} {Q : α → Prop} {R : β → Prop} {p : JournalProg α} {f : α → JournalProg β}
    (h : Returns state Q p) (hf : ∀ a, Q a → Returns state R (f a)) : Returns state R (p >>= f) := by
  refine Prog.Ensures.bind h ?_
  rintro a w ⟨rfl, ha⟩
  exact hf a ha

/-- A read answers the state. -/
theorem getForIdentity_returns (identity : AdkIdentity) :
    Returns state (fun session => session = state) (JournalProg.getForIdentity identity) := by
  unfold JournalProg.getForIdentity
  refine Returns.bind (Q := fun r => ∀ session, r = .ok session → session = state) ?_ ?_
  · refine (still fun w => w = state).ensures_perform rfl (fun _ _ => trivial) ?_ fun _ => still _
    rintro w r w' rfl ⟨rfl, ⟨error, rfl⟩ | rfl⟩
    · exact ⟨rfl, fun session h => by cases h⟩
    · exact ⟨rfl, fun session h => (Except.ok.inj h).symm⟩
  · intro r hr
    cases r with
    | ok session => exact returns_pure (hr session rfl)
    | error error => exact (still fun _ => True).ensures_throw trivial fun _ _ => trivial

theorem getTransaction_returns (identity : AdkIdentity) (transactionId : TransactionId) :
    Returns state (fun found => found = state.records[transactionStateKey identityHash { identity, transactionId }]?)
      (getTransaction identityHash identity transactionId) := by
  refine (getForIdentity_returns identity).bind ?_
  rintro session rfl
  exact returns_pure rfl

/-- A record that is stored under the key of one of the locators, and is not in a terminal state. -/
def Unresolved (identityHash : AdkIdentity → String) (state : JournalState) (identity : AdkIdentity)
    (locators : List TransactionLocator) (record : TransactionRecord) : Prop :=
  ∃ locator ∈ locators, state.records[transactionStateKey identityHash
    { identity, transactionId := locator.transactionId }]? = some record ∧ record.state.isTerminal = false

theorem unresolvedOf_returns (identity : AdkIdentity) (locators : List TransactionLocator) :
    Returns state (fun records => ∀ record, record ∈ records ↔ Unresolved identityHash state identity locators record)
      (unresolvedOf identityHash identity locators) := by
  induction locators with
  | nil =>
    refine returns_pure fun record => ?_
    simp [Unresolved]
  | cons locator locators ih =>
    refine (getTransaction_returns identity locator.transactionId).bind ?_
    rintro found hfnd
    refine ih.bind fun records hrecords => returns_pure fun record => ?_
    unfold Unresolved
    rw [List.exists_mem_cons_iff, List.mem_append, hrecords, Option.mem_toList,
      Option.filter_eq_some_iff, hfnd, Bool.not_eq_true']
    rfl

/-- **What is listed** for an identity. -/
theorem listUnresolved_returns (identity : AdkIdentity) : Returns state (fun records => ∀ record,
    record ∈ records ↔ Unresolved identityHash state identity
      (state.active.filter fun locator => locator.identity = identity) record)
      (listUnresolved identityHash (some identity)) := by
  refine Returns.bind (Q := fun found => found = identity) (returns_pure rfl) ?_
  rintro _ rfl
  refine (getForIdentity_returns _).bind ?_
  rintro session rfl
  refine (unresolvedOf_returns _ _).bind fun records hrecords => returns_pure fun record => ?_
  rw [List.mem_insertionSort]
  exact hrecords record

theorem journaled_of_indexed (h : ∀ (key : String) (record : TransactionRecord), state.records[key]? = some record →
    ∃ locator, Indexed identityHash state key record locator) : Journaled identityHash state := by
  refine ⟨h, fun key record hrcd records state' hrea => ?_⟩
  obtain ⟨locator, hidx⟩ := h key record hrcd
  obtain ⟨identity, hident, rfl⟩ := Option.map_eq_some_iff.mp hidx.located
  rw [hident] at hrea
  have hlst := ((listUnresolved_returns identity).returned hrea).2 record
  rw [hlst]
  constructor
  · rintro ⟨-, -, -, hopen⟩
    exact hopen
  · intro hopen
    refine ⟨_, List.mem_filter.mpr ⟨hidx.active.mpr hopen, decide_eq_true rfl⟩, ?_, hopen⟩
    rw [← hidx.key]
    exact hrcd

end Listing

/-! ## What an upsert writes -/

/-- An upsert appends the event of its record, with the indexes that it read. -/
def Before (identityHash : AdkIdentity → String) (record : TransactionRecord) (op : JournalOp)
    (log : List (Entry JournalOp.Ret JournalState)) : Prop :=
  match op with
  | .appendEvent _ event => ∃ locator w identity, record.locator = some locator ∧
    ⟨w, .getForIdentity identity, .ok w⟩ ∈ log ∧ event = journalEvent identityHash record locator w
  | _ => True

theorem upsert_local (record : TransactionRecord) : Prog.Ensures (recording JournalState.laws)
    (Before identityHash record) (fun _ _ => True) (fun _ _ => True) (upsert identityHash memoryIndex record) [] := by
  unfold upsert
  refine Prog.Ensures.bind (M := fun identity log => record.sessionIdentity = some identity) ?_ ?_
  · cases hident : record.sessionIdentity with
    | none => exact ensures_throw trivial
    | some identity => exact ensures_pure rfl
  intro identity log hident
  have hread : Prog.Ensures (recording JournalState.laws) (Before identityHash record) (fun _ _ => True)
      (fun session log' => ⟨session, .getForIdentity identity, .ok session⟩ ∈ log')
      (JournalProg.getForIdentity identity) log := by
    refine Prog.Ensures.bind (M := fun r log' => ∀ session, r = .ok session →
      ⟨session, .getForIdentity identity, .ok session⟩ ∈ log') ?_ ?_
    · refine ensures_perform trivial fun w r w' hr session hsession => ?_
      obtain ⟨-, ⟨error, rfl⟩ | rfl⟩ := hr
      · cases hsession
      · obtain rfl := Except.ok.inj hsession
        exact List.mem_append_right _ (List.mem_singleton_self _)
    · intro r log' hr
      cases r with
      | ok session => exact ensures_pure (hr session rfl)
      | error error => exact ensures_throw trivial
  refine Prog.Ensures.bind hread fun session log' hsession => ?_
  refine Prog.Ensures.bind (M := fun _ _ => True) ?_ ?_
  · refine Prog.Ensures.bind (M := fun _ _ => True) ?_ ?_
    · refine ensures_perform ⟨_, session, identity, ?_, hsession, rfl⟩ fun _ _ _ _ => trivial
      unfold TransactionRecord.locator
      rw [hident]
      rfl
    · intro r _ _
      cases r with
      | ok _ => exact ensures_pure trivial
      | error error => exact ensures_throw trivial
  · intro _ _ _
    split
    · refine Prog.Ensures.bind (M := fun _ _ => True) (ensures_perform trivial fun _ _ _ _ => trivial) ?_
      intro r _ _
      cases r with
      | ok _ => exact ensures_pure trivial
      | error error => exact ensures_throw trivial
    · exact ensures_pure trivial

/-! ## Runs -/

/-- No upsert has run, and nothing is stored. -/
def idle : JournalPool := { world := {} }

/-- The indexes agree with the records. -/
def Agrees (identityHash : AdkIdentity → String) (state : JournalState) : Prop :=
  ∀ (key : String) (record : TransactionRecord), state.records[key]? = some record →
    ∃ locator, Indexed identityHash state key record locator

/-- An event that is applied to the indexes it was made from keeps the journal. -/
theorem Agrees.apply {state session : JournalState} (h : Agrees identityHash state) {record : TransactionRecord}
    {locator : TransactionLocator} (hlocator : record.locator = some locator) (hact : session.active = state.active)
    (hcomp : session.completed = state.completed) :
    Agrees identityHash (state.apply (journalEvent identityHash record locator session)) := by
  intro key other hoth
  have hinsert : (state.apply (journalEvent identityHash record locator session)).records =
      state.records.insert (transactionStateKey identityHash locator) record := rfl
  rw [hinsert, Std.ExtTreeMap.getElem?_insert] at hoth
  have hact' : ∀ place, place ∈ (state.apply (journalEvent identityHash record locator session)).active ↔
      if place = locator then record.state.isTerminal = false else place ∈ state.active := by
    intro place
    rw [← hact]
    exact @mem_active identityHash _ _ _ _
  have hcomp' : ∀ place, place ∈ (state.apply (journalEvent identityHash record locator session)).completed ↔
      if place = locator then record.state.isTerminal = true else place ∈ state.completed := by
    intro place
    rw [← hcomp]
    exact @mem_completed identityHash _ _ _ _
  split at hoth
  next hsame =>
    -- the record that was stored
    obtain rfl := Option.some.inj hoth
    refine ⟨locator, hlocator, (Std.LawfulEqCmp.eq_of_compare hsame).symm, ?_, ?_⟩
    · rw [hact', if_pos rfl]
    · rw [hcomp', if_pos rfl]
  next hne =>
    obtain ⟨place, hpl⟩ := h key other hoth
    have hapart : place ≠ locator := by
      rintro rfl
      exact hne (by rw [hpl.key]; exact Std.ReflCmp.compare_self)
    refine ⟨place, hpl.located, hpl.key, ?_, ?_⟩
    · rw [hact', if_neg hapart]
      exact hpl.active
    · rw [hcomp', if_neg hapart]
      exact hpl.completed

/-- What an upsert is about to append was made from the indexes as they are. -/
theorem appends_fresh {s : JournalPool} (hrea : Reaches (serial identityHash memoryIndex) idle s) {i : Nat}
    {proc : JournalProc} {identity : AdkIdentity} {event : JournalEvent}
    {rest : Except AdkError Unit → Prog JournalOp JournalOp.Ret (Except AdkError Unit)}
    (hproc : s.procs[i]? = some proc) (hrest : proc.rest = .ask (.appendEvent identity event) rest)
    (hacts : appendsUnmoved s i (.appendEvent identity event) = true) : ∃ record locator session,
      record.locator = some locator ∧ event = journalEvent identityHash record locator session ∧
      session.active = s.world.active ∧ session.completed = s.world.completed := by
  have hkeeps : Keeps JournalState.laws (Before identityHash) (fun _ _ _ => True) proc :=
    hrea.local rfl (fun record => Prog.Holds.mono (upsert_local record) fun _ _ _ => trivial) i proc hproc
  obtain ⟨locator, session, identity', hlocator, hread, hev⟩ :
      Before identityHash proc.call (.appendEvent identity event) proc.log := hkeeps.performs hrest
  have hunmoved : unmoved (s.logOf i) s.world = true := hacts
  rw [logOf_eq hproc] at hunmoved
  have hsame := List.all_eq_true.mp hunmoved _ hread
  obtain ⟨hact, hcomp⟩ := Bool.and_eq_true_iff.mp hsame
  exact ⟨proc.call, locator, session, hlocator, hev, of_decide_eq_true hact, of_decide_eq_true hcomp⟩

/-- **The journal of a serial run loses no transaction.** -/
theorem journaled {s : JournalPool} (hreach : Reaches (serial identityHash memoryIndex) idle s) :
    Journaled identityHash s.world := by
  apply journaled_of_indexed
  induction hreach with
  | refl =>
    intro key record hrecord
    simp [idle] at hrecord
  | tail hreach hstep ih =>
    cases hstep with
    | start _ => exact ih
    | stop _ => exact ih
    | move h => exact h.elim
    | @act i proc op rest r w hproc hlive hrest hacts hr =>
      cases op with
      | getForIdentity identity =>
        obtain ⟨rfl, -⟩ := hr
        exact ih
      | indexSummary identity record =>
        obtain rfl := hr
        exact ih
      | appendEvent identity event =>
        rcases hr with ⟨-, rfl⟩ | ⟨-, rfl⟩
        · exact ih
        · obtain ⟨record, locator, session, hlocator, rfl, hactive, hcompleted⟩ :=
            appends_fresh hreach hproc hrest hacts
          exact Agrees.apply ih hlocator hactive hcompleted

/-! ## Two sessions -/

section Sessions

instance : ∀ s record, Decidable ((serial identityHash memoryIndex).starts s record) :=
  fun _ _ => inferInstanceAs (Decidable True)

instance : ∀ s i op, Decidable ((serial identityHash memoryIndex).acts s i op) :=
  fun s i op => inferInstanceAs (Decidable (appendsUnmoved s i op = true))

instance : ∀ s record, Decidable ((journalSystem identityHash memoryIndex).starts s record) :=
  fun _ _ => inferInstanceAs (Decidable True)

instance : ∀ s i op, Decidable ((journalSystem identityHash memoryIndex).acts s i op) :=
  fun _ _ _ => inferInstanceAs (Decidable True)

/-- The accesses of a service that never fails. -/
def answer : (op : JournalOp) → JournalState → op.Ret × JournalState
  | .getForIdentity _, state => (.ok state, state)
  | .appendEvent _ event, state => (.ok (), state.apply event)
  | .indexSummary .., state => (.ok (), state)

theorem answers_answer (op : JournalOp) (state : JournalState) :
    JournalState.laws.answers op state (answer op state).1 (answer op state).2 := by
  cases op with
  | getForIdentity identity => exact ⟨rfl, .inr rfl⟩
  | appendEvent identity event => exact .inr ⟨rfl, rfl⟩
  | indexSummary identity record => rfl

def shopSession (sessionId : String) : AdkIdentity := { appName := "shop", userId := "alice", sessionId }

/-- The hashes of the two sessions. -/
def shopHash (identity : AdkIdentity) : String :=
  if identity = shopSession "s-1" then "be577b2334c254b6e2241e80" else "1b2ab1bb459c04be22a38dd7"

def draft (transactionId sessionId : String) : TransactionRecord :=
  { TransactionRecord.new transactionId { actorId := "shopper", role := .agentSurface }
      { merchantId := "merchant-1", legalName := "Merchant" } .humanPresent
      { cartId := none, lines := [], subtotal := none, adjustments := [],
        total := { currency := "USD", amountMinor := 1500, scale := 2 } } 0 with
    sessionIdentity := some (shopSession sessionId) }

/-- Two upserts, one after the other. -/
def serialRun : JournalPool :=
  [.start (draft "tx-1" "s-1"), .start (draft "tx-2" "s-2"), .act 0, .act 0, .act 1,
    .act 1].foldl (ProcPool.next (serial shopHash false) answer) idle

theorem journaled_serial : Journaled shopHash serialRun.world ∧
    serialRun.world.active.map (·.transactionId) = ["tx-1", "tx-2"] :=
  ⟨journaled (reaches_foldl answers_answer _ _), by decide +kernel⟩

/-- Two upserts that read before either of them appends. -/
def staleRun : JournalPool :=
  [.start (draft "tx-1" "s-1"), .start (draft "tx-2" "s-2"), .act 0, .act 1, .act 0,
    .act 1].foldl (ProcPool.next (journalSystem shopHash false) answer) idle

/-- The second append writes over the index entry of the first one. -/
theorem unjournaled : ¬ ∀ (identityHash : AdkIdentity → String) (memoryIndex : Bool) (s : JournalPool),
    Reaches (journalSystem identityHash memoryIndex) idle s → (∀ proc ∈ s.procs, proc.returned.isSome = true) →
    Journaled identityHash s.world := by
  intro h
  have hdone : ∀ proc ∈ staleRun.procs, proc.returned.isSome = true := by
    have hall : staleRun.procs.all (·.returned.isSome) = true := by decide +kernel
    exact fun proc hproc => List.all_eq_true.mp hall proc hproc
  have hjournaled := h shopHash false staleRun (reaches_foldl answers_answer _ _) hdone
  have hrecord : staleRun.world.records[transactionStateKey shopHash ⟨shopSession "s-1", "tx-1"⟩]? =
      some (draft "tx-1" "s-1") := by
    decide +kernel
  obtain ⟨locator, hindexed⟩ := hjournaled.indexed _ _ hrecord
  obtain rfl : locator = ⟨shopSession "s-1", "tx-1"⟩ := (Option.some.inj hindexed.located).symm
  have hlost : (⟨shopSession "s-1", "tx-1"⟩ : TransactionLocator) ∉ staleRun.world.active := by decide +kernel
  exact hlost (hindexed.active.mpr rfl)

end Sessions

end JournalRun

end Adk
