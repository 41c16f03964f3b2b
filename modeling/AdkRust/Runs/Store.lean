import AdkRust.Core.Principal
import AdkRust.Lease.Store
import AdkRust.Lib.Total

/-!
# The run store

The in-memory store of durable runs (`run_store.rs`). A call reads the clock and then works on the table
under its lock, so a call is a function of its reading and the table. The random identifier of a new run is
handed to `enqueue`. The epoch and the revision of a run count calls one by one, so they are natural numbers.

* `RunRecord.claimed`, `RunRecord.parked`, …: what a call does to one run.
* `RunTable.fenced`: the check that the writes of a worker pass.
* `RunTable.enqueue`, `claim`, `heartbeat`, `setCheckpoint`, `wait`, `wake`, `finish`, `requestCancel`,
  `prune`: the calls.
-/

namespace Adk

inductive RunState where
  | queued
  | running
  | waiting
  | completed
  | failed
  | cancelled
deriving DecidableEq

/-- Whether the run has finished and never changes state again. -/
def RunState.isTerminal : RunState → Bool
  | .completed | .failed | .cancelled => true
  | .queued | .running | .waiting => false

inductive RunCheckpointRef where
  | session (sessionId : String) (invocationId : Option String)
  | awaitingApproval (sessionId : String) (invocationId : Option String) (fingerprints : List String)
      (expiresAt : Option Utc)
  | graph (threadId : String) (checkpointId : Option String)

/-- What `enqueue` does when an unfinished run holds the same concurrency key. -/
inductive OnConflict where
  | reject
  | enqueue
  | interrupt
deriving DecidableEq

structure NewRun where
  queue : String
  appName : String
  userId : String
  sessionId : Option String := none
  target : String
  input : Value
  idempotencyKey : Option String := none
  concurrencyKey : Option String := none
  onConflict : OnConflict := .enqueue
  notBefore : Option Utc := none
  maxAttempts : Nat := 3
  principal : Option ActingContext := none

def invalidRunError (reason : String) : AdkError where
  component := .agent
  category := .invalidInput
  code := "run_store.invalid_run"
  message := s!"cannot enqueue run: {reason}"

/-- Checks the fields every store requires. -/
def NewRun.validate (run : NewRun) : Except AdkError Unit :=
  let empty := [
    ("queue", run.queue.isEmpty),
    ("appName", run.appName.isEmpty),
    ("userId", run.userId.isEmpty),
    ("target", run.target.isEmpty),
    ("idempotencyKey", run.idempotencyKey = some ""),
    ("concurrencyKey", run.concurrencyKey = some "")]
  match empty.find? fun field => field.2 with
  | some (field, _) => .error (invalidRunError s!"{field} must not be empty")
  | none => if run.maxAttempts = 0 then .error (invalidRunError "maxAttempts must be at least 1") else .ok ()

/-- A run as the store holds it. -/
structure RunRecord where
  runId : String
  queue : String
  appName : String
  userId : String
  sessionId : Option String
  target : String
  input : Value
  idempotencyKey : Option String
  concurrencyKey : Option String
  onConflict : OnConflict
  /-- Not claimed before this time; while waiting, the time the wait ends. -/
  notBefore : Option Utc
  maxAttempts : Nat
  principal : Option ActingContext
  state : RunState := .queued
  /-- Attempts started so far, counting recoveries. -/
  attempt : Nat := 0
  leaseOwner : Option String := none
  /-- The fencing epoch of the latest claim; 0 until first claimed. -/
  leaseEpoch : Nat := 0
  leaseExpiresAt : Option Utc := none
  heartbeatAt : Option Utc := none
  checkpoint : Option RunCheckpointRef := none
  cancelRequested : Bool := false
  /-- Whether a wake arrived while the run was running. -/
  wakePending : Bool := false
  result : Option Value := none
  error : Option String := none
  createdAt : Utc
  updatedAt : Utc
  revision : Nat := 1

/-- How a worker ends an attempt. -/
inductive RunOutcome where
  | completed (result : Value)
  | failed (error : String) (retryable : Bool)
  | cancelled

namespace RunRecord

def queued (runId : String) (run : NewRun) (now : Utc) : RunRecord where
  runId := runId
  queue := run.queue
  appName := run.appName
  userId := run.userId
  sessionId := run.sessionId
  target := run.target
  input := run.input
  idempotencyKey := run.idempotencyKey
  concurrencyKey := run.concurrencyKey
  onConflict := run.onConflict
  notBefore := run.notBefore
  maxAttempts := run.maxAttempts
  principal := run.principal
  createdAt := now
  updatedAt := now

/-- Marks a change. -/
def touch (record : RunRecord) (now : Utc) : RunRecord :=
  { record with updatedAt := now, revision := record.revision + 1 }

/-- Gives the lease up. -/
def releaseLease (record : RunRecord) : RunRecord :=
  { record with leaseOwner := none, leaseExpiresAt := none }

def claimed (record : RunRecord) (worker : String) (expiresAt now : Utc) (started : Nat) : RunRecord :=
  touch { record with
    state := .running
    attempt := record.attempt + started
    leaseEpoch := record.leaseEpoch + 1
    leaseOwner := some worker
    leaseExpiresAt := some expiresAt
    heartbeatAt := some now
    notBefore := none } now

/-- A run whose last attempt lost its lease. -/
def exhausted (record : RunRecord) (now : Utc) : RunRecord :=
  touch (releaseLease { record with
    state := .failed
    error := some (s!"attempts exhausted: the lease of attempt {record.attempt} of " ++
      s!"{record.maxAttempts} expired") }) now

/-- A run whose worker reported that it is alive. -/
def beaten (record : RunRecord) (expiresAt now : Utc) : RunRecord :=
  touch { record with leaseExpiresAt := some expiresAt, heartbeatAt := some now } now

def checkpointed (record : RunRecord) (checkpoint : RunCheckpointRef) (now : Utc) : RunRecord :=
  touch { record with checkpoint := some checkpoint } now

def parked (record : RunRecord) (wakeAt : Option Utc) (now : Utc) : RunRecord :=
  touch (releaseLease { record with
    state := .waiting
    notBefore := if record.wakePending then some now else wakeAt
    wakePending := false }) now

/-- A run that ended an attempt. -/
def finished (record : RunRecord) (outcome : RunOutcome) (now : Utc) : RunRecord :=
  let ended := match outcome with
    | .completed result => { record with state := .completed, result := some result }
    | .failed error retryable =>
      let retry := retryable && decide (record.attempt < record.maxAttempts) && !record.cancelRequested
      { record with state := if retry then .queued else .failed, error := some error }
    | .cancelled => { record with state := .cancelled }
  touch (releaseLease { ended with wakePending := false }) now

/-- A run that is not to go on: a running one is told, another is cancelled. -/
def interrupted (record : RunRecord) (now : Utc) : RunRecord :=
  if record.state = .running then touch { record with cancelRequested := true } now
  else touch (releaseLease { record with state := .cancelled }) now

/-- A run that is not to wait: a waiting one is due, and another will not wait. -/
def woken (record : RunRecord) (now : Utc) : RunRecord :=
  if record.state = .waiting then touch { record with notBefore := some now } now
  else touch { record with wakePending := true } now

end RunRecord

/-- The result of enqueueing a run. -/
inductive Enqueued where
  | created (record : RunRecord)
  | existing (record : RunRecord)
  | rejected (blockingRunId : String)

/-- A run a worker claimed, with the epoch its writes must carry. -/
structure ClaimedRun where
  record : RunRecord
  epoch : Nat

/-- The error a run store returns when a worker write carries a stale epoch. -/
def runStaleEpochError (runId : String) (epoch : Nat) : AdkError where
  component := .agent
  category := .conflict
  code := "run_store.stale_epoch"
  message := s!"run '{runId}' is no longer held at epoch {epoch}; another worker recovered it or it " ++
    "finished, so stop work on it without writing results"

def runNotFoundError (runId : String) : AdkError where
  component := .agent
  category := .notFound
  code := "run_store.not_found"
  message := s!"run store has no run '{runId}'; it was never enqueued or was pruned"

/-- The code of the error for a time to live of zero. -/
def runInvalidTtlCode : String := "run_store.invalid_ttl"

/-- When a run was enqueued: by the clock, and by the count of enqueued runs. -/
abbrev RunOrder : Type := Utc × Nat

def RunOrder.before (a b : RunOrder) : Prop := a.1 < b.1 ∨ a.1 = b.1 ∧ a.2 < b.2

instance (a b : RunOrder) : Decidable (RunOrder.before a b) := inferInstanceAs (Decidable (_ ∨ _))

structure RunEntry where
  record : RunRecord
  seq : Nat

/-- The place of a run among the others. -/
def RunEntry.order (entry : RunEntry) : RunOrder := (entry.record.createdAt, entry.seq)

structure RunTable where
  runs : Dict RunEntry := ∅
  byIdempotencyKey : String → String → Option String := fun _ _ => none
  nextSeq : Nat := 0

namespace RunTable

def set (table : RunTable) (runId : String) (entry : RunEntry) (record : RunRecord) : RunTable :=
  { table with runs := table.runs.insert runId { entry with record } }

def holds (queue key : String) (entry : RunEntry) : Bool :=
  entry.record.queue = queue && entry.record.concurrencyKey = some key && !entry.record.state.isTerminal

def holders (table : RunTable) (queue key : String) : List (String × RunOrder) :=
  ((table.runs.vals.filter (holds queue key)).map fun entry =>
    (entry.record.runId, entry.order)).insertionSort fun a b => ¬ RunOrder.before b.2 a.2

/-- The run that a worker's write is for, when the worker still holds it. -/
def fenced (table : RunTable) (runId : String) (epoch : Nat) : Except AdkError RunEntry :=
  match table.runs[runId]? with
  | none => .error (runNotFoundError runId)
  | some entry =>
    if entry.record.state ≠ .running ∨ entry.record.leaseEpoch ≠ epoch then
      .error (runStaleEpochError runId epoch)
    else .ok entry

/-! ## Enqueueing -/

def existing (table : RunTable) (run : NewRun) : Option RunEntry := do
  let key ← run.idempotencyKey
  let runId ← table.byIdempotencyKey run.queue key
  table.runs[runId]?

/-- Stops a holder of the concurrency key of a new run. -/
def interrupt (now : Utc) (table : RunTable) (holder : String × RunOrder) : RunTable :=
  match table.runs[holder.1]? with
  | none => table
  | some entry => table.set holder.1 entry (entry.record.interrupted now)

/-- What a new run does to the holders of its concurrency key, or the run that blocks it. -/
def conflict (table : RunTable) (now : Utc) (run : NewRun) : Except String RunTable :=
  match run.concurrencyKey with
  | none => .ok table
  | some key =>
    match run.onConflict with
    | .reject =>
      match (table.holders run.queue key).head? with
      | some (blockingRunId, _) => .error blockingRunId
      | none => .ok table
    | .interrupt => .ok ((table.holders run.queue key).foldl (interrupt now) table)
    | .enqueue => .ok table

def insert (table : RunTable) (now : Utc) (runId : String) (run : NewRun) : RunTable where
  runs := table.runs.insert runId { record := .queued runId run now, seq := table.nextSeq }
  byIdempotencyKey :=
    match run.idempotencyKey with
    | none => table.byIdempotencyKey
    | some key => fun q k => if q = run.queue ∧ k = key then some runId else table.byIdempotencyKey q k
  nextSeq := table.nextSeq + 1

/-- Adds a run, unless its idempotency key has one or its concurrency key is held. -/
def enqueue (table : RunTable) (now : Utc) (runId : String) (run : NewRun) :
    Except AdkError Enqueued × RunTable :=
  match run.validate with
  | .error error => (.error error, table)
  | .ok () =>
    match table.existing run with
    | some entry => (.ok (.existing entry.record), table)
    | none =>
      match table.conflict now run with
      | .error blockingRunId => (.ok (.rejected blockingRunId), table)
      | .ok table => (.ok (.created (.queued runId run now)), table.insert now runId run)

/-! ## Claiming -/

/-- The unfinished runs of a queue, oldest first. -/
def candidates (table : RunTable) (queue : String) : List (RunOrder × String) :=
  ((table.runs.vals.filter fun entry =>
    entry.record.queue = queue && !entry.record.state.isTerminal).map fun entry =>
      (entry.order, entry.record.runId)).insertionSort fun a b =>
        RunOrder.before a.1 b.1 ∨ a.1 = b.1 ∧ a.2 ≤ b.2

/-- Whether another run holds the concurrency key of a queued run and was enqueued before it. -/
def blocked (table : RunTable) (queue : String) (entry : RunEntry) : Bool :=
  entry.record.concurrencyKey.any fun key =>
    (table.holders queue key).head?.any fun first => RunOrder.before first.2 entry.order

/-- The attempts that claiming a run starts; `none` when the run is not to be claimed. -/
def started (table : RunTable) (now : Utc) (queue : String) (entry : RunEntry) : Option Nat :=
  match entry.record.state with
  | .queued =>
    if (entry.record.notBefore.any fun at_ => now < at_) || table.blocked queue entry then none else some 1
  | .waiting => if entry.record.notBefore.all fun at_ => now < at_ then none else some 0
  | .running => if entry.record.leaseExpiresAt.any fun at_ => now < at_ then none else some 1
  | .completed | .failed | .cancelled => none

def claimFrom (now : Utc) (queue worker : String) (expiresAt : Utc) :
    List (RunOrder × String) → RunTable → Option ClaimedRun × RunTable
  | [], table => (none, table)
  | (_, runId) :: rest, table =>
    match table.runs[runId]? with
    | none => claimFrom now queue worker expiresAt rest table
    | some entry =>
      match table.started now queue entry with
      | none => claimFrom now queue worker expiresAt rest table
      | some started =>
        if entry.record.state = .running ∧ entry.record.maxAttempts ≤ entry.record.attempt then
          claimFrom now queue worker expiresAt rest (table.set runId entry (entry.record.exhausted now))
        else
          let record := entry.record.claimed worker expiresAt now started
          (some { record, epoch := record.leaseEpoch }, table.set runId entry record)

def claim (table : RunTable) (now : Utc) (queue worker : String) (ttl : Duration) :
    Except AdkError (Option ClaimedRun) × RunTable :=
  match deadline now ttl runInvalidTtlCode with
  | .error error => (.error error, table)
  | .ok expiresAt =>
    let (claimed, table) := claimFrom now queue worker expiresAt (table.candidates queue) table
    (.ok claimed, table)

/-! ## The writes of a worker -/

def write {α : Type} (table : RunTable) (runId : String) (epoch : Nat) (f : RunRecord → RunRecord)
    (answer : RunRecord → α) : Except AdkError α × RunTable :=
  match table.fenced runId epoch with
  | .error error => (.error error, table)
  | .ok entry => (.ok (answer (f entry.record)), table.set runId entry (f entry.record))

/-- Extends the lease and tells whether cancellation was requested. -/
def heartbeat (table : RunTable) (now : Utc) (runId : String) (epoch : Nat) (ttl : Duration) :
    Except AdkError Bool × RunTable :=
  match deadline now ttl runInvalidTtlCode with
  | .error error => (.error error, table)
  | .ok expiresAt => table.write runId epoch (·.beaten expiresAt now) (·.cancelRequested)

def setCheckpoint (table : RunTable) (now : Utc) (runId : String) (epoch : Nat)
    (checkpoint : RunCheckpointRef) : Except AdkError Unit × RunTable :=
  table.write runId epoch (·.checkpointed checkpoint now) fun _ => ()

/-- Releases the lease and parks the run. -/
def wait (table : RunTable) (now : Utc) (runId : String) (epoch : Nat) (wakeAt : Option Utc) :
    Except AdkError Unit × RunTable :=
  table.write runId epoch (·.parked wakeAt now) fun _ => ()

/-- Ends the attempt. -/
def finish (table : RunTable) (now : Utc) (runId : String) (epoch : Nat) (outcome : RunOutcome) :
    Except AdkError RunRecord × RunTable :=
  table.write runId epoch (·.finished outcome now) id

/-! ## The calls of others -/

/-- Makes a waiting run claimable now, and records a pending wake for a running one. -/
def wake (table : RunTable) (now : Utc) (runId : String) : Except AdkError Unit × RunTable :=
  match table.runs[runId]? with
  | none => (.error (runNotFoundError runId), table)
  | some entry =>
    match entry.record.state with
    | .waiting | .running => (.ok (), table.set runId entry (entry.record.woken now))
    | .queued | .completed | .failed | .cancelled => (.ok (), table)

/-- Cancels a queued or waiting run, or flags a running one for its worker to stop. -/
def requestCancel (table : RunTable) (now : Utc) (runId : String) : Except AdkError Unit × RunTable :=
  match table.runs[runId]? with
  | none => (.error (runNotFoundError runId), table)
  | some entry =>
    if entry.record.state.isTerminal then (.ok (), table)
    else (.ok (), table.set runId entry (entry.record.interrupted now))

/-- Deletes a run and frees its idempotency key. -/
def remove (table : RunTable) (runId : String) : RunTable :=
  match table.runs[runId]? with
  | none => table
  | some entry => { table with
      runs := table.runs.erase runId
      byIdempotencyKey :=
        match entry.record.idempotencyKey with
        | none => table.byIdempotencyKey
        | some key => fun q k =>
          if q = entry.record.queue ∧ k = key then none else table.byIdempotencyKey q k }

/-- Deletes finished runs and returns how many were deleted. -/
def prune (table : RunTable) (finishedBefore : Utc) : Nat × RunTable :=
  let pruned := (table.runs.vals.filter fun entry =>
    entry.record.state.isTerminal && decide (entry.record.updatedAt < finishedBefore)).map fun entry =>
      entry.record.runId
  (pruned.length, pruned.foldl remove table)

end RunTable

/-! ## Listing -/

structure RunFilter where
  queue : Option String := none
  /-- Empty for every state. -/
  states : List RunState := []
  appName : Option String := none
  userId : Option String := none
  sessionId : Option String := none
  concurrencyKey : Option String := none
  limit : Option Nat := none

namespace RunFilter

def field (want have_ : Option String) : Bool := want.all fun want => have_ = some want

/-- Whether a run has every field that is set. -/
def isMatch (filter : RunFilter) (record : RunRecord) : Bool :=
  field filter.queue record.queue && (filter.states.isEmpty || decide (record.state ∈ filter.states)) &&
    field filter.appName record.appName && field filter.userId record.userId &&
    field filter.sessionId record.sessionId && field filter.concurrencyKey record.concurrencyKey

end RunFilter

/-- The runs that match, oldest first. -/
def RunTable.list (table : RunTable) (filter : RunFilter) : List RunRecord :=
  let matching := (table.runs.vals.filter fun entry => filter.isMatch entry.record).insertionSort fun a b =>
    ¬ RunOrder.before b.order a.order
  (filter.limit.elim matching matching.take).map (·.record)

/-! ## Calls -/

inductive RunCall where
  | enqueue (runId : String) (run : NewRun)
  | claim (queue worker : String) (ttl : Duration)
  | heartbeat (runId : String) (epoch : Nat) (ttl : Duration)
  | setCheckpoint (runId : String) (epoch : Nat) (checkpoint : RunCheckpointRef)
  | wait (runId : String) (epoch : Nat) (wakeAt : Option Utc)
  | wake (runId : String)
  | finish (runId : String) (epoch : Nat) (outcome : RunOutcome)
  | requestCancel (runId : String)
  | prune (finishedBefore : Utc)

/-- What a call of the store returns. -/
inductive RunAnswer where
  | enqueued (result : Except AdkError Enqueued)
  | claimed (result : Except AdkError (Option ClaimedRun))
  | beaten (result : Except AdkError Bool)
  | done (result : Except AdkError Unit)
  | finished (result : Except AdkError RunRecord)
  | pruned (count : Nat)

/-- A call at a reading of the clock. -/
def RunTable.call (table : RunTable) (now : Utc) : RunCall → RunAnswer × RunTable
  | .enqueue runId run => (table.enqueue now runId run).map .enqueued id
  | .claim queue worker ttl => (table.claim now queue worker ttl).map .claimed id
  | .heartbeat runId epoch ttl => (table.heartbeat now runId epoch ttl).map .beaten id
  | .setCheckpoint runId epoch checkpoint => (table.setCheckpoint now runId epoch checkpoint).map .done id
  | .wait runId epoch wakeAt => (table.wait now runId epoch wakeAt).map .done id
  | .wake runId => (table.wake now runId).map .done id
  | .finish runId epoch outcome => (table.finish now runId epoch outcome).map .finished id
  | .requestCancel runId => (table.requestCancel now runId).map .done id
  | .prune finishedBefore => (table.prune finishedBefore).map .pruned id

end Adk
