import AdkRust.Lib.Dict

/-!
# Team invocations

The registry of the invocations of a team (`team/runtime.rs`): a receipt, a budget tracker and a count of live streams
for each invocation, each behind a lock of its own, and a queue of finished invocations whose receipts are evicted.

* `TeamExecutionSnapshot`: a receipt, and what a call does to it while it holds its lock.
* `Stand`: which lock a stream takes next. The calls of a stream come one after another.
* `TeamWorld.step`: one lock that one stream takes.
-/

namespace Adk

namespace Team

/-! ## Receipts -/

inductive RelationshipKind where
  | delegate
  | handoff
deriving DecidableEq

inductive TeamExecutionStatus where
  | running
  | completed
  | terminated
  | failed
  | budgetExceeded
deriving DecidableEq

/-- The limits of a team that its tracker does not own. -/
structure TeamBudget where
  maxEvents : Option Nat := none
  maxDelegations : Option Nat := none
  maxHandoffs : Option Nat := none
deriving DecidableEq

/-- Aggregate resource usage recorded for a team invocation. -/
structure TeamExecutionUsage where
  events : Nat := 0
  modelRequests : Nat := 0
  toolCalls : Nat := 0
  tokens : Nat := 0
  costMicrousd : Nat := 0
  delegations : Nat := 0
  handoffs : Nat := 0
deriving DecidableEq

/-- One causal relationship execution in a team invocation. -/
structure TeamEdgeExecution where
  id : String
  parentId : Option String
  from_ : String
  to_ : String
  kind : RelationshipKind
  attempt : Nat
  status : TeamExecutionStatus
  error : Option String
deriving DecidableEq

/-- Execution receipt for one root team invocation. -/
structure TeamExecutionSnapshot where
  status : TeamExecutionStatus := .running
  usage : TeamExecutionUsage := {}
  edges : List TeamEdgeExecution := []
  reason : Option String := none
deriving DecidableEq

/-- What a tracker has counted. -/
structure BudgetUsage where
  modelCalls : Nat := 0
  totalTokens : Nat := 0
  costMicroUsd : Nat := 0
  toolCalls : Nat := 0
deriving DecidableEq

structure TeamEdgeStart where
  executionId : String
  parentId : Option String := none
  from_ : String
  to_ : String
  kind : RelationshipKind
  attempt : Nat := 1
deriving DecidableEq

/-- What `recordEvent` reads of an event. -/
structure TeamEvent where
  /-- The event carries the mark of this invocation. -/
  alreadyRecorded : Bool := false
  /-- A streaming chunk repeats its usage. -/
  chunk : Bool := false
  edgeId : Option String := none
  /-- Why the event terminates the team, if it does. -/
  termination : Option String := none
  isFinalResponse : Bool := false
deriving DecidableEq

inductive EventDisposition where
  | continue
  | terminate
deriving DecidableEq

namespace TeamBudget

/-- The limits the budget tracker does not own: events, delegations and handoffs. -/
def budgetViolation (budget : TeamBudget) (usage : TeamExecutionUsage) : Option String :=
  ([("events", usage.events, budget.maxEvents), ("delegations", usage.delegations, budget.maxDelegations),
    ("handoffs", usage.handoffs, budget.maxHandoffs)].find? fun limit => limit.2.2.any (· < limit.2.1)).map fun limit =>
      s!"team budget exceeded for {limit.1}: used {limit.2.1}, maximum {limit.2.2.getD 0}"

/-- How many edges of a kind may be started. -/
def maxEdges (budget : TeamBudget) : RelationshipKind → Option Nat
  | .delegate => budget.maxDelegations
  | .handoff => budget.maxHandoffs

end TeamBudget

namespace TeamExecutionUsage

def started (usage : TeamExecutionUsage) : RelationshipKind → Nat
  | .delegate => usage.delegations
  | .handoff => usage.handoffs

/-- One more edge. -/
def count (usage : TeamExecutionUsage) : RelationshipKind → TeamExecutionUsage
  | .delegate => { usage with delegations := usage.delegations + 1 }
  | .handoff => { usage with handoffs := usage.handoffs + 1 }

end TeamExecutionUsage

namespace TeamExecutionSnapshot

variable (budget : TeamBudget) (snapshot : TeamExecutionSnapshot)

def syncUsage (usage : BudgetUsage) : TeamExecutionSnapshot :=
  { snapshot with usage := { snapshot.usage with
      modelRequests := usage.modelCalls
      toolCalls := usage.toolCalls
      tokens := usage.totalTokens
      costMicrousd := usage.costMicroUsd } }

/-- A receipt whose budget is exceeded. -/
def exceed (reason : String) : TeamExecutionSnapshot :=
  { snapshot with status := .budgetExceeded, reason := some reason }

/-- What `check_budget` does to a receipt in sync, and the reason for which it fails. `exceeded` is what the tracker
finds. -/
def check (exceeded : Option String) : Option String × TeamExecutionSnapshot :=
  match exceeded.or (budget.budgetViolation snapshot.usage) with
  | some reason => (some reason, snapshot.exceed reason)
  | none => (none, snapshot)

/-- A receipt with one more edge, which runs. -/
def push (start : TeamEdgeStart) : TeamExecutionSnapshot where
  status := .running
  reason := none
  usage := snapshot.usage.count start.kind
  edges := snapshot.edges ++ [{
    id := start.executionId
    parentId := start.parentId
    from_ := start.from_
    to_ := start.to_
    kind := start.kind
    attempt := start.attempt
    status := .running
    error := none }]

/-- What `start_edge` does to a receipt after its check: the edge is pushed and counted, and then its limit is looked
at. -/
def startEdge (start : TeamEdgeStart) : Option String × TeamExecutionSnapshot :=
  match budget.budgetViolation (snapshot.push start).usage with
  | some reason => (some reason, (snapshot.push start).exceed reason)
  | none => (none, snapshot.push start)

def finishEdges (id : String) (error : Option String) : List TeamEdgeExecution → List TeamEdgeExecution
  | [] => []
  | edge :: edges =>
    if edge.id = id then { edge with status := if error.isSome then .failed else .completed, error } :: edges
    else edge :: finishEdges id error edges

def finishEdge (id : String) (error : Option String) : TeamExecutionSnapshot :=
  { snapshot with edges := finishEdges id error snapshot.edges }

/-- A response that is not that of a delegation. -/
def completes (event : TeamEvent) : Bool :=
  event.isFinalResponse && match event.edgeId with
    | none => true
    | some id =>
      match snapshot.edges.find? fun edge => edge.id = id with
      | none => true
      | some edge => edge.kind != .delegate

/-- Partial streaming chunks are never counted. -/
def countEvent (event : TeamEvent) : TeamExecutionSnapshot :=
  if event.alreadyRecorded || event.chunk then snapshot
  else { snapshot with usage := { snapshot.usage with events := snapshot.usage.events + 1 } }

/-- What `record_event` does to a receipt in sync that has counted the event. `exceeded` is what the tracker finds. -/
def recordEvent (event : TeamEvent) (exceeded : Option String) : Except String EventDisposition × TeamExecutionSnapshot :=
  match exceeded.or (budget.budgetViolation snapshot.usage) with
  | some reason => (.error reason, snapshot.exceed reason)
  | none =>
    match event.termination with
    | some reason => (.ok .terminate, { snapshot with status := .terminated, reason := some reason })
    | none => (.ok .continue, if snapshot.completes event then { snapshot with status := .completed } else snapshot)

def hasRunningEdges : Bool := snapshot.edges.any fun edge => edge.status = .running

/-- The handoff to resume. A delegation that runs cannot be replayed. -/
def resumeHandoffTarget : Except String (Option String) :=
  match snapshot.edges.reverse.find? fun edge => edge.status = .running with
  | none => .ok none
  | some active =>
    match active.kind with
    | .handoff => .ok (some active.to_)
    | .delegate => .error
        s!"cannot replay unresolved delegation '{active.id}' from '{active.from_}' to '{active.to_}'; inspect CompiledTeam::resume_plan and use a checkpoint-aware durable host"

end TeamExecutionSnapshot

/-! ## The registry -/

/-- Runtime state of one root team invocation. -/
structure TeamInvocation where
  invocationId : String
  snapshot : TeamExecutionSnapshot := {}
  /-- Shared counters for the team budget. -/
  tracker : Option Nat := none
  /-- Team streams of this invocation currently alive. -/
  activeStreams : Nat := 0

def TeamInvocation.isIdle (ledger : TeamInvocation) : Bool :=
  ledger.activeStreams = 0 && !ledger.snapshot.hasRunningEdges

/-- What a stream may call while it has its tracker. -/
inductive TeamCall where
  | checkBudget
  | startEdge (start : TeamEdgeStart)
  | finishEdge (id : String) (error : Option String)
  | recordEvent (event : TeamEvent)
  | snapshot

/-- What is done with the ledger that is looked up. -/
inductive LedgerCall where
  | budgetTracker
  | enter (tracker : Nat)
  | use (tracker : Nat) (entered : Bool) (call : TeamCall)
  /-- The rest of `start_edge`, after its check. -/
  | push (tracker : Nat) (entered : Bool) (start : TeamEdgeStart)

/-- Which lock a stream takes next, with the tracker that it was given. -/
inductive Stand where
  /-- The map of the registry, to read it. -/
  | lookup (call : LedgerCall)
  /-- The map, to write it: the ledger was not there. -/
  | insert (call : LedgerCall)
  | found (call : LedgerCall) (ledger : Nat)
  /-- The lock of the receipt, with the tracker that is checked. -/
  | tracked (tracker : Nat) (entered : Bool) (call : TeamCall) (ledger : Nat) (checks : Option Nat)
  /-- None: the stream is between two calls. -/
  | resting (tracker : Nat) (entered : Bool)
  | leaving (tracker : Nat)
  /-- The count of live streams. -/
  | exiting (tracker : Nat) (ledger : Nat)
  /-- The tracker, to read it. -/
  | reading (ledger : Nat)
  | syncing (ledger : Nat) (tracker : Option Nat)
  /-- The tracker, to take it away. -/
  | taking (ledger : Nat)
  /-- The queue of finished invocations. -/
  | retiring
  /-- The map, to write it, with the queue locked. -/
  | evicting
  | finished

structure TeamStream where
  invocation : String
  stand : Stand

/-- A call of `start_edge` that returned the id of its edge. -/
structure Grant where
  invocation : String
  edgeId : String
  kind : RelationshipKind
deriving DecidableEq

/-- The registry, the trackers, the streams, and what was seen of them. -/
structure TeamWorld where
  /-- The ledgers by their invocations. -/
  invocations : Dict Nat := ∅
  /-- All ledgers that were made. -/
  ledgers : List TeamInvocation := []
  finished : List String := []
  /-- Whether a stream holds the queue. -/
  queueLocked : Bool := false
  trackers : List BudgetUsage := []
  streams : List TeamStream := []
  granted : List Grant := []
  /-- The edges that were finished. -/
  ended : List (String × String) := []
  /-- The receipts that were evicted. -/
  evicted : List (String × Nat) := []

/-- What may happen: a stream starts, calls or leaves, takes its next lock, or a tracker counts. -/
inductive TeamMove where
  | start (invocation : String)
  | call (i : Nat) (call : TeamCall)
  | enter (i : Nat)
  /-- The stream was not begun. -/
  | abandon (i : Nat)
  | leave (i : Nat)
  /-- `exceeded` is what the tracker finds of its own limits and of those of the run, where it is asked. -/
  | lock (i : Nat) (exceeded : Option String)
  | meter (tracker : Nat) (usage : BudgetUsage)

/-- Finished invocations whose receipts stay readable. -/
def retainedFinishedInvocations : Nat := 64

namespace TeamWorld

variable (budget : TeamBudget) (w : TeamWorld) (i : Nat) (s : TeamStream)

/-- A stream takes its stand before another lock. -/
def stands (stand : Stand) : TeamWorld := { w with streams := w.streams.set i { s with stand } }

/-- A new ledger for an invocation. -/
def make (invocation : String) : TeamWorld :=
  { w with
    invocations := w.invocations.insert invocation w.ledgers.length
    ledgers := w.ledgers ++ [{ invocationId := invocation }] }

def put (ledger : Nat) (l : TeamInvocation) : TeamWorld := { w with ledgers := w.ledgers.set ledger l }

def usageOf (tracker : Option Nat) : Option BudgetUsage := tracker.bind fun t => w.trackers[t]?

def synced (l : TeamInvocation) (tracker : Option Nat) : TeamExecutionSnapshot :=
  match w.usageOf tracker with
  | some usage => l.snapshot.syncUsage usage
  | none => l.snapshot

/-- The tracker of a ledger, made on first use: it continues from the usage of the receipt. -/
def trackerFor (ledger : Nat) (l : TeamInvocation) : Nat × TeamWorld :=
  match l.tracker with
  | some tracker => (tracker, w)
  | none => (w.trackers.length, { w.put ledger { l with tracker := some w.trackers.length } with
      trackers := w.trackers ++ [{
        modelCalls := l.snapshot.usage.modelRequests
        totalTokens := l.snapshot.usage.tokens
        costMicroUsd := l.snapshot.usage.costMicrousd
        toolCalls := l.snapshot.usage.toolCalls }] })

/-- The rest of `start_edge`. -/
def pushEdge (ledger : Nat) (l : TeamInvocation) (start : TeamEdgeStart) : TeamWorld :=
  let (refused, snapshot) := l.snapshot.startEdge budget start
  { w.put ledger { l with snapshot } with
    granted := if refused.isSome then w.granted
      else w.granted ++ [⟨s.invocation, start.executionId, start.kind⟩] }

def finishEdge (ledger : Nat) (l : TeamInvocation) (id : String) (error : Option String) : TeamWorld :=
  { w.put ledger { l with snapshot := l.snapshot.finishEdge id error } with
    ended := if l.snapshot.edges.any fun edge => edge.id = id then w.ended ++ [(s.invocation, id)] else w.ended }

/-- What a stream does with its ledger, under the lock that its call takes first. -/
def withLedger (ledger : Nat) (l : TeamInvocation) : LedgerCall → TeamWorld
  | .budgetTracker =>
    let (tracker, w') := w.trackerFor ledger l
    w'.stands i s (.resting tracker false)
  | .enter tracker =>
    (w.put ledger { l with activeStreams := l.activeStreams + 1 }).stands i s (.resting tracker true)
  | .push tracker entered start => (w.pushEdge budget s ledger l start).stands i s (.resting tracker entered)
  | .use tracker entered (.finishEdge id error) =>
    (w.finishEdge s ledger l id error).stands i s (.resting tracker entered)
  | .use tracker entered .snapshot => w.stands i s (.tracked tracker entered .snapshot ledger l.tracker)
  | .use tracker entered call =>
    let (checks, w') := w.trackerFor ledger l
    w'.stands i s (.tracked tracker entered call ledger (some checks))

def withReceipt (tracker : Nat) (entered : Bool) (ledger : Nat) (l : TeamInvocation) (exceeded : Option String)
    (snapshot : TeamExecutionSnapshot) : TeamCall → TeamWorld
  | .checkBudget =>
    (w.put ledger { l with snapshot := (snapshot.check budget exceeded).2 }).stands i s (.resting tracker entered)
  | .startEdge start =>
    match snapshot.check budget exceeded with
    | (none, snapshot) => (w.put ledger { l with snapshot }).stands i s (.lookup (.push tracker entered start))
    | (some _, snapshot) => (w.put ledger { l with snapshot }).stands i s (.resting tracker entered)
  | .recordEvent event =>
    (w.put ledger { l with snapshot := ((snapshot.countEvent event).recordEvent budget event exceeded).2 }).stands i s
      (.resting tracker entered)
  | .finishEdge _ _ | .snapshot => (w.put ledger { l with snapshot }).stands i s (.resting tracker entered)

/-- An invocation is put in the queue, which stays locked. -/
def retire (invocation : String) : TeamWorld :=
  { w with
    queueLocked := true
    finished := if invocation ∈ w.finished then w.finished else w.finished ++ [invocation] }

def unlockQueue : TeamWorld := { w with queueLocked := false }

def idleLedger (id : String) : Option Nat :=
  w.invocations[id]?.filter fun ledger => w.ledgers[ledger]?.any (·.isIdle)

/-- The oldest finished invocation leaves the queue, and the map if it is idle. -/
def evict (id : String) (rest : List String) : TeamWorld :=
  match w.idleLedger id with
  | some ledger =>
    { w with finished := rest, invocations := w.invocations.erase id, evicted := w.evicted ++ [(id, ledger)] }
  | none => { w with finished := rest }

/-- A stream takes its next lock. -/
def advance (exceeded : Option String) : Option TeamWorld :=
  match s.stand with
  | .lookup call =>
    match w.invocations[s.invocation]? with
    | some ledger => some (w.stands i s (.found call ledger))
    | none =>
      match call with
      | .use tracker entered .snapshot => some (w.stands i s (.resting tracker entered))
      | call => some (w.stands i s (.insert call))
  | .insert call =>
    match w.invocations[s.invocation]? with
    | some ledger => some (w.stands i s (.found call ledger))
    | none => some ((w.make s.invocation).stands i s (.found call w.ledgers.length))
  | .found call ledger => w.ledgers[ledger]?.map fun l => w.withLedger budget i s ledger l call
  | .tracked tracker entered call ledger checks => w.ledgers[ledger]?.map fun l =>
      w.withReceipt budget i s tracker entered ledger l exceeded (w.synced l checks) call
  | .leaving tracker =>
    match w.invocations[s.invocation]? with
    | some ledger => some (w.stands i s (.exiting tracker ledger))
    | none => some (w.stands i s .finished)
  | .exiting _ ledger => w.ledgers[ledger]?.map fun l =>
      (w.put ledger { l with activeStreams := l.activeStreams - 1 }).stands i s
        (if 0 < l.activeStreams - 1 || l.snapshot.hasRunningEdges then .finished else .reading ledger)
  | .reading ledger => w.ledgers[ledger]?.map fun l => w.stands i s (.syncing ledger l.tracker)
  | .syncing ledger tracker => w.ledgers[ledger]?.map fun l =>
      (w.put ledger { l with snapshot := w.synced l tracker }).stands i s (.taking ledger)
  | .taking ledger => w.ledgers[ledger]?.map fun l => (w.put ledger { l with tracker := none }).stands i s .retiring
  | .retiring =>
    if w.queueLocked then none
    else some ((w.retire s.invocation).stands i s .evicting)
  | .evicting =>
    match w.finished with
    | id :: rest =>
      if retainedFinishedInvocations < w.finished.length then some (w.evict id rest)
      else some (w.unlockQueue.stands i s .finished)
    | [] => some (w.unlockQueue.stands i s .finished)
  | .resting _ _ | .finished => none

def step : TeamMove → Option TeamWorld
  | .start invocation => some { w with streams := w.streams ++ [⟨invocation, .lookup .budgetTracker⟩] }
  | .call i call =>
    match w.streams[i]? with
    | some ⟨invocation, .resting tracker entered⟩ =>
      some (w.stands i ⟨invocation, .resting tracker entered⟩ (.lookup (.use tracker entered call)))
    | _ => none
  | .enter i =>
    match w.streams[i]? with
    | some ⟨invocation, .resting tracker false⟩ =>
      some (w.stands i ⟨invocation, .resting tracker false⟩ (.lookup (.enter tracker)))
    | _ => none
  | .abandon i =>
    match w.streams[i]? with
    | some ⟨invocation, .resting tracker false⟩ => some (w.stands i ⟨invocation, .resting tracker false⟩ .finished)
    | _ => none
  | .leave i =>
    match w.streams[i]? with
    | some ⟨invocation, .resting tracker true⟩ =>
      some (w.stands i ⟨invocation, .resting tracker true⟩ (.leaving tracker))
    | _ => none
  | .lock i exceeded => w.streams[i]?.bind fun s => w.advance budget i s exceeded
  | .meter tracker usage => some { w with trackers := w.trackers.set tracker usage }

end TeamWorld

end Team

end Adk
