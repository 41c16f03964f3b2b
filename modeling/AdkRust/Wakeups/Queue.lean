import AdkRust.Lib.ProcPool
import AdkRust.Lib.Text
import AdkRust.Runs.Wakeups
import AdkRust.Schedules.Spec

/-!
# Queue wake-ups

Messages of a queue become durable runs (`queue_source.rs`). An `InMemoryQueueSource` leases messages, and each is then
acked or redelivered; a `QueueIngress` pulls a batch and enqueues a run for each message.

* `QueueTable.takeVisible`, `ack`, `nack`, `publish`: the source.
* `QueueIngress.pollOnce`: one poll.
* `QueueWorld.laws`: how the sources and the store of runs answer, and what others do.
-/

namespace Adk

/-! ## The source -/

structure QueueMessage where
  /-- The broker's message identifier. -/
  id : String
  /-- The handle that acks or nacks this delivery. -/
  receipt : String
  body : List UInt8
  attributes : Dict String
  deliveryCount : Nat

structure StoredMessage where
  id : String
  body : List UInt8
  attributes : Dict String
  visibleAt : Utc
  receipt : Option String
  deliveryCount : Nat
  seq : Nat

/-- The messages of a source. -/
structure QueueTable where
  messages : List StoredMessage := []
  /-- The identifiers of acked messages, in ack order. -/
  acked : List String := []
  nextSeq : Nat := 0

/-- The error of an ack or nack whose receipt is not leased. -/
def unknownReceiptError (receipt : String) : AdkError where
  component := .server
  category := .conflict
  code := "queue.unknown_receipt"
  message := s!"queue receipt '{receipt}' is not leased; its lease lapsed or it was already acked, " ++
    "so the message is redelivered and handled again"

namespace StoredMessage

def leased (stored : StoredMessage) (receipt : String) (leaseUntil : Utc) : StoredMessage :=
  { stored with receipt := some receipt, visibleAt := leaseUntil, deliveryCount := stored.deliveryCount + 1 }

def delivery (stored : StoredMessage) (receipt : String) : QueueMessage where
  id := stored.id
  receipt
  body := stored.body
  attributes := stored.attributes
  deliveryCount := stored.deliveryCount + 1

end StoredMessage

/-- Leases the first messages that are visible, each under the next receipt. -/
def takeFrom (now leaseUntil : Utc) : Nat → (Nat → String) → List StoredMessage →
    List QueueMessage × List StoredMessage
  | _, _, [] => ([], [])
  | 0, _, stored => ([], stored)
  | maxMessages + 1, receipts, stored :: rest =>
    if stored.visibleAt ≤ now then
      let (batch, rest) := takeFrom now leaseUntil maxMessages (fun i => receipts (i + 1)) rest
      (stored.delivery (receipts 0) :: batch, stored.leased (receipts 0) leaseUntil :: rest)
    else
      let (batch, rest) := takeFrom now leaseUntil (maxMessages + 1) receipts rest
      (batch, stored :: rest)

namespace QueueTable

def publish (table : QueueTable) (now : Utc) (id : String) (body : List UInt8) (attributes : Dict String) :
    QueueTable :=
  { table with
    messages := table.messages ++ [{ id, body, attributes, visibleAt := now, receipt := none, deliveryCount := 0,
                                     seq := table.nextSeq }]
    nextSeq := table.nextSeq + 1 }

/-- Leases messages, oldest first. -/
def takeVisible (table : QueueTable) (now : Utc) (visibilityTimeout : Duration) (maxMessages : Nat)
    (receipts : Nat → String) : List QueueMessage × QueueTable :=
  let stored := table.messages.insertionSort fun a b => a.seq ≤ b.seq
  let (batch, messages) := takeFrom now (now + visibilityTimeout) maxMessages receipts stored
  (batch, { table with messages })

def isLeased (receipt : String) (now : Utc) (stored : StoredMessage) : Bool :=
  decide (stored.receipt = some receipt ∧ now < stored.visibleAt)

/-- The first message that is leased under a receipt, and those before and after it. -/
def splitLeased (receipt : String) (now : Utc) :
    List StoredMessage → Option (List StoredMessage × StoredMessage × List StoredMessage)
  | [] => none
  | stored :: rest =>
    if isLeased receipt now stored then some ([], stored, rest)
    else (splitLeased receipt now rest).map fun (before, leased, after) => (stored :: before, leased, after)

def ack (table : QueueTable) (now : Utc) (receipt : String) : Except AdkError Unit × QueueTable :=
  match splitLeased receipt now table.messages with
  | none => (.error (unknownReceiptError receipt), table)
  | some (before, stored, after) =>
    (.ok (), { table with messages := before ++ after, acked := table.acked ++ [stored.id] })

/-- Returns a message for redelivery. -/
def nack (table : QueueTable) (now : Utc) (receipt : String) (redeliverAfter : Duration) :
    Except AdkError Unit × QueueTable :=
  match splitLeased receipt now table.messages with
  | none => (.error (unknownReceiptError receipt), table)
  | some (before, stored, after) =>
    let stored := { stored with receipt := none, visibleAt := now + redeliverAfter }
    (.ok (), { table with messages := before ++ stored :: after })

end QueueTable

/-! ## The ingress -/

structure MessageRef where
  source : Nat
  id : String
deriving DecidableEq

def queueIdempotencyKey (source messageId : String) : String := s!"queue:{source}:{messageId}"

structure IngressReport where
  pulled : Nat := 0
  /-- Run identifiers created, one per new message. -/
  created : List String := []
  /-- Messages whose run already existed. -/
  existing : Nat := 0
  nacked : Nat := 0
  /-- Why nothing was pulled. -/
  held : Option String := none

/-- The names of the sources, and the queue that the runs of each go to. -/
structure QueueSources where
  name : Nat → String
  queue : Nat → String

def QueueSources.key (sources : QueueSources) (ref : MessageRef) : String :=
  queueIdempotencyKey (sources.name ref.source) ref.id

/-- What enqueues a run for each message of a source. -/
structure QueueIngress (sources : QueueSources) where
  source : Nat
  mapper : QueueMessage → Except AdkError NewRun
  /-- The queue of a run is that of the source. -/
  maps : ∀ message run, mapper message = .ok run → run.queue = sources.queue source
  /-- Whether it asks a governance control. -/
  governed : Bool := false
  batchSize : Nat := 10
  wait : Duration := 1000000000
  retryAfter : Duration := 30000000000
  maxPending : Option Nat := none

/-- What a poll calls. -/
inductive QueueOp where
  | check
  | list (filter : RunFilter)
  | pull (source maxMessages : Nat) (wait : Duration)
  | enqueue (ref : MessageRef) (run : NewRun)
  | ack (source : Nat) (receipt : String)
  | nack (source : Nat) (receipt : String) (redeliverAfter : Duration)

abbrev QueueOp.Ret : QueueOp → Type
  | .check => Except AdkError Unit
  | .list _ => Except AdkError (List RunRecord)
  | .pull .. => Except AdkError (List QueueMessage)
  | .enqueue .. => Except AdkError Enqueued
  | .ack .. => Except AdkError Unit
  | .nack .. => Except AdkError Unit

abbrev PollProg : Type → Type := Prog QueueOp QueueOp.Ret

namespace QueueIngress

variable {sources : QueueSources}

def check (ingress : QueueIngress sources) : PollProg (Except AdkError Unit) :=
  if ingress.governed then .ask .check .pure else .pure (.ok ())

def keyPrefix (ingress : QueueIngress sources) : String := s!"queue:{sources.name ingress.source}:"

def ownKey (ingress : QueueIngress sources) (run : RunRecord) : Bool :=
  run.idempotencyKey.any fun key => startsWith key ingress.keyPrefix

def pendingRuns (ingress : QueueIngress sources) : PollProg (Except AdkError Nat) :=
  .ask (.list (Wakeups.unfinishedFilter none)) fun unfinished =>
    .pure (unfinished.map fun runs => (runs.filter ingress.ownKey).length)

def enqueue (ingress : QueueIngress sources) (message : QueueMessage) : PollProg (Except AdkError Enqueued) :=
  match ingress.mapper message with
  | .error error => .pure (.error error)
  | .ok run => ingress.check.bind fun
    | .error error => .pure (.error error)
    | .ok () =>
      let ref : MessageRef := ⟨ingress.source, message.id⟩
      .ask (.enqueue ref { run.withServiceSubject with idempotencyKey := some (sources.key ref) }) .pure

def settle (ingress : QueueIngress sources) : List QueueMessage → IngressReport → PollProg IngressReport
  | [], report => .pure report
  | message :: batch, report => (ingress.enqueue message).bind fun
    | .ok (.created record) => .ask (.ack ingress.source message.receipt) fun _ =>
      settle ingress batch { report with created := report.created ++ [record.runId] }
    | .ok (.existing _) => .ask (.ack ingress.source message.receipt) fun _ =>
      settle ingress batch { report with existing := report.existing + 1 }
    | .ok (.rejected _) | .error _ => .ask (.nack ingress.source message.receipt ingress.retryAfter) fun _ =>
      settle ingress batch { report with nacked := report.nacked + 1 }

/-- Pulls a batch and enqueues the run of each message. -/
def pullBatch (ingress : QueueIngress sources) (batchSize : Nat) : PollProg (Except AdkError IngressReport) :=
  .ask (.pull ingress.source batchSize ingress.wait) fun
    | .error error => .pure (.error error)
    | .ok batch => (ingress.settle batch { pulled := batch.length }).bind fun report => .pure (.ok report)

def pollOnce (ingress : QueueIngress sources) : PollProg (Except AdkError IngressReport) :=
  ingress.check.bind fun
    | .error error => .pure (.ok { held := some error.code })
    | .ok () =>
      match ingress.maxPending with
      | none => ingress.pullBatch ingress.batchSize
      | some maxPending => ingress.pendingRuns.bind fun
        | .error error => .pure (.error error)
        | .ok pending =>
          if maxPending - pending = 0 then .pure (.ok { held := some "queue.max_pending" })
          else ingress.pullBatch (min ingress.batchSize (maxPending - pending))

end QueueIngress

/-! ## The sources and the store of runs -/

/-- A source, with the identifiers of what was published and the messages of the receipts that were handed out. -/
structure SourceState where
  table : QueueTable := {}
  published : List String := []
  leases : List (String × String) := []

/-- The sources and the store of runs, with what the store answered to each message. -/
structure QueueWorld where
  runs : RunTable := {}
  source : Nat → SourceState := fun _ => {}
  answered : List (Wakeups.Answered MessageRef) := []

namespace QueueWorld

def setSource (w : QueueWorld) (i : Nat) (state : SourceState) : QueueWorld :=
  { w with source := fun j => if j = i then state else w.source j }

@[simp] theorem setSource_self (w : QueueWorld) (i : Nat) (state : SourceState) :
    (w.setSource i state).source i = state := if_pos rfl

theorem setSource_other {w : QueueWorld} {i j : Nat} {state : SourceState} (h : j ≠ i) :
    (w.setSource i state).source j = w.source j := if_neg h

/-- How the sources and the store answer. A new run and a delivery have identifiers of their own, an ack or a nack may
fail, and a pull of nothing answers nothing. Others claim, finish and cancel runs and enqueue runs of their own, and
publish messages. -/
def laws (sources : QueueSources) : Laws QueueOp QueueOp.Ret QueueWorld where
  answers
    | .check, w, _, w' => w' = w
    | .list filter, w, runs, w' => runs = .ok (w.runs.list filter) ∧ w' = w
    | .pull i maxMessages _, w, batch, w' => maxMessages = 0 ∧ batch = .ok [] ∧ w' = w ∨
        ∃ now visibilityTimeout receipts messages table, Function.Injective receipts ∧
          (∀ n, receipts n ∉ (w.source i).leases.map Prod.fst) ∧
          (w.source i).table.takeVisible now visibilityTimeout maxMessages receipts = (messages, table) ∧
          batch = .ok messages ∧ w' = w.setSource i { w.source i with
            table, leases := messages.map (fun message => (message.receipt, message.id)) ++ (w.source i).leases }
    | .enqueue ref run, w, result, w' => ∃ now runId table, w.runs.runs[runId]? = none ∧
        w.runs.enqueue now runId run = (result, table) ∧
        w' = { w with runs := table, answered := w.answered ++ Wakeups.answersOf ref run.queue result }
    | .ack i receipt, w, result, w' => (∃ error, result = .error error) ∧ w' = w ∨
        ∃ now table, (w.source i).table.ack now receipt = (result, table) ∧
          w' = w.setSource i { w.source i with table }
    | .nack i receipt redeliverAfter, w, result, w' => (∃ error, result = .error error) ∧ w' = w ∨
        ∃ now table, (w.source i).table.nack now receipt redeliverAfter = (result, table) ∧
          w' = w.setSource i { w.source i with table }
  moves w w' :=
    (∃ now call answer table, Wakeups.Foreign sources.key w.runs call ∧ w.runs.call now call = (answer, table) ∧
      w' = { w with runs := table }) ∨
    ∃ i now id body attributes, w' = w.setSource i { w.source i with
      table := (w.source i).table.publish now id body attributes, published := (w.source i).published ++ [id] }

end QueueWorld

abbrev QueueEntry : Type := Entry QueueOp.Ret QueueWorld

abbrev QueueProc (sources : QueueSources) : Type :=
  Proc (fun _ : QueueIngress sources => Except AdkError IngressReport) QueueOp.Ret QueueWorld

abbrev QueuePool (sources : QueueSources) : Type :=
  ProcPool (fun _ : QueueIngress sources => Except AdkError IngressReport) QueueOp.Ret QueueWorld

/-- An ingress that is its source's only one: it always has the same bound, and polls one poll after another. -/
def SoleIngress {sources : QueueSources} (sole : Nat → Option Nat) (s : QueuePool sources)
    (ingress : QueueIngress sources) : Prop :=
  ∀ maxPending, sole ingress.source = some maxPending → ingress.maxPending = some maxPending ∧
    ∀ proc ∈ s.procs, proc.call.source = ingress.source → proc.live = false ∨ proc.returned.isSome = true

def queueSystem (sources : QueueSources) (sole : Nat → Option Nat) (acts : QueuePool sources → Nat → QueueOp → Prop) :
    System (fun _ : QueueIngress sources => Except AdkError IngressReport) QueueOp.Ret QueueWorld where
  laws := QueueWorld.laws sources
  program := QueueIngress.pollOnce
  starts := SoleIngress sole
  acts

end Adk
