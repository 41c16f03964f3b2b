import AdkRust.Graph.Error

/-!
# Checkpoints and the in-memory checkpointer

* `Checkpoint`: what a run saves of itself (`state.rs`).
* `ensureNewer`: the rule every backend applies to a save (`checkpoint.rs`).
* `MemoryStore`: the store behind `MemoryCheckpointer`, with `save`, `load`, `loadById`, `prune` and
  `delete` as it does them.
-/

namespace Adk

/-- When a run writes the checkpoint of each completed super-step. -/
inductive Durability where
  /-- Only when the run exits: completes, pauses, or fails. -/
  | exit
  /-- In the background while the next super-step runs. -/
  | async
  /-- Before the next super-step starts. -/
  | sync
deriving DecidableEq

/-- A saved run. -/
structure Checkpoint where
  threadId : String
  checkpointId : String
  state : State
  step : Nat
  pendingNodes : List String
  metadata : Dict Value := ∅
  createdAt : Utc
  clearedInterrupt : Option String := none
  attempts : Dict Nat := ∅
  childLedger : Dict Value := ∅
  version : Nat := 1
  pendingWrites : Dict PendingWrite := ∅
deriving DecidableEq

/-- How many checkpoints to keep for a thread, and for how long. -/
structure RetentionPolicy where
  maxPerThread : Option Nat := none
  maxAge : Option Duration := none
deriving DecidableEq

namespace RetentionPolicy

/-- Keeps the newest `count` checkpoints of a thread; a count of zero is raised to one. -/
def keepLast (count : Nat) : RetentionPolicy := { maxPerThread := some (max count 1) }

/-- Whether the policy removes nothing. -/
def isUnlimited (policy : RetentionPolicy) : Bool :=
  policy.maxPerThread.isNone && policy.maxAge.isNone

/-- Whether the policy discards a checkpoint that has `index` newer ones. -/
def discards (policy : RetentionPolicy) (now : Utc) (index : Nat) (checkpoint : Checkpoint) :
    Bool :=
  decide (0 < index) &&
    (policy.maxPerThread.any (fun max => decide (max ≤ index)) ||
      policy.maxAge.any (fun age => decide (checkpoint.createdAt < now - age)))

/-- The ids the policy discards at time `now`. The newest checkpoint is never among them. -/
def expired (policy : RetentionPolicy) (now : Utc) (checkpoints : List Checkpoint) :
    List String :=
  if policy.isUnlimited || decide (checkpoints.length ≤ 1) then []
  else
    let ordered := checkpoints.insertionSort (fun a b => b.version ≤ a.version)
    (ordered.zipIdx.filter (fun (checkpoint, index) => policy.discards now index checkpoint)).map
      (fun (checkpoint, _) => checkpoint.checkpointId)

end RetentionPolicy

/-- The conflict a refused save reports. -/
def conflict (checkpoint : Checkpoint) (head : Nat) : GraphError :=
  .checkpointConflict checkpoint.threadId checkpoint.version head

/-- The error a save reports when the id is already stored. -/
def duplicateId (checkpointId : String) : GraphError :=
  .checkpointError
    s!"checkpoint id '{checkpointId}' is already stored; every checkpoint needs a unique id"

/-- Checks a checkpoint's version against the highest version stored for its thread. -/
def ensureNewer (checkpoint : Checkpoint) (head : Option Nat) : Except GraphError Unit :=
  if checkpoint.version = 0 then
    .error (.checkpointError
      (s!"checkpoint '{checkpoint.checkpointId}' has version 0; versions start at 1. Set it with " ++
        "Checkpoint::with_version(newest version + 1)"))
  else
    match head with
    | some head => if checkpoint.version ≤ head then .error (conflict checkpoint head) else .ok ()
    | none => .ok ()

/-- The store of a `MemoryCheckpointer`. -/
structure MemoryStore where
  /-- Each thread's checkpoints, ascending by version. -/
  threads : Dict (List Checkpoint) := ∅
  /-- Checkpoint id to thread. -/
  ids : Dict String := ∅

namespace MemoryStore

def list (store : MemoryStore) (threadId : String) : List Checkpoint :=
  store.threads.getD threadId []

def load (store : MemoryStore) (threadId : String) : Option Checkpoint :=
  (store.list threadId).getLast?

def loadById (store : MemoryStore) (checkpointId : String) : Option Checkpoint :=
  store.ids[checkpointId]?.bind fun threadId =>
    (store.list threadId).find? (fun c => c.checkpointId == checkpointId)

/-- Stores a checkpoint, when it is newer than every one of its thread and its id is new. -/
def save (store : MemoryStore) (checkpoint : Checkpoint) : Except GraphError MemoryStore := do
  ensureNewer checkpoint ((store.load checkpoint.threadId).map (·.version))
  if store.ids.contains checkpoint.checkpointId then
    throw (duplicateId checkpoint.checkpointId)
  return {
    threads := store.threads.insert checkpoint.threadId
      (store.list checkpoint.threadId ++ [checkpoint])
    ids := store.ids.insert checkpoint.checkpointId checkpoint.threadId }

def prune (store : MemoryStore) (now : Utc) (threadId : String) (policy : RetentionPolicy) :
    MemoryStore :=
  match store.threads[threadId]? with
  | none => store
  | some thread =>
    let expired := policy.expired now thread
    if expired.isEmpty then store
    else {
      threads := store.threads.insert threadId
        (thread.filter (fun c => !expired.contains c.checkpointId))
      ids := expired.foldl (fun ids id => ids.erase id) store.ids }

def delete (store : MemoryStore) (threadId : String) : MemoryStore :=
  match store.threads[threadId]? with
  | none => store
  | some thread => {
      threads := store.threads.erase threadId
      ids := thread.foldl (fun ids c => ids.erase c.checkpointId) store.ids }

end MemoryStore

end Adk
