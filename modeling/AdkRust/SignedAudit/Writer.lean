import AdkRust.Lib.ProcPool
import AdkRust.SignedAudit.Note

/-!
# The audit log writer

Records are linked to the previous one, hashed into the right edge of the tree and appended to a store; the edge's root
is signed now and then (`log.rs`). A writer keeps its own copy of the edge behind a lock, which each call holds from its
first step to its last.

* `openLog`, `appendBatch`, `checkpoint`, `checkpointIfDue`, `flush`, `rotateSigner`: the calls, one operation of the
  store, the signer or the clock at a time.
* `AuditWorld.laws`: the in-memory store and the locks. What a signer answers, and how storing a checkpoint may fail
  besides, is a parameter.
* `auditSystem`: any calls of any writers.
-/

namespace Adk

namespace SignedAudit

open Merkle

variable [FloatText] [Sha256] [Base64]

/-! ## Batches -/

structure WriterState where
  frontier : Frontier AuditHash
  lastLeaf : Option AuditHash
  signer : AuditSigner
  checkpointedSize : Nat
  checkpointedAt : Utc

/-- A batch while its records are made. -/
structure Built where
  frontier : Frontier AuditHash
  prev : Option AuditHash
  records : List AuditRecord := []
  entries : List AuditLogEntry := []
  nodes : List AuditTreeNode := []

def AuditRecord.canonical (record : AuditRecord) : Except AdkError String :=
  match canonicalize record.toValue with
  | .ok text => .ok text
  | .error e => .error (auditError .invalidInput "audit_log.not_canonical"
      s!"cannot canonicalize JSON: {e}. Keep integers within ±2^53 or store them as strings")

/-- A batch with one more record. -/
def Built.add (logId : String) (ts : Utc) (built : Built) (draft : AuditRecordDraft) : Except AdkError Built :=
  let record := draft.intoRecord logId built.frontier.size ts built.prev
  match record.canonical with
  | .error error => .error error
  | .ok text =>
    let leaf := leafHash (asBytes text)
    let (frontier, completed) := built.frontier.push leaf
    .ok {
      frontier
      prev := some leaf
      records := built.records ++ [record]
      entries := built.entries ++ [{ seq := record.seq, leafHash := leaf, record := some text }]
      nodes := built.nodes ++ completed }

def buildBatch (logId : String) (ts : Utc) : Built → List AuditRecordDraft → Except AdkError Built
  | built, [] => .ok built
  | built, draft :: drafts =>
    match built.add logId ts draft with
    | .error error => .error error
    | .ok built => buildBatch logId ts built drafts

/-! ## The programs -/

/-- An open log: how often it signs, and what its writer has. -/
structure AuditLog where
  origin : String
  checkpointEvery : Nat
  checkpointInterval : Duration
  state : WriterState

/-- What a call asks of the store, the signer, the clock and the lock of its writer. -/
inductive AuditOp where
  | now
  | size
  | hashAt (level index : Nat)
  | latestCheckpoint
  | append (batch : AuditAppend)
  | putCheckpoint (checkpoint : AuditCheckpoint)
  | prune (beforeSeq : Nat)
  | sign (signer : AuditSigner) (message : List UInt8)
  | opened (log : AuditLog)
  | lock (writer : Nat)
  /-- The holder of the lock changes what the writer has. -/
  | assign (writer : Nat) (state : WriterState)
  | unlock (writer : Nat)

abbrev AuditOp.Ret : AuditOp → Type
  | .now => Utc
  | .size | .opened _ => Nat
  | .hashAt .. => Option AuditHash
  | .latestCheckpoint => Option AuditCheckpoint
  | .append _ => Except AdkError (Nat × Nat)
  | .putCheckpoint _ => Except AdkError Unit
  | .prune _ => Except AdkError Nat
  | .sign .. => Except NoteError (List UInt8)
  | .lock _ => AuditLog
  | .assign .. | .unlock _ => Unit

abbrev AuditProg : Type → Type := ExceptT AdkError (Prog AuditOp AuditOp.Ret)

def perform (op : AuditOp) : AuditProg op.Ret := ExceptT.lift (Prog.perform op)

def answered {α : Type} : Except AdkError α → AuditProg α
  | .ok a => pure a
  | .error error => throw error

def foundHash (logId : String) (level index : Nat) : Option AuditHash → AuditProg AuditHash
  | some hash => pure hash
  | none => throw (auditError .internal "audit_log.corrupt"
      s!"audit log '{logId}' is missing the subtree hash at level {level}, index {index}")

/-- Reads the hash of a subtree. -/
def storedHash (logId : String) (level index : Nat) : AuditProg AuditHash := do
  let hash ← perform (.hashAt level index)
  foundHash logId level index hash

/-- Reads the hashes of some subtrees. -/
def storedHashes (logId : String) : List (Nat × Nat) → AuditProg (List AuditHash)
  | [] => pure []
  | node :: nodes => do
    let hash ← storedHash logId node.1 node.2
    let hashes ← storedHashes logId nodes
    return hash :: hashes

def storedRoot (logId : String) (size : Nat) : AuditProg AuditHash := do
  let hashes ← storedHashes logId (rangeNodes 0 size)
  return foldRange hashes

def checkLatest (logId : String) : Option AuditCheckpoint → AuditProg Unit
  | none => pure ()
  | some checkpoint => do
    let root ← storedRoot logId checkpoint.size
    if root ≠ checkpoint.rootHash then
      throw (auditError .internal "audit_log.corrupt"
        (s!"audit log '{logId}' no longer matches its checkpoint at size {checkpoint.size}; " ++
          "stop writing and verify the log"))

def storedLast (logId : String) (size : Nat) : AuditProg (Option AuditHash) :=
  if size = 0 then pure none else do
    let hash ← storedHash logId 0 (size - 1)
    return some hash

def openLog (logId : String) (origin : Option String) (signer : AuditSigner) (checkpointEvery : Nat)
    (checkpointInterval : Duration) : AuditProg Nat := do
  let origin := origin.getD s!"adk-audit/{logId}"
  if origin.isEmpty || origin.toList.contains '\n' || logId.isEmpty then
    throw (auditError .invalidInput "audit_log.invalid_config"
      "log_id and origin must be non-empty and the origin a single line")
  let size ← perform .size
  let hashes ← storedHashes logId (rangeNodes 0 size)
  let lastLeaf ← storedLast logId size
  let latest ← perform .latestCheckpoint
  checkLatest logId latest
  let now ← perform .now
  perform (.opened {
    origin
    checkpointEvery := max checkpointEvery 1
    checkpointInterval
    state := {
      frontier := { size, hashes }
      lastLeaf
      signer
      checkpointedSize := (latest.map (·.size)).getD 0
      checkpointedAt := (latest.map (·.createdAt)).getD now } })

/-- What a call does while it holds the lock of its writer. -/
def guarded {α : Type} (writer : Nat) (body : AuditLog → AuditProg α) : AuditProg α := do
  let log ← perform (.lock writer)
  let result ← ExceptT.lift (body log).run
  perform (.unlock writer)
  answered result

def appendLocked (logId : String) (writer : Nat) (state : WriterState) (drafts : List AuditRecordDraft) :
    AuditProg (List AuditRecord × WriterState) :=
  if drafts.isEmpty then pure ([], state) else do
    let ts ← perform .now
    let built ← answered (buildBatch logId ts { frontier := state.frontier, prev := state.lastLeaf } drafts)
    let range ← perform (.append { logId, entries := built.entries, nodes := built.nodes })
    let _ ← answered range
    let state := { state with frontier := built.frontier, lastLeaf := built.prev }
    perform (.assign writer state)
    return (built.records, state)

def signatureLine (verifier : NoteVerifier) (signature : List UInt8) : String :=
  String.ofList signaturePrefix ++ s!"{verifier.name} {Base64.encode (toBeBytes verifier.keyHash ++ signature)}\n"

def noted {α : Type} : Except NoteError α → AuditProg α
  | .ok a => pure a
  | .error error => throw (auditError .unavailable "audit_log.signing_failed" error.display)

def signLines (text : String) : List AuditSigner → AuditProg String
  | [] => pure ""
  | signer :: signers => do
    let verifier ← noted (NoteVerifier.fromPublicKey signer.keyName signer.publicKey)
    let answer ← perform (.sign signer (asBytes text))
    let signature ← noted answer
    let lines ← signLines text signers
    return signatureLine verifier signature ++ lines

def signNote (text : String) (signers : List AuditSigner) : AuditProg String := do
  if text.isEmpty || text.toList.getLast? ≠ some '\n' || hasBlank text.toList then
    let _ ← noted (α := Unit) (.error (.malformed
      "note text must be non-empty, end in a newline, and contain no blank line"))
  let lines ← signLines text signers
  return text ++ "\n" ++ lines

def checkpointLocked (logId : String) (writer : Nat) (log : AuditLog) (state : WriterState)
    (signers : List AuditSigner) : AuditProg (AuditCheckpoint × WriterState) := do
  let body : CheckpointBody := { origin := log.origin, size := state.frontier.size, rootHash := state.frontier.root }
  let note ← signNote body.toText signers
  let createdAt ← perform .now
  let checkpoint : AuditCheckpoint := { logId, size := body.size, rootHash := body.rootHash, note, createdAt }
  let stored ← perform (.putCheckpoint checkpoint)
  answered stored
  let state := { state with checkpointedSize := checkpoint.size, checkpointedAt := checkpoint.createdAt }
  perform (.assign writer state)
  return (checkpoint, state)

/-- Whether so much time has passed since the last checkpoint. -/
def intervalElapsed (log : AuditLog) (state : WriterState) : AuditProg Bool := do
  let now ← perform .now
  return decide (state.checkpointedAt ≤ now ∧ log.checkpointInterval ≤ (now - state.checkpointedAt).toNat)

/-- Whether a checkpoint is due after an append. Where another writer's checkpoint is of more records than this one
has, the difference does not matter. -/
def checkpointDue (log : AuditLog) (state : WriterState) : AuditProg Bool :=
  if log.checkpointEvery ≤ state.frontier.size - state.checkpointedSize then pure true else intervalElapsed log state

/-- Signs a checkpoint when one is due; a failure is left for a later call. -/
def checkpointAfter (logId : String) (writer : Nat) (log : AuditLog) (state : WriterState) (due : Bool) :
    AuditProg Unit :=
  if due = true ∧ state.checkpointedSize < state.frontier.size then do
    let _ ← ExceptT.lift (checkpointLocked logId writer log state [state.signer]).run
  else pure ()

/-- Appends records, and signs a checkpoint when one is due. -/
def appendBatch (logId : String) (writer : Nat) (drafts : List AuditRecordDraft) : AuditProg (List AuditRecord) :=
  guarded writer fun log => do
    let (records, state) ← appendLocked logId writer log.state drafts
    let due ← checkpointDue log state
    checkpointAfter logId writer log state due
    return records

/-- Signs and stores a checkpoint of the current tree. -/
def checkpoint (logId : String) (writer : Nat) : AuditProg AuditCheckpoint :=
  guarded writer fun log => do
    let (checkpoint, _) ← checkpointLocked logId writer log log.state [log.state.signer]
    return checkpoint

def checkpointWhen (logId : String) (writer : Nat) (log : AuditLog) (due : Bool) : AuditProg (Option AuditCheckpoint) :=
  if due then do
    let (checkpoint, _) ← checkpointLocked logId writer log log.state [log.state.signer]
    return some checkpoint
  else return none

/-- Signs a checkpoint when records were appended since the last one and the interval has passed. -/
def checkpointIfDue (logId : String) (writer : Nat) : AuditProg (Option AuditCheckpoint) :=
  guarded writer fun log =>
    if log.state.frontier.size = log.state.checkpointedSize then return none
    else do
      let due ← intervalElapsed log log.state
      checkpointWhen logId writer log due

/-- Signs a checkpoint when records were appended since the last one. -/
def flush (logId : String) (writer : Nat) : AuditProg (Option AuditCheckpoint) :=
  guarded writer fun log =>
    checkpointWhen logId writer log (decide (log.state.frontier.size ≠ log.state.checkpointedSize))

def rotationDraft (previous next : AuditSigner) (actor : AuditActor) : AuditRecordDraft where
  actor
  kind := .keyRotated
  action := "rotate_checkpoint_key"
  ext := ((∅ : Dict Value).insert "previousKey" (.string previous.verifierKey)).insert "nextKey"
    (.string next.verifierKey)

def rotateSigner (logId : String) (writer : Nat) (next : AuditSigner) (actor : AuditActor) : AuditProg AuditCheckpoint :=
  guarded writer fun log => do
    let previous := log.state.signer
    let (_, state) ← appendLocked logId writer log.state [rotationDraft previous next actor]
    let (checkpoint, state) ← checkpointLocked logId writer log state [previous, next]
    perform (.assign writer { state with signer := next })
    return checkpoint

/-! ## The system -/

inductive AuditCall where
  | openLog (origin : Option String) (signer : AuditSigner) (checkpointEvery : Nat) (checkpointInterval : Duration)
  | append (writer : Nat) (draft : AuditRecordDraft)
  | appendBatch (writer : Nat) (drafts : List AuditRecordDraft)
  | checkpoint (writer : Nat)
  | checkpointIfDue (writer : Nat)
  | flush (writer : Nat)
  | rotateSigner (writer : Nat) (next : AuditSigner) (actor : AuditActor)
  | prune (beforeSeq : Nat)

inductive AuditAnswer where
  | opened (writer : Nat)
  | records (records : List AuditRecord)
  | checkpoint (checkpoint : Option AuditCheckpoint)
  | flushed
  | pruned (count : Nat)

def auditProgram (logId : String) : AuditCall → AuditProg AuditAnswer
  | .openLog origin signer checkpointEvery checkpointInterval => do
    let writer ← openLog logId origin signer checkpointEvery checkpointInterval
    return .opened writer
  | .append writer draft => do
    let records ← appendBatch logId writer [draft]
    return .records records
  | .appendBatch writer drafts => do
    let records ← appendBatch logId writer drafts
    return .records records
  | .checkpoint writer => do
    let checkpoint ← checkpoint logId writer
    return .checkpoint (some checkpoint)
  | .checkpointIfDue writer => do
    let checkpoint ← checkpointIfDue logId writer
    return .checkpoint checkpoint
  | .flush writer => do
    let _ ← flush logId writer
    return .flushed
  | .rotateSigner writer next actor => do
    let checkpoint ← rotateSigner logId writer next actor
    return .checkpoint (some checkpoint)
  | .prune beforeSeq => do
    let result ← perform (.prune beforeSeq)
    let count ← answered result
    return .pruned count

/-- The store, and the writers that were opened. -/
structure AuditWorld where
  log : MemoryLog := {}
  writers : List AuditLog := []
  /-- Which writers are locked. -/
  locked : Nat → Bool := fun _ => false

/-- How signers answer, and how storing a checkpoint may fail besides. -/
structure AuditFaults where
  signs : AuditSigner → List UInt8 → Except NoteError (List UInt8) → Prop
  refuses : AdkError → Prop

namespace AuditWorld

def setLocked (w : AuditWorld) (writer : Nat) (locked : Bool) : AuditWorld :=
  { w with locked := fun other => if other = writer then locked else w.locked other }

/-- What each operation does. A call that is dropped gives its lock up. -/
def laws (faults : AuditFaults) (logId : String) : Laws AuditOp AuditOp.Ret AuditWorld where
  answers
    | .now, w, _, w' => w' = w
    | .size, w, size, w' => size = w.log.size ∧ w' = w
    | .hashAt level index, w, hash, w' => hash = w.log.hashAt level index ∧ w' = w
    | .latestCheckpoint, w, latest, w' => latest = w.log.latestCheckpoint ∧ w' = w
    | .append batch, w, range, w' => range = (w.log.append batch).1 ∧ w' = { w with log := (w.log.append batch).2 }
    | .putCheckpoint checkpoint, w, stored, w' =>
        (stored = (w.log.putCheckpoint checkpoint).1 ∧ w' = { w with log := (w.log.putCheckpoint checkpoint).2 }) ∨
          ∃ error, faults.refuses error ∧ stored = .error error ∧ w' = w
    | .prune beforeSeq, w, count, w' =>
        count = (w.log.prune logId beforeSeq).1 ∧ w' = { w with log := (w.log.prune logId beforeSeq).2 }
    | .sign signer message, w, signature, w' => faults.signs signer message signature ∧ w' = w
    | .opened log, w, writer, w' => writer = w.writers.length ∧ w' = { w with writers := w.writers ++ [log] }
    | .lock writer, w, log, w' => w.locked writer = false ∧ w.writers[writer]? = some log ∧ w' = w.setLocked writer true
    | .assign writer state, w, _, w' => ∃ log, w.writers[writer]? = some log ∧
        w' = { w with writers := w.writers.set writer { log with state } }
    | .unlock writer, w, _, w' => w' = w.setLocked writer false
  moves w w' := ∃ writer, w' = w.setLocked writer false

end AuditWorld

abbrev AuditEntry : Type := Entry AuditOp.Ret AuditWorld

abbrev AuditPool : Type := ProcPool (fun _ : AuditCall => Except AdkError AuditAnswer) AuditOp.Ret AuditWorld

abbrev AuditProc : Type := Proc (fun _ : AuditCall => Except AdkError AuditAnswer) AuditOp.Ret AuditWorld

def auditSystem (faults : AuditFaults) (logId : String) (starts : AuditPool → AuditCall → Prop) :
    System (fun _ : AuditCall => Except AdkError AuditAnswer) AuditOp.Ret AuditWorld where
  laws := AuditWorld.laws faults logId
  program call := (auditProgram logId call).run
  starts

def noAudit : AuditPool := { world := {} }

end SignedAudit

end Adk
