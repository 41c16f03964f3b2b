import AdkRust.Core.AuditActor
import AdkRust.Core.Error
import AdkRust.Core.Rfc3339
import AdkRust.Lib.Merkle
import AdkRust.SignedAudit.Canonical

/-!
# Audit records

The records of an audit log and what a store holds of them (`audit_log.rs`), and the hashes of its tree (`merkle.rs`).

* `AuditRecord.toValue`: a record as JSON.
* `leafHash`: the hash of a record's text.
* `MemoryLog`: one log of the in-memory store, and its operations.
-/

namespace Adk

/-- SHA-256 (`sha2`): the digest of some bytes. -/
class Sha256 where
  digest : List UInt8 → Vector UInt8 32

namespace SignedAudit

def asBytes (text : String) : List UInt8 := text.toUTF8.data.toList

structure AuditHash where
  bytes : Vector UInt8 32
deriving DecidableEq

/-- A hash as lowercase hex digits. -/
def AuditHash.display (hash : AuditHash) : String :=
  String.ofList (hash.bytes.toList.flatMap fun byte =>
    [Nat.digitChar (byte.toNat / 16), Nat.digitChar (byte.toNat % 16)])

section Hashes

variable [Sha256]

def leafHash (data : List UInt8) : AuditHash := ⟨Sha256.digest (0x00 :: data)⟩

/-- Hashes an interior node; the root of the empty tree is the hash of nothing. -/
instance : TreeHash AuditHash where
  nodeHash left right := ⟨Sha256.digest (0x01 :: (left.bytes.toList ++ right.bytes.toList))⟩
  emptyRoot := ⟨Sha256.digest []⟩

end Hashes

/-! ## Records -/

inductive AuditRecordKind where
  | toolCall
  | approval
  | governance
  | payment
  | access
  | authentication
  | configuration
  /-- The log's checkpoint signing key changed. -/
  | keyRotated
  | other (name : String)
deriving DecidableEq

namespace AuditRecordKind

/-- The wire name of a kind. -/
def asStr : AuditRecordKind → String
  | .toolCall => "tool_call"
  | .approval => "approval"
  | .governance => "governance"
  | .payment => "payment"
  | .access => "access"
  | .authentication => "authentication"
  | .configuration => "configuration"
  | .keyRotated => "key_rotated"
  | .other name => name

end AuditRecordKind

/-- What happened when the recorded action ran. -/
inductive AuditRecordOutcome where
  | succeeded
  | failed
  | outcomeUnknown
  | notRun
deriving DecidableEq

/-- The part of a record that its caller supplies. -/
structure AuditRecordDraft where
  actor : AuditActor := {}
  kind : AuditRecordKind
  action : String
  argsDigest : Option String := none
  decision : Option AuditDecision := none
  outcome : Option AuditRecordOutcome := none
  policyRef : Option String := none
  payloadRef : Option String := none
  ext : Dict Value := ∅

/-- One entry in an audit log. -/
structure AuditRecord where
  v : Nat
  logId : String
  seq : Nat
  ts : Utc
  prevHash : Option AuditHash
  actor : AuditActor
  kind : AuditRecordKind
  action : String
  argsDigest : Option String
  decision : Option AuditDecision
  outcome : Option AuditRecordOutcome
  policyRef : Option String
  payloadRef : Option String
  ext : Dict Value

def auditRecordVersion : Nat := 1

/-- A draft with the fields that the writer assigns. -/
def AuditRecordDraft.intoRecord (draft : AuditRecordDraft) (logId : String) (seq : Nat) (ts : Utc)
    (prevHash : Option AuditHash) : AuditRecord where
  v := auditRecordVersion
  logId
  seq
  ts
  prevHash
  actor := draft.actor
  kind := draft.kind
  action := draft.action
  argsDigest := draft.argsDigest
  decision := draft.decision
  outcome := draft.outcome
  policyRef := draft.policyRef
  payloadRef := draft.payloadRef
  ext := draft.ext

/-! ## Records as JSON -/

def objectOf (fields : List (String × Option Value)) : Value :=
  .object (Dict.ofList (fields.filterMap fun field => field.2.map fun value => (field.1, value))).toList

def subjectKindStr : SubjectKind → String
  | .human => "human"
  | .service => "service"
  | .agent => "agent"

def subjectValue (subject : SubjectRef) : Value :=
  objectOf [("kind", some (.string (subjectKindStr subject.kind))), ("id", some (.string subject.id))]

def actorValue (actor : AuditActor) : Value :=
  objectOf [
    ("agent", actor.agent.map fun agent => .string agent.asStr),
    ("tenant", actor.tenant.map .string),
    ("instance", actor.instance_.map .string),
    ("onBehalfOf", actor.onBehalfOf.map subjectValue),
    ("delegationChain",
      if actor.delegationChain.isEmpty then none else some (.array (actor.delegationChain.map subjectValue))),
    ("invocationId", actor.invocationId.map .string)]

/-- The wire name of a decision. -/
def decisionStr : AuditDecision → String
  | .allowed => "allowed"
  | .denied => "denied"
  | .approvalRequired => "approval_required"
  | .approved => "approved"
  | .rejected => "rejected"

/-- The wire name of an outcome. -/
def outcomeStr : AuditRecordOutcome → String
  | .succeeded => "succeeded"
  | .failed => "failed"
  | .outcomeUnknown => "outcome_unknown"
  | .notRun => "not_run"

def AuditRecord.toValue (record : AuditRecord) : Value :=
  objectOf [
    ("v", some (.number (.int record.v))),
    ("logId", some (.string record.logId)),
    ("seq", some (.number (.int record.seq))),
    ("ts", some (.string (toRfc3339 record.ts))),
    ("prevHash", record.prevHash.map fun hash => .string hash.display),
    ("actor", some (actorValue record.actor)),
    ("kind", some (.string record.kind.asStr)),
    ("action", some (.string record.action)),
    ("argsDigest", record.argsDigest.map .string),
    ("decision", record.decision.map fun decision => .string (decisionStr decision)),
    ("outcome", record.outcome.map fun outcome => .string (outcomeStr outcome)),
    ("policyRef", record.policyRef.map .string),
    ("payloadRef", record.payloadRef.map .string),
    ("ext", if record.ext.isEmpty then none else some (.object record.ext.toList))]

/-! ## What a store holds -/

/-- A stored record: its canonical text, unless it was pruned, and its leaf hash. -/
structure AuditLogEntry where
  seq : Nat
  leafHash : AuditHash
  record : Option String
deriving DecidableEq

abbrev AuditTreeNode : Type := Merkle.TreeNode AuditHash

/-- Entries to append to one log, with the subtrees they complete. -/
structure AuditAppend where
  logId : String
  entries : List AuditLogEntry
  nodes : List AuditTreeNode

/-- A signed checkpoint of a log. -/
structure AuditCheckpoint where
  logId : String
  size : Nat
  rootHash : AuditHash
  note : String
  createdAt : Utc
deriving DecidableEq

def auditError (category : ErrorCategory) (code message : String) : AdkError where
  component := .auth
  category
  code
  message

def seqConflictError (logId : String) (expected got : Nat) : AdkError :=
  auditError .conflict "audit_log.seq_conflict"
    (s!"audit log '{logId}' has {expected} records but the append starts at {got}. " ++
      "Another writer is using this log_id; give each replica its own log_id")

def outOfRangeError (logId : String) (size requested : Nat) : AdkError :=
  auditError .notFound "audit_log.out_of_range"
    s!"audit log '{logId}' has {size} records; position {requested} is past its end"

def checkpointConflictError (logId : String) (size : Nat) : AdkError :=
  auditError .conflict "audit_log.checkpoint_conflict"
    (s!"audit log '{logId}' already has a checkpoint at size {size} with a different root; " ++
      "the log has forked and must be investigated before it is checkpointed again")

def invalidBatch (logId reason : String) : AdkError :=
  auditError .invalidInput "audit_log.invalid_batch" s!"audit log '{logId}': {reason}"

/-- Where the leaves of a subtree end, in 64 bits. -/
def nodeEnd (node : AuditTreeNode) : Option Nat :=
  if node.index + 1 < 2 ^ 64 ∧ 1 ≤ node.level ∧ node.level < 64 then
    some ((node.index + 1) <<< node.level % 2 ^ 64)
  else none

/-- The first reason to refuse one of the entries. -/
def entryProblem : Nat → List AuditLogEntry → Option String
  | _, [] => none
  | seq, entry :: entries =>
    if entry.seq ≠ seq then some "entry sequence numbers are not contiguous"
    else if entry.record.isNone then some "an appended entry has no record"
    else entryProblem (seq + 1) entries

def validateAppend (batch : AuditAppend) (size : Nat) : Except AdkError (Nat × Nat) :=
  match batch.entries with
  | [] => .error (invalidBatch batch.logId "the batch has no entries")
  | first :: _ =>
    if first.seq ≠ size then .error (seqConflictError batch.logId size first.seq)
    else
      match entryProblem size batch.entries with
      | some reason => .error (invalidBatch batch.logId reason)
      | none =>
        let stop := size + batch.entries.length
        if batch.nodes.all fun node => (nodeEnd node).any fun nodeEnd => nodeEnd ≤ stop && size < nodeEnd then
          .ok (size, stop)
        else .error (invalidBatch batch.logId "a tree node is not completed by the appended entries")

def validateCheckpoint (checkpoint : AuditCheckpoint) (size : Nat) (existingRoot : Option AuditHash) :
    Except AdkError Bool :=
  if size < checkpoint.size then .error (outOfRangeError checkpoint.logId size checkpoint.size)
  else
    match existingRoot with
    | some root =>
      if root ≠ checkpoint.rootHash then .error (checkpointConflictError checkpoint.logId checkpoint.size) else .ok true
    | none => .ok false

/-! ## The in-memory store -/

/-- One log of the in-memory store. Its checkpoints stand in the order of their sizes. -/
structure MemoryLog where
  entries : List AuditLogEntry := []
  nodes : Nat × Nat → Option AuditHash := fun _ => none
  checkpoints : List AuditCheckpoint := []

def insertCheckpoint (checkpoint : AuditCheckpoint) : List AuditCheckpoint → List AuditCheckpoint
  | [] => [checkpoint]
  | first :: rest =>
    if checkpoint.size < first.size then checkpoint :: first :: rest
    else if checkpoint.size = first.size then checkpoint :: rest
    else first :: insertCheckpoint checkpoint rest

namespace MemoryLog

def leaves (log : MemoryLog) : List AuditHash := log.entries.map (·.leafHash)

def size (log : MemoryLog) : Nat := log.entries.length

def append (log : MemoryLog) (batch : AuditAppend) : Except AdkError (Nat × Nat) × MemoryLog :=
  match validateAppend batch log.size with
  | .error error => (.error error, log)
  | .ok range =>
    (.ok range, { log with
      entries := log.entries ++ batch.entries
      nodes := batch.nodes.foldl
        (fun nodes node => fun place => if place = (node.level, node.index) then some node.hash else nodes place)
        log.nodes })

/-- The hash of a complete subtree. -/
def hashAt (log : MemoryLog) (level index : Nat) : Option AuditHash :=
  if level = 0 then log.entries[index]?.map (·.leafHash) else log.nodes (level, index)

def putCheckpoint (log : MemoryLog) (checkpoint : AuditCheckpoint) : Except AdkError Unit × MemoryLog :=
  let existing := (log.checkpoints.find? fun stored => stored.size = checkpoint.size).map (·.rootHash)
  match validateCheckpoint checkpoint log.size existing with
  | .error error => (.error error, log)
  | .ok _ => (.ok (), { log with checkpoints := insertCheckpoint checkpoint log.checkpoints })

/-- The checkpoint with the largest size. -/
def latestCheckpoint (log : MemoryLog) : Option AuditCheckpoint := log.checkpoints.getLast?

/-- Drops the bodies of the first records. -/
def prune (log : MemoryLog) (logId : String) (beforeSeq : Nat) : Except AdkError Nat × MemoryLog :=
  if log.size < beforeSeq then (.error (outOfRangeError logId log.size beforeSeq), log)
  else
    (.ok ((log.entries.take beforeSeq).countP (·.record.isSome)), { log with
      entries := (log.entries.take beforeSeq).map ({ · with record := none }) ++ log.entries.drop beforeSeq })

end MemoryLog

/-! ## What the store does -/

theorem foldl_nodes {nodes : List AuditTreeNode} {stored : Nat × Nat → Option AuditHash} {place : Nat × Nat}
    {hash : AuditHash} (h : nodes.foldl
      (fun stored node => fun place => if place = (node.level, node.index) then some node.hash else stored place)
      stored place = some hash) :
    stored place = some hash ∨ ∃ node ∈ nodes, place = (node.level, node.index) ∧ hash = node.hash := by
  induction nodes generalizing stored with
  | nil => exact .inl h
  | cons node nodes ih =>
    rcases ih h with hnow | ⟨later, hmem, hlat⟩
    · dsimp only at hnow
      by_cases hpl : place = (node.level, node.index)
      · rw [if_pos hpl] at hnow
        exact .inr ⟨node, List.mem_cons_self, hpl, (Option.some.inj hnow).symm⟩
      · rw [if_neg hpl] at hnow
        exact .inl hnow
    · exact .inr ⟨later, List.mem_cons_of_mem _ hmem, hlat⟩

theorem mem_insertCheckpoint {checkpoint other : AuditCheckpoint} {checkpoints : List AuditCheckpoint}
    (h : other ∈ insertCheckpoint checkpoint checkpoints) : other = checkpoint ∨ other ∈ checkpoints := by
  induction checkpoints with
  | nil => exact .inl (List.mem_singleton.mp h)
  | cons first rest ih =>
    unfold insertCheckpoint at h
    split at h
    next => exact List.mem_cons.mp h
    next =>
      split at h
      next => exact (List.mem_cons.mp h).imp_right (List.mem_cons_of_mem _)
      next =>
        rcases List.mem_cons.mp h with rfl | hrest
        · exact .inr List.mem_cons_self
        · exact (ih hrest).imp_right (List.mem_cons_of_mem _)

namespace MemoryLog

theorem append_cases (log : MemoryLog) (batch : AuditAppend) :
    (∃ error, log.append batch = (.error error, log)) ∨
    ∃ range log', log.append batch = (.ok range, log') ∧ log'.entries = log.entries ++ batch.entries ∧
      log'.checkpoints = log.checkpoints ∧ batch.entries.head?.map (·.seq) = some log.size ∧
      ∀ place hash, log'.nodes place = some hash → log.nodes place = some hash ∨
        ∃ node ∈ batch.nodes, place = (node.level, node.index) ∧ hash = node.hash := by
  unfold append
  cases hval : validateAppend batch log.size with
  | error error => exact .inl ⟨error, rfl⟩
  | ok range =>
    refine .inr ⟨range, _, rfl, rfl, rfl, ?_, fun place hash h => foldl_nodes h⟩
    unfold validateAppend at hval
    split at hval
    next => cases hval
    next first rest hents =>
      split at hval
      next => cases hval
      next hseq =>
        rw [hents]
        exact congrArg some (by_contra hseq)

theorem putCheckpoint_cases (log : MemoryLog) (checkpoint : AuditCheckpoint) :
    (∃ error, log.putCheckpoint checkpoint = (.error error, log) ∧ (log.size < checkpoint.size ∨
      ∃ stored ∈ log.checkpoints, stored.size = checkpoint.size ∧ stored.rootHash ≠ checkpoint.rootHash)) ∨
    log.putCheckpoint checkpoint =
      (.ok (), { log with checkpoints := insertCheckpoint checkpoint log.checkpoints }) := by
  unfold putCheckpoint validateCheckpoint
  dsimp only
  by_cases hsize : log.size < checkpoint.size
  · rw [if_pos hsize]
    exact .inl ⟨_, rfl, .inl hsize⟩
  · rw [if_neg hsize]
    cases hfind : log.checkpoints.find? fun stored => stored.size = checkpoint.size with
    | none => exact .inr rfl
    | some stored =>
      have hmem := List.mem_of_find?_eq_some hfind
      have hstd : stored.size = checkpoint.size := by simpa using List.find?_some hfind
      by_cases hroot : stored.rootHash = checkpoint.rootHash
      · have hsame : ¬ stored.rootHash ≠ checkpoint.rootHash := fun hne => hne hroot
        rw [Option.map_some]
        dsimp only
        rw [if_neg hsame]
        exact .inr rfl
      · rw [Option.map_some]
        dsimp only
        rw [if_pos hroot]
        exact .inl ⟨_, rfl, .inr ⟨stored, hmem, hstd, hroot⟩⟩

/-- A prune drops bodies only. -/
theorem prune_eq (log : MemoryLog) (logId : String) (beforeSeq : Nat) :
    (log.prune logId beforeSeq).2.leaves = log.leaves ∧ (log.prune logId beforeSeq).2.nodes = log.nodes ∧
      (log.prune logId beforeSeq).2.checkpoints = log.checkpoints ∧
      ∀ (place : Nat) (entry : AuditLogEntry), (log.prune logId beforeSeq).2.entries[place]? = some entry →
        ∃ old, log.entries[place]? = some old ∧ (entry = old ∨ entry = { old with record := none }) := by
  unfold prune
  split
  next => exact ⟨rfl, rfl, rfl, fun place entry h => ⟨entry, h, .inl rfl⟩⟩
  next hle =>
    refine ⟨?_, rfl, rfl, fun place entry h => ?_⟩
    · unfold leaves
      rw [List.map_append, List.map_map]
      conv_rhs => rw [← List.take_append_drop beforeSeq log.entries, List.map_append]
      rfl
    · by_cases hlt : place < beforeSeq
      · have hlen : place < ((log.entries.take beforeSeq).map
            fun entry => ({ entry with record := none } : AuditLogEntry)).length := by
          rw [List.length_map, List.length_take]
          unfold size at hle
          omega
        have h : ((log.entries.take beforeSeq).map
            fun entry => ({ entry with record := none } : AuditLogEntry))[place]? = some entry :=
          (List.getElem?_append_left hlen).symm.trans h
        rw [List.getElem?_map, List.getElem?_take_of_lt hlt] at h
        obtain ⟨old, hold, rfl⟩ := Option.map_eq_some_iff.mp h
        exact ⟨old, hold, .inr rfl⟩
      · have hlen : ((log.entries.take beforeSeq).map
            fun entry => ({ entry with record := none } : AuditLogEntry)).length = beforeSeq := by
          rw [List.length_map, List.length_take]
          unfold size at hle
          omega
        refine ⟨entry, ?_, .inl rfl⟩
        have h := (List.getElem?_append_right (Nat.le_trans (Nat.le_of_eq hlen) (by omega))).symm.trans h
        rw [hlen, List.getElem?_drop, Nat.add_sub_cancel' (by omega)] at h
        exact h

end MemoryLog

end SignedAudit

end Adk
