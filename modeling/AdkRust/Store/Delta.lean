import AdkRust.Store.Memory
import Mathlib.Algebra.Group.Nat.Defs

/-!
# The delta-compressing checkpointer

`DeltaCheckpointer` stores a full snapshot of the state every few steps, and between two of them the
changes alone (`delta.rs`). It is modelled over an in-memory store.

* `MapDelta.apply_diff`: applying the changes between two states to the first gives the second.
* `Chain`: every stored checkpoint is a snapshot or changes its predecessor; what every call keeps.
* `reconstructState_chain`: a stored checkpoint's state comes back.
-/

namespace Adk

/-! ## Changes between two states -/

/-- The changes between two maps. -/
structure MapDelta where
  added : Dict Value
  removed : List String
  modified : Dict Value

namespace MapDelta

/-- Computes the changes from `old` to `new`. -/
def diff (old new : State) : MapDelta where
  added := new.filter fun key _ => !old.contains key
  removed := old.keys.filter fun key => !new.contains key
  modified := new.filter fun key value => old[key]?.any fun oldValue => decide (value ≠ oldValue)

def insertAll (base entries : State) : State :=
  entries.toList.foldl (fun result entry => result.insert entry.1 entry.2) base

/-- Applies changes to a map. -/
def apply (base : State) (delta : MapDelta) : State :=
  let result := delta.removed.foldl (fun result key => result.erase key) base
  insertAll (insertAll result delta.added) delta.modified

/-- The changes as JSON. -/
def toValue (delta : MapDelta) : Value :=
  .object [("added", .ofDictWith id delta.added), ("modified", .ofDictWith id delta.modified),
    ("removed", .ofStrings delta.removed)]

/-- The changes of a JSON object. -/
def fromValue (value : Value) : Option MapDelta := do
  let added ← (← value.get? "added").asDictWith some
  let removed ← (← value.get? "removed").asStrings
  let modified ← (← value.get? "modified").asDictWith some
  return { added, removed, modified }

@[simp] theorem fromValue_toValue (delta : MapDelta) : fromValue delta.toValue = some delta := by
  have hdict : ∀ d : Dict Value, (Value.ofDictWith id d).asDictWith some = some d :=
    Value.asDictWith_ofDictWith fun _ => rfl
  have hadd : delta.toValue.get? "added" = some (.ofDictWith id delta.added) := by
    simp [toValue, Value.get?, Value.asObject]
  have hmodified : delta.toValue.get? "modified" = some (.ofDictWith id delta.modified) := by
    simp [toValue, Value.get?, Value.asObject, List.lookup_cons]
  have hremoved : delta.toValue.get? "removed" = some (.ofStrings delta.removed) := by
    simp [toValue, Value.get?, Value.asObject, List.lookup_cons]
  simp [fromValue, hadd, hmodified, hremoved, hdict]

/-- **Applying the changes between two states to the first gives the second.** -/
theorem apply_diff (old new : State) : apply old (diff old new) = new := by
  refine Std.ExtTreeMap.ext_getElem? fun key => ?_
  simp only [apply, insertAll, Dict.getElem?_foldl_insert_toList, Dict.getElem?_foldl_erase, diff,
    Std.ExtTreeMap.getElem?_filter', List.mem_filter, Std.ExtTreeMap.mem_keys]
  cases hold : old[key]? with
  | none =>
    have hno : key ∉ old := by
      rw [Std.ExtTreeMap.mem_iff_isSome_getElem?, hold]
      simp
    have hno' : old.contains key = false := by
      rw [← Bool.not_eq_true, Std.ExtTreeMap.contains_iff_mem]
      exact hno
    cases hnew : new[key]? with
    | none => simp [hno]
    | some value => simp [hno']
  | some oldValue =>
    have hin : key ∈ old := by
      rw [Std.ExtTreeMap.mem_iff_isSome_getElem?, hold]
      rfl
    cases hnew : new[key]? with
    | none =>
      have hno : key ∉ new := by
        rw [Std.ExtTreeMap.mem_iff_isSome_getElem?, hnew]
        simp
      simp [hin, hno]
    | some value =>
      have hin' : key ∈ new := by
        rw [Std.ExtTreeMap.mem_iff_isSome_getElem?, hnew]
        rfl
      by_cases heq : value = oldValue
      · simp [hin, hin', heq]
      · simp [hin, heq]

end MapDelta

/-! ## The checkpointer -/

/-- How often a full snapshot is stored. -/
structure DeltaConfig where
  fullSnapshotInterval : Nat := 10

namespace DeltaCheckpointer

def metaCheckpointType : String := "__delta_ckpt_type"

def metaDeltaPayload : String := "__delta_ckpt_payload"

/-- Metadata key of the checkpoint a delta changes. -/
def metaBaseCheckpointId : String := "__delta_ckpt_base_id"

def typeFull : String := "full"

def typeDelta : String := "delta"

def checkpointType (cp : Checkpoint) : Option String := cp.metadata[metaCheckpointType]?.bind Value.asStr

variable (config : DeltaConfig)

def isFullSnapshotStep (step : Nat) : Bool :=
  step == 0 || step % 2 ^ 32 % config.fullSnapshotInterval == 0

/-- The nearest full snapshot at or below a version, and what was stored after it. -/
def lastFull (target : Nat) : List Checkpoint → Option (Checkpoint × List Checkpoint)
  | [] => none
  | cp :: rest =>
    match lastFull target rest with
    | some found => some found
    | none =>
      if cp.version ≤ target && checkpointType cp == some typeFull then some (cp, rest) else none

/-- The state of a checkpoint stored after `state`. A checkpoint without a type is a snapshot. -/
def replayOne (state : State) (cp : Checkpoint) : Except GraphError State :=
  if (checkpointType cp).getD typeFull = typeDelta then
    match cp.metadata[metaDeltaPayload]? with
    | none => .error (.checkpointError s!"Delta checkpoint at step {cp.step} missing payload")
    | some payload =>
      match MapDelta.fromValue payload with
      | none => .error (.checkpointError s!"Failed to deserialize delta at step {cp.step}")
      | some delta => .ok (MapDelta.apply state delta)
  else .ok cp.state

def replay (target : Nat) (state : State) : List Checkpoint → Except GraphError State
  | [] => .ok state
  | cp :: rest =>
    if target < cp.version then .ok state
    else do
      let state ← replayOne state cp
      replay target state rest

/-- Reconstructs the state at a version from the checkpoints of a thread, oldest first. -/
def reconstructState (checkpoints : List Checkpoint) (target : Nat) : Except GraphError State :=
  match lastFull target checkpoints with
  | none => .error (.checkpointError "No full snapshot found for state reconstruction")
  | some (base, rest) => replay target base.state rest

def fullCheckpoint (cp : Checkpoint) : Checkpoint :=
  { cp with metadata := cp.metadata.insert metaCheckpointType (.string typeFull) }

/-- The checkpoint as the changes to `previous`, without its state. -/
def deltaCheckpoint (cp previous : Checkpoint) (delta : MapDelta) : Checkpoint :=
  { cp with
    state := ∅
    metadata := ((cp.metadata.insert metaCheckpointType (.string typeDelta)).insert
      metaBaseCheckpointId (.string previous.checkpointId)).insert metaDeltaPayload delta.toValue }

/-- Saves a checkpoint, as a full snapshot or as the changes to the newest one. -/
def save (inner : MemoryStore) (cp : Checkpoint) : Except GraphError MemoryStore :=
  if isFullSnapshotStep config cp.step then inner.save (fullCheckpoint cp)
  else
    match (inner.list cp.threadId).getLast? with
    | some previous => do
      let state ← reconstructState (inner.list cp.threadId) previous.version
      inner.save (deltaCheckpoint cp previous (MapDelta.diff state cp.state))
    | none => inner.save (fullCheckpoint cp)

def load (inner : MemoryStore) (threadId : String) : Except GraphError (Option Checkpoint) :=
  match (inner.list threadId).getLast? with
  | none => .ok none
  | some latest => do
    let state ← reconstructState (inner.list threadId) latest.version
    return some { latest with state }

def loadById (inner : MemoryStore) (checkpointId : String) : Except GraphError (Option Checkpoint) :=
  match inner.loadById checkpointId with
  | none => .ok none
  | some cp => do
    let state ← reconstructState (inner.list cp.threadId) cp.version
    return some { cp with state }

def delete (inner : MemoryStore) (threadId : String) : MemoryStore := inner.delete threadId

/-- The version of the oldest checkpoint a policy keeps. -/
def oldestKept (expired : List String) (checkpoints : List Checkpoint) : Option Nat :=
  ((checkpoints.filter fun cp => !expired.contains cp.checkpointId).map (·.version)).min?

/-- The version of the newest snapshot at or before the oldest checkpoint that is kept. -/
def pruneBase (oldestKept : Nat) (checkpoints : List Checkpoint) : Nat :=
  ((checkpoints.filter fun cp =>
    decide (cp.version ≤ oldestKept) && checkpointType cp != some typeDelta).map (·.version)).max?.getD 0

/-- Removes what a policy discards, except what a retained delta is reconstructed from. -/
def prune (inner : MemoryStore) (now : Utc) (threadId : String) (policy : RetentionPolicy) :
    MemoryStore :=
  let checkpoints := inner.list threadId
  match oldestKept (policy.expired now checkpoints) checkpoints with
  | none => inner
  | some oldest =>
    let removable := checkpoints.filter fun cp => decide (cp.version < pruneBase oldest checkpoints)
    if removable.isEmpty then inner
    else inner.prune now threadId (.keepLast (checkpoints.length - removable.length))

/-! ## Every checkpoint changes its predecessor -/

/-- What was saved under the ids a store holds. -/
abbrev Saved : Type := Dict Checkpoint

def stateOf (saved : Saved) (cp : Checkpoint) : State :=
  (saved[cp.checkpointId]?.map (·.state)).getD ∅

/-- A stored checkpoint is a snapshot of a state, or changes the one before it into the state. -/
def Encodes (previous : Option State) (cp : Checkpoint) (state : State) : Prop :=
  checkpointType cp = some typeFull ∧ cp.state = state ∨
    checkpointType cp = some typeDelta ∧ ∃ before delta, previous = some before ∧
      cp.metadata[metaDeltaPayload]? = some (MapDelta.toValue delta) ∧ delta.apply before = state

def Chain (saved : Saved) : Option State → List Checkpoint → Prop
  | _, [] => True
  | previous, cp :: rest =>
    Encodes previous cp (stateOf saved cp) ∧ Chain saved (some (stateOf saved cp)) rest

variable {saved saved' : Saved} {previous : Option State} {checkpoints : List Checkpoint}
  {cp : Checkpoint} {target : Nat} {state : State}

def stateAfter (saved : Saved) (previous : Option State) (checkpoints : List Checkpoint) : Option State :=
  (checkpoints.getLast?.map (stateOf saved)).or previous

theorem chain_append {more : List Checkpoint} :
    Chain saved previous (checkpoints ++ more) ↔
      Chain saved previous checkpoints ∧ Chain saved (stateAfter saved previous checkpoints) more := by
  induction checkpoints generalizing previous with
  | nil => simp [Chain, stateAfter]
  | cons cp rest ih =>
    have hlast : stateAfter saved (some (stateOf saved cp)) rest = stateAfter saved previous (cp :: rest) := by
      cases rest with
      | nil => simp [stateAfter]
      | cons cp' rest =>
        rw [stateAfter, stateAfter, List.getLast?_cons_cons]
        cases hl : (cp' :: rest).getLast? with
        | none => simp at hl
        | some last => rfl
    rw [List.cons_append, Chain, Chain, ih, hlast, and_assoc]

/-- Only what was saved under the ids of the checkpoints matters. -/
theorem Chain.congr (h : Chain saved previous checkpoints)
    (hs : ∀ cp ∈ checkpoints, saved'[cp.checkpointId]? = saved[cp.checkpointId]?) :
    Chain saved' previous checkpoints := by
  induction checkpoints generalizing previous with
  | nil => trivial
  | cons cp rest ih =>
    have hcp : stateOf saved' cp = stateOf saved cp := by
      unfold stateOf
      rw [hs cp (by simp)]
    obtain ⟨he, hrest⟩ := h
    rw [Chain, hcp]
    exact ⟨he, ih hrest fun d hd => hs d (by simp [hd])⟩

/-! ## Reconstruction -/

theorem replayOne_encodes {before : State} (h : Encodes (some before) cp state) :
    replayOne before cp = .ok state := by
  unfold replayOne
  rcases h with ⟨htype, rfl⟩ | ⟨htype, before', delta, hbef, hpayload, rfl⟩
  · rw [htype, if_neg (by decide)]
  · cases hbef
    rw [htype, hpayload, if_pos (by rfl)]
    simp

theorem replay_newer (h : ∀ cp ∈ checkpoints, target < cp.version) :
    replay target state checkpoints = .ok state := by
  cases checkpoints with
  | nil => rfl
  | cons cp rest => rw [replay, if_pos (h cp (by simp))]

theorem replay_chain (h : Chain saved (some state) checkpoints)
    (hasc : checkpoints.Pairwise fun a b => a.version < b.version) (hcp : cp ∈ checkpoints) :
    replay cp.version state checkpoints = .ok (stateOf saved cp) := by
  induction checkpoints generalizing state with
  | nil => cases hcp
  | cons d rest ih =>
    obtain ⟨he, hrest⟩ := h
    obtain ⟨hlt, hasc⟩ := List.pairwise_cons.mp hasc
    rw [replay]
    rcases List.mem_cons.mp hcp with rfl | hcp
    · rw [if_neg (Nat.lt_irrefl _), replayOne_encodes he]
      exact replay_newer hlt
    · rw [if_neg (Nat.not_lt.mpr (Nat.le_of_lt (hlt cp hcp))), replayOne_encodes he]
      exact ih hrest hasc hcp

theorem lastFull_eq_some {found : Checkpoint × List Checkpoint}
    (h : lastFull target checkpoints = some found) :
    ∃ before, checkpoints = before ++ found.1 :: found.2 ∧ found.1.version ≤ target ∧
      checkpointType found.1 = some typeFull := by
  induction checkpoints with
  | nil => cases h
  | cons d rest ih =>
    rw [lastFull] at h
    split at h
    · rename_i heq
      cases h
      obtain ⟨before, rfl, hle, htype⟩ := ih heq
      exact ⟨d :: before, rfl, hle, htype⟩
    · split at h
      · rename_i hd
        cases h
        simp only [Bool.and_eq_true, decide_eq_true_eq, beq_iff_eq] at hd
        exact ⟨[], rfl, hd⟩
      · cases h

/-- There is a nearest full snapshot when there is a full snapshot at or below the target. -/
theorem lastFull_isSome (hcp : cp ∈ checkpoints) (hle : cp.version ≤ target)
    (htype : checkpointType cp = some typeFull) : (lastFull target checkpoints).isSome := by
  induction checkpoints with
  | nil => cases hcp
  | cons d rest ih =>
    rw [lastFull]
    split
    · rfl
    · rename_i hnone
      rcases List.mem_cons.mp hcp with rfl | hcp
      · simp [hle, htype]
      · rw [hnone] at ih
        simpa using ih hcp

theorem Chain.head_full {rest : List Checkpoint} (h : Chain saved none (cp :: rest)) :
    checkpointType cp = some typeFull := by
  obtain ⟨⟨htype, -⟩ | ⟨-, before, delta, hbef, -⟩, -⟩ := h
  · exact htype
  · cases hbef

/-- **The state of every stored checkpoint comes back.** -/
theorem reconstructState_chain (h : Chain saved none checkpoints)
    (hasc : checkpoints.Pairwise fun a b => a.version < b.version) (hcp : cp ∈ checkpoints) :
    reconstructState checkpoints cp.version = .ok (stateOf saved cp) := by
  obtain ⟨first, rest, rfl⟩ := List.exists_cons_of_ne_nil (List.ne_nil_of_mem hcp)
  have hfst : first.version ≤ cp.version := by
    rcases List.mem_cons.mp hcp with rfl | hcp
    · exact Nat.le_refl _
    · exact Nat.le_of_lt ((List.pairwise_cons.mp hasc).1 cp hcp)
  have hmem : first ∈ first :: rest := List.mem_cons_self
  have hsome := lastFull_isSome hmem hfst h.head_full
  obtain ⟨⟨base, after⟩, hfnd⟩ := Option.isSome_iff_exists.mp hsome
  obtain ⟨before, hsp, hle, htype⟩ := lastFull_eq_some hfnd
  have hle : base.version ≤ cp.version := hle
  rw [reconstructState, hfnd]
  rw [hsp] at h hasc hcp
  obtain ⟨-, ⟨he, haft⟩⟩ := chain_append.mp h
  have hbase : base.state = stateOf saved base := by
    rcases he with ⟨-, hst⟩ | ⟨hdel, -⟩
    · exact hst
    · rw [htype] at hdel
      exact absurd hdel (by decide)
  obtain ⟨-, hascBase, hlt⟩ := List.pairwise_append.mp hasc
  obtain ⟨hltAfter, hascAfter⟩ := List.pairwise_cons.mp hascBase
  dsimp only
  rw [hbase]
  rcases List.mem_append.mp hcp with hcp | hcp
  · have := hlt cp hcp base (by simp)
    omega
  · rcases List.mem_cons.mp hcp with rfl | hcp
    · exact replay_newer hltAfter
    · exact replay_chain haft hascAfter hcp

/-! ## What every call keeps -/

/-- A loaded checkpoint is the one that was saved, but for the tags of the compression. -/
structure Returns (saved loaded : Checkpoint) : Prop where
  data : { loaded with metadata := saved.metadata } = saved
  metadata : ∀ key : String, key ∉ [metaCheckpointType, metaBaseCheckpointId, metaDeltaPayload] →
    loaded.metadata[key]? = saved.metadata[key]?

/-- What holds of a store that every checkpoint was saved to through the compression. -/
structure Compressed (saved : Saved) (inner : MemoryStore) : Prop where
  valid : inner.Valid
  stored : ∀ thread, ∀ cp ∈ inner.list thread, ∃ original, saved[cp.checkpointId]? = some original ∧
    Returns original { cp with state := original.state }
  chain : ∀ thread, Chain saved none (inner.list thread)

variable {config : DeltaConfig} {inner inner' : MemoryStore}

theorem Compressed.empty : Compressed ∅ {} where
  valid := .empty
  stored thread := by simp [MemoryStore.list]
  chain thread := by simp [MemoryStore.list, Chain]

theorem fullCheckpoint_returns (cp : Checkpoint) : Returns cp (fullCheckpoint cp) where
  data := rfl
  metadata key hkey := by
    have hne : metaCheckpointType ≠ key := by rintro rfl; simp at hkey
    simp [fullCheckpoint, Std.ExtTreeMap.getElem?_insert, hne]

theorem deltaCheckpoint_returns (cp previous : Checkpoint) (delta : MapDelta) :
    Returns cp { deltaCheckpoint cp previous delta with state := cp.state } where
  data := rfl
  metadata key hkey := by
    have h₁ : metaCheckpointType ≠ key := by rintro rfl; simp at hkey
    have h₂ : metaBaseCheckpointId ≠ key := by rintro rfl; simp at hkey
    have h₃ : metaDeltaPayload ≠ key := by rintro rfl; simp at hkey
    simp [deltaCheckpoint, Std.ExtTreeMap.getElem?_insert, h₁, h₂, h₃]

theorem fullCheckpoint_type (cp : Checkpoint) : checkpointType (fullCheckpoint cp) = some typeFull := by
  simp [checkpointType, fullCheckpoint, Value.asStr]

theorem deltaCheckpoint_type (cp previous : Checkpoint) (delta : MapDelta) :
    checkpointType (deltaCheckpoint cp previous delta) = some typeDelta := by
  have h₁ : compare metaDeltaPayload metaCheckpointType ≠ .eq := by decide
  have h₂ : compare metaBaseCheckpointId metaCheckpointType ≠ .eq := by decide
  unfold checkpointType deltaCheckpoint
  rw [Std.ExtTreeMap.getElem?_insert, if_neg h₁, Std.ExtTreeMap.getElem?_insert, if_neg h₂,
    Std.ExtTreeMap.getElem?_insert_self]
  rfl

theorem save_eq_error {cp' : Checkpoint} (ht : cp'.threadId = cp.threadId)
    (hv : cp'.version = cp.version) (hid : cp'.checkpointId = cp.checkpointId) {error : GraphError} :
    inner.save cp' = .error error ↔ inner.save cp = .error error := by
  have hnewer : ∀ head, ensureNewer cp' head = ensureNewer cp head := by
    intro head
    simp only [ensureNewer, conflict, ht, hv, hid]
  simp only [MemoryStore.save, hnewer, ht, hid]
  cases ensureNewer cp ((inner.load cp.threadId).map (·.version)) with
  | error e => rfl
  | ok u =>
    simp only [bind, Except.bind]
    split
    · rfl
    · simp [pure, Except.pure]

theorem Compressed.save_eq (h : Compressed saved inner) (cp : Checkpoint) :
    ∃ tagged, save config inner cp = inner.save tagged ∧
      Returns cp { tagged with state := cp.state } ∧
      Encodes (stateAfter saved none (inner.list cp.threadId)) tagged cp.state := by
  have hfull : Encodes (stateAfter saved none (inner.list cp.threadId)) (fullCheckpoint cp) cp.state :=
    .inl ⟨fullCheckpoint_type cp, rfl⟩
  unfold save
  by_cases hstep : isFullSnapshotStep config cp.step = true
  · rw [if_pos hstep]
    exact ⟨_, rfl, fullCheckpoint_returns cp, hfull⟩
  · rw [if_neg hstep]
    cases hlast : (inner.list cp.threadId).getLast? with
    | none => exact ⟨_, rfl, fullCheckpoint_returns cp, by simpa [hlast] using hfull⟩
    | some previous =>
      have hmem : previous ∈ inner.list cp.threadId := List.mem_of_getLast? hlast
      have hrec := reconstructState_chain (h.chain cp.threadId) (h.valid.ascending _) hmem
      refine ⟨deltaCheckpoint cp previous (MapDelta.diff (stateOf saved previous) cp.state), ?_,
        deltaCheckpoint_returns cp previous _, .inr ⟨deltaCheckpoint_type cp previous _, ?_⟩⟩
      · simp only [hrec]
        rfl
      · refine ⟨stateOf saved previous, _, ?_, ?_, MapDelta.apply_diff _ _⟩
        · simp [stateAfter, hlast]
        · simp [deltaCheckpoint]

/-- **A save is refused exactly when the inner store refuses the checkpoint as it is.** -/
theorem Compressed.save_eq_error (h : Compressed saved inner) {error : GraphError} :
    save config inner cp = .error error ↔ inner.save cp = .error error := by
  obtain ⟨tagged, heq, hret, -⟩ := @Compressed.save_eq saved config inner h cp
  rw [heq]
  have hdata := hret.data
  exact DeltaCheckpointer.save_eq_error (congrArg (·.threadId) hdata) (congrArg (·.version) hdata)
    (congrArg (·.checkpointId) hdata)

theorem Compressed.save (h : Compressed saved inner)
    (hs : DeltaCheckpointer.save config inner cp = .ok inner') :
    Compressed (saved.insert cp.checkpointId cp) inner' := by
  obtain ⟨tagged, heq, hret, henc⟩ := @Compressed.save_eq saved config inner h cp
  rw [heq] at hs
  have hthr : tagged.threadId = cp.threadId := congrArg (·.threadId) hret.data
  have hid : tagged.checkpointId = cp.checkpointId := congrArg (·.checkpointId) hret.data
  obtain ⟨-, hnew, rfl⟩ := MemoryStore.save_eq_ok.mp hs
  rw [hid] at hnew
  have hoth : ∀ thread, ∀ d ∈ inner.list thread,
      (saved.insert cp.checkpointId cp)[d.checkpointId]? = saved[d.checkpointId]? := by
    intro thread d hd
    have hne : cp.checkpointId ≠ d.checkpointId := by
      intro heq
      have howned := (h.valid.owned thread d hd).2
      rw [← heq] at howned
      exact hnew (Std.ExtTreeMap.mem_iff_isSome_getElem?.mpr (by simp [howned]))
    simp [Std.ExtTreeMap.getElem?_insert, hne]
  have hself : (saved.insert cp.checkpointId cp)[tagged.checkpointId]? = some cp := by simp [hid]
  refine ⟨h.valid.save hs, fun thread d hd => ?_, fun thread => ?_⟩
  · rw [MemoryStore.list_push] at hd
    have hold : d ∈ inner.list thread → ∃ original,
        (saved.insert cp.checkpointId cp)[d.checkpointId]? = some original ∧
          Returns original { d with state := original.state } := by
      intro hd
      rw [hoth thread d hd]
      exact h.stored thread d hd
    split at hd
    · rcases List.mem_append.mp hd with hd | hd
      · exact hold hd
      · rw [List.mem_singleton.mp hd]
        exact ⟨cp, hself, hret⟩
    · exact hold hd
  · rw [MemoryStore.list_push]
    have hchn := (h.chain thread).congr (hoth thread)
    split
    · rename_i heq
      refine chain_append.mpr ⟨hchn, ?_, trivial⟩
      have hst : stateOf (saved.insert cp.checkpointId cp) tagged = cp.state := by
        unfold stateOf
        rw [hself]
        rfl
      have haft : stateAfter (saved.insert cp.checkpointId cp) none (inner.list thread) =
          stateAfter saved none (inner.list thread) := by
        unfold stateAfter
        cases hl : (inner.list thread).getLast? with
        | none => rfl
        | some last =>
          have hlast : stateOf (saved.insert cp.checkpointId cp) last = stateOf saved last := by
            unfold stateOf
            rw [hoth thread last (List.mem_of_getLast? hl)]
          simp [hlast]
      rw [hst, haft, ← heq, hthr]
      exact henc
    · exact hchn

/-- **Every load succeeds**, with what was saved under the id of the checkpoint it finds. -/
theorem Compressed.load (h : Compressed saved inner) (thread : String) :
    ∃ found, DeltaCheckpointer.load inner thread = .ok found ∧
      (found.map (·.checkpointId) = (inner.load thread).map (·.checkpointId)) ∧
      ∀ loaded ∈ found, ∃ original, saved[loaded.checkpointId]? = some original ∧
        Returns original loaded := by
  unfold DeltaCheckpointer.load MemoryStore.load
  cases hlast : (inner.list thread).getLast? with
  | none => exact ⟨none, rfl, rfl, by simp⟩
  | some latest =>
    have hmem : latest ∈ inner.list thread := List.mem_of_getLast? hlast
    obtain ⟨original, hsav, hret⟩ := h.stored thread latest hmem
    have hrec := reconstructState_chain (h.chain thread) (h.valid.ascending thread) hmem
    have hst : stateOf saved latest = original.state := by
      unfold stateOf
      rw [hsav]
      rfl
    rw [hst] at hrec
    refine ⟨some { latest with state := original.state }, ?_, rfl, ?_⟩
    · simp only [hrec]
      rfl
    · intro loaded hloaded
      cases hloaded
      exact ⟨original, hsav, hret⟩

/-- **Every id that is stored loads**, with what was saved under it. -/
theorem Compressed.loadById (h : Compressed saved inner) (id : String) :
    ∃ found, DeltaCheckpointer.loadById inner id = .ok found ∧ (found.isSome ↔ id ∈ inner.ids) ∧
      ∀ loaded ∈ found, ∃ original, saved[id]? = some original ∧ Returns original loaded := by
  unfold DeltaCheckpointer.loadById
  cases hfind : inner.loadById id with
  | none =>
    refine ⟨none, rfl, ?_, by simp⟩
    refine ⟨by simp, fun hmem => ?_⟩
    obtain ⟨thread, hthr⟩ := Option.isSome_iff_exists.mp
      (Std.ExtTreeMap.mem_iff_isSome_getElem?.mp hmem)
    obtain ⟨d, hd, hid⟩ := h.valid.listed id thread hthr
    rw [h.valid.loadById_eq_some.mpr ⟨thread, hd, hid⟩] at hfind
    cases hfind
  | some cp =>
    obtain ⟨thread, hmem, hid⟩ := h.valid.loadById_eq_some.mp hfind
    obtain ⟨hthr, hids⟩ := h.valid.owned thread cp hmem
    obtain ⟨original, hsav, hret⟩ := h.stored thread cp hmem
    have hrec := reconstructState_chain (h.chain thread) (h.valid.ascending thread) hmem
    have hst : stateOf saved cp = original.state := by
      unfold stateOf
      rw [hsav]
      rfl
    rw [hst] at hrec
    refine ⟨some { cp with state := original.state }, ?_, ?_, ?_⟩
    · simp only [hthr, hrec]
      rfl
    · simp [← hid, Std.ExtTreeMap.mem_iff_isSome_getElem?, hids]
    · intro loaded hloaded
      cases hloaded
      exact ⟨original, hid ▸ hsav, hret⟩

/-! ## Removing checkpoints -/

/-- What is at or above a version, of checkpoints oldest first, is what follows the ones below. -/
theorem filter_version_eq_drop (hasc : checkpoints.Pairwise fun a b => a.version < b.version)
    (base : Nat) : checkpoints.filter (fun cp => decide (base ≤ cp.version)) =
      checkpoints.drop (checkpoints.filter fun cp => decide (cp.version < base)).length := by
  induction checkpoints with
  | nil => rfl
  | cons cp rest ih =>
    obtain ⟨hlt, hasc⟩ := List.pairwise_cons.mp hasc
    by_cases h : cp.version < base
    · have hno : ¬ base ≤ cp.version := by omega
      simp [h, hno, ih hasc]
    · have hle : base ≤ cp.version := by omega
      have hall : ∀ d ∈ rest, base ≤ d.version := fun d hd => by
        have := hlt d hd
        omega
      have hnone : rest.filter (fun d => decide (d.version < base)) = [] :=
        List.filter_eq_nil_iff.mpr fun d hd => by simpa using hall d hd
      have hself : rest.filter (fun d => decide (base ≤ d.version)) = rest :=
        List.filter_eq_self.mpr fun d hd => by simpa using hall d hd
      simp [h, hle, hnone, hself]

/-- Of a thread what is left is from a version on: from a snapshot on, no newer than what is kept. -/
structure PrunedTo (inner inner' : MemoryStore) (thread : String) (expired : List String) (base : Nat) :
    Prop where
  list : ∀ t, inner'.list t =
    if thread = t then (inner.list t).filter fun cp => decide (base ≤ cp.version) else inner.list t
  kept : ∀ cp ∈ inner.list thread, cp.checkpointId ∉ expired → base ≤ cp.version
  snapshot : (∀ cp ∈ inner.list thread, base ≤ cp.version) ∨
    ∃ cp ∈ inner.list thread, cp.version = base ∧ checkpointType cp ≠ some typeDelta

variable {now : Utc} {thread : String} {policy : RetentionPolicy} {expired : List String}

theorem PrunedTo.refl : PrunedTo inner inner thread expired 0 where
  list t := by simp
  kept cp _ _ := Nat.zero_le _
  snapshot := .inl fun cp _ => Nat.zero_le _

theorem oldestKept_le {oldest : Nat} (h : oldestKept expired checkpoints = some oldest)
    (hcp : cp ∈ checkpoints) (hkept : cp.checkpointId ∉ expired) : oldest ≤ cp.version := by
  refine (List.min?_eq_some_iff.mp h).2 _ (List.mem_map_of_mem (List.mem_filter.mpr ⟨hcp, ?_⟩))
  simpa using hkept

/-- What pruning starts from is a snapshot no newer than the oldest checkpoint that is kept. -/
theorem pruneBase_eq {oldest : Nat} : pruneBase oldest checkpoints = 0 ∨
    pruneBase oldest checkpoints ≤ oldest ∧
      ∃ cp ∈ checkpoints, cp.version = pruneBase oldest checkpoints ∧
        checkpointType cp ≠ some typeDelta := by
  unfold pruneBase
  generalize hmax : ((checkpoints.filter fun cp =>
    decide (cp.version ≤ oldest) && checkpointType cp != some typeDelta).map (·.version)).max? = max
  cases max with
  | none => exact .inl rfl
  | some base =>
    obtain ⟨cp, hcp, rfl⟩ := List.mem_map.mp (List.max?_eq_some_iff.mp hmax).1
    obtain ⟨hcp, hp⟩ := List.mem_filter.mp hcp
    simp only [Bool.and_eq_true, decide_eq_true_eq, bne_iff_ne] at hp
    exact .inr ⟨hp.1, cp, hcp, rfl, hp.2⟩

/-- **Pruning leaves every checkpoint that is kept**, and the snapshot the oldest is rebuilt from. -/
theorem prunedTo_prune (hv : inner.Valid) : ∃ base, PrunedTo inner (prune inner now thread policy)
    thread (policy.expired now (inner.list thread)) base := by
  cases hold : oldestKept (policy.expired now (inner.list thread)) (inner.list thread) with
  | none =>
    have heq : prune inner now thread policy = inner := by simp [prune, hold]
    exact ⟨0, by rw [heq]; exact .refl⟩
  | some oldest =>
    by_cases hemp : ((inner.list thread).filter fun cp =>
        decide (cp.version < pruneBase oldest (inner.list thread))).isEmpty = true
    · have heq : prune inner now thread policy = inner := by simp only [prune, hold, if_pos hemp]
      exact ⟨0, by rw [heq]; exact .refl⟩
    · rcases @pruneBase_eq (inner.list thread) oldest with hzero | ⟨hle, cp, hcp, hbase, htype⟩
      · simp [hzero] at hemp
      · refine ⟨pruneBase oldest (inner.list thread), fun t => ?_,
          fun d hd hkept => Nat.le_trans hle (oldestKept_le hold hd hkept),
          .inr ⟨cp, hcp, hbase, htype⟩⟩
        have hdrop := filter_version_eq_drop (hv.ascending thread) (pruneBase oldest (inner.list thread))
        have hmem : cp ∈ (inner.list thread).filter
            fun d => decide (pruneBase oldest (inner.list thread) ≤ d.version) :=
          List.mem_filter.mpr ⟨hcp, by simp [hbase]⟩
        have hlen := List.length_filter_le
          (fun d => decide (d.version < pruneBase oldest (inner.list thread))) (inner.list thread)
        rw [hdrop] at hmem
        have hpos := List.length_pos_of_mem hmem
        rw [List.length_drop] at hpos
        simp only [prune, hold, if_neg hemp]
        split
        · rename_i heq
          subst heq
          rw [hv.prune_keepLast_list hpos, hdrop]
          congr 1
          omega
        · rename_i hne
          rw [MemoryStore.prune_list, if_neg hne]

theorem valid_prune (hv : inner.Valid) : (prune inner now thread policy).Valid := by
  unfold prune
  dsimp only
  split
  · exact hv
  · split
    · exact hv
    · exact hv.prune

/-- What follows a snapshot does not depend on what came before it. -/
theorem Chain.restart (h : Chain saved previous (cp :: checkpoints))
    (htype : checkpointType cp ≠ some typeDelta) : Chain saved none (cp :: checkpoints) := by
  obtain ⟨hfull | ⟨hdel, -⟩, hrest⟩ := h
  · exact ⟨.inl hfull, hrest⟩
  · exact absurd hdel htype

/-- Pruning keeps the store compressed: the first checkpoint that is left is a snapshot. -/
theorem Compressed.prune (h : Compressed saved inner) :
    Compressed saved (DeltaCheckpointer.prune inner now thread policy) := by
  obtain ⟨base, hlist, -, hbase⟩ := @prunedTo_prune inner now thread policy h.valid
  refine ⟨valid_prune h.valid, fun t d hd => h.stored t d ?_, fun t => ?_⟩
  · rw [hlist] at hd
    split at hd
    · exact (List.mem_filter.mp hd).1
    · exact hd
  · rw [hlist]
    split
    · rename_i heq
      subst heq
      have hasc := h.valid.ascending thread
      rcases hbase with hall | ⟨cp, hcp, rfl, htype⟩
      · rw [List.filter_eq_self.mpr fun d hd => by simpa using hall d hd]
        exact h.chain thread
      · have hmem : cp ∈ (inner.list thread).filter fun d => decide (cp.version ≤ d.version) :=
          List.mem_filter.mpr ⟨hcp, by simp⟩
        have hsub : ((inner.list thread).filter fun d => decide (cp.version ≤ d.version)).Pairwise
            fun a b => a.version < b.version := hasc.sublist List.filter_sublist
        have hdrop := filter_version_eq_drop hasc cp.version
        have hchn := h.chain thread
        rw [← List.take_append_drop ((inner.list thread).filter
          fun d => decide (d.version < cp.version)).length (inner.list thread), ← hdrop] at hchn
        have haft := (chain_append.mp hchn).2
        generalize hrest : (inner.list thread).filter (fun d => decide (cp.version ≤ d.version)) = rest
          at hmem hsub haft
        cases rest with
        | nil => cases hmem
        | cons first rest =>
          refine haft.restart ?_
          have hfst : cp.version ≤ first.version := by
            have hin : first ∈ (inner.list thread).filter fun d => decide (cp.version ≤ d.version) := by
              rw [hrest]
              simp
            simpa using (List.mem_filter.mp hin).2
          rcases List.mem_cons.mp hmem with rfl | hin
          · exact htype
          · have := (List.pairwise_cons.mp hsub).1 cp hin
            omega
    · exact h.chain t

theorem Compressed.delete (h : Compressed saved inner) :
    Compressed saved (DeltaCheckpointer.delete inner thread) := by
  have hlist : ∀ t, (DeltaCheckpointer.delete inner thread).list t =
      if thread = t then [] else inner.list t := inner.delete_list
  refine ⟨h.valid.delete, fun t d hd => ?_, fun t => ?_⟩
  · rw [hlist] at hd
    split at hd
    · cases hd
    · exact h.stored t d hd
  · rw [hlist]
    split
    · trivial
    · exact h.chain t

end DeltaCheckpointer

end Adk
