import AdkRust.Store.Invisible

/-!
# Compressing a store that already holds checkpoints

`DeltaCheckpointer` over a store with checkpoints saved before it was put in front of the store: none
of them carries the tag of its type. Replaying and pruning take such a checkpoint for a snapshot;
`lastFull`, which finds where to start, does not.

* `reconstructState_untagged`: nothing is reconstructed at a checkpoint of the history.
* `dropIn_iff`: the checkpointer is a drop-in for exactly the stores without a checkpoint.
-/

namespace Adk
namespace DeltaCheckpointer

/-- No stored checkpoint carries a tag of the compression. -/
def Untagged (history : MemoryStore) : Prop :=
  ∀ t, ∀ cp ∈ history.list t, metaCheckpointType ∉ cp.metadata

def Run.saves (config : DeltaConfig) (history : MemoryStore) (cps : List Checkpoint) : Run :=
  Run.calls config { inner := history, plain := history } (cps.map .save)

/-- What was saved under an id: through the compression, or before. -/
def Run.original (history : MemoryStore) (r : Run) (checkpointId : String) : Option Checkpoint :=
  r.saved[checkpointId]?.or (history.loadById checkpointId)

/-- What a drop-in for the store promises after some saves. -/
structure DropIn (history : MemoryStore) (config : DeltaConfig) (r : Run) : Prop where
  /-- The newest checkpoint of each thread loads, as it was saved. -/
  load : ∀ t, ∃ found, DeltaCheckpointer.load r.inner t = .ok found ∧
    found.isSome = (r.inner.load t).isSome ∧
    ∀ loaded ∈ found, ∃ original, r.original history loaded.checkpointId = some original ∧
      Returns original loaded
  loadById : ∀ t, ∀ cp ∈ r.inner.list t, ∃ loaded original,
    DeltaCheckpointer.loadById r.inner cp.checkpointId = .ok (some loaded) ∧
      r.original history cp.checkpointId = some original ∧ Returns original loaded
  /-- Every checkpoint that the store takes can be saved. -/
  save : ∀ cp, (r.inner.save cp).isOk = true → (save config r.inner cp).isOk = true

variable {config : DeltaConfig} {history inner inner' : MemoryStore} {cp : Checkpoint}
  {checkpoints more : List Checkpoint} {r : Run}

/-- A save that is not refused stores one checkpoint. -/
theorem save_eq_ok (h : save config inner cp = .ok inner') : ∃ tagged, inner.save tagged = .ok inner' := by
  unfold save at h
  split at h
  · exact ⟨_, h⟩
  · split at h
    · obtain ⟨state, -, h⟩ := bind_eq_ok.mp h
      exact ⟨_, h⟩
    · exact ⟨_, h⟩

theorem calls_save (hv : r.inner.Valid) (cps : List Checkpoint) :
    (r.calls config (cps.map .save)).inner.Valid ∧
      ∀ t, ∃ more, (r.calls config (cps.map .save)).inner.list t = r.inner.list t ++ more := by
  induction cps generalizing r with
  | nil => exact ⟨hv, fun t => ⟨[], (List.append_nil _).symm⟩⟩
  | cons cp cps ih =>
    have hstep : (r.call config (.save cp)).inner.Valid ∧
        ∀ t, ∃ more, (r.call config (.save cp)).inner.list t = r.inner.list t ++ more := by
      cases hs : save config r.inner cp with
      | error error =>
        simp only [Run.call, hs]
        exact ⟨hv, fun t => ⟨[], (List.append_nil _).symm⟩⟩
      | ok inner =>
        simp only [Run.call, hs]
        obtain ⟨tagged, hsave⟩ := save_eq_ok hs
        refine ⟨hv.save hsave, fun t => ?_⟩
        obtain ⟨-, -, rfl⟩ := MemoryStore.save_eq_ok.mp hsave
        simp only [Run.accepted, MemoryStore.list_push]
        split
        · exact ⟨[tagged], rfl⟩
        · exact ⟨[], (List.append_nil _).symm⟩
    obtain ⟨hval, hlist⟩ := ih hstep.1
    refine ⟨hval, fun t => ?_⟩
    obtain ⟨first, hfst⟩ := hstep.2 t
    obtain ⟨rest, hrest⟩ := hlist t
    refine ⟨first ++ rest, ?_⟩
    rw [List.map_cons, Run.calls, List.foldl_cons, ← Run.calls, hrest, hfst, List.append_assoc]

/-- **Nothing is reconstructed at a checkpoint of the history**, whatever was saved after it. -/
theorem reconstructState_untagged (hasc : (checkpoints ++ more).Pairwise fun a b => a.version < b.version)
    (hu : ∀ cp ∈ checkpoints, metaCheckpointType ∉ cp.metadata) (hcp : cp ∈ checkpoints) :
    reconstructState (checkpoints ++ more) cp.version =
      .error (.checkpointError "No full snapshot found for state reconstruction") := by
  unfold reconstructState
  cases hfnd : lastFull cp.version (checkpoints ++ more) with
  | none => rfl
  | some found =>
    obtain ⟨before, hsp, hle, htype⟩ := lastFull_eq_some hfnd
    have hmem : found.1 ∈ checkpoints ++ more := by
      rw [hsp]
      simp
    rcases List.mem_append.mp hmem with hold | hnew
    · have hnone : checkpointType found.1 = none := by
        simp [checkpointType, Std.ExtTreeMap.getElem?_eq_none (hu _ hold)]
      rw [hnone] at htype
      cases htype
    · have := (List.pairwise_append.mp hasc).2.2 cp hcp found.1 hnew
      omega

theorem loadById_untagged {t : String} (hv : inner.Valid)
    (hlist : inner.list t = history.list t ++ more) (hu : Untagged history)
    (hcp : cp ∈ history.list t) :
    DeltaCheckpointer.loadById inner cp.checkpointId =
      .error (.checkpointError "No full snapshot found for state reconstruction") := by
  have hmem : cp ∈ inner.list t := by
    rw [hlist]
    exact List.mem_append_left _ hcp
  have hasc := hv.ascending t
  rw [hlist] at hasc
  unfold loadById
  rw [hv.loadById_eq_some.mpr ⟨t, hmem, rfl⟩]
  dsimp only
  rw [(hv.owned t cp hmem).1, hlist, reconstructState_untagged hasc (hu t) hcp]
  rfl

/-- A store without a checkpoint is compressed. -/
theorem Compressed.of_list_eq_nil (hv : inner.Valid) (h : ∀ t, inner.list t = []) :
    Compressed ∅ inner where
  valid := hv
  stored t := by simp [h]
  chain t := by
    rw [h]
    trivial

/-- **The checkpointer is a drop-in exactly when the store holds no checkpoint yet**, whatever is saved
through it. -/
theorem dropIn_iff (config : DeltaConfig) (hv : history.Valid) (hu : Untagged history)
    (cps : List Checkpoint) :
    DropIn history config (Run.saves config history cps) ↔ ∀ t, history.list t = [] := by
  constructor
  · intro h t
    obtain ⟨hvalid, hlist⟩ := @calls_save config { inner := history, plain := history } hv cps
    obtain ⟨more, hmore⟩ := hlist t
    by_contra hne
    obtain ⟨cp, hcp⟩ := List.exists_mem_of_ne_nil _ hne
    have hmem : cp ∈ (Run.saves config history cps).inner.list t := by
      rw [Run.saves, hmore]
      exact List.mem_append_left _ hcp
    obtain ⟨loaded, original, hload, -⟩ := h.loadById t cp hmem
    rw [Run.saves, loadById_untagged hvalid hmore hu hcp] at hload
    cases hload
  · intro hempty
    have hcompressed : Compressed (Run.saves config history cps).saved
        (Run.saves config history cps).inner :=
      @Compressed.calls config { inner := history, plain := history } (.of_list_eq_nil hv hempty) _
    have hsaved : ∀ {id : String} {original : Checkpoint},
        (Run.saves config history cps).saved[id]? = some original →
        (Run.saves config history cps).original history id = some original := by
      intro id original h
      rw [Run.original, h]
      rfl
    refine ⟨fun t => ?_, fun t cp hcp => ?_, fun cp hok => ?_⟩
    · obtain ⟨found, hload, hid, hret⟩ := hcompressed.load t
      refine ⟨found, hload, ?_, fun loaded hloaded => ?_⟩
      · have := congrArg Option.isSome hid
        simpa using this
      · obtain ⟨original, horiginal, hreturns⟩ := hret loaded hloaded
        exact ⟨original, hsaved horiginal, hreturns⟩
    · obtain ⟨loaded, original, hload, horiginal, hreturns⟩ := hcompressed.loads hcp
      exact ⟨loaded, original, hload, hsaved horiginal, hreturns⟩
    · by_contra hno
      obtain ⟨error, herror⟩ := exists_error_iff.mpr (Bool.eq_false_of_not_eq_true hno)
      rw [hcompressed.save_eq_error.mp herror] at hok
      cases hok

/-- A store to which one checkpoint was saved without the compression. -/
def plainHistory : MemoryStore := MemoryStore.push {} (mark "a" 0 1)

theorem plainHistory_valid : plainHistory.Valid := by
  refine MemoryStore.Valid.empty.save (MemoryStore.save_eq_ok.mpr ⟨⟨?_, ?_⟩, ?_, rfl⟩)
  · decide
  · rintro h ⟨⟩
  · decide +kernel

theorem plainHistory_untagged : Untagged plainHistory := by
  intro t cp hcp
  have hemp : ({} : MemoryStore).list t = [] := by simp [MemoryStore.list]
  rw [plainHistory, MemoryStore.list_push, hemp] at hcp
  split at hcp
  · rw [List.nil_append, List.mem_singleton] at hcp
    rw [hcp]
    decide +kernel
  · cases hcp

/-- A store with one checkpoint, to which a delta of it is saved. -/
theorem dropIn_iff_plainHistory :
    DropIn plainHistory {} (Run.saves {} plainHistory [mark "b" 1 2]) ↔
      ∀ t, plainHistory.list t = [] :=
  dropIn_iff {} plainHistory_valid plainHistory_untagged [mark "b" 1 2]

/-- **The checkpointer is not a drop-in for a store that holds a checkpoint**: it does not load. -/
theorem plainHistory_not_dropIn : ¬ ∀ (config : DeltaConfig) (history : MemoryStore)
    (cps : List Checkpoint), history.Valid → Untagged history →
      DropIn history config (Run.saves config history cps) := by
  intro h
  have hdrop := h {} plainHistory [] plainHistory_valid plainHistory_untagged
  obtain ⟨loaded, original, hload, -⟩ := hdrop.loadById "t" (mark "a" 0 1) (by decide +kernel)
  have hfails : (DeltaCheckpointer.loadById (Run.saves {} plainHistory []).inner
      (mark "a" 0 1).checkpointId).isOk = false := by
    decide +kernel
  rw [hload] at hfails
  cases hfails

end DeltaCheckpointer
end Adk
