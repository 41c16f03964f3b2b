import AdkRust.Graph.Arrivals
import AdkRust.Store.Delta

/-!
# Delta compression is invisible

Calls on a `DeltaCheckpointer` over an in-memory store, beside the same calls on a plain in-memory
store.

* `Run.call`: one call on both.
* `compression_invisible`: after any calls every load succeeds and returns what was saved, saves are
  refused as a plain store refuses them, and pruning leaves what the policy keeps.
* `pruned_id_refused`: an id the policy discards may stay stored as the base of a delta, so that it is
  refused where the plain store would take it again.
-/

namespace Adk
namespace DeltaCheckpointer

inductive Call where
  | save (cp : Checkpoint)
  | load (threadId : String)
  | loadById (checkpointId : String)
  | prune (now : Utc) (threadId : String) (policy : RetentionPolicy)
  | delete (threadId : String)

/-- The store under the compression, what was saved to it under each id, and a plain store. -/
structure Run where
  inner : MemoryStore := {}
  saved : Saved := ∅
  plain : MemoryStore := {}

namespace Run

variable (config : DeltaConfig)

def accepted (before : MemoryStore) : Except GraphError MemoryStore → MemoryStore
  | .ok after => after
  | .error _ => before

/-- A call on the compressed and on the plain store. A refused save changes nothing. -/
def call (r : Run) : Call → Run
  | .save cp =>
    { inner := accepted r.inner (DeltaCheckpointer.save config r.inner cp)
      saved := match DeltaCheckpointer.save config r.inner cp with
        | .ok _ => r.saved.insert cp.checkpointId cp
        | .error _ => r.saved
      plain := accepted r.plain (r.plain.save cp) }
  | .load _ => r
  | .loadById _ => r
  | .prune now threadId policy =>
    { r with
      inner := DeltaCheckpointer.prune r.inner now threadId policy
      plain := r.plain.prune now threadId policy }
  | .delete threadId =>
    { r with
      inner := DeltaCheckpointer.delete r.inner threadId
      plain := r.plain.delete threadId }

/-- Calls one after the other. -/
def calls (r : Run) (cs : List Call) : Run := cs.foldl (call config) r

/-- Every id is saved while both stores hold it or neither does. -/
def SameIds (r : Run) : List Call → Prop
  | [] => True
  | c :: cs =>
    (∀ cp, c = .save cp → (cp.checkpointId ∈ r.inner.ids ↔ cp.checkpointId ∈ r.plain.ids)) ∧
      SameIds (r.call config c) cs

end Run

/-- What a caller of the checkpointer can tell. -/
structure Invisible (config : DeltaConfig) (r : Run) : Prop where
  /-- Loading the newest checkpoint succeeds and returns what was saved under its id. -/
  load : ∀ thread, ∃ found, DeltaCheckpointer.load r.inner thread = .ok found ∧
    found.map (·.checkpointId) = (r.inner.load thread).map (·.checkpointId) ∧
    ∀ loaded ∈ found, ∃ original, r.saved[loaded.checkpointId]? = some original ∧
      Returns original loaded
  loadById : ∀ id, ∃ found, DeltaCheckpointer.loadById r.inner id = .ok found ∧
    (found.isSome ↔ id ∈ r.inner.ids) ∧
    ∀ loaded ∈ found, ∃ original, r.saved[id]? = some original ∧ Returns original loaded
  /-- A save is refused exactly when an in-memory store with these checkpoints refuses it. -/
  refused : ∀ cp error, save config r.inner cp = .error error ↔ r.inner.save cp = .error error
  /-- Pruning leaves what the policy keeps, and what it leaves loads. -/
  pruned : ∀ now thread policy, let after := DeltaCheckpointer.prune r.inner now thread policy
    (∀ t, ∀ cp ∈ r.inner.list t,
      (t = thread → cp.checkpointId ∉ policy.expired now (r.inner.list thread)) →
        cp ∈ after.list t) ∧
    ∀ t, ∀ cp ∈ after.list t, ∃ loaded original,
      DeltaCheckpointer.loadById after cp.checkpointId = .ok (some loaded) ∧
        r.saved[cp.checkpointId]? = some original ∧ Returns original loaded

variable {config : DeltaConfig} {r : Run} {saved : Saved} {inner : MemoryStore} {cp : Checkpoint}

theorem Compressed.loads (h : Compressed saved inner) {t : String} (hcp : cp ∈ inner.list t) :
    ∃ loaded original, DeltaCheckpointer.loadById inner cp.checkpointId = .ok (some loaded) ∧
      saved[cp.checkpointId]? = some original ∧ Returns original loaded := by
  obtain ⟨found, hload, hsome, hret⟩ := h.loadById cp.checkpointId
  have hid : cp.checkpointId ∈ inner.ids := by
    rw [Std.ExtTreeMap.mem_iff_isSome_getElem?, (h.valid.owned t cp hcp).2]
    rfl
  obtain ⟨loaded, rfl⟩ := Option.isSome_iff_exists.mp (hsome.mpr hid)
  obtain ⟨original, hsav, hret⟩ := hret loaded rfl
  exact ⟨loaded, original, hload, hsav, hret⟩

theorem Compressed.invisible (h : Compressed r.saved r.inner) : Invisible config r where
  load := h.load
  loadById := h.loadById
  refused cp error := h.save_eq_error
  pruned now thread policy := by
    refine ⟨fun t cp hcp hkept => ?_, fun t cp hcp => h.prune.loads hcp⟩
    obtain ⟨base, hlist, hle, -⟩ := @prunedTo_prune r.inner now thread policy h.valid
    rw [hlist]
    split
    · rename_i heq
      subst heq
      exact List.mem_filter.mpr ⟨hcp, by simpa using hle cp hcp (hkept rfl)⟩
    · exact hcp

theorem Compressed.call (h : Compressed r.saved r.inner) (c : Call) :
    Compressed (r.call config c).saved (r.call config c).inner := by
  cases c with
  | save cp =>
    cases hs : DeltaCheckpointer.save config r.inner cp with
    | ok inner =>
      simp only [Run.call, hs]
      exact h.save hs
    | error error =>
      simp only [Run.call, hs]
      exact h
  | load _ => exact h
  | loadById _ => exact h
  | prune now thread policy => exact h.prune
  | delete thread => exact h.delete

theorem Compressed.calls (h : Compressed r.saved r.inner) (cs : List Call) :
    Compressed (r.calls config cs).saved (r.calls config cs).inner := by
  induction cs generalizing r with
  | nil => exact h
  | cons c cs ih => exact ih (h.call c)

/-! ## Beside a plain store -/

/-- The newest checkpoint of each thread has the same version in the plain store. -/
structure SameNewest (r : Run) : Prop where
  plain : r.plain.Valid
  newest : ∀ t, (r.inner.load t).map (·.version) = (r.plain.load t).map (·.version)

theorem SameNewest.refused (hr : SameNewest r) (h : Compressed r.saved r.inner)
    (hids : cp.checkpointId ∈ r.inner.ids ↔ cp.checkpointId ∈ r.plain.ids) {error : GraphError} :
    save config r.inner cp = .error error ↔ r.plain.save cp = .error error :=
  h.save_eq_error.trans (MemoryStore.save_eq_error_congr (hr.newest _) hids)

/-- Pruning leaves the newest checkpoint. -/
theorem load_prune (hv : inner.Valid) (now : Utc) (thread : String) (policy : RetentionPolicy)
    (t : String) : (prune inner now thread policy).load t = inner.load t := by
  unfold prune
  dsimp only
  split
  · rfl
  · split
    · rfl
    · exact hv.prune_load t

theorem SameNewest.call (hr : SameNewest r) (h : Compressed r.saved r.inner) {c : Call}
    (hids : ∀ cp, c = .save cp → (cp.checkpointId ∈ r.inner.ids ↔ cp.checkpointId ∈ r.plain.ids)) :
    SameNewest (r.call config c) := by
  cases c with
  | save cp =>
    have href := @SameNewest.refused config r cp hr h (hids cp rfl)
    cases hs : DeltaCheckpointer.save config r.inner cp with
    | error error =>
      simp only [Run.call, hs, href.mp hs]
      exact hr
    | ok inner =>
      cases hp : r.plain.save cp with
      | error error =>
        rw [href.mpr hp] at hs
        cases hs
      | ok plain =>
        simp only [Run.call, hs, hp]
        obtain ⟨tagged, heq, hret, -⟩ := @Compressed.save_eq r.saved config r.inner h cp
        rw [heq] at hs
        have hthr : tagged.threadId = cp.threadId := congrArg (·.threadId) hret.data
        have hversion : tagged.version = cp.version := congrArg (·.version) hret.data
        obtain ⟨-, -, rfl⟩ := MemoryStore.save_eq_ok.mp hs
        refine ⟨hr.plain.save hp, fun t => ?_⟩
        obtain ⟨-, -, rfl⟩ := MemoryStore.save_eq_ok.mp hp
        simp only [Run.accepted, MemoryStore.load_push, hthr]
        split
        · simp [hversion]
        · exact hr.newest t
  | load _ => exact hr
  | loadById _ => exact hr
  | prune now thread policy =>
    refine ⟨hr.plain.prune, fun t => ?_⟩
    simp only [Run.call, load_prune h.valid, hr.plain.prune_load]
    exact hr.newest t
  | delete thread =>
    refine ⟨hr.plain.delete, fun t => ?_⟩
    have hnew := hr.newest t
    unfold MemoryStore.load at hnew ⊢
    simp only [Run.call, DeltaCheckpointer.delete, MemoryStore.delete_list]
    split
    · rfl
    · exact hnew

theorem SameNewest.calls {cs : List Call} (hr : SameNewest r) (h : Compressed r.saved r.inner)
    (hids : r.SameIds config cs) : SameNewest (r.calls config cs) := by
  induction cs generalizing r with
  | nil => exact hr
  | cons c cs ih => exact ih (hr.call h hids.1) (h.call c) hids.2

/-- **Delta compression is invisible.** After any calls every load succeeds and returns what was saved
under its id, a save is refused as an in-memory store with these checkpoints refuses it, and pruning
leaves what the policy keeps. As long as each saved id is stored in both stores or in neither, saves
are refused as the plain store refuses them. -/
theorem compression_invisible (config : DeltaConfig) (cs : List Call) :
    Invisible config (Run.calls config {} cs) ∧
      (Run.SameIds config {} cs → ∀ cp : Checkpoint,
        (cp.checkpointId ∈ (Run.calls config {} cs).inner.ids ↔
          cp.checkpointId ∈ (Run.calls config {} cs).plain.ids) →
        ∀ error, save config (Run.calls config {} cs).inner cp = .error error ↔
          (Run.calls config {} cs).plain.save cp = .error error) := by
  have hempty : Compressed ({} : Run).saved ({} : Run).inner := .empty
  have hnewest : SameNewest {} := ⟨.empty, fun t => rfl⟩
  have hcompressed := @Compressed.calls config {} hempty cs
  refine ⟨hcompressed.invisible, fun hids cp hid error => ?_⟩
  exact (hnewest.calls hempty hids).refused hcompressed hid

/-- A checkpoint of thread `t` with an empty state. -/
def mark (checkpointId : String) (step version : Nat) : Checkpoint :=
  { threadId := "t", checkpointId, state := ∅, step, pendingNodes := [], createdAt := 0, version }

/-- Two saves: a snapshot `a` and a delta `b` of it. -/
def snapshotThenDelta : List Call := [.save (mark "a" 0 1), .save (mark "b" 1 2)]

/-- Saving a third checkpoint after two: both stores take it. -/
theorem compression_invisible_third : ∀ error,
    save {} (Run.calls {} {} snapshotThenDelta).inner (mark "c" 2 3) = .error error ↔
      (Run.calls {} {} snapshotThenDelta).plain.save (mark "c" 2 3) = .error error := by
  have hids : Run.SameIds {} {} snapshotThenDelta := by
    refine ⟨?_, ?_, trivial⟩
    · rintro cp ⟨⟩
      decide +kernel
    · rintro cp ⟨⟩
      decide +kernel
  exact (compression_invisible {} snapshotThenDelta).2 hids (mark "c" 2 3) (by decide +kernel)

/-! ## Resuming what was compressed -/

theorem Returns.resumes {g : CompiledGraph} {e : Exec} {loaded : Checkpoint} (h : Returns cp loaded)
    (hr : Timeline.Resumes g cp e) : Timeline.Resumes g loaded e := by
  intro config restart head input now hrestart
  -- The two keys that a resume reads are none of the tags.
  have hfan := h.metadata fanInMetadataKey (by decide)
  have hpaused := h.metadata pausedNodesMetadataKey (by decide)
  have hrestored := hr config restart head input now hrestart
  rw [← h.data] at hrestored
  unfold Exec.restore Exec.restoreFanIn Exec.restorePaused FanInSnapshot.fromMetadata at hrestored ⊢
  rw [hfan, hpaused]
  exact hrestored

/-- **A checkpoint that was compressed resumes where it was taken**, among any other calls of the checkpointer. -/
theorem compressed_resumes {g : CompiledGraph} {events : List Timeline.Event} {p : Timeline.Point}
    (h : Timeline.Reaches g events p) (taken : ExecutionConfig) (now : Clock) (id : String) (createdAt : Utc)
    (cs : List Call) {loaded : Checkpoint}
    (hsaved : (Run.calls config {} cs).saved[id]? = some (Exec.buildCheckpoint taken p.exec now id createdAt).2)
    (hload : loadById (Run.calls config {} cs).inner id = .ok (some loaded)) : Timeline.Resumes g loaded p.exec := by
  obtain ⟨found, hfound, -, hreturns⟩ := (@Compressed.calls config {} .empty cs).loadById id
  cases hfound.symm.trans hload
  obtain ⟨original, horiginal, hreturns⟩ := hreturns loaded rfl
  cases horiginal.symm.trans hsaved
  obtain ⟨past, -, hc⟩ := h.consistent
  exact hreturns.resumes (Timeline.resumes_buildCheckpoint hc.saveable taken now id createdAt)

/-- Two branches ran, and the join that waits for them is next. -/
def joining : Timeline.Point := (Timeline.run Timeline.firstJoin ∅ [.step .invoke]).2

def joiningSaved : List Call := [.save (Exec.buildCheckpoint Timeline.played joining.exec Timeline.still "" 0).2]

theorem compressed_resumes_joining : ∃ loaded, loadById (Run.calls {} {} joiningSaved).inner "" = .ok (some loaded) ∧
    Timeline.Resumes Timeline.firstJoin loaded joining.exec := by
  have hreach : Timeline.Reaches Timeline.firstJoin _ joining := Timeline.run_reaches (by decide +kernel) _
  obtain ⟨found, hfound, hsome, -⟩ := (@Compressed.calls {} {} .empty joiningSaved).loadById ""
  obtain ⟨loaded, rfl⟩ := Option.isSome_iff_exists.mp (hsome.mpr (by decide +kernel))
  exact ⟨loaded, hfound,
    compressed_resumes hreach Timeline.played Timeline.still "" 0 joiningSaved (by decide +kernel) hfound⟩

def Call.saving : Call → Option Checkpoint
  | .save cp => some cp
  | _ => none

/-- Every save of a thread has a higher version than the saves before it. -/
def Increasing (cs : List Call) : Prop :=
  (cs.filterMap Call.saving).Pairwise fun a b => a.threadId = b.threadId → a.version < b.version

theorem exists_error_iff {result : Except GraphError MemoryStore} :
    (∃ error, result = .error error) ↔ result.isOk = false := by
  cases result with
  | ok store => simp [Except.isOk, Except.toBool]
  | error error => simp [Except.isOk, Except.toBool]

/-- **An id that the policy discards may be refused where the plain store takes it.** The snapshot `a`
outlives the pruning as the base of `b`. -/
theorem pruned_id_refused : ¬ ∀ (config : DeltaConfig) (cs : List Call) (cp : Checkpoint),
    Increasing (cs ++ [.save cp]) →
      ((∃ error, save config (Run.calls config {} cs).inner cp = .error error) ↔
        ∃ error, (Run.calls config {} cs).plain.save cp = .error error) := by
  intro h
  let cs := snapshotThenDelta ++ [.prune 0 "t" (.keepLast 1)]
  have hincreasing : Increasing (cs ++ [.save (mark "a" 2 3)]) := by
    simp [cs, Increasing, snapshotThenDelta, List.filterMap_cons, Call.saving, mark]
  have hrefused : (save {} (Run.calls {} {} cs).inner (mark "a" 2 3)).isOk = false := by
    decide +kernel
  have htaken : ((Run.calls {} {} cs).plain.save (mark "a" 2 3)).isOk = true := by
    decide +kernel
  have hboth := exists_error_iff.mp ((h {} cs _ hincreasing).mp (exists_error_iff.mpr hrefused))
  rw [htaken] at hboth
  cases hboth

end DeltaCheckpointer
end Adk
