import AdkRust.Graph.Checkpoint
import AdkRust.Lib.Except

/-!
# What an in-memory store keeps

* `MemoryStore.Valid`: the versions of a thread ascend, and the id table and the threads agree. Every
  call keeps it.
* `save_eq_ok`, `save_eq_error`: when a save is stored and how it is refused.
* `prune_list`: what a retention policy leaves of a thread; the newest checkpoint is never removed
  (`prune_load`), and a count limit leaves the newest ones (`prune_keepLast_list`).
-/

namespace Adk
namespace MemoryStore

/-- What holds of a store that only its own calls have changed. -/
structure Valid (store : MemoryStore) : Prop where
  ascending : ∀ thread, (store.list thread).Pairwise fun a b => a.version < b.version
  positive : ∀ thread, ∀ c ∈ store.list thread, 0 < c.version
  owned : ∀ thread, ∀ c ∈ store.list thread,
    c.threadId = thread ∧ store.ids[c.checkpointId]? = some thread
  listed : ∀ id thread : String, store.ids[id]? = some thread →
    ∃ c ∈ store.list thread, c.checkpointId = id
  distinct : ∀ thread, ((store.list thread).map (·.checkpointId)).Nodup

/-- A new store is valid. -/
theorem Valid.empty : Valid {} where
  ascending thread := by simp [list]
  positive thread := by simp [list]
  owned thread := by simp [list]
  listed id thread h := by simp at h
  distinct thread := by simp [list]

variable {store store' : MemoryStore} {c : Checkpoint}

/-! ## Saving -/

def push (store : MemoryStore) (c : Checkpoint) : MemoryStore where
  threads := store.threads.insert c.threadId (store.list c.threadId ++ [c])
  ids := store.ids.insert c.checkpointId c.threadId

theorem ensureNewer_eq_ok {head : Option Nat} :
    ensureNewer c head = .ok () ↔ 0 < c.version ∧ ∀ h ∈ head, h < c.version := by
  unfold ensureNewer
  by_cases h0 : c.version = 0
  · simp [h0]
  · cases head with
    | none => simp [h0]; omega
    | some h =>
      by_cases hle : c.version ≤ h
      · simp [h0, hle]
      · simp [h0, hle]; omega

theorem save_eq_ok : store.save c = .ok store' ↔
    (0 < c.version ∧ ∀ h ∈ (store.load c.threadId).map (·.version), h < c.version) ∧
      c.checkpointId ∉ store.ids ∧ store' = store.push c := by
  unfold save
  rw [bind_eq_ok]
  constructor
  · rintro ⟨u, hnew, h⟩
    refine ⟨ensureNewer_eq_ok.mp hnew, ?_⟩
    by_cases hid : store.ids.contains c.checkpointId
    · simp [hid, throw, throwThe, MonadExceptOf.throw, bind, Except.bind] at h
    · simp only [hid] at h
      cases h
      exact ⟨by simpa using hid, rfl⟩
  · rintro ⟨hnew, hid, rfl⟩
    refine ⟨(), ensureNewer_eq_ok.mpr hnew, ?_⟩
    have hid' : store.ids.contains c.checkpointId = false := by
      rw [← Bool.not_eq_true, Std.ExtTreeMap.contains_iff_mem]
      exact hid
    simp only [hid']
    rfl

theorem save_newer (hpos : 0 < c.version)
    (hnew : ∀ d ∈ store.list c.threadId, d.version < c.version) :
    store.save c = .ok (store.push c) ∨ store.save c = .error (duplicateId c.checkpointId) := by
  have hensure : ensureNewer c ((store.load c.threadId).map (·.version)) = .ok () := by
    refine ensureNewer_eq_ok.mpr ⟨hpos, fun h hh => ?_⟩
    obtain ⟨d, hd, rfl⟩ := Option.map_eq_some_iff.mp hh
    exact hnew d (List.mem_of_getLast? hd)
  by_cases hid : c.checkpointId ∈ store.ids
  · have hcontains : store.ids.contains c.checkpointId = true := Std.ExtTreeMap.contains_iff_mem.mpr hid
    refine .inr ?_
    unfold save
    rw [hensure]
    simp only [hcontains]
    rfl
  · refine .inl (save_eq_ok.mpr ⟨⟨hpos, ?_⟩, hid, rfl⟩)
    intro h hh
    exact (ensureNewer_eq_ok.mp hensure).2 h hh

/-- Two stores that agree on the newest version of the thread, and on whether the id is stored, refuse
the same checkpoint with the same error. -/
theorem save_eq_error_congr {error : GraphError}
    (hnewest : (store.load c.threadId).map (·.version) = (store'.load c.threadId).map (·.version))
    (hids : c.checkpointId ∈ store.ids ↔ c.checkpointId ∈ store'.ids) :
    store.save c = .error error ↔ store'.save c = .error error := by
  have hcontains : store.ids.contains c.checkpointId = store'.ids.contains c.checkpointId := by
    rw [Bool.eq_iff_iff, Std.ExtTreeMap.contains_iff_mem, Std.ExtTreeMap.contains_iff_mem]
    exact hids
  unfold MemoryStore.save
  rw [hnewest, hcontains]
  cases ensureNewer c ((store'.load c.threadId).map (·.version)) with
  | error e => rfl
  | ok u =>
    simp only [bind, Except.bind]
    split
    · rfl
    · simp [pure, Except.pure]

@[simp] theorem list_push (thread : String) :
    (store.push c).list thread =
      if c.threadId = thread then store.list thread ++ [c] else store.list thread := by
  simp only [push, list, Std.ExtTreeMap.getD_insert, Std.compare_eq_iff_eq]
  split
  · rename_i h
    rw [h]
  · rfl

/-- Every older checkpoint of the thread has a lower version than a checkpoint that is stored. -/
theorem Valid.lt_of_newer (hv : store.Valid)
    (h : ∀ h ∈ (store.load c.threadId).map (·.version), h < c.version) :
    ∀ d ∈ store.list c.threadId, d.version < c.version := by
  intro d hd
  obtain ⟨last, hlast⟩ : ∃ last, (store.list c.threadId).getLast? = some last :=
    Option.isSome_iff_exists.mp (List.getLast?_isSome.mpr (List.ne_nil_of_mem hd))
  have hlt : last.version < c.version := h last.version (by simp [load, hlast])
  obtain ⟨init, hinit⟩ := List.getLast?_eq_some_iff.mp hlast
  have hasc := hv.ascending c.threadId
  rw [hinit, List.pairwise_append] at hasc
  rw [hinit] at hd
  rcases List.mem_append.mp hd with hd | hd
  · exact Nat.lt_trans (hasc.2.2 d hd last (by simp)) hlt
  · rw [List.mem_singleton.mp hd]
    exact hlt

theorem Valid.save (hv : store.Valid) (h : store.save c = .ok store') : store'.Valid := by
  obtain ⟨⟨hpos, hnew⟩, hid, rfl⟩ := save_eq_ok.mp h
  have hlt := hv.lt_of_newer hnew
  have hids : ∀ (d : Checkpoint) (thread : String), d ∈ store.list thread →
      d.checkpointId ≠ c.checkpointId := by
    intro d thread hd heq
    have := (hv.owned thread d hd).2
    rw [heq] at this
    exact hid (Std.ExtTreeMap.mem_iff_isSome_getElem?.mpr (by simp [this]))
  have hget : ∀ id : String, (store.push c).ids[id]? =
      if c.checkpointId = id then some c.threadId else store.ids[id]? := by
    intro id
    simp only [push, Std.ExtTreeMap.getElem?_insert, Std.compare_eq_iff_eq]
  refine ⟨fun thread => ?_, fun thread d hd => ?_, fun thread d hd => ?_, fun id thread hget' => ?_,
    fun thread => ?_⟩
  · rw [list_push]
    split
    · rename_i heq
      subst heq
      exact List.pairwise_append.mpr ⟨hv.ascending _, by simp, by simpa using hlt⟩
    · exact hv.ascending thread
  · rw [list_push] at hd
    split at hd
    · rcases List.mem_append.mp hd with hd | hd
      · exact hv.positive thread d hd
      · rw [List.mem_singleton.mp hd]
        exact hpos
    · exact hv.positive thread d hd
  · rw [list_push] at hd
    rw [hget]
    split at hd
    · rename_i heq
      rcases List.mem_append.mp hd with hd | hd
      · rw [if_neg (Ne.symm (hids d thread hd))]
        exact hv.owned thread d hd
      · rw [List.mem_singleton.mp hd]
        simp [heq]
    · rw [if_neg (Ne.symm (hids d thread hd))]
      exact hv.owned thread d hd
  · rw [hget] at hget'
    rw [list_push]
    split at hget'
    · rename_i heq
      cases hget'
      exact ⟨c, by simp, heq⟩
    · obtain ⟨d, hd, hid'⟩ := hv.listed id thread hget'
      refine ⟨d, ?_, hid'⟩
      split
      · exact List.mem_append_left _ hd
      · exact hd
  · rw [list_push]
    split
    · rw [List.map_append, List.nodup_append]
      refine ⟨hv.distinct thread, by simp, ?_⟩
      intro a ha b hb
      obtain ⟨d, hd, rfl⟩ := List.mem_map.mp ha
      obtain rfl : b = c.checkpointId := by simpa using hb
      exact hids d thread hd
    · exact hv.distinct thread

/-! ## Loading -/

theorem Valid.le_newest (hv : store.Valid) {thread : String} {newest : Checkpoint}
    (h : store.load thread = some newest) : ∀ d ∈ store.list thread, d.version ≤ newest.version := by
  intro d hd
  obtain ⟨init, hinit⟩ := List.getLast?_eq_some_iff.mp h
  have hasc := hv.ascending thread
  rw [hinit, List.pairwise_append] at hasc
  rw [hinit] at hd
  rcases List.mem_append.mp hd with hd | hd
  · exact Nat.le_of_lt (hasc.2.2 d hd newest (by simp))
  · rw [List.mem_singleton.mp hd]

theorem load_push (thread : String) :
    (store.push c).load thread = if c.threadId = thread then some c else store.load thread := by
  unfold load
  rw [list_push]
  split
  · simp
  · rfl

theorem Valid.loadById_eq_some (hv : store.Valid) {id : String} :
    store.loadById id = some c ↔ ∃ thread, c ∈ store.list thread ∧ c.checkpointId = id := by
  unfold loadById
  constructor
  · intro h
    obtain ⟨thread, -, hfind⟩ := Option.bind_eq_some_iff.mp h
    exact ⟨thread, List.mem_of_find?_eq_some hfind, by simpa using List.find?_some hfind⟩
  · rintro ⟨thread, hmem, rfl⟩
    rw [(hv.owned thread c hmem).2, Option.bind_some]
    obtain ⟨d, hd⟩ : ∃ d, (store.list thread).find? (fun d => d.checkpointId == c.checkpointId) =
        some d := Option.isSome_iff_exists.mp (List.find?_isSome.mpr ⟨c, hmem, by simp⟩)
    have hid : d.checkpointId = c.checkpointId := by simpa using List.find?_some hd
    rw [hd, List.inj_on_of_nodup_map (hv.distinct thread) (List.mem_of_find?_eq_some hd) hmem hid]

/-! ## Removing -/

theorem Valid.shrink (hv : store.Valid) {thread : String} {keep : Checkpoint → Bool}
    (hlist : ∀ t, store'.list t =
      if thread = t then (store.list t).filter keep else store.list t)
    (hids : ∀ id : String, store'.ids[id]? =
      if ∃ d ∈ store.list thread, d.checkpointId = id ∧ keep d = false then none
      else store.ids[id]?) : store'.Valid := by
  have hsub : ∀ t, (store'.list t).Sublist (store.list t) := by
    intro t
    rw [hlist]
    split
    · exact List.filter_sublist
    · exact List.Sublist.refl _
  have hkept : ∀ t, ∀ d ∈ store'.list t,
      ¬ ∃ d' ∈ store.list thread, d'.checkpointId = d.checkpointId ∧ keep d' = false := by
    rintro t d hd ⟨d', hd', heq, hk⟩
    have hown := (hv.owned t d ((hsub t).subset hd)).2
    rw [← heq, (hv.owned thread d' hd').2] at hown
    cases hown
    have hdd : d' = d := List.inj_on_of_nodup_map (hv.distinct thread) hd' ((hsub thread).subset hd) heq
    rw [hlist, if_pos rfl, List.mem_filter, ← hdd, hk] at hd
    cases hd.2
  refine ⟨fun t => (hv.ascending t).sublist (hsub t),
    fun t d hd => hv.positive t d ((hsub t).subset hd), fun t d hd => ?_, fun id t h => ?_,
    fun t => (hv.distinct t).sublist ((hsub t).map _)⟩
  · rw [hids, if_neg (hkept t d hd)]
    exact hv.owned t d ((hsub t).subset hd)
  · rw [hids] at h
    split at h
    · cases h
    · rename_i hno
      obtain ⟨d, hd, rfl⟩ := hv.listed id t h
      refine ⟨d, ?_, rfl⟩
      rw [hlist]
      split
      · rename_i heq
        subst heq
        refine List.mem_filter.mpr ⟨hd, ?_⟩
        by_contra hk
        exact hno ⟨d, hd, rfl, by simpa using hk⟩
      · exact hd

theorem mem_of_mem_expired {policy : RetentionPolicy} {now : Utc} {checkpoints : List Checkpoint}
    {id : String} (h : id ∈ policy.expired now checkpoints) :
    ∃ d ∈ checkpoints, d.checkpointId = id := by
  unfold RetentionPolicy.expired at h
  split at h
  · simp at h
  · obtain ⟨⟨d, index⟩, hd, rfl⟩ := List.mem_map.mp h
    have hmem := List.fst_mem_of_mem_zipIdx (List.mem_of_mem_filter hd)
    exact ⟨d, (List.mem_insertionSort _).mp hmem, rfl⟩

variable {now : Utc} {thread : String} {policy : RetentionPolicy}

/-- **What a policy leaves of a thread.** -/
theorem prune_list (store : MemoryStore) (t : String) :
    (store.prune now thread policy).list t =
      if thread = t then (store.list t).filter fun d =>
        !(policy.expired now (store.list t)).contains d.checkpointId
      else store.list t := by
  unfold prune
  cases hthr : store.threads[thread]? with
  | none =>
    dsimp only
    split
    · rename_i heq
      subst heq
      have hnil : store.list thread = [] := by
        simp [list, Std.ExtTreeMap.getD_eq_getD_getElem?, hthr]
      simp [hnil]
    · rfl
  | some checkpoints =>
    have hget : store.list thread = checkpoints := by
      simp [list, Std.ExtTreeMap.getD_eq_getD_getElem?, hthr]
    dsimp only
    split
    · rename_i hemp
      split
      · rename_i heq
        subst heq
        rw [List.isEmpty_iff] at hemp
        rw [hget, hemp]
        simp
      · rfl
    · simp only [list, Std.ExtTreeMap.getD_insert, Std.compare_eq_iff_eq]
      split
      · rename_i heq
        subst heq
        rw [← hget]
        rfl
      · rfl

theorem Valid.prune (hv : store.Valid) : (store.prune now thread policy).Valid := by
  refine @Valid.shrink store _ hv thread
    (fun d => !(policy.expired now (store.list thread)).contains d.checkpointId) (fun t => ?_)
    fun id => ?_
  · rw [prune_list]
    split
    · rename_i heq
      rw [heq]
    · rfl
  have hremoved : (∃ d ∈ store.list thread, d.checkpointId = id ∧
      (!(policy.expired now (store.list thread)).contains d.checkpointId) = false) ↔
      id ∈ policy.expired now (store.list thread) := by
    constructor
    · rintro ⟨d, -, rfl, hd⟩
      simpa using hd
    · intro h
      obtain ⟨d, hd, rfl⟩ := mem_of_mem_expired h
      exact ⟨d, hd, rfl, by simpa using h⟩
  have hkeep : (store.prune now thread policy).ids[id]? =
      if id ∈ policy.expired now (store.list thread) then none else store.ids[id]? := by
    unfold MemoryStore.prune
    cases hthr : store.threads[thread]? with
    | none =>
      have hnil : store.list thread = [] := by
        simp [list, Std.ExtTreeMap.getD_eq_getD_getElem?, hthr]
      simp [hnil, RetentionPolicy.expired]
    | some checkpoints =>
      have hget : store.list thread = checkpoints := by
        simp [list, Std.ExtTreeMap.getD_eq_getD_getElem?, hthr]
      rw [hget]
      dsimp only
      split
      · rename_i hemp
        rw [List.isEmpty_iff] at hemp
        simp [hemp]
      · exact Dict.getElem?_foldl_erase
  rw [hkeep]
  simp only [hremoved]

theorem insertionSort_newest {checkpoints : List Checkpoint}
    (h : checkpoints.Pairwise fun a b => a.version < b.version) :
    checkpoints.insertionSort (fun a b => b.version ≤ a.version) = checkpoints.reverse := by
  have htot : Std.Total fun a b : Checkpoint => b.version ≤ a.version := ⟨fun a b => by omega⟩
  have htrans : IsTrans Checkpoint fun a b => b.version ≤ a.version := ⟨fun a b c => by omega⟩
  have hperm : (checkpoints.insertionSort fun a b => b.version ≤ a.version).Perm checkpoints.reverse :=
    (List.perm_insertionSort _ _).trans (List.reverse_perm _).symm
  refine hperm.eq_of_pairwise ?_
    (List.pairwise_insertionSort (fun a b : Checkpoint => b.version ≤ a.version) _) ?_
  · intro a b ha hb hab hba
    have ha : a ∈ checkpoints := (List.mem_insertionSort _).mp ha
    have hb : b ∈ checkpoints := List.mem_reverse.mp hb
    by_contra hne
    rcases List.pairwise_iff_getElem.mp h with hlt
    obtain ⟨i, hi, rfl⟩ := List.getElem_of_mem ha
    obtain ⟨j, hj, rfl⟩ := List.getElem_of_mem hb
    rcases Nat.lt_trichotomy i j with hij | hij | hij
    · have := hlt i j hi hj hij
      omega
    · exact hne (by simp [hij])
    · have := hlt j i hj hi hij
      omega
  · rw [List.pairwise_reverse]
    exact h.imp fun hab => Nat.le_of_lt hab

theorem mem_expired {checkpoints : List Checkpoint}
    (h : checkpoints.Pairwise fun a b => a.version < b.version)
    (hd : (checkpoints.map (·.checkpointId)).Nodup) {j : Nat} (hj : j < checkpoints.length) :
    checkpoints[j].checkpointId ∈ policy.expired now checkpoints ↔
      policy.isUnlimited = false ∧ 1 < checkpoints.length ∧
        policy.discards now (checkpoints.length - 1 - j) checkpoints[j] := by
  unfold RetentionPolicy.expired
  by_cases hu : policy.isUnlimited = true ∨ checkpoints.length ≤ 1
  · have : (policy.isUnlimited || decide (checkpoints.length ≤ 1)) = true := by simpa using hu
    rw [if_pos this]
    rcases hu with hu | hu
    · simp [hu]
    · simp; omega
  · rw [not_or] at hu
    have hlen : 1 < checkpoints.length := by omega
    have hcond : ¬ (policy.isUnlimited || decide (checkpoints.length ≤ 1)) = true := by
      simp [hu.1]; omega
    rw [if_neg hcond, insertionSort_newest h]
    have hu' : policy.isUnlimited = false := by simpa using hu.1
    simp only [hu', true_and, hlen, List.mem_map, List.mem_filter]
    constructor
    · rintro ⟨⟨d, index⟩, ⟨hmem, hdis⟩, hid⟩
      obtain ⟨-, hlt, heq⟩ := List.mem_zipIdx hmem
      rw [List.length_reverse, Nat.zero_add] at hlt
      simp only [Nat.sub_zero, List.getElem_reverse] at heq
      -- The distinct ids make the two positions the same.
      have hpos : checkpoints.length - 1 - index = j := by
        have hi : checkpoints.length - 1 - index < (checkpoints.map (·.checkpointId)).length := by
          simp
          omega
        have hj' : j < (checkpoints.map (·.checkpointId)).length := by simpa using hj
        have heq' : (checkpoints.map (·.checkpointId))[checkpoints.length - 1 - index] =
            (checkpoints.map (·.checkpointId))[j] := by
          rw [List.getElem_map, List.getElem_map, ← heq]
          exact hid
        exact hd.getElem_inj_iff.mp heq'
      have hidx : index = checkpoints.length - 1 - j := by omega
      have hget : d = checkpoints[j] := by
        rw [heq]
        congr 1
      rw [← hidx, ← hget]
      exact hdis
    · intro hdis
      refine ⟨(checkpoints[j], checkpoints.length - 1 - j), ⟨?_, hdis⟩, rfl⟩
      rw [List.mk_mem_zipIdx_iff_getElem?, List.getElem?_reverse (by omega)]
      have : checkpoints.length - 1 - (checkpoints.length - 1 - j) = j := by omega
      rw [this, List.getElem?_eq_getElem hj]

/-- Keeping what satisfies a predicate keeps the last item when it does. -/
theorem getLast?_filter_of_pos {α : Type} {p : α → Bool} {l : List α} {a : α}
    (h : l.getLast? = some a) (ha : p a = true) : (l.filter p).getLast? = some a := by
  obtain ⟨init, rfl⟩ := List.getLast?_eq_some_iff.mp h
  rw [List.filter_append, List.filter_cons_of_pos ha]
  simp

/-- Keeping what stands from a position on drops what stands before it. -/
theorem filter_eq_drop {α : Type} {p : α → Bool} {l : List α} {n : Nat}
    (h : ∀ (j : Nat) (hj : j < l.length), p l[j] = !decide (j < n)) : l.filter p = l.drop n := by
  induction l generalizing n with
  | nil => simp
  | cons a l ih =>
    have hhead : p a = !decide (0 < n) := h 0 (by simp)
    cases n with
    | zero =>
      have hl : l.filter p = l.drop 0 := ih fun j hj => (h (j + 1) (by simpa using hj)).trans (by simp)
      rw [List.filter_cons_of_pos (by simpa using hhead), hl]
      rfl
    | succ n =>
      have hl : l.filter p = l.drop n := ih fun j hj => (h (j + 1) (by simpa using hj)).trans (by simp)
      rw [List.filter_cons_of_neg (by simp [hhead]), hl]
      rfl

/-- **A policy never removes the newest checkpoint.** -/
theorem Valid.prune_load (hv : store.Valid) (t : String) :
    (store.prune now thread policy).load t = store.load t := by
  unfold load
  rw [prune_list]
  split
  · cases hlast : (store.list t).getLast? with
    | none => rw [List.getLast?_eq_none_iff] at hlast; simp [hlast]
    | some last =>
      refine getLast?_filter_of_pos hlast ?_
      have hpos : 0 < (store.list t).length := by
        rcases hl : store.list t with _ | ⟨_, _⟩
        · simp [hl] at hlast
        · simp
      have hj : (store.list t).length - 1 < (store.list t).length := by omega
      have hget : (store.list t)[(store.list t).length - 1] = last := by
        rw [List.getLast?_eq_getElem?, List.getElem?_eq_getElem hj] at hlast
        exact Option.some.inj hlast
      have hno := (@mem_expired now policy _ (hv.ascending t) (hv.distinct t) _ hj).not
      rw [hget] at hno
      have hzero : (store.list t).length - 1 - ((store.list t).length - 1) = 0 := by omega
      simpa [hzero, RetentionPolicy.discards] using hno
  · rfl

/-- **A count limit leaves the newest checkpoints.** -/
theorem Valid.prune_keepLast_list (hv : store.Valid) {count : Nat} (hc : 0 < count) :
    (store.prune now thread (.keepLast count)).list thread =
      (store.list thread).drop ((store.list thread).length - count) := by
  rw [prune_list, if_pos rfl]
  have hexp : ∀ {j : Nat} (hj : j < (store.list thread).length),
      (store.list thread)[j].checkpointId ∈ (RetentionPolicy.keepLast count).expired now
        (store.list thread) ↔ j < (store.list thread).length - count := by
    intro j hj
    rw [mem_expired (hv.ascending thread) (hv.distinct thread) hj]
    have hdis : (RetentionPolicy.keepLast count).discards now ((store.list thread).length - 1 - j)
        (store.list thread)[j] ↔ count ≤ (store.list thread).length - 1 - j := by
      simp [RetentionPolicy.keepLast, RetentionPolicy.discards]
      omega
    rw [hdis]
    have hlimited : (RetentionPolicy.keepLast count).isUnlimited = false := rfl
    simp only [hlimited, true_and]
    omega
  refine filter_eq_drop fun j hj => ?_
  have h := hexp hj
  by_cases hlt : j < (store.list thread).length - count
  · simpa [hlt] using h
  · simpa [hlt] using h

theorem delete_list (store : MemoryStore) (t : String) :
    (store.delete thread).list t = if thread = t then [] else store.list t := by
  unfold delete
  cases hthr : store.threads[thread]? with
  | none =>
    dsimp only
    split
    · rename_i heq
      subst heq
      simp [list, Std.ExtTreeMap.getD_eq_getD_getElem?, hthr]
    · rfl
  | some checkpoints =>
    simp only [list, Std.ExtTreeMap.getD_erase, Std.compare_eq_iff_eq]

theorem Valid.delete (hv : store.Valid) : (store.delete thread).Valid := by
  refine @Valid.shrink store _ hv thread (fun _ => false) (fun t => ?_) fun id => ?_
  · rw [delete_list]
    simp
  · unfold MemoryStore.delete
    cases hthr : store.threads[thread]? with
    | none =>
      have hnil : store.list thread = [] := by
        simp [list, Std.ExtTreeMap.getD_eq_getD_getElem?, hthr]
      simp [hnil]
    | some checkpoints =>
      have hget : store.list thread = checkpoints := by
        simp [list, Std.ExtTreeMap.getD_eq_getD_getElem?, hthr]
      have hfold : ∀ ids : Dict String, checkpoints.foldl (fun ids c => ids.erase c.checkpointId) ids =
          (checkpoints.map (·.checkpointId)).foldl (fun ids id => ids.erase id) ids := by
        intro ids
        rw [List.foldl_map]
      rw [hget]
      dsimp only
      rw [hfold, Dict.getElem?_foldl_erase]
      simp

/-! ## Histories -/

/-- A call that changes the store. -/
inductive Change (store : MemoryStore) : MemoryStore → Prop
  | save {d : Checkpoint} {store'} (h : store.save d = .ok store') : Change store store'
  | prune (at_ : Utc) (t : String) (limits : RetentionPolicy) : Change store (store.prune at_ t limits)
  | delete (t : String) : Change store (store.delete t)

theorem Valid.change (hv : store.Valid) (h : Change store store') : store'.Valid := by
  cases h with
  | save h => exact hv.save h
  | prune => exact hv.prune
  | delete => exact hv.delete

/-- **A history is one chain of versions**, whatever was saved, pruned and deleted: an id names one checkpoint of all
threads, a save is accepted exactly when it is newer than its thread and its id is new, what is loaded next is the save
that was accepted last, and no policy drops that. -/
theorem history_lawful (h : Relation.ReflTransGen Change {} store) :
    (∀ t, (store.list t).Pairwise fun a b => a.version < b.version) ∧
    (∀ id d, store.loadById id = some d ↔ ∃ t, d ∈ store.list t ∧ d.checkpointId = id) ∧
    (∀ d, (∃ saved, store.save d = .ok saved) ↔ 0 < d.version ∧ (∀ e ∈ store.list d.threadId, e.version < d.version) ∧
      ∀ t, ∀ e ∈ store.list t, e.checkpointId ≠ d.checkpointId) ∧
    (∀ d saved, store.save d = .ok saved → ∀ t, saved.load t = if d.threadId = t then some d else store.load t) ∧
    ∀ now thread policy t, (store.prune now thread policy).load t = store.load t := by
  have hv : store.Valid := by
    induction h with
    | refl => exact .empty
    | tail _ hs ih => exact ih.change hs
  refine ⟨hv.ascending, fun id d => hv.loadById_eq_some, fun d => ⟨?_, ?_⟩, ?_, fun _ _ _ t => hv.prune_load t⟩
  · rintro ⟨saved, hsave⟩
    obtain ⟨⟨hpos, hnew⟩, hid, -⟩ := save_eq_ok.mp hsave
    refine ⟨hpos, hv.lt_of_newer hnew, fun t e he heq => hid ?_⟩
    exact Std.ExtTreeMap.mem_iff_isSome_getElem?.mpr (by rw [← heq, (hv.owned t e he).2]; rfl)
  · rintro ⟨hpos, hnew, hid⟩
    refine ⟨store.push d, save_eq_ok.mpr ⟨⟨hpos, fun v hmem => ?_⟩, fun hmem => ?_, rfl⟩⟩
    · obtain ⟨e, hlast, rfl⟩ := Option.map_eq_some_iff.mp hmem
      exact hnew e (List.mem_of_getLast? hlast)
    · obtain ⟨t, ht⟩ := Option.isSome_iff_exists.mp (Std.ExtTreeMap.mem_iff_isSome_getElem?.mp hmem)
      obtain ⟨e, he, heq⟩ := hv.listed _ t ht
      exact hid t e he heq
  · intro d saved hsave t
    obtain ⟨-, -, rfl⟩ := save_eq_ok.mp hsave
    exact load_push t

def entry : Checkpoint :=
  { threadId := "t", checkpointId := "a", state := ∅, step := 0, pendingNodes := [], createdAt := 0 }

theorem history_lawful_entry : (push {} entry).loadById "a" = some entry := by
  have hsave : save {} entry = .ok (push {} entry) :=
    save_eq_ok.mpr ⟨⟨by decide, by simp [load, list]⟩, by simp, rfl⟩
  exact ((history_lawful (.single (.save hsave))).2.1 "a" entry).mpr ⟨"t", by simp [list_push, entry], rfl⟩

end MemoryStore
end Adk
