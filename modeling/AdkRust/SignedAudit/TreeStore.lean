import AdkRust.SignedAudit.Proofs

/-!
# The stored tree of the signed audit log

A frontier to which leaves are pushed, a store that keeps each leaf and each subtree that a push completes, and a
frontier that is read back from the store whenever the log is opened.

* `TreeState.step`: a push, or a frontier from the store. `TreeState.Follows`: the invariant of a run.
* `mem_push`: **a push completes just the subtrees that end with its leaf.**
* `TreeStore.Keeps.subtreeRoot`: **the stored hashes of a range of a proof fold to the hash of its leaves.**
-/

namespace Adk

namespace Merkle

open TreeHash

variable {H : Type} [TreeHash H]

/-! ## What a push completes -/

omit [TreeHash H] in
/-- A subtree of a higher level ends where two of this level do. -/
theorem index_succ_eq {index level index' more size : Nat} (hend : (index + 1) * 2 ^ level = size)
    (hend' : (index' + 1) * 2 ^ (level + more + 1) = size) : index + 1 = 2 * ((index' + 1) * 2 ^ more) := by
  apply Nat.eq_of_mul_eq_mul_right (Nat.two_pow_pos level)
  rw [hend, ← hend', Nat.pow_succ, Nat.pow_add]
  ring

/-- Every subtree that ends where the leaves end is completed. -/
theorem carry_complete {fuel index level : Nat} {node : H} {hashes leaves : List H} (hfuel : index ≤ fuel)
    (hend : (index + 1) * 2 ^ level = leaves.length) (hhs : hashes = edgeOf leaves (index * 2 ^ level))
    {more index' : Nat} (hend' : (index' + 1) * 2 ^ (level + more + 1) = leaves.length) :
    ∃ done ∈ (carry fuel index level node hashes).2, done.level = level + more + 1 ∧ done.index = index' := by
  induction fuel generalizing index level node hashes more with
  | zero =>
    have := index_succ_eq hend hend'
    omega
  | succ fuel ih =>
    have hdouble := index_succ_eq hend hend'
    obtain ⟨half, rfl⟩ : ∃ half, index = 2 * half + 1 := ⟨index / 2, by omega⟩
    have hhalf : (2 * half + 1) / 2 = half := by omega
    have hodd : (2 * half + 1) % 2 = 1 := by omega
    unfold carry
    rw [if_pos hodd, hhs, edgeOf_concat, List.getLast?_concat, List.dropLast_concat, hhalf]
    dsimp only
    cases more with
    | zero =>
      refine ⟨_, List.mem_cons_self, rfl, ?_⟩
      change half = index'
      rw [Nat.pow_zero] at hdouble
      omega
    | succ more =>
      have hsta : 2 * half * 2 ^ level = half * 2 ^ (level + 1) := by ring
      have hend : (half + 1) * 2 ^ (level + 1) = leaves.length := by
        rw [← hend]
        ring
      have hlevels : level + (more + 1) + 1 = level + 1 + more + 1 := by omega
      rw [hlevels] at hend' ⊢
      rw [hsta]
      obtain ⟨done, hmem, hdone⟩ := @ih half (level + 1) (nodeHash (nodeAt leaves level (2 * half)) node)
        (edgeOf leaves (half * 2 ^ (level + 1))) (by omega) hend rfl more hend'
      exact ⟨done, List.mem_cons_of_mem _ hmem, hdone⟩

/-- The subtrees are completed from the lowest up. -/
theorem carry_levels {fuel index level : Nat} {node : H} {hashes : List H} :
    (∀ done ∈ (carry fuel index level node hashes).2, level < done.level) ∧
      (carry fuel index level node hashes).2.Pairwise fun done later => done.level < later.level := by
  induction fuel generalizing index level node hashes with
  | zero => exact ⟨fun _ hmem => absurd hmem List.not_mem_nil, .nil⟩
  | succ fuel ih =>
    unfold carry
    by_cases hodd : index % 2 = 1
    · rw [if_pos hodd]
      cases hashes.getLast? with
      | none => exact ⟨fun _ hmem => absurd hmem List.not_mem_nil, .nil⟩
      | some left =>
        obtain ⟨hlwr, hpairwise⟩ := @ih (index / 2) (level + 1) (nodeHash left node) hashes.dropLast
        refine ⟨fun done hmem => ?_, List.pairwise_cons.mpr ⟨fun done hmem => hlwr done hmem, hpairwise⟩⟩
        rcases List.mem_cons.mp hmem with rfl | hmem
        · exact Nat.lt_succ_self _
        · have := hlwr done hmem
          omega
    · rw [if_neg hodd]
      exact ⟨fun _ hmem => absurd hmem List.not_mem_nil, .nil⟩

/-- **A push completes just the subtrees that end with its leaf.** -/
theorem mem_push {frontier : Frontier H} {leaves : List H} (h : frontier.Describes leaves) (leaf : H)
    (done : TreeNode H) : done ∈ (frontier.push leaf).2 ↔
      0 < done.level ∧ (done.index + 1) * 2 ^ done.level = leaves.length + 1 ∧
        done.hash = nodeAt (leaves ++ [leaf]) done.level done.index := by
  have hspec := (h.push leaf).2
  refine ⟨hspec done, fun ⟨hlev, hend, hhash⟩ => ?_⟩
  have hlen : (leaves ++ [leaf]).length = leaves.length + 1 := by rw [List.length_append, List.length_singleton]
  have hhs : frontier.hashes = edgeOf (leaves ++ [leaf]) (leaves.length * 2 ^ 0) := by
    rw [h.hashes, Nat.pow_zero, Nat.mul_one]
    exact (edgeOf_append (Nat.le_refl _)).symm
  obtain ⟨more, hmore⟩ : ∃ more, done.level = 0 + more + 1 := ⟨done.level - 1, by omega⟩
  have hend' := hend.trans hlen.symm
  rw [hmore] at hend'
  obtain ⟨found, hmem, hfnd, hidx⟩ := @carry_complete H _ frontier.size leaves.length 0 leaf frontier.hashes
    (leaves ++ [leaf]) (Nat.le_of_eq h.size.symm) (by rw [hlen, Nat.pow_zero, Nat.mul_one]) hhs more done.index
    hend'
  have hmem : found ∈ (frontier.push leaf).2 := by
    unfold Frontier.push
    rw [h.size] at hmem ⊢
    exact hmem
  have hsame : found = done := by
    obtain ⟨-, -, hfoundHash⟩ := hspec found hmem
    cases found
    cases done
    simp_all
  rwa [← hsame]

theorem push_levels (frontier : Frontier H) (leaf : H) :
    (frontier.push leaf).2.Pairwise fun done later => done.level < later.level := by
  unfold Frontier.push
  exact carry_levels.2

/-! ## The ranges of the proofs -/

omit [TreeHash H] in
/-- A range in a block of a power of two. -/
def Block (start stop : Nat) : Prop := ∃ j, 2 ^ j ∣ start ∧ stop - start ≤ 2 ^ j

omit [TreeHash H] in
theorem block_zero (stop : Nat) : Block 0 stop := ⟨stop, Nat.dvd_zero _, by
  have := Nat.lt_two_pow_self (n := stop)
  omega⟩

omit [TreeHash H] in
theorem Block.aligned {start stop : Nat} (h : Block start stop) : Aligned start stop := by
  obtain ⟨j, hdvd, hle⟩ := h
  unfold Aligned
  by_cases hzero : stop - start = 0
  · rw [hzero]
    simp
  · have hlog : (stop - start).log2 ≤ j := by
      have hlow := Nat.log2_self_le hzero
      exact (Nat.pow_le_pow_iff_right (by omega)).mp (Nat.le_trans hlow hle)
    exact Dvd.dvd.trans (Nat.pow_dvd_pow 2 hlog) hdvd

omit [TreeHash H] in
theorem Block.split {start stop : Nat} (h : Block start stop) (htwo : 2 ≤ stop - start) :
    Block start (start + splitPoint (stop - start)) ∧ Block (start + splitPoint (stop - start)) stop := by
  obtain ⟨j, hdvd, hle⟩ := h
  obtain ⟨k, hk, hlow, hhigh⟩ := splitPoint_spec htwo
  have hless : k ≤ j := by
    have hpow : 2 ^ k < 2 ^ j := Nat.lt_of_lt_of_le hlow hle
    exact Nat.le_of_lt ((Nat.pow_lt_pow_iff_right (by omega)).mp hpow)
  have hsta : 2 ^ k ∣ start := Dvd.dvd.trans (Nat.pow_dvd_pow 2 hless) hdvd
  rw [Nat.pow_succ] at hhigh
  rw [hk]
  refine ⟨⟨k, hsta, by omega⟩, ⟨k, Nat.dvd_add hsta (Nat.dvd_refl _), by omega⟩⟩

omit [TreeHash H] in
theorem block_of_mem_path {index start stop : Nat} {range : Nat × Nat} (h : Block start stop)
    (hmem : range ∈ path index start stop) : Block range.1 range.2 := by
  obtain ⟨size, hsize⟩ : ∃ size, size = stop - start := ⟨_, rfl⟩
  induction size using Nat.strongRecOn generalizing start stop with
  | ind size ih =>
    by_cases hone : stop - start ≤ 1
    · rw [path_leaf hone] at hmem
      cases hmem
    · have htwo : 2 ≤ stop - start := by omega
      have hsp := splitPoint_lt htwo
      have hpos := splitPoint_pos (stop - start)
      obtain ⟨hleft, hrt⟩ := h.split htwo
      by_cases hi : index < start + splitPoint (stop - start)
      · rw [path_left htwo hi, List.mem_append, List.mem_singleton] at hmem
        rcases hmem with hmem | rfl
        · exact ih _ (by omega) hleft hmem rfl
        · exact hrt
      · rw [path_right htwo (by omega), List.mem_append, List.mem_singleton] at hmem
        rcases hmem with hmem | rfl
        · exact ih _ (by omega) hrt hmem rfl
        · exact hleft

omit [TreeHash H] in
theorem block_of_mem_subproof {m start stop : Nat} {complete : Bool} {range : Nat × Nat} (hm : 0 < m)
    (hle : m ≤ stop - start) (h : Block start stop) (hmem : range ∈ subproof m start stop complete) :
    Block range.1 range.2 := by
  obtain ⟨size, hsize⟩ : ∃ size, size = stop - start := ⟨_, rfl⟩
  induction size using Nat.strongRecOn generalizing m start stop complete with
  | ind size ih =>
    by_cases hwh : m = stop - start
    · rw [subproof_whole hwh] at hmem
      cases complete with
      | true => cases hmem
      | false =>
        obtain rfl := List.mem_singleton.mp hmem
        exact h
    · have htwo : 2 ≤ stop - start := by omega
      have hsp := splitPoint_lt htwo
      have hpos := splitPoint_pos (stop - start)
      obtain ⟨hleft, hrt⟩ := h.split htwo
      by_cases hi : m ≤ splitPoint (stop - start)
      · rw [subproof_left hi htwo, List.mem_append, List.mem_singleton] at hmem
        rcases hmem with hmem | rfl
        · exact ih _ (by omega) hm (by omega) hleft hmem rfl
        · exact hrt
      · rw [subproof_right (by omega) (by omega), List.mem_append, List.mem_singleton] at hmem
        rcases hmem with hmem | rfl
        · exact ih _ (by omega) (by omega) (by omega) hrt hmem rfl
        · exact hleft

/-! ## The store -/

/-- The leaves of a log, and the subtrees that its leaves completed. -/
structure TreeStore (H : Type) where
  leaves : List H := []
  nodes : Nat × Nat → Option H := fun _ => none

/-- Keeps some subtrees, the last one at each place. -/
def keepNodes (done : List (TreeNode H)) (nodes : Nat × Nat → Option H) : Nat × Nat → Option H :=
  done.foldl
    (fun nodes node => fun place => if place = (node.level, node.index) then some node.hash else nodes place) nodes

namespace TreeStore

/-- The hash of a complete subtree. -/
def hashAt (store : TreeStore H) (level index : Nat) : Option H :=
  if level = 0 then store.leaves[index]? else store.nodes (level, index)

def append (store : TreeStore H) (leaf : H) (done : List (TreeNode H)) : TreeStore H where
  leaves := store.leaves ++ [leaf]
  nodes := keepNodes done store.nodes

/-- The hashes of some subtrees, where none of them is missing. -/
def hashesAt (store : TreeStore H) : List (Nat × Nat) → Option (List H)
  | [] => some []
  | node :: nodes => do
    let hash ← store.hashAt node.1 node.2
    let hashes ← hashesAt store nodes
    return hash :: hashes

/-- The hash of a range of leaves. -/
def subtreeRoot (store : TreeStore H) (start stop : Nat) : Option H :=
  (store.hashesAt (rangeNodes start stop)).map foldRange

def proof (store : TreeStore H) : List (Nat × Nat) → Option (List H)
  | [] => some []
  | range :: ranges => do
    let hash ← store.subtreeRoot range.1 range.2
    let hashes ← proof store ranges
    return hash :: hashes

end TreeStore

/-- A frontier, and the store that it writes to. -/
structure TreeState (H : Type) where
  frontier : Frontier H := {}
  store : TreeStore H := {}

/-- What happens to a log: a leaf is pushed, or the log is opened again. -/
inductive TreeEvent (H : Type) where
  | push (leaf : H)
  | reopen

namespace TreeState

/-- One event. Opening fails where a hash of the right edge is missing. -/
def step (s : TreeState H) : TreeEvent H → Option (TreeState H)
  | .push leaf => some {
      frontier := (s.frontier.push leaf).1
      store := s.store.append leaf (s.frontier.push leaf).2 }
  | .reopen => (s.store.hashesAt (rangeNodes 0 s.store.leaves.length)).map fun hashes =>
      { s with frontier := { size := s.store.leaves.length, hashes } }

def run (s : TreeState H) : List (TreeEvent H) → Option (TreeState H)
  | [] => some s
  | event :: events => (s.step event).bind fun s' => run s' events

end TreeState

def pushed : List (TreeEvent H) → List H
  | [] => []
  | .push leaf :: events => leaf :: pushed events
  | .reopen :: events => pushed events

/-! ## What the store keeps -/

omit [TreeHash H] in

omit [TreeHash H] in
theorem keepNodes_of_mem {done : List (TreeNode H)} {nodes : Nat × Nat → Option H} {place : Nat × Nat} {hash : H}
    (hsame : ∀ node ∈ done, place = (node.level, node.index) → node.hash = hash)
    (h : nodes place = some hash ∨ ∃ node ∈ done, place = (node.level, node.index)) :
    keepNodes done nodes place = some hash := by
  induction done generalizing nodes with
  | nil =>
    rcases h with hkept | ⟨node, hmem, -⟩
    · exact hkept
    · cases hmem
  | cons node done ih =>
    apply @ih (fun other => if other = (node.level, node.index) then some node.hash else nodes other)
    · exact fun later hmem => hsame later (List.mem_cons_of_mem _ hmem)
    · by_cases hpl : place = (node.level, node.index)
      · exact .inl ((if_pos hpl).trans (congrArg some (hsame node List.mem_cons_self hpl)))
      · rcases h with hkept | ⟨later, hmem, hlat⟩
        · exact .inl ((if_neg hpl).trans hkept)
        · rcases List.mem_cons.mp hmem with rfl | hmem
          · exact absurd hlat hpl
          · exact .inr ⟨later, hmem, hlat⟩

namespace TreeStore

/-- A store has some leaves, and each complete subtree of theirs. -/
structure Keeps (store : TreeStore H) (leaves : List H) : Prop where
  stored : store.leaves = leaves
  nodes : ∀ level index, 0 < level → (index + 1) * 2 ^ level ≤ leaves.length →
    store.nodes (level, index) = some (nodeAt leaves level index)

theorem keeps_nil : ({} : TreeStore H).Keeps [] := by
  refine ⟨rfl, fun level index _ hend => ?_⟩
  have hpos : 0 < (index + 1) * 2 ^ level := Nat.mul_pos (Nat.succ_pos index) (Nat.two_pow_pos level)
  change (index + 1) * 2 ^ level ≤ 0 at hend
  omega

variable {store : TreeStore H} {leaves : List H}

/-- A leaf is kept with the subtrees that it completes. -/
theorem Keeps.append (h : store.Keeps leaves) {leaf : H}
    {done : List (TreeNode H)} (hdone : ∀ node, node ∈ done ↔ 0 < node.level ∧
      (node.index + 1) * 2 ^ node.level = leaves.length + 1 ∧
        node.hash = nodeAt (leaves ++ [leaf]) node.level node.index) :
    (store.append leaf done).Keeps (leaves ++ [leaf]) := by
  refine ⟨congrArg (· ++ [leaf]) h.stored, fun level index hlev hend => ?_⟩
  rw [List.length_append, List.length_singleton] at hend
  apply keepNodes_of_mem
  · intro node hmem hpl
    obtain ⟨rfl, rfl⟩ := Prod.mk.inj hpl
    exact ((hdone node).mp hmem).2.2
  · by_cases hlast : (index + 1) * 2 ^ level = leaves.length + 1
    · exact .inr ⟨⟨level, index, nodeAt (leaves ++ [leaf]) level index⟩, (hdone _).mpr ⟨hlev, hlast, rfl⟩, rfl⟩
    · have hold : (index + 1) * 2 ^ level ≤ leaves.length := by omega
      rw [nodeAt_append hold]
      exact .inl (h.nodes level index hlev hold)

theorem Keeps.hashAt (h : store.Keeps leaves) {level index : Nat}
    (hend : (index + 1) * 2 ^ level ≤ leaves.length) : store.hashAt level index = some (nodeAt leaves level index) := by
  unfold TreeStore.hashAt
  by_cases hlev : level = 0
  · subst hlev
    rw [Nat.pow_zero, Nat.mul_one] at hend
    have hget := List.getElem?_eq_getElem (show index < leaves.length by omega)
    rw [if_pos rfl, h.stored, hget, nodeAt_zero hget]
  · rw [if_neg hlev]
    exact h.nodes level index (by omega) hend

theorem Keeps.hashesAt (h : store.Keeps leaves) {nodes : List (Nat × Nat)}
    (hnds : ∀ node ∈ nodes, (node.2 + 1) * 2 ^ node.1 ≤ leaves.length) :
    store.hashesAt nodes = some (nodes.map fun node => nodeAt leaves node.1 node.2) := by
  induction nodes with
  | nil => rfl
  | cons node nodes ih =>
    have hrest := ih fun later hmem => hnds later (List.mem_cons_of_mem _ hmem)
    unfold TreeStore.hashesAt
    rw [h.hashAt (hnds node List.mem_cons_self), hrest]
    rfl

/-- **The stored hashes of an aligned range fold to the hash of its leaves.** -/
theorem Keeps.subtreeRoot (h : store.Keeps leaves) {start stop : Nat}
    (ha : Aligned start stop) (hstop : stop ≤ leaves.length) :
    store.subtreeRoot start stop = some (Merkle.subtreeRoot leaves start stop) := by
  have hnds := h.hashesAt fun node hmem => Nat.le_trans (le_of_mem_rangeNodes ha hmem) hstop
  unfold TreeStore.subtreeRoot
  rw [hnds, Option.map_some, foldRange_rangeNodes ha hstop, subtreeRoot_eq hstop]

theorem Keeps.proof (h : store.Keeps leaves) {size : Nat} (hsize : size ≤ leaves.length) {ranges : List (Nat × Nat)}
    (hranges : ∀ range ∈ ranges, Aligned range.1 range.2 ∧ range.2 ≤ size) :
    store.proof ranges = some (ranges.map fun range => Merkle.subtreeRoot (leaves.take size) range.1 range.2) := by
  induction ranges with
  | nil => rfl
  | cons range ranges ih =>
    have hrest := ih fun later hmem => hranges later (List.mem_cons_of_mem _ hmem)
    obtain ⟨ha, hstop⟩ := hranges range List.mem_cons_self
    have hlen : (leaves.take size).length = size := by
      rw [List.length_take]
      omega
    have hsame : Merkle.subtreeRoot leaves range.1 range.2 =
        Merkle.subtreeRoot (leaves.take size) range.1 range.2 := by
      rw [subtreeRoot_eq (by omega), subtreeRoot_eq (by omega)]
      conv_lhs => rw [← List.take_append_drop size leaves, slice_of_append (by omega)]
    unfold TreeStore.proof
    rw [h.subtreeRoot ha (by omega), hrest, hsame]
    rfl

end TreeStore

/-! ## Runs -/

namespace TreeState

/-- The frontier and the store are those of some leaves. -/
structure Follows (s : TreeState H) (leaves : List H) : Prop where
  frontier : s.frontier.Describes leaves
  store : s.store.Keeps leaves

theorem follows_nil : ({} : TreeState H).Follows [] := ⟨Frontier.describes_nil, TreeStore.keeps_nil⟩

variable {s : TreeState H} {leaves : List H}

theorem Follows.push (h : s.Follows leaves) (leaf : H) :
    ∃ s', s.step (.push leaf) = some s' ∧ s'.Follows (leaves ++ [leaf]) :=
  ⟨_, rfl, (h.frontier.push leaf).1, h.store.append (mem_push h.frontier leaf)⟩

/-- Opening reads the right edge back. -/
theorem Follows.reopen (h : s.Follows leaves) :
    ∃ s', s.step .reopen = some s' ∧ s'.Follows leaves := by
  have hedge := h.store.hashesAt fun node hmem => le_of_mem_rangeNodes (aligned_zero leaves.length) hmem
  refine ⟨{ s with frontier := { size := leaves.length, hashes := edgeOf leaves leaves.length } }, ?_, ⟨rfl, rfl⟩, h.store⟩
  change (s.store.hashesAt (rangeNodes 0 s.store.leaves.length)).map _ = _
  rw [h.store.stored, hedge]
  rfl

/-- **Every run keeps the tree of the leaves pushed.** -/
theorem Follows.run (h : s.Follows leaves) (events : List (TreeEvent H)) :
    ∃ s', s.run events = some s' ∧ s'.Follows (leaves ++ pushed events) := by
  induction events generalizing s leaves with
  | nil => exact ⟨s, rfl, by rwa [pushed, List.append_nil]⟩
  | cons event events ih =>
    cases event with
    | push leaf =>
      obtain ⟨s', hstep, hfol⟩ := h.push leaf
      obtain ⟨s'', hrun, hend⟩ := ih hfol
      refine ⟨s'', ?_, ?_⟩
      · unfold TreeState.run
        rw [hstep]
        exact hrun
      · rwa [List.append_assoc] at hend
    | reopen =>
      obtain ⟨s', hstep, hfol⟩ := h.reopen
      obtain ⟨s'', hrun, hend⟩ := ih hfol
      refine ⟨s'', ?_, hend⟩
      unfold TreeState.run
      rw [hstep]
      exact hrun

end TreeState

end Merkle

end Adk
