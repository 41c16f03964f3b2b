import Mathlib.Data.List.Basic
import Mathlib.Data.Nat.Bitwise
import Mathlib.Tactic.Ring

/-!
# Merkle trees

The tree of RFC 9162 over a list of leaf hashes: a list of two or more splits at the largest power of two below its
length, so that every left subtree is complete.

* `root`: the hash of a list of leaves.
* `rangeNodes`, `foldRange`: the complete subtrees of a range, and the hash of the range from theirs.
* `foldRange_rangeNodes`: **that is the hash of the leaves in the range.**
* `Frontier`: the right edge of a tree, to which leaves are pushed.
* `Frontier.Describes.push`: **a push makes the right edge of the longer tree**, and the subtrees it completes.
* `root_inj`: two lists of one length with one root are equal, where no two nodes collide.
-/

namespace Adk

class TreeHash (H : Type) where
  nodeHash : H → H → H
  emptyRoot : H

namespace Merkle

open TreeHash

variable {H : Type} [TreeHash H]

/-- The largest power of two below a number from two on. -/
def splitPoint (n : Nat) : Nat := 2 ^ Nat.log2 (n - 1)

/-- The root of some leaves, with as much fuel as there are leaves. -/
def rootFuel : Nat → List H → H
  | _, [] => emptyRoot
  | _, [leaf] => leaf
  | 0, leaf :: _ => leaf
  | fuel + 1, leaves =>
    let mid := splitPoint leaves.length
    nodeHash (rootFuel fuel (leaves.take mid)) (rootFuel fuel (leaves.drop mid))

def root (leaves : List H) : H := rootFuel leaves.length leaves

def slice (leaves : List H) (start stop : Nat) : List H := (leaves.drop start).take (stop - start)

def nodeAt (leaves : List H) (level index : Nat) : H :=
  root (slice leaves (index * 2 ^ level) ((index + 1) * 2 ^ level))

/-- How often two divides a number. -/
def trailingZeros (n : Nat) : Nat := ((List.range (n.log2 + 1)).find? fun i => n.testBit i).getD 0

def rangeNodesFuel : Nat → Nat → Nat → List (Nat × Nat)
  | 0, _, _ => []
  | fuel + 1, start, stop =>
    if start < stop then
      let level := if start = 0 then Nat.log2 (stop - start) else min (Nat.log2 (stop - start)) (trailingZeros start)
      (level, start >>> level) :: rangeNodesFuel fuel (start + 2 ^ level) stop
    else []

/-- The complete subtrees of a range, left to right. -/
def rangeNodes (start stop : Nat) : List (Nat × Nat) := rangeNodesFuel (stop - start) start stop

def foldRange (hashes : List H) : H :=
  match hashes.reverse with
  | [] => emptyRoot
  | last :: rest => rest.foldl (fun right left => nodeHash left right) last

/-- A complete subtree, and its hash. -/
structure TreeNode (H : Type) where
  level : Nat
  index : Nat
  hash : H

/-- The right edge of a tree: one complete subtree for each set bit of its size, the largest first. -/
structure Frontier (H : Type) where
  size : Nat := 0
  hashes : List H := []

/-- Joins a new subtree to the edge, and says which subtrees that completes. -/
def carry : Nat → Nat → Nat → H → List H → List H × List (TreeNode H)
  | 0, _, _, node, hashes => (hashes ++ [node], [])
  | fuel + 1, index, level, node, hashes =>
    if index % 2 = 1 then
      match hashes.getLast? with
      | none => (hashes ++ [node], [])
      | some left =>
        let joined := nodeHash left node
        let (edge, completed) := carry fuel (index / 2) (level + 1) joined hashes.dropLast
        (edge, { level := level + 1, index := index / 2, hash := joined } :: completed)
    else (hashes ++ [node], [])

namespace Frontier

/-- Appends a leaf, and says which subtrees it completes. -/
def push (frontier : Frontier H) (leaf : H) : Frontier H × List (TreeNode H) :=
  let (hashes, completed) := carry frontier.size frontier.size 0 leaf frontier.hashes
  ({ size := frontier.size + 1, hashes }, completed)

def root (frontier : Frontier H) : H := foldRange frontier.hashes

end Frontier

/-! ## The root -/

theorem splitPoint_lt {n : Nat} (h : 2 ≤ n) : splitPoint n < n := by
  unfold splitPoint
  have := Nat.log2_self_le (n := n - 1) (by omega)
  omega

theorem splitPoint_pos (n : Nat) : 0 < splitPoint n := Nat.two_pow_pos _

variable {k fuel start stop level index : Nat} {leaves more : List H}

/-- A power of two is split at its half, and the sum of a power of two and less at the power. -/
theorem splitPoint_add {rest : Nat} (hpos : 0 < rest) (hle : rest ≤ 2 ^ k) : splitPoint (2 ^ k + rest) = 2 ^ k := by
  unfold splitPoint
  have hne : 2 ^ k + rest - 1 ≠ 0 := by
    have := Nat.two_pow_pos k
    omega
  have hlog : (2 ^ k + rest - 1).log2 = k := by
    apply (Nat.log2_eq_iff hne).mpr
    rw [Nat.pow_succ]
    omega
  rw [hlog]

omit [TreeHash H] in
theorem leaves_cases (leaves : List H) : leaves = [] ∨ (∃ leaf, leaves = [leaf]) ∨ 2 ≤ leaves.length := by
  match leaves with
  | [] => exact .inl rfl
  | [leaf] => exact .inr (.inl ⟨leaf, rfl⟩)
  | _ :: _ :: _ => exact .inr (.inr (by simp))

theorem rootFuel_split (h : 2 ≤ leaves.length) : rootFuel (fuel + 1) leaves =
    nodeHash (rootFuel fuel (leaves.take (splitPoint leaves.length)))
      (rootFuel fuel (leaves.drop (splitPoint leaves.length))) := by
  match leaves, h with
  | _ :: _ :: _, _ => rfl

theorem rootFuel_eq {fuel' : Nat} (h : leaves.length ≤ fuel) (h' : leaves.length ≤ fuel') :
    rootFuel fuel leaves = rootFuel fuel' leaves := by
  induction fuel generalizing fuel' leaves with
  | zero =>
    obtain rfl := List.eq_nil_of_length_eq_zero (Nat.le_zero.mp h)
    unfold rootFuel
    rfl
  | succ fuel ih =>
    rcases leaves_cases leaves with rfl | ⟨leaf, rfl⟩ | htwo
    · unfold rootFuel
      rfl
    · unfold rootFuel
      rfl
    · obtain ⟨fuel', rfl⟩ : ∃ n, fuel' = n + 1 := ⟨fuel' - 1, by omega⟩
      have hlt := splitPoint_lt htwo
      have hpos := splitPoint_pos leaves.length
      rw [rootFuel_split htwo, rootFuel_split htwo]
      congr 1
      · apply ih <;> rw [List.length_take] <;> omega
      · apply ih <;> rw [List.length_drop] <;> omega

@[simp] theorem root_nil : root ([] : List H) = emptyRoot := by
  unfold root rootFuel
  rfl

@[simp] theorem root_singleton (leaf : H) : root [leaf] = leaf := by
  unfold root rootFuel
  rfl

theorem root_split (h : 2 ≤ leaves.length) : root leaves =
    nodeHash (root (leaves.take (splitPoint leaves.length))) (root (leaves.drop (splitPoint leaves.length))) := by
  match leaves, h with
  | first :: second :: rest, h =>
    have hlt := splitPoint_lt h
    have hpos := splitPoint_pos (first :: second :: rest).length
    have htake : ((first :: second :: rest).take (splitPoint (first :: second :: rest).length)).length ≤
        rest.length + 1 := by
      rw [List.length_take]
      simp only [List.length_cons] at hlt ⊢
      omega
    have hdrop : ((first :: second :: rest).drop (splitPoint (first :: second :: rest).length)).length ≤
        rest.length + 1 := by
      rw [List.length_drop]
      simp only [List.length_cons] at hpos ⊢
      omega
    unfold root
    rw [rootFuel_eq (Nat.le_refl _) htake, rootFuel_eq (Nat.le_refl _) hdrop]
    rfl

/-- The root of a power of two and more leaves, up to twice as many. -/
theorem root_append {left right : List H} (hleft : left.length = 2 ^ k) (hpos : 0 < right.length)
    (hle : right.length ≤ 2 ^ k) : root (left ++ right) = nodeHash (root left) (root right) := by
  have hlen : (left ++ right).length = 2 ^ k + right.length := by rw [List.length_append, hleft]
  have hsp : splitPoint (left ++ right).length = left.length := by rw [hlen, splitPoint_add hpos hle, hleft]
  rw [root_split, hsp, List.take_left, List.drop_left]
  have := Nat.two_pow_pos k
  omega

/-! ## The subtrees of a range -/

/-- A range whose start is a multiple of the largest power of two in its length. -/
def Aligned (start stop : Nat) : Prop := 2 ^ Nat.log2 (stop - start) ∣ start

theorem aligned_zero (stop : Nat) : Aligned 0 stop := ⟨0, by simp⟩

theorem le_trailingZeros {n : Nat} (hne : n ≠ 0) (h : 2 ^ k ∣ n) : k ≤ trailingZeros n := by
  unfold trailingZeros
  cases hfind : (List.range (n.log2 + 1)).find? fun i => n.testBit i with
  | none =>
    rw [List.find?_eq_none] at hfind
    have htop := hfind n.log2 (List.mem_range.mpr (Nat.lt_succ_self _))
    exact absurd (Nat.testBit_log2 hne) htop
  | some i =>
    have hbit : n.testBit i = true := List.find?_some hfind
    by_contra hlt
    have hlt : i < k := by simpa using hlt
    obtain ⟨m, rfl⟩ := h
    rw [Nat.testBit_two_pow_mul, decide_eq_false (by omega), Bool.false_and] at hbit
    cases hbit

theorem rangeNodesFuel_eq {fuel' : Nat} (h : stop - start ≤ fuel) (h' : stop - start ≤ fuel') :
    rangeNodesFuel fuel start stop = rangeNodesFuel fuel' start stop := by
  induction fuel generalizing fuel' start with
  | zero =>
    cases fuel' with
    | zero => rfl
    | succ fuel' =>
      unfold rangeNodesFuel
      rw [if_neg (by omega)]
  | succ fuel ih =>
    cases fuel' with
    | zero =>
      unfold rangeNodesFuel
      rw [if_neg (by omega)]
    | succ fuel' =>
      unfold rangeNodesFuel
      by_cases hlt : start < stop
      · rw [if_pos hlt, if_pos hlt]
        dsimp only
        generalize (if start = 0 then _ else _ : Nat) = level
        have := Nat.two_pow_pos level
        have hrest : rangeNodesFuel fuel (start + 2 ^ level) stop = rangeNodesFuel fuel' (start + 2 ^ level) stop :=
          ih (by omega) (by omega)
        rw [hrest]
      · rw [if_neg hlt, if_neg hlt]

theorem rangeNodes_empty (h : stop ≤ start) : rangeNodes start stop = [] := by
  unfold rangeNodes
  rw [Nat.sub_eq_zero_of_le h]
  rfl

/-- The first subtree of a range is the largest that fits. -/
theorem rangeNodes_cons (h : start < stop) (ha : Aligned start stop) : rangeNodes start stop =
    (Nat.log2 (stop - start), start / 2 ^ Nat.log2 (stop - start)) ::
      rangeNodes (start + 2 ^ Nat.log2 (stop - start)) stop := by
  obtain ⟨fuel, hfuel⟩ : ∃ fuel, stop - start = fuel + 1 := ⟨stop - start - 1, by omega⟩
  have hlev : (if start = 0 then Nat.log2 (stop - start) else min (Nat.log2 (stop - start)) (trailingZeros start)) =
      Nat.log2 (stop - start) := by
    by_cases hzero : start = 0
    · rw [if_pos hzero]
    · rw [if_neg hzero]
      exact Nat.min_eq_left (le_trailingZeros hzero ha)
  have hpos := Nat.two_pow_pos (Nat.log2 (stop - start))
  have hrest : rangeNodesFuel fuel (start + 2 ^ Nat.log2 (stop - start)) stop =
      rangeNodes (start + 2 ^ Nat.log2 (stop - start)) stop :=
    rangeNodesFuel_eq (by omega) (by omega)
  rw [← hrest]
  conv_lhs => unfold rangeNodes; rw [hfuel]; unfold rangeNodesFuel
  rw [if_pos h]
  dsimp only
  rw [hlev, Nat.shiftRight_eq_div_pow]

/-- What is left of a range after its first subtree. -/
theorem Aligned.next (h : start < stop) (ha : Aligned start stop) :
    Aligned (start + 2 ^ Nat.log2 (stop - start)) stop ∧
      stop - (start + 2 ^ Nat.log2 (stop - start)) < 2 ^ Nat.log2 (stop - start) := by
  have hlt : stop - start < 2 ^ (Nat.log2 (stop - start) + 1) := Nat.lt_log2_self
  rw [Nat.pow_succ] at hlt
  have hless : stop - (start + 2 ^ Nat.log2 (stop - start)) < 2 ^ Nat.log2 (stop - start) := by omega
  refine ⟨?_, hless⟩
  unfold Aligned
  by_cases hzero : stop - (start + 2 ^ Nat.log2 (stop - start)) = 0
  · rw [hzero]
    simp
  · have hlog := (Nat.log2_lt hzero).mpr hless
    refine Dvd.dvd.trans (Nat.pow_dvd_pow 2 (Nat.le_of_lt hlog)) ?_
    exact Nat.dvd_add ha (Nat.dvd_refl _)

omit [TreeHash H] in
theorem length_slice (h : stop ≤ leaves.length) :
    (slice leaves start stop).length = stop - start := by
  unfold slice
  rw [List.length_take, List.length_drop]
  omega

omit [TreeHash H] in
/-- A range is two ranges one after the other. -/
theorem slice_append {mid : Nat} (hmid : start ≤ mid) (hstop : mid ≤ stop) :
    slice leaves start stop = slice leaves start mid ++ slice leaves mid stop := by
  unfold slice
  have hsum : stop - start = (mid - start) + (stop - mid) := by omega
  have hdrop : leaves.drop mid = (leaves.drop start).drop (mid - start) := by
    rw [List.drop_drop]
    congr 1
    omega
  rw [hsum, List.take_add, hdrop]

theorem foldRange_cons (hash : H) {hashes : List H} (h : hashes ≠ []) :
    foldRange (hash :: hashes) = nodeHash hash (foldRange hashes) := by
  unfold foldRange
  rw [List.reverse_cons]
  cases hreverse : hashes.reverse with
  | nil => exact absurd (List.reverse_eq_nil_iff.mp hreverse) h
  | cons last rest =>
    show (rest ++ [hash]).foldl _ last = _
    rw [List.foldl_append]
    rfl

/-- **The hashes of the subtrees of a range fold to the hash of its leaves.** -/
theorem foldRange_rangeNodes (ha : Aligned start stop) (hstop : stop ≤ leaves.length) :
    foldRange ((rangeNodes start stop).map fun node => nodeAt leaves node.1 node.2) = root (slice leaves start stop) := by
  obtain ⟨size, hsize⟩ : ∃ size, size = stop - start := ⟨_, rfl⟩
  induction size using Nat.strongRecOn generalizing start with
  | ind size ih =>
    by_cases hlt : start < stop
    · have hpow := Nat.two_pow_pos (Nat.log2 (stop - start))
      have hle := Nat.log2_self_le (n := stop - start) (by omega)
      obtain ⟨hnext, hless⟩ := ha.next hlt
      -- the first subtree is the first part of the range
      have hidx : start / 2 ^ Nat.log2 (stop - start) * 2 ^ Nat.log2 (stop - start) = start :=
        Nat.div_mul_cancel ha
      have hfst : nodeAt leaves (Nat.log2 (stop - start)) (start / 2 ^ Nat.log2 (stop - start)) =
          root (slice leaves start (start + 2 ^ Nat.log2 (stop - start))) := by
        unfold nodeAt
        rw [Nat.add_mul, hidx, Nat.one_mul]
      rw [rangeNodes_cons hlt ha, List.map_cons, hfst]
      by_cases hend : start + 2 ^ Nat.log2 (stop - start) < stop
      · have hne : (rangeNodes (start + 2 ^ Nat.log2 (stop - start)) stop).map
            (fun node => nodeAt leaves node.1 node.2) ≠ [] := by
          rw [rangeNodes_cons hend hnext]
          simp
        rw [foldRange_cons _ hne, ih _ (by omega) hnext rfl, slice_append (Nat.le_add_right _ _) (Nat.le_of_lt hend)]
        refine (root_append (k := Nat.log2 (stop - start)) ?_ ?_ ?_).symm
        · rw [length_slice (by omega)]
          omega
        · rw [length_slice hstop]
          omega
        · rw [length_slice hstop]
          omega
      · have hstop' : start + 2 ^ Nat.log2 (stop - start) = stop := by omega
        rw [hstop', rangeNodes_empty (Nat.le_refl _)]
        rfl
    · have hemp : slice leaves start stop = [] := by
        unfold slice
        rw [Nat.sub_eq_zero_of_le (by omega), List.take_zero]
      rw [rangeNodes_empty (by omega), hemp, root_nil]
      rfl

/-! ## The right edge -/

omit [TreeHash H] in
theorem slice_of_append (h : stop ≤ leaves.length) :
    slice (leaves ++ more) start stop = slice leaves start stop := by
  unfold slice
  by_cases hsta : start ≤ leaves.length
  · rw [List.drop_append_of_le_length hsta, List.take_append_of_le_length]
    rw [List.length_drop]
    omega
  · rw [Nat.sub_eq_zero_of_le (by omega), List.take_zero, List.take_zero]

theorem nodeAt_append (h : (index + 1) * 2 ^ level ≤ leaves.length) :
    nodeAt (leaves ++ more) level index = nodeAt leaves level index := by
  unfold nodeAt
  rw [slice_of_append h]

/-- The subtrees of level 0 are the leaves. -/
theorem nodeAt_zero {leaf : H} (h : leaves[index]? = some leaf) :
    nodeAt leaves 0 index = leaf := by
  obtain ⟨hlt, rfl⟩ := List.getElem?_eq_some_iff.mp h
  unfold nodeAt slice
  rw [Nat.pow_zero, Nat.mul_one, Nat.mul_one, Nat.add_sub_cancel_left, List.drop_eq_getElem_cons hlt]
  exact root_singleton _

/-- Two subtrees side by side make one of the next level. -/
theorem nodeAt_succ (h : (2 * index + 2) * 2 ^ level ≤ leaves.length) :
    nodeAt leaves (level + 1) index =
      nodeHash (nodeAt leaves level (2 * index)) (nodeAt leaves level (2 * index + 1)) := by
  have hpos := Nat.two_pow_pos level
  have hsta : index * 2 ^ (level + 1) = 2 * index * 2 ^ level := by rw [Nat.pow_succ]; ring
  have hstop : (index + 1) * 2 ^ (level + 1) = (2 * index + 1 + 1) * 2 ^ level := by rw [Nat.pow_succ]; ring
  have hsum : (2 * index + 1) * 2 ^ level = 2 * index * 2 ^ level + 2 ^ level := by ring
  have hsum' : (2 * index + 1 + 1) * 2 ^ level = 2 * index * 2 ^ level + 2 ^ level + 2 ^ level := by ring
  unfold nodeAt
  have hle : (2 * index + 1 + 1) * 2 ^ level ≤ leaves.length := h
  have hslice : slice leaves (2 * index * 2 ^ level) ((2 * index + 1 + 1) * 2 ^ level) =
      slice leaves (2 * index * 2 ^ level) ((2 * index + 1) * 2 ^ level) ++
        slice leaves ((2 * index + 1) * 2 ^ level) ((2 * index + 1 + 1) * 2 ^ level) :=
    slice_append (by omega) (by omega)
  rw [hsta, hstop, hslice]
  refine root_append (k := level) ?_ ?_ ?_
  · rw [length_slice (by omega)]
    omega
  · rw [length_slice hle]
    omega
  · rw [length_slice hle]
    omega

/-- The hashes of the subtrees of the first leaves. -/
def edgeOf (leaves : List H) (size : Nat) : List H := (rangeNodes 0 size).map fun node => nodeAt leaves node.1 node.2

/-- The subtrees of a range end in it. -/
theorem le_of_mem_rangeNodes (ha : Aligned start stop) {node : Nat × Nat}
    (hnode : node ∈ rangeNodes start stop) : (node.2 + 1) * 2 ^ node.1 ≤ stop := by
  obtain ⟨size, hsize⟩ : ∃ size, size = stop - start := ⟨_, rfl⟩
  induction size using Nat.strongRecOn generalizing start with
  | ind size ih =>
    by_cases hlt : start < stop
    · have hpos := Nat.two_pow_pos (Nat.log2 (stop - start))
      rw [rangeNodes_cons hlt ha] at hnode
      rcases List.mem_cons.mp hnode with rfl | hrest
      · have hle := Nat.log2_self_le (n := stop - start) (by omega)
        show (start / 2 ^ Nat.log2 (stop - start) + 1) * 2 ^ Nat.log2 (stop - start) ≤ stop
        rw [Nat.add_mul, Nat.div_mul_cancel ha]
        omega
      · exact ih _ (by omega) (ha.next hlt).1 hrest rfl
    · rw [rangeNodes_empty (by omega)] at hnode
      cases hnode

theorem edgeOf_append {size : Nat} (h : size ≤ leaves.length) :
    edgeOf (leaves ++ more) size = edgeOf leaves size := by
  unfold edgeOf
  apply List.map_congr_left
  intro node hnode
  exact nodeAt_append (Nat.le_trans (le_of_mem_rangeNodes (aligned_zero _) hnode) h)

/-- A range that ends in a smaller subtree than the ones before. -/
theorem rangeNodes_concat (hstop : 2 ^ (level + 1) ∣ stop) (hsta : 2 ^ (level + 1) ∣ start)
    (hle : start ≤ stop) (ha : Aligned start stop) :
    rangeNodes start (stop + 2 ^ level) = rangeNodes start stop ++ [(level, stop / 2 ^ level)] := by
  obtain ⟨size, hsize⟩ : ∃ size, size = stop - start := ⟨_, rfl⟩
  have hpos := Nat.two_pow_pos level
  induction size using Nat.strongRecOn generalizing start with
  | ind size ih =>
    by_cases heq : start = stop
    · subst heq
      have hlen : start + 2 ^ level - start = 2 ^ level := by omega
      have haligned : Aligned start (start + 2 ^ level) := by
        unfold Aligned
        rw [hlen, Nat.log2_two_pow]
        exact Dvd.dvd.trans (Nat.pow_dvd_pow 2 (Nat.le_succ level)) hsta
      rw [rangeNodes_cons (by omega) haligned, hlen, Nat.log2_two_pow, rangeNodes_empty (Nat.le_refl _),
        rangeNodes_empty (Nat.le_refl _)]
      rfl
    · -- both ranges begin with the same subtree, which is larger
      have hne : stop - start ≠ 0 := by omega
      obtain ⟨m, hm⟩ : 2 ^ (level + 1) ∣ stop - start := Nat.dvd_sub hstop hsta
      have hlow := Nat.log2_self_le hne
      have hupper : stop - start < 2 ^ (Nat.log2 (stop - start) + 1) := Nat.lt_log2_self
      have hlev : level + 1 ≤ Nat.log2 (stop - start) := by
        apply (Nat.le_log2 hne).mpr
        rw [hm]
        apply Nat.le_mul_of_pos_right
        apply Nat.pos_of_ne_zero
        rintro rfl
        exact hne (by rw [hm, Nat.mul_zero])
      have hlog : Nat.log2 (stop + 2 ^ level - start) = Nat.log2 (stop - start) := by
        apply (Nat.log2_eq_iff (by omega)).mpr
        refine ⟨by omega, ?_⟩
        obtain ⟨more, hmore⟩ := Nat.exists_eq_add_of_le hlev
        have hpow : 2 ^ (Nat.log2 (stop - start) + 1) = 2 ^ (level + 1) * 2 ^ (more + 1) := by
          rw [← Nat.pow_add]
          congr 1
          omega
        rw [hpow, hm] at hupper
        have hless : m + 1 ≤ 2 ^ (more + 1) := Nat.lt_of_mul_lt_mul_left hupper
        have hmul := Nat.mul_le_mul_left (2 ^ (level + 1)) hless
        have hdouble : 2 ^ (level + 1) = 2 * 2 ^ level := by ring
        rw [Nat.mul_add, Nat.mul_one] at hmul
        rw [hpow]
        omega
      have haligned : Aligned start (stop + 2 ^ level) := by
        unfold Aligned
        rw [hlog]
        exact ha
      have hlt : start < stop := by omega
      rw [rangeNodes_cons (by omega) haligned, rangeNodes_cons hlt ha, hlog, List.cons_append, List.cons.injEq]
      refine ⟨rfl, ih _ ?_ ?_ (by omega) (ha.next (by omega)).1 rfl⟩
      · have := Nat.two_pow_pos (Nat.log2 (stop - start))
        omega
      · exact Nat.dvd_add hsta (Nat.pow_dvd_pow 2 hlev)

/-- The edge ends in the subtree that ends there. -/
theorem edgeOf_concat :
    edgeOf leaves ((2 * index + 1) * 2 ^ level) =
      edgeOf leaves (2 * index * 2 ^ level) ++ [nodeAt leaves level (2 * index)] := by
  have hpos := Nat.two_pow_pos level
  have hsum : (2 * index + 1) * 2 ^ level = 2 * index * 2 ^ level + 2 ^ level := by ring
  have hdvd : 2 ^ (level + 1) ∣ 2 * index * 2 ^ level := ⟨index, by ring⟩
  unfold edgeOf
  rw [hsum, rangeNodes_concat hdvd (Nat.dvd_zero _) (Nat.zero_le _) (aligned_zero _), List.map_append,
    Nat.mul_div_cancel _ hpos]
  rfl

/-- The subtrees that a leaf completes end where the leaves end. -/
theorem carry_spec {node : H} {hashes : List H} (hfuel : index ≤ fuel)
    (hend : (index + 1) * 2 ^ level = leaves.length) (hnode : node = nodeAt leaves level index)
    (hhs : hashes = edgeOf leaves (index * 2 ^ level)) :
    (carry fuel index level node hashes).1 = edgeOf leaves leaves.length ∧
      ∀ done ∈ (carry fuel index level node hashes).2, level < done.level ∧
        (done.index + 1) * 2 ^ done.level = leaves.length ∧ done.hash = nodeAt leaves done.level done.index := by
  -- an index that is even is where the carry ends
  have heven : ∀ {index level : Nat} {node : H} {hashes : List H}, index % 2 = 0 →
      (index + 1) * 2 ^ level = leaves.length → node = nodeAt leaves level index →
      hashes = edgeOf leaves (index * 2 ^ level) → hashes ++ [node] = edgeOf leaves leaves.length := by
    rintro index level node hashes hmod hend rfl rfl
    obtain ⟨half, rfl⟩ : ∃ half, index = 2 * half := ⟨index / 2, by omega⟩
    rw [← hend, edgeOf_concat]
  induction fuel generalizing index level node hashes with
  | zero =>
    refine ⟨heven (by omega) hend hnode hhs, fun done hdone => ?_⟩
    cases hdone
  | succ fuel ih =>
    unfold carry
    by_cases hodd : index % 2 = 1
    · obtain ⟨half, rfl⟩ : ∃ half, index = 2 * half + 1 := ⟨index / 2, by omega⟩
      have hhalf : (2 * half + 1) / 2 = half := by omega
      rw [if_pos hodd, hhs, edgeOf_concat, List.getLast?_concat, List.dropLast_concat, hhalf]
      have hend' : (half + 1) * 2 ^ (level + 1) = leaves.length := by
        rw [← hend]
        ring
      have hjoined : nodeHash (nodeAt leaves level (2 * half)) node = nodeAt leaves (level + 1) half := by
        rw [hnode, nodeAt_succ (Nat.le_of_eq hend)]
      have hsta : 2 * half * 2 ^ level = half * 2 ^ (level + 1) := by ring
      rw [hsta]
      obtain ⟨hedge, hcomp⟩ := ih (by omega) hend' hjoined rfl
      refine ⟨hedge, fun done hdone => ?_⟩
      rcases List.mem_cons.mp hdone with rfl | hdone
      · exact ⟨Nat.lt_succ_self _, hend', hjoined⟩
      · obtain ⟨hlev, hrest⟩ := hcomp done hdone
        exact ⟨by omega, hrest⟩
    · rw [if_neg hodd]
      refine ⟨heven (by omega) hend hnode hhs, fun done hdone => ?_⟩
      cases hdone

namespace Frontier

/-- A frontier is the right edge of the tree over some leaves. -/
structure Describes (frontier : Frontier H) (leaves : List H) : Prop where
  size : frontier.size = leaves.length
  hashes : frontier.hashes = edgeOf leaves leaves.length

theorem describes_nil : ({} : Frontier H).Describes [] := ⟨rfl, rfl⟩

/-- **A push makes the right edge of the longer tree**, and the subtrees that it completes end with the leaf. -/
theorem Describes.push {frontier : Frontier H} {leaves : List H} (h : frontier.Describes leaves) (leaf : H) :
    (frontier.push leaf).1.Describes (leaves ++ [leaf]) ∧ ∀ done ∈ (frontier.push leaf).2, 0 < done.level ∧
      (done.index + 1) * 2 ^ done.level = leaves.length + 1 ∧
      done.hash = nodeAt (leaves ++ [leaf]) done.level done.index := by
  have hlen : (leaves ++ [leaf]).length = leaves.length + 1 := by rw [List.length_append, List.length_singleton]
  have hnode : leaf = nodeAt (leaves ++ [leaf]) 0 leaves.length := by
    exact (nodeAt_zero (List.getElem?_concat_length)).symm
  have hhs : frontier.hashes = edgeOf (leaves ++ [leaf]) (leaves.length * 2 ^ 0) := by
    rw [h.hashes, Nat.pow_zero, Nat.mul_one]
    exact (edgeOf_append (Nat.le_refl _)).symm
  have hend : (leaves.length + 1) * 2 ^ 0 = (leaves ++ [leaf]).length := by
    rw [hlen, Nat.pow_zero, Nat.mul_one]
  obtain ⟨hedge, hcomp⟩ := carry_spec (Nat.le_of_eq h.size.symm) hend hnode hhs
  rw [hlen] at hcomp
  unfold Frontier.push
  rw [h.size] at hedge hcomp ⊢
  refine ⟨⟨hlen.symm, hedge⟩, hcomp⟩

theorem Describes.root {frontier : Frontier H} {leaves : List H} (h : frontier.Describes leaves) :
    frontier.root = Merkle.root leaves := by
  unfold Frontier.root
  rw [h.hashes]
  unfold edgeOf
  rw [foldRange_rangeNodes (aligned_zero _) (Nat.le_refl _)]
  unfold slice
  rw [List.drop_zero, Nat.sub_zero, List.take_length]

end Frontier

/-! ## Trees without collisions -/

/-- The pairs of hashes under the nodes of a tree, with as much fuel as there are leaves. -/
def pairsFuel : Nat → List H → List (H × H)
  | _, [] => []
  | _, [_] => []
  | 0, _ :: _ => []
  | fuel + 1, leaves =>
    let mid := splitPoint leaves.length
    (rootFuel fuel (leaves.take mid), rootFuel fuel (leaves.drop mid)) ::
      (pairsFuel fuel (leaves.take mid) ++ pairsFuel fuel (leaves.drop mid))

/-- The pairs of hashes under the nodes of the tree over some leaves. -/
def pairs (leaves : List H) : List (H × H) := pairsFuel leaves.length leaves

theorem pairsFuel_split (h : 2 ≤ leaves.length) : pairsFuel (fuel + 1) leaves =
    (rootFuel fuel (leaves.take (splitPoint leaves.length)), rootFuel fuel (leaves.drop (splitPoint leaves.length))) ::
      (pairsFuel fuel (leaves.take (splitPoint leaves.length)) ++
        pairsFuel fuel (leaves.drop (splitPoint leaves.length))) := by
  match leaves, h with
  | _ :: _ :: _, _ => rfl

theorem rootFuel_inj {leaves' : List H} (hlen : leaves.length = leaves'.length) (hfuel : leaves.length ≤ fuel)
    (hpairs : ∀ p ∈ pairsFuel fuel leaves, ∀ q ∈ pairsFuel fuel leaves', nodeHash p.1 p.2 = nodeHash q.1 q.2 → p = q)
    (h : rootFuel fuel leaves = rootFuel fuel leaves') : leaves = leaves' := by
  induction fuel generalizing leaves leaves' with
  | zero =>
    have hnil := List.eq_nil_of_length_eq_zero (Nat.le_zero.mp hfuel)
    subst hnil
    exact (List.eq_nil_of_length_eq_zero hlen.symm).symm
  | succ fuel ih =>
    rcases leaves_cases leaves with rfl | ⟨leaf, rfl⟩ | htwo
    · exact (List.eq_nil_of_length_eq_zero hlen.symm).symm
    · obtain ⟨leaf', rfl⟩ := List.length_eq_one_iff.mp hlen.symm
      have hleaf : leaf = leaf' := by
        unfold rootFuel at h
        exact h
      rw [hleaf]
    · have htwo' : 2 ≤ leaves'.length := by omega
      rw [pairsFuel_split htwo, pairsFuel_split htwo'] at hpairs
      rw [rootFuel_split htwo, rootFuel_split htwo'] at h
      have hhead := hpairs _ List.mem_cons_self _ List.mem_cons_self h
      have hsp := splitPoint_lt htwo
      have hpos := splitPoint_pos leaves.length
      have htake : leaves.take (splitPoint leaves.length) = leaves'.take (splitPoint leaves'.length) := by
        refine ih ?_ ?_ (fun p hp q hq => hpairs p ?_ q ?_) (congrArg Prod.fst hhead)
        · rw [List.length_take, List.length_take, hlen]
        · rw [List.length_take]
          omega
        · exact List.mem_cons_of_mem _ (List.mem_append_left _ hp)
        · exact List.mem_cons_of_mem _ (List.mem_append_left _ hq)
      have hdrop : leaves.drop (splitPoint leaves.length) = leaves'.drop (splitPoint leaves'.length) := by
        refine ih ?_ ?_ (fun p hp q hq => hpairs p ?_ q ?_) (congrArg Prod.snd hhead)
        · rw [List.length_drop, List.length_drop, hlen]
        · rw [List.length_drop]
          omega
        · exact List.mem_cons_of_mem _ (List.mem_append_right _ hp)
        · exact List.mem_cons_of_mem _ (List.mem_append_right _ hq)
      rw [← List.take_append_drop (splitPoint leaves.length) leaves, htake, hdrop, List.take_append_drop]

/-- **Two lists of one length with one root are equal**, where no two nodes of their trees collide. -/
theorem root_inj {leaves' : List H} (hlen : leaves.length = leaves'.length)
    (hpairs : ∀ p ∈ pairs leaves, ∀ q ∈ pairs leaves', nodeHash p.1 p.2 = nodeHash q.1 q.2 → p = q)
    (h : root leaves = root leaves') : leaves = leaves' := by
  unfold root pairs at *
  rw [← hlen] at hpairs h
  exact rootFuel_inj hlen (Nat.le_refl _) hpairs h

end Merkle

end Adk
