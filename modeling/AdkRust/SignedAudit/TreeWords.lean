import AdkRust.SignedAudit.TreeStore

/-!
# The tree in words of 64 bits

The arithmetic of the tree as the code does it, with no answer where a subtraction goes below zero, a shift or a sum
past 64 bits, or a list is asked for what it does not have.

* `splitPoint64`, `rangeNodes64`, `path64`, `subproof64`, `subtreeRoot64`, `push64`: the functions in words.
* `rangeNodes64_eq` and the like: **below 2^63 there is an answer, which is that of the numbers.**
* `tree_refines`: **in every run the frontier, the store and the proofs from it are those of the leaves pushed.**
-/

namespace Adk

namespace Merkle

open TreeHash

/-! ## Words -/

/-- `a - b` -/
def sub64 (a b : Nat) : Option Nat := if b ≤ a then some (a - b) else none

/-- `a + b` -/
def add64 (a b : Nat) : Option Nat := if a + b < 2 ^ 64 then some (a + b) else none

/-- `a << k`, with no bit lost -/
def shl64 (a k : Nat) : Option Nat := if k < 64 ∧ a <<< k < 2 ^ 64 then some (a <<< k) else none

/-- `a >> k` -/
def shr64 (a k : Nat) : Option Nat := if k < 64 then some (a >>> k) else none

/-- `a + 1` in 8 bits -/
def succ8 (a : Nat) : Option Nat := if a + 1 < 2 ^ 8 then some (a + 1) else none

/-- The zeros before the first bit of a word. -/
def leadingZeros64 (n : Nat) : Nat := if n = 0 then 64 else 63 - n.log2

def splitPoint64 (n : Nat) : Option Nat := do
  let below ← sub64 n 1
  let shift ← sub64 63 (leadingZeros64 below)
  shl64 1 shift

def rangeNodes64 : Nat → Nat → Nat → Option (List (Nat × Nat))
  | 0, start, stop => if start < stop then none else some []
  | fuel + 1, start, stop =>
    if start < stop then do
      let remaining ← sub64 stop start
      let top ← sub64 63 (leadingZeros64 remaining)
      let level := if start = 0 then top else min top (trailingZeros start)
      let index ← shr64 start level
      let width ← shl64 1 level
      let next ← add64 start width
      let nodes ← rangeNodes64 fuel next stop
      return (level, index) :: nodes
    else some []

def path64 : Nat → Nat → Nat → Nat → Option (List (Nat × Nat))
  | 0, _, _, _ => none
  | fuel + 1, index, start, stop => do
    let n ← sub64 stop start
    if n ≤ 1 then return []
    let k ← splitPoint64 n
    let mid ← add64 start k
    if index < mid then
      let ranges ← path64 fuel index start mid
      return ranges ++ [(mid, stop)]
    else
      let ranges ← path64 fuel index mid stop
      return ranges ++ [(start, mid)]

def subproof64 : Nat → Nat → Nat → Nat → Bool → Option (List (Nat × Nat))
  | 0, _, _, _, _ => none
  | fuel + 1, m, start, stop, complete => do
    let n ← sub64 stop start
    if m = n then return if complete then [] else [(start, stop)]
    let k ← splitPoint64 n
    let mid ← add64 start k
    if m ≤ k then
      let ranges ← subproof64 fuel m start mid complete
      return ranges ++ [(mid, stop)]
    else
      let m ← sub64 m k
      let ranges ← subproof64 fuel m mid stop false
      return ranges ++ [(start, mid)]

def inclusionRanges64 (index size : Nat) : Option (List (Nat × Nat)) := path64 (size + 1) index 0 size

def consistencyRanges64 (old new : Nat) : Option (List (Nat × Nat)) :=
  if 0 < old ∧ old < new then subproof64 (new + 1) old 0 new true else some []

section Tree

variable {H : Type} [TreeHash H]

def subtreeRoot64 (leaves : List H) : Nat → Nat → Nat → Option H
  | 0, _, _ => none
  | fuel + 1, start, stop => do
    let n ← sub64 stop start
    if n = 0 then return emptyRoot
    if n = 1 then leaves[start]?
    else
      let k ← splitPoint64 n
      let mid ← add64 start k
      let left ← subtreeRoot64 leaves fuel start mid
      let right ← subtreeRoot64 leaves fuel mid stop
      return nodeHash left right

def carry64 : Nat → Nat → Nat → H → List H → Option (List H × List (TreeNode H))
  | 0, index, _, node, hashes => if index % 2 = 1 then none else some (hashes ++ [node], [])
  | fuel + 1, index, level, node, hashes =>
    if index % 2 = 1 then do
      let left ← hashes.getLast?
      let node := nodeHash left node
      let level ← succ8 level
      let (edge, completed) ← carry64 fuel (index / 2) level node hashes.dropLast
      return (edge, { level, index := index / 2, hash := node } :: completed)
    else some (hashes ++ [node], [])

def push64 (frontier : Frontier H) (leaf : H) : Option (Frontier H × List (TreeNode H)) := do
  let (hashes, completed) ← carry64 frontier.size frontier.size 0 leaf frontier.hashes
  let size ← add64 frontier.size 1
  return ({ size, hashes }, completed)

end Tree

/-! ## No overflow -/

theorem sub64_eq {a b : Nat} (h : b ≤ a) : sub64 a b = some (a - b) := if_pos h

theorem add64_eq {a b : Nat} (h : a + b < 2 ^ 64) : add64 a b = some (a + b) := if_pos h

theorem shl64_one {k : Nat} (h : k < 64) : shl64 1 k = some (2 ^ k) := by
  have hpow : 2 ^ k < 2 ^ 64 := Nat.pow_lt_pow_right (by omega) h
  unfold shl64
  rw [Nat.shiftLeft_eq, Nat.one_mul, if_pos ⟨h, hpow⟩]

theorem log2_lt_64 {n : Nat} (hpos : n ≠ 0) (h : n < 2 ^ 63) : n.log2 < 63 := (Nat.log2_lt hpos).mpr h

/-- The first bit of a word. -/
theorem sub_leadingZeros64 {n : Nat} (hpos : n ≠ 0) (h : n < 2 ^ 63) : sub64 63 (leadingZeros64 n) = some n.log2 := by
  have hlog := log2_lt_64 hpos h
  unfold leadingZeros64
  rw [if_neg hpos, sub64_eq (by omega)]
  congr 1
  omega

theorem splitPoint64_eq {n : Nat} (htwo : 2 ≤ n) (h : n < 2 ^ 63) : splitPoint64 n = some (splitPoint n) := by
  have hlog := @log2_lt_64 (n - 1) (by omega) (by omega)
  unfold splitPoint64 splitPoint
  simp only [Option.bind_eq_bind]
  rw [sub64_eq (by omega), Option.bind_some, sub_leadingZeros64 (by omega) (by omega), Option.bind_some,
    shl64_one (by omega)]

theorem rangeNodes64_eq {fuel start stop : Nat} (hfuel : stop - start ≤ fuel) (h : stop < 2 ^ 63) :
    rangeNodes64 fuel start stop = some (rangeNodesFuel fuel start stop) := by
  induction fuel generalizing start with
  | zero =>
    unfold rangeNodes64
    rw [if_neg (by omega)]
    rfl
  | succ fuel ih =>
    unfold rangeNodes64 rangeNodesFuel
    by_cases hlt : start < stop
    · simp only [Option.bind_eq_bind]
      rw [if_pos hlt, if_pos hlt, sub64_eq (Nat.le_of_lt hlt), Option.bind_some,
        sub_leadingZeros64 (by omega) (by omega), Option.bind_some]
      have hlog := @log2_lt_64 (stop - start) (by omega) (by omega)
      have hfits := Nat.log2_self_le (n := stop - start) (by omega)
      generalize hlev : (if start = 0 then (stop - start).log2 else
        min (stop - start).log2 (trailingZeros start)) = level
      have hle : level ≤ (stop - start).log2 := by
        rw [← hlev]
        split
        next => exact Nat.le_refl _
        next => exact Nat.min_le_left _ _
      have hwidth : 2 ^ level ≤ stop - start := Nat.le_trans (Nat.pow_le_pow_right (by omega) hle) hfits
      have hpos := Nat.two_pow_pos level
      unfold shr64
      rw [if_pos (by omega), Option.bind_some, shl64_one (by omega), Option.bind_some, add64_eq (by omega),
        Option.bind_some, ih (by omega)]
      rfl
    · rw [if_neg hlt, if_neg hlt]

theorem path64_eq {fuel index start stop : Nat} (hfuel : stop - start < fuel) (hle : start ≤ stop) (h : stop < 2 ^ 63) :
    path64 fuel index start stop = some (path index start stop) := by
  induction fuel generalizing start stop with
  | zero => omega
  | succ fuel ih =>
    unfold path64
    rw [sub64_eq hle, Option.bind_eq_bind, Option.bind_some]
    by_cases hone : stop - start ≤ 1
    · rw [if_pos hone, path_leaf hone]
      rfl
    · have htwo : 2 ≤ stop - start := by omega
      have hsp := splitPoint_lt htwo
      have hpos := splitPoint_pos (stop - start)
      rw [if_neg hone, splitPoint64_eq htwo (by omega)]
      simp only [Option.bind_eq_bind, Option.bind_some]
      rw [add64_eq (by omega), Option.bind_some]
      by_cases hi : index < start + splitPoint (stop - start)
      · rw [if_pos hi, ih (by omega) (by omega) (by omega), path_left htwo hi]
        rfl
      · rw [if_neg hi, ih (by omega) (by omega) h, path_right htwo (by omega)]
        rfl

theorem subproof64_eq {fuel m start stop : Nat} {complete : Bool} (hfuel : stop - start < fuel) (hm : 0 < m)
    (hle : m ≤ stop - start) (h : stop < 2 ^ 63) :
    subproof64 fuel m start stop complete = some (subproof m start stop complete) := by
  induction fuel generalizing m start stop complete with
  | zero => omega
  | succ fuel ih =>
    unfold subproof64
    rw [sub64_eq (by omega), Option.bind_eq_bind, Option.bind_some]
    by_cases hwh : m = stop - start
    · rw [if_pos hwh, subproof_whole hwh]
      rfl
    · have htwo : 2 ≤ stop - start := by omega
      have hsp := splitPoint_lt htwo
      have hpos := splitPoint_pos (stop - start)
      rw [if_neg hwh, splitPoint64_eq htwo (by omega)]
      simp only [Option.bind_eq_bind, Option.bind_some]
      rw [add64_eq (by omega), Option.bind_some]
      by_cases hi : m ≤ splitPoint (stop - start)
      · rw [if_pos hi, ih (by omega) hm (by omega) (by omega), subproof_left hi htwo]
        rfl
      · have hless : splitPoint (stop - start) < m := by omega
        rw [if_neg hi, sub64_eq (by omega), Option.bind_some, ih (by omega) (by omega) (by omega) h,
          subproof_right hless (by omega)]
        rfl

theorem inclusionRanges64_eq {index size : Nat} (h : size < 2 ^ 63) :
    inclusionRanges64 index size = some (inclusionRanges index size) :=
  path64_eq (Nat.lt_succ_self _) (Nat.zero_le _) h

theorem consistencyRanges64_eq {old new : Nat} (h : new < 2 ^ 63) :
    consistencyRanges64 old new = some (consistencyRanges old new) := by
  unfold consistencyRanges64 consistencyRanges
  by_cases hszs : 0 < old ∧ old < new
  · rw [if_pos hszs, if_pos hszs]
    exact subproof64_eq (Nat.lt_succ_self _) hszs.1 (Nat.le_of_lt hszs.2) h
  · rw [if_neg hszs, if_neg hszs]

variable {H : Type} [TreeHash H]

theorem subtreeRoot64_eq {leaves : List H} {fuel start stop : Nat} (hfuel : stop - start < fuel) (hle : start ≤ stop)
    (hstop : stop ≤ leaves.length) (h : stop < 2 ^ 63) :
    subtreeRoot64 leaves fuel start stop = some (subtreeRoot leaves start stop) := by
  induction fuel generalizing start stop with
  | zero => omega
  | succ fuel ih =>
    unfold subtreeRoot64 subtreeRoot
    rw [sub64_eq hle, Option.bind_eq_bind, Option.bind_some]
    by_cases hzero : stop - start = 0
    · rw [if_pos hzero, if_pos hzero]
      rfl
    · rw [if_neg hzero, if_neg hzero]
      by_cases hone : stop - start = 1
      · have hget := List.getElem?_eq_getElem (show start < leaves.length by omega)
        rw [if_pos hone, if_pos hone, hget]
        rfl
      · have htwo : 2 ≤ stop - start := by omega
        have hsp := splitPoint_lt htwo
        have hpos := splitPoint_pos (stop - start)
        rw [if_neg hone, if_neg hone, splitPoint64_eq htwo (by omega)]
        simp only [Option.bind_eq_bind, Option.bind_some]
        rw [add64_eq (by omega), Option.bind_some, ih (by omega) (by omega) (by omega) (by omega), Option.bind_some,
          ih (by omega) (by omega) hstop h]
        rfl

theorem carry64_eq {fuel index level : Nat} {node : H} {hashes leaves : List H} (hfuel : index ≤ fuel)
    (hend : (index + 1) * 2 ^ level = leaves.length) (hhs : hashes = edgeOf leaves (index * 2 ^ level))
    (h : leaves.length ≤ 2 ^ 63) :
    carry64 fuel index level node hashes = some (carry fuel index level node hashes) := by
  induction fuel generalizing index level node hashes with
  | zero =>
    unfold carry64
    rw [if_neg (by omega)]
    rfl
  | succ fuel ih =>
    unfold carry64 carry
    by_cases hodd : index % 2 = 1
    · obtain ⟨half, rfl⟩ : ∃ half, index = 2 * half + 1 := ⟨index / 2, by omega⟩
      have hhalf : (2 * half + 1) / 2 = half := by omega
      have hlev : level ≤ 63 := by
        have hpow : 2 ^ level ≤ 2 ^ 63 := by
          refine Nat.le_trans (Nat.le_mul_of_pos_left _ (Nat.succ_pos (2 * half + 1))) ?_
          exact hend.trans_le h
        exact (Nat.pow_le_pow_iff_right (by omega)).mp hpow
      have hsta : 2 * half * 2 ^ level = half * 2 ^ (level + 1) := by ring
      have hend' : (half + 1) * 2 ^ (level + 1) = leaves.length := by
        rw [← hend]
        ring
      have hrest := @ih half (level + 1) (nodeHash (nodeAt leaves level (2 * half)) node)
        (edgeOf leaves (half * 2 ^ (level + 1))) (by omega) hend' rfl
      unfold succ8
      rw [if_pos hodd, if_pos hodd, hhs, edgeOf_concat, List.getLast?_concat, List.dropLast_concat, hhalf, hsta]
      simp only [Option.bind_eq_bind, Option.bind_some]
      rw [if_pos (by omega), Option.bind_some, hrest]
      rfl
    · rw [if_neg hodd, if_neg hodd]

theorem push64_eq {frontier : Frontier H} {leaves : List H} (hdescribes : frontier.Describes leaves)
    (h : leaves.length < 2 ^ 63) (leaf : H) : push64 frontier leaf = some (frontier.push leaf) := by
  have hlen : (leaves ++ [leaf]).length = leaves.length + 1 := by rw [List.length_append, List.length_singleton]
  have hhs : frontier.hashes = edgeOf (leaves ++ [leaf]) (leaves.length * 2 ^ 0) := by
    rw [hdescribes.hashes, Nat.pow_zero, Nat.mul_one]
    exact (edgeOf_append (Nat.le_refl _)).symm
  have hend : (leaves.length + 1) * 2 ^ 0 = (leaves ++ [leaf]).length := by rw [hlen, Nat.pow_zero, Nat.mul_one]
  have hcarry := @carry64_eq H _ leaves.length leaves.length 0 leaf frontier.hashes (leaves ++ [leaf]) (Nat.le_refl _)
    hend hhs (by omega)
  unfold push64 Frontier.push
  rw [hdescribes.size, hcarry]
  simp only [Option.bind_eq_bind, Option.bind_some]
  rw [add64_eq (by omega)]
  rfl

/-! ## The tree of a run -/

/-- What a frontier and its store have to do with some leaves. -/
structure TreeState.Refines (s : TreeState H) (leaves : List H) : Prop where
  /-- The frontier has the recursive root. -/
  root : s.frontier.root = root leaves
  /-- The next push completes just the subtrees that end with its leaf, and their hashes are the recursive ones. -/
  completes : ∀ leaf done, done ∈ (s.frontier.push leaf).2 ↔
    0 < done.level ∧ (done.index + 1) * 2 ^ done.level = leaves.length + 1 ∧
      done.hash = subtreeRoot (leaves ++ [leaf]) (done.index * 2 ^ done.level) ((done.index + 1) * 2 ^ done.level)
  upward : ∀ leaf, (s.frontier.push leaf).2.Pairwise fun done later => done.level < later.level
  /-- The stored hashes of each range of a proof fold to the recursive one. -/
  inclusionRange : ∀ index size, size ≤ leaves.length → ∀ range ∈ inclusionRanges index size,
    s.store.subtreeRoot range.1 range.2 = some (subtreeRoot leaves range.1 range.2)
  consistencyRange : ∀ old size, size ≤ leaves.length → ∀ range ∈ consistencyRanges old size,
    s.store.subtreeRoot range.1 range.2 = some (subtreeRoot leaves range.1 range.2)
  inclusion : ∀ index size, index < size → size ≤ leaves.length → ∃ proof,
    s.store.proof (inclusionRanges index size) = some proof ∧ inclusionProof (leaves.take size) index = .ok proof
  consistency : ∀ old size, old ≤ size → size ≤ leaves.length → ∃ proof,
    s.store.proof (consistencyRanges old size) = some proof ∧ consistencyProof (leaves.take size) old = .ok proof
  /-- Nothing overflows below 2^63. -/
  push64 : leaves.length < 2 ^ 63 → ∀ leaf, push64 s.frontier leaf = some (s.frontier.push leaf)
  subtreeRoot64 : ∀ start stop, start ≤ stop → stop ≤ leaves.length → stop < 2 ^ 63 →
    subtreeRoot64 leaves (stop - start + 1) start stop = some (subtreeRoot leaves start stop)

omit [TreeHash H] in
theorem aligned_of_mem_inclusionRanges {index size : Nat} {range : Nat × Nat} (h : range ∈ inclusionRanges index size) :
    Aligned range.1 range.2 ∧ range.2 ≤ size :=
  ⟨(block_of_mem_path (block_zero size) h).aligned, (le_of_mem_path h).2.2⟩

omit [TreeHash H] in
theorem aligned_of_mem_consistencyRanges {old size : Nat} {range : Nat × Nat} (h : range ∈ consistencyRanges old size) :
    Aligned range.1 range.2 ∧ range.2 ≤ size := by
  unfold consistencyRanges at h
  by_cases hszs : 0 < old ∧ old < size
  · rw [if_pos hszs] at h
    have hle : old ≤ size - 0 := Nat.le_of_lt hszs.2
    exact ⟨(block_of_mem_subproof hszs.1 hle (block_zero size) h).aligned, (le_of_mem_subproof hszs.1 hle h).2.2⟩
  · rw [if_neg hszs] at h
    cases h

theorem TreeState.Follows.refines {s : TreeState H} {leaves : List H} (h : s.Follows leaves) : s.Refines leaves where
  root := h.frontier.root
  completes leaf done := by
    rw [mem_push h.frontier]
    refine and_congr_right fun _ => and_congr_right fun hend => ?_
    rw [subtreeRoot_eq]
    · rfl
    · rw [hend, List.length_append, List.length_singleton]
  upward := push_levels s.frontier
  inclusionRange index size hsize range hmem := by
    obtain ⟨ha, hle⟩ := aligned_of_mem_inclusionRanges hmem
    exact h.store.subtreeRoot ha (Nat.le_trans hle hsize)
  consistencyRange old size hsize range hmem := by
    obtain ⟨ha, hle⟩ := aligned_of_mem_consistencyRanges hmem
    exact h.store.subtreeRoot ha (Nat.le_trans hle hsize)
  inclusion index size hidx hsize := by
    have hlen : (leaves.take size).length = size := by
      rw [List.length_take]
      omega
    refine ⟨_, h.store.proof hsize fun range hmem => aligned_of_mem_inclusionRanges hmem, ?_⟩
    unfold inclusionProof
    rw [hlen, if_neg (by omega)]
  consistency old size hold hsize := by
    have hlen : (leaves.take size).length = size := by
      rw [List.length_take]
      omega
    refine ⟨_, h.store.proof hsize fun range hmem => aligned_of_mem_consistencyRanges hmem, ?_⟩
    unfold consistencyProof
    rw [hlen, if_neg (by omega)]
  push64 := push64_eq h.frontier
  subtreeRoot64 _ _ hle hstop hwords := subtreeRoot64_eq (Nat.lt_succ_self _) hle hstop hwords

/-- **The incremental tree is the recursive one.** Over any run of pushes and openings the frontier has the root of the
leaves pushed, a push completes just the subtrees that end with its leaf, the proofs from the store are those from the
leaves, and below 2^63 nothing overflows. -/
theorem tree_refines (events : List (TreeEvent H)) :
    (∃ s, ({} : TreeState H).run events = some s ∧ s.Refines (pushed events)) ∧
      (∀ n, 2 ≤ n → n < 2 ^ 63 → splitPoint64 n = some (splitPoint n)) ∧
      (∀ start stop, stop < 2 ^ 63 → rangeNodes64 (stop - start) start stop = some (rangeNodes start stop)) ∧
      ∀ index size, size < 2 ^ 63 → inclusionRanges64 index size = some (inclusionRanges index size) ∧
        consistencyRanges64 index size = some (consistencyRanges index size) := by
  obtain ⟨s, hrun, hfollows⟩ := TreeState.follows_nil.run events
  refine ⟨⟨s, hrun, hfollows.refines⟩, ?_, ?_, ?_⟩
  · exact fun n htwo h => splitPoint64_eq htwo h
  · exact fun start stop h => rangeNodes64_eq (Nat.le_refl _) h
  · exact fun index size h => ⟨inclusionRanges64_eq h, consistencyRanges64_eq h⟩

end Merkle

end Adk
