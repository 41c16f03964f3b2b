import AdkRust.Lib.Merkle

/-!
# Proofs about Merkle trees

The inclusion and consistency proofs of RFC 9162, and the two counters that their verifiers carry up the tree.

* `inclusionRanges`, `consistencyRanges`: the ranges whose hashes make a proof.
* `sides`: on which side the siblings of a leaf stand, from the bits of its index and of the last index.
* `climb_inclusion`, `climb_inclusion_sound`: **the siblings lead from the leaf to the root, and no others do.**
* `climb_consistency`, `climb_consistency_sound`: **a seed and its siblings lead to both roots, and only where one list
  begins with the other.**
-/

namespace Adk

namespace Merkle

open TreeHash

/-! ## The ranges of a proof -/

/-- The siblings of an index in a range, from the leaf up. -/
def path (index start stop : Nat) : List (Nat × Nat) :=
  if stop - start ≤ 1 then []
  else
    let mid := start + splitPoint (stop - start)
    if index < mid then path index start mid ++ [(mid, stop)]
    else path index mid stop ++ [(start, mid)]
termination_by stop - start
decreasing_by
  all_goals
    have := splitPoint_lt (n := stop - start) (by omega)
    have := splitPoint_pos (stop - start)
    omega

def inclusionRanges (index size : Nat) : List (Nat × Nat) := path index 0 size

/-- The ranges that tell the first leaves of a range from the others. -/
def subproof (m start stop : Nat) (complete : Bool) : List (Nat × Nat) :=
  if m = stop - start then
    if complete then [] else [(start, stop)]
  -- there is no larger range that is this short
  else if stop - start ≤ 1 then []
  else
    let k := splitPoint (stop - start)
    let mid := start + k
    if m ≤ k then subproof m start mid complete ++ [(mid, stop)]
    else subproof (m - k) mid stop false ++ [(start, mid)]
termination_by stop - start
decreasing_by
  all_goals
    have := splitPoint_lt (n := stop - start) (by omega)
    have := splitPoint_pos (stop - start)
    omega

/-- The ranges of the consistency proof between two sizes. -/
def consistencyRanges (old new : Nat) : List (Nat × Nat) :=
  if 0 < old ∧ old < new then subproof old 0 new true else []

variable {index m fn sn j : Nat} {complete : Bool}

theorem path_leaf {start stop : Nat} (h : stop - start ≤ 1) : path index start stop = [] := by
  unfold path
  rw [if_pos h]

theorem path_left {start stop : Nat} (h : 2 ≤ stop - start) (hi : index < start + splitPoint (stop - start)) :
    path index start stop = path index start (start + splitPoint (stop - start)) ++
      [(start + splitPoint (stop - start), stop)] := by
  conv_lhs => unfold path
  rw [if_neg (by omega), if_pos hi]

theorem path_right {start stop : Nat} (h : 2 ≤ stop - start) (hi : start + splitPoint (stop - start) ≤ index) :
    path index start stop = path index (start + splitPoint (stop - start)) stop ++
      [(start, start + splitPoint (stop - start))] := by
  conv_lhs => unfold path
  rw [if_neg (by omega), if_neg (by omega)]

theorem subproof_whole {start stop : Nat} (h : m = stop - start) :
    subproof m start stop complete = if complete then [] else [(start, stop)] := by
  unfold subproof
  rw [if_pos h]

theorem subproof_left {start stop : Nat} (hm : m ≤ splitPoint (stop - start))
    (h : 2 ≤ stop - start) : subproof m start stop complete =
      subproof m start (start + splitPoint (stop - start)) complete ++ [(start + splitPoint (stop - start), stop)] := by
  have := splitPoint_lt h
  conv_lhs => unfold subproof
  rw [if_neg (by omega), if_neg (by omega), if_pos hm]

theorem subproof_right {start stop : Nat} (hm : splitPoint (stop - start) < m)
    (hlt : m < stop - start) : subproof m start stop complete =
      subproof (m - splitPoint (stop - start)) (start + splitPoint (stop - start)) stop false ++
        [(start, start + splitPoint (stop - start))] := by
  have := splitPoint_pos (stop - start)
  conv_lhs => unfold subproof
  rw [if_neg (by omega), if_neg (by omega), if_neg (by omega)]

/-- A number from two on is between the power of two that it is split at and its double. -/
theorem splitPoint_spec {n : Nat} (h : 2 ≤ n) : ∃ j, splitPoint n = 2 ^ j ∧ 2 ^ j < n ∧ n ≤ 2 ^ (j + 1) := by
  refine ⟨(n - 1).log2, rfl, splitPoint_lt h, ?_⟩
  have := Nat.lt_log2_self (n := n - 1)
  omega

/-! ## The counters of a verifier -/

/-- On which side the sibling stands at each level where there is one, from the leaf up. -/
def sides (fn sn : Nat) : List Bool :=
  if sn = 0 then []
  else if fn % 2 = 1 then true :: sides (fn / 2) (sn / 2)
  else if fn = sn then sides (fn / 2) (sn / 2)
  else false :: sides (fn / 2) (sn / 2)
termination_by sn

@[simp] theorem sides_zero (fn : Nat) : sides fn 0 = [] := by
  unfold sides
  rw [if_pos rfl]

theorem sides_odd (hodd : fn % 2 = 1) (hsn : sn ≠ 0) :
    sides fn sn = true :: sides (fn / 2) (sn / 2) := by
  conv_lhs => unfold sides
  rw [if_neg hsn, if_pos hodd]

/-- The last node of a level has no sibling where its index is even. -/
theorem sides_last {n : Nat} (heven : n % 2 = 0) : sides n n = sides (n / 2) (n / 2) := by
  by_cases hn : n = 0
  · subst hn
    rfl
  · conv_lhs => unfold sides
    rw [if_neg hn, if_neg (by omega), if_pos rfl]

theorem sides_even (heven : fn % 2 = 0) (hlt : fn < sn) :
    sides fn sn = false :: sides (fn / 2) (sn / 2) := by
  conv_lhs => unfold sides
  rw [if_neg (by omega), if_neg (by omega), if_neg (by omega)]

theorem sides_ne_nil (hle : fn ≤ sn) (hsn : sn ≠ 0) : sides fn sn ≠ [] := by
  induction sn using Nat.strongRecOn generalizing fn with
  | ind sn ih =>
    by_cases hodd : fn % 2 = 1
    · rw [sides_odd hodd hsn]
      simp
    · by_cases heq : fn = sn
      · subst heq
        rw [sides_last (by omega)]
        apply ih <;> omega
      · rw [sides_even (by omega) (by omega)]
        simp

/-- **In the left part of a tree the siblings are those of the part, and then the right part.** -/
theorem sides_left (hfn : fn < 2 ^ j) (hlow : 2 ^ j ≤ sn) (hhigh : sn < 2 ^ (j + 1)) :
    sides fn sn = sides fn (2 ^ j - 1) ++ [false] := by
  induction j generalizing fn sn with
  | zero =>
    obtain rfl : fn = 0 := by simpa using hfn
    obtain rfl : sn = 1 := by
      rw [Nat.pow_zero] at hlow
      omega
    rw [sides_even rfl (by omega)]
    simp
  | succ j ih =>
    rw [Nat.pow_succ] at hfn hlow hhigh
    have hhalf : (2 ^ (j + 1) - 1) / 2 = 2 ^ j - 1 := by
      rw [Nat.pow_succ]
      omega
    have hpos := Nat.two_pow_pos j
    have hrest : sides (fn / 2) (sn / 2) = sides (fn / 2) (2 ^ j - 1) ++ [false] := by
      apply ih <;> omega
    rw [Nat.pow_succ] at hhalf ⊢
    by_cases hodd : fn % 2 = 1
    · rw [sides_odd hodd (by omega), sides_odd hodd (by omega), hrest, hhalf]
      rfl
    · have hwh : sides fn sn = false :: sides (fn / 2) (sn / 2) := by
        apply sides_even <;> omega
      have hpart : sides fn (2 ^ j * 2 - 1) = false :: sides (fn / 2) ((2 ^ j * 2 - 1) / 2) := by
        apply sides_even <;> omega
      rw [hwh, hpart, hrest, hhalf]
      rfl

/-- **In the right part of a tree the siblings are those of the part, and then the left part.** -/
theorem sides_right (hle : fn ≤ sn) (hsn : sn < 2 ^ j) :
    sides (2 ^ j + fn) (2 ^ j + sn) = sides fn sn ++ [true] := by
  induction j generalizing fn sn with
  | zero =>
    obtain rfl : sn = 0 := by simpa using hsn
    obtain rfl : fn = 0 := by omega
    rw [Nat.pow_zero, sides_odd (by omega) (by omega)]
    simp
  | succ j ih =>
    rw [Nat.pow_succ] at hsn
    have hfn2 : (2 ^ (j + 1) + fn) / 2 = 2 ^ j + fn / 2 := by
      rw [Nat.pow_succ]
      omega
    have hsn2 : (2 ^ (j + 1) + sn) / 2 = 2 ^ j + sn / 2 := by
      rw [Nat.pow_succ]
      omega
    have hmod : (2 ^ (j + 1) + fn) % 2 = fn % 2 := by
      rw [Nat.pow_succ]
      omega
    have hpos := Nat.two_pow_pos (j + 1)
    have hrest : sides (2 ^ j + fn / 2) (2 ^ j + sn / 2) = sides (fn / 2) (sn / 2) ++ [true] := by
      apply ih <;> omega
    by_cases hodd : fn % 2 = 1
    · rw [sides_odd (by omega) (by omega), sides_odd hodd (by omega), hfn2, hsn2, hrest]
      rfl
    · by_cases heq : fn = sn
      · subst heq
        have hpart : sides fn fn = sides (fn / 2) (fn / 2) := by
          apply sides_last
          omega
        rw [sides_last (by omega), hfn2, hrest, hpart]
      · have hpart : sides fn sn = false :: sides (fn / 2) (sn / 2) := by
          apply sides_even <;> omega
        have hwh := @sides_even (2 ^ (j + 1) + fn) (2 ^ (j + 1) + sn) (by omega) (by omega)
        rw [hwh, hpart, hfn2, hsn2, hrest]
        rfl

theorem sides_inclusion_left {n : Nat} (h : 2 ≤ n) (hi : index < splitPoint n) :
    sides index (n - 1) = sides index (splitPoint n - 1) ++ [false] := by
  obtain ⟨j, hj, hlt, hle⟩ := splitPoint_spec h
  rw [hj] at hi ⊢
  apply sides_left hi <;> omega

theorem sides_inclusion_right {n : Nat} (h : 2 ≤ n) (hi : splitPoint n ≤ index) (hlt : index < n) :
    sides index (n - 1) = sides (index - splitPoint n) (n - splitPoint n - 1) ++ [true] := by
  obtain ⟨j, hj, hlow, hle⟩ := splitPoint_spec h
  rw [Nat.pow_succ] at hle
  rw [hj] at hi ⊢
  have hrt : sides (2 ^ j + (index - 2 ^ j)) (2 ^ j + (n - 2 ^ j - 1)) =
      sides (index - 2 ^ j) (n - 2 ^ j - 1) ++ [true] := by
    apply sides_right <;> omega
  have hidx : 2 ^ j + (index - 2 ^ j) = index := by omega
  have hn : 2 ^ j + (n - 2 ^ j - 1) = n - 1 := by omega
  rwa [hidx, hn] at hrt

/-- Both counters, past the levels where the node is the right one of two. -/
def stripOnes (fn sn : Nat) : Nat × Nat :=
  if fn % 2 = 1 then stripOnes (fn / 2) (sn / 2) else (fn, sn)
termination_by fn

/-- The siblings from the largest subtree that ends with an index. -/
def seedSides (fn sn : Nat) : List Bool := sides (stripOnes fn sn).1 (stripOnes fn sn).2

theorem seedSides_odd (hodd : fn % 2 = 1) : seedSides fn sn = seedSides (fn / 2) (sn / 2) := by
  have hstrip : stripOnes fn sn = stripOnes (fn / 2) (sn / 2) := by
    conv_lhs => unfold stripOnes
    rw [if_pos hodd]
  unfold seedSides
  rw [hstrip]

theorem seedSides_even (heven : fn % 2 = 0) : seedSides fn sn = sides fn sn := by
  have hstrip : stripOnes fn sn = (fn, sn) := by
    unfold stripOnes
    rw [if_neg (by omega)]
  unfold seedSides
  rw [hstrip]

theorem seedSides_full (j : Nat) : seedSides (2 ^ j - 1) (2 ^ j - 1) = [] := by
  induction j with
  | zero => rw [Nat.pow_zero, seedSides_even rfl, sides_zero]
  | succ j ih =>
    have hpos := Nat.two_pow_pos j
    have hhalf : (2 ^ (j + 1) - 1) / 2 = 2 ^ j - 1 := by
      rw [Nat.pow_succ]
      omega
    rw [seedSides_odd, hhalf, ih]
    rw [Nat.pow_succ]
    omega

theorem seedSides_left (hfn : fn < 2 ^ j) (hlow : 2 ^ j ≤ sn) (hhigh : sn < 2 ^ (j + 1)) :
    seedSides fn sn = seedSides fn (2 ^ j - 1) ++ [false] := by
  induction j generalizing fn sn with
  | zero =>
    obtain rfl : fn = 0 := by simpa using hfn
    rw [seedSides_even rfl, seedSides_even rfl, sides_left hfn hlow hhigh]
  | succ j ih =>
    by_cases hodd : fn % 2 = 1
    · have hhalf : (2 ^ (j + 1) - 1) / 2 = 2 ^ j - 1 := by
        rw [Nat.pow_succ]
        omega
      rw [seedSides_odd hodd, seedSides_odd hodd, hhalf]
      rw [Nat.pow_succ] at hfn hlow hhigh
      apply ih <;> omega
    · rw [seedSides_even (by omega), seedSides_even (by omega), sides_left hfn hlow hhigh]

theorem seedSides_right (hlt : fn < sn) (hsn : sn < 2 ^ j) :
    seedSides (2 ^ j + fn) (2 ^ j + sn) = seedSides fn sn ++ [true] := by
  induction j generalizing fn sn with
  | zero =>
    rw [Nat.pow_zero] at hsn
    omega
  | succ j ih =>
    have hdouble : 2 ^ (j + 1) = 2 * 2 ^ j := by rw [Nat.pow_succ, Nat.mul_comm]
    by_cases hodd : fn % 2 = 1
    · have hfn2 : (2 ^ (j + 1) + fn) / 2 = 2 ^ j + fn / 2 := by omega
      have hsn2 : (2 ^ (j + 1) + sn) / 2 = 2 ^ j + sn / 2 := by omega
      rw [seedSides_odd (by omega), seedSides_odd hodd, hfn2, hsn2]
      apply ih <;> omega
    · rw [seedSides_even (by omega), seedSides_even (by omega), sides_right (Nat.le_of_lt hlt) hsn]

/-! ## Climbs -/

/-- What the siblings make of a value on the way up. -/
def climb {H α : Type} (join : Bool → H → α → α) (sides : List Bool) (siblings : List H) (value : α) : α :=
  (sides.zip siblings).foldl (fun value step => join step.1 step.2 value) value

theorem climb_concat {H α : Type} {join : Bool → H → α → α} {sides : List Bool} {siblings : List H} {value : α}
    {side : Bool} {sibling : H} (h : sides.length = siblings.length) :
    climb join (sides ++ [side]) (siblings ++ [sibling]) value = join side sibling (climb join sides siblings value) := by
  unfold climb
  rw [List.zip_append h, List.foldl_append]
  rfl

theorem concat_of_length {α : Type} {xs : List α} {n : Nat} (h : xs.length = n + 1) :
    ∃ init last, xs = init ++ [last] ∧ init.length = n := by
  rcases List.eq_nil_or_concat xs with rfl | ⟨init, last, rfl⟩
  · cases h
  · refine ⟨init, last, List.concat_eq_append, ?_⟩
    simpa using h

variable {H : Type} [TreeHash H]

def joinOne (left : Bool) (sibling hash : H) : H := if left then nodeHash sibling hash else nodeHash hash sibling

/-- Joins a sibling to the hash in the new tree, and to that in the old tree where the old tree has it. -/
def joinBoth (left : Bool) (sibling : H) (hashes : H × H) : H × H :=
  if left then (nodeHash sibling hashes.1, nodeHash sibling hashes.2) else (hashes.1, nodeHash hashes.2 sibling)

def rangeHash (leaves : List H) (range : Nat × Nat) : H := root (slice leaves range.1 range.2)

/-- A range that splits at a power of two. -/
theorem root_slice_append {leaves : List H} {start mid stop : Nat} (hmid : mid = start + 2 ^ j) (hlt : mid < stop)
    (hle : stop ≤ mid + 2 ^ j) (hstop : stop ≤ leaves.length) :
    root (slice leaves start stop) = nodeHash (root (slice leaves start mid)) (root (slice leaves mid stop)) := by
  rw [slice_append (by omega) (Nat.le_of_lt hlt)]
  apply root_append (k := j)
  · rw [length_slice (by omega)]
    omega
  · rw [length_slice hstop]
    omega
  · rw [length_slice hstop]
    omega

theorem root_slice_split {leaves : List H} {start stop : Nat} (h : 2 ≤ stop - start) (hstop : stop ≤ leaves.length) :
    root (slice leaves start stop) = nodeHash (root (slice leaves start (start + splitPoint (stop - start))))
      (root (slice leaves (start + splitPoint (stop - start)) stop)) := by
  obtain ⟨j, hj, hlt, hle⟩ := splitPoint_spec h
  rw [Nat.pow_succ] at hle
  rw [hj]
  apply root_slice_append rfl <;> omega

theorem root_slice_leaf {leaves : List H} {leaf : H} (h : leaves[index]? = some leaf) :
    root (slice leaves index (index + 1)) = leaf := by
  have hnode := nodeAt_zero h
  unfold nodeAt at hnode
  rwa [Nat.pow_zero, Nat.mul_one, Nat.mul_one] at hnode

theorem root_slice_all (leaves : List H) : root (slice leaves 0 leaves.length) = root leaves := by
  unfold slice
  simp

/-- **The siblings of a leaf lead from it to the root of its range**, and there is one for each side. -/
theorem climb_inclusion {leaves : List H} {start stop : Nat} {leaf : H} (hleaf : leaves[index]? = some leaf)
    (hsta : start ≤ index) (hlt : index < stop) (hstop : stop ≤ leaves.length) :
    (path index start stop).length = (sides (index - start) (stop - start - 1)).length ∧
      climb joinOne (sides (index - start) (stop - start - 1)) ((path index start stop).map (rangeHash leaves)) leaf =
        root (slice leaves start stop) := by
  obtain ⟨size, hsize⟩ : ∃ size, size = stop - start := ⟨_, rfl⟩
  induction size using Nat.strongRecOn generalizing start stop with
  | ind size ih =>
    by_cases hone : stop - start ≤ 1
    · obtain rfl : start = index := by omega
      obtain rfl : stop = start + 1 := by omega
      rw [path_leaf hone, root_slice_leaf hleaf, Nat.sub_self, Nat.add_sub_cancel_left]
      simp [climb]
    · have htwo : 2 ≤ stop - start := by omega
      have hsp := splitPoint_lt htwo
      have hpos := splitPoint_pos (stop - start)
      rw [root_slice_split htwo hstop]
      by_cases hi : index < start + splitPoint (stop - start)
      · have hsh : start + splitPoint (stop - start) - start = splitPoint (stop - start) := by omega
        obtain ⟨hlen, hclb⟩ := @ih (splitPoint (stop - start)) (by omega) start
          (start + splitPoint (stop - start)) hsta hi (by omega) hsh.symm
        rw [hsh] at hlen hclb
        rw [path_left htwo hi, sides_inclusion_left htwo (by omega), List.map_append, List.map_singleton,
          climb_concat, hclb]
        · refine ⟨?_, rfl⟩
          simp [hlen]
        · simp [hlen]
      · have hsh : index - (start + splitPoint (stop - start)) = index - start - splitPoint (stop - start) := by omega
        have hsh' : stop - (start + splitPoint (stop - start)) = stop - start - splitPoint (stop - start) := by omega
        obtain ⟨hlen, hclb⟩ := @ih (stop - (start + splitPoint (stop - start))) (by omega)
          (start + splitPoint (stop - start)) stop (by omega) hlt hstop rfl
        rw [hsh, hsh'] at hlen hclb
        rw [path_right htwo (by omega), sides_inclusion_right htwo (by omega) (by omega), List.map_append,
          List.map_singleton, climb_concat, hclb]
        · refine ⟨?_, rfl⟩
          simp [hlen]
        · simp [hlen]

/-- **Nothing else leads to the root**, where nodes do not collide. -/
theorem climb_inclusion_sound {leaves proof : List H} {start stop : Nat} {leaf : H}
    (hinj : Function.Injective2 (nodeHash : H → H → H)) (hsta : start ≤ index) (hlt : index < stop)
    (hstop : stop ≤ leaves.length) (hlen : proof.length = (sides (index - start) (stop - start - 1)).length)
    (h : climb joinOne (sides (index - start) (stop - start - 1)) proof leaf = root (slice leaves start stop)) :
    leaves[index]? = some leaf ∧ proof = (path index start stop).map (rangeHash leaves) := by
  obtain ⟨size, hsize⟩ : ∃ size, size = stop - start := ⟨_, rfl⟩
  induction size using Nat.strongRecOn generalizing start stop proof with
  | ind size ih =>
    by_cases hone : stop - start ≤ 1
    · obtain rfl : start = index := by omega
      obtain rfl : stop = start + 1 := by omega
      have hget := List.getElem?_eq_getElem (show start < leaves.length by omega)
      rw [Nat.sub_self, Nat.add_sub_cancel_left, Nat.sub_self, sides_zero] at hlen h
      obtain rfl := List.eq_nil_of_length_eq_zero hlen
      rw [root_slice_leaf hget] at h
      rw [path_leaf hone, hget]
      exact ⟨congrArg some h.symm, rfl⟩
    · have htwo : 2 ≤ stop - start := by omega
      have hsp := splitPoint_lt htwo
      have hpos := splitPoint_pos (stop - start)
      rw [root_slice_split htwo hstop] at h
      by_cases hi : index < start + splitPoint (stop - start)
      · have hsh : start + splitPoint (stop - start) - start = splitPoint (stop - start) := by omega
        rw [sides_inclusion_left htwo (by omega)] at hlen h
        obtain ⟨init, last, rfl, hinit⟩ := concat_of_length (hlen.trans (List.length_append))
        rw [climb_concat hinit.symm] at h
        obtain ⟨hhash, rfl⟩ := hinj h
        obtain ⟨hget, rfl⟩ := @ih (splitPoint (stop - start)) (by omega) init start
          (start + splitPoint (stop - start)) hsta hi (by omega) (by rw [hsh]; exact hinit)
          (by rw [hsh]; exact hhash) hsh.symm
        rw [path_left htwo hi, List.map_append]
        exact ⟨hget, rfl⟩
      · have hsh : index - (start + splitPoint (stop - start)) = index - start - splitPoint (stop - start) := by omega
        have hsh' : stop - (start + splitPoint (stop - start)) = stop - start - splitPoint (stop - start) := by omega
        rw [sides_inclusion_right htwo (by omega) (by omega)] at hlen h
        obtain ⟨init, last, rfl, hinit⟩ := concat_of_length (hlen.trans (List.length_append))
        rw [climb_concat hinit.symm] at h
        obtain ⟨rfl, hhash⟩ := hinj h
        obtain ⟨hget, rfl⟩ := @ih (stop - (start + splitPoint (stop - start))) (by omega) init
          (start + splitPoint (stop - start)) stop (by omega) hlt hstop (by rw [hsh, hsh']; exact hinit)
          (by rw [hsh, hsh']; exact hhash) rfl
        rw [path_right htwo (by omega), List.map_append]
        exact ⟨hget, rfl⟩

/-! ## Consistency -/

omit [TreeHash H] in
theorem le_splitPoint {n : Nat} (h : 2 ^ j < n) : 2 ^ j ≤ splitPoint n := by
  have hpos := Nat.two_pow_pos j
  have hlog : j ≤ (n - 1).log2 := by
    apply (Nat.le_log2 (by omega)).mpr
    omega
  exact Nat.pow_le_pow_right (by omega) hlog

omit [TreeHash H] in
/-- A complete subtree is the first range of the proof that does not know its hash. -/
theorem subproof_power {start stop : Nat} (h : 2 ^ j ≤ stop - start) :
    subproof (2 ^ j) start stop false = (start, start + 2 ^ j) :: subproof (2 ^ j) start stop true := by
  obtain ⟨size, hsize⟩ : ∃ size, size = stop - start := ⟨_, rfl⟩
  have hpos := Nat.two_pow_pos j
  induction size using Nat.strongRecOn generalizing stop with
  | ind size ih =>
    by_cases hwh : 2 ^ j = stop - start
    · have hstop : start + 2 ^ j = stop := by omega
      rw [subproof_whole hwh, subproof_whole hwh, hstop]
      rfl
    · have hle := @le_splitPoint j (stop - start) (by omega)
      have hsp := @splitPoint_lt (stop - start) (by omega)
      have hrest := @ih (splitPoint (stop - start)) (by omega) (start + splitPoint (stop - start)) (by omega) (by omega)
      rw [subproof_left hle (by omega), subproof_left hle (by omega), hrest]
      rfl

omit [TreeHash H] in
/-- Where the old tree is no complete subtree, its proof names every range. -/
theorem subproof_not_power {start stop : Nat} (hm : 0 < m) (hlt : m < stop - start) (hnot : ∀ j, m ≠ 2 ^ j) :
    subproof m start stop true = subproof m start stop false := by
  obtain ⟨size, hsize⟩ : ∃ size, size = stop - start := ⟨_, rfl⟩
  induction size using Nat.strongRecOn generalizing stop with
  | ind size ih =>
    obtain ⟨j, hj, -, -⟩ := @splitPoint_spec (stop - start) (by omega)
    have hne := hnot j
    have hsp := @splitPoint_lt (stop - start) (by omega)
    by_cases hle : m ≤ splitPoint (stop - start)
    · have hrest := @ih (splitPoint (stop - start)) (by omega) (start + splitPoint (stop - start)) (by omega) (by omega)
      rw [subproof_left hle (by omega), subproof_left hle (by omega), hrest]
    · rw [subproof_right (by omega) hlt, subproof_right (by omega) hlt]

/-- A size in a larger one, or the size of a complete tree. -/
def Consistent (m n : Nat) : Prop := m < n ∨ m = n ∧ ∃ j, m = 2 ^ j

omit [TreeHash H] in
theorem seedSides_split_left {n : Nat} (hpos : 0 < m) (hm : m ≤ splitPoint n) (h : 2 ≤ n) :
    Consistent m (splitPoint n) ∧ seedSides (m - 1) (n - 1) = seedSides (m - 1) (splitPoint n - 1) ++ [false] := by
  obtain ⟨j, hj, hlt, hle⟩ := splitPoint_spec h
  rw [hj] at hm ⊢
  refine ⟨?_, ?_⟩
  · rcases Nat.lt_or_eq_of_le hm with hless | heq
    · exact .inl hless
    · exact .inr ⟨heq, j, heq⟩
  · apply seedSides_left <;> omega

omit [TreeHash H] in
theorem seedSides_split_right {n : Nat} (hm : splitPoint n < m) (hlt : m < n) :
    seedSides (m - 1) (n - 1) = seedSides (m - splitPoint n - 1) (n - splitPoint n - 1) ++ [true] := by
  have htwo : 2 ≤ n := by omega
  obtain ⟨j, hj, hlow, hle⟩ := splitPoint_spec htwo
  rw [Nat.pow_succ] at hle
  rw [hj] at hm ⊢
  have hrt : seedSides (2 ^ j + (m - 2 ^ j - 1)) (2 ^ j + (n - 2 ^ j - 1)) =
      seedSides (m - 2 ^ j - 1) (n - 2 ^ j - 1) ++ [true] := by
    apply seedSides_right <;> omega
  have hm' : 2 ^ j + (m - 2 ^ j - 1) = m - 1 := by omega
  have hn' : 2 ^ j + (n - 2 ^ j - 1) = n - 1 := by omega
  rwa [hm', hn'] at hrt

/-- **The seed of a consistency proof and its siblings lead to the old root and to the new one.** -/
theorem climb_consistency {leaves : List H} {start stop : Nat} (hpos : 0 < m) (hm : Consistent m (stop - start))
    (hstop : stop ≤ leaves.length) : ∃ seed rest, subproof m start stop false = seed :: rest ∧
      rest.length = (seedSides (m - 1) (stop - start - 1)).length ∧
      climb joinBoth (seedSides (m - 1) (stop - start - 1)) (rest.map (rangeHash leaves))
          (rangeHash leaves seed, rangeHash leaves seed) =
        (root (slice leaves start (start + m)), root (slice leaves start stop)) := by
  obtain ⟨size, hsize⟩ : ∃ size, size = stop - start := ⟨_, rfl⟩
  induction size using Nat.strongRecOn generalizing m start stop with
  | ind size ih =>
    rcases hm with hlt | ⟨hwh, j, hj⟩
    · have htwo : 2 ≤ stop - start := by omega
      have hsp := splitPoint_lt htwo
      have hsplitPos := splitPoint_pos (stop - start)
      rw [root_slice_split htwo hstop]
      by_cases hle : m ≤ splitPoint (stop - start)
      · have hsh : start + splitPoint (stop - start) - start = splitPoint (stop - start) := by omega
        obtain ⟨hcons, hsds⟩ := seedSides_split_left hpos hle htwo
        obtain ⟨seed, rest, hproof, hlen, hclb⟩ := @ih (splitPoint (stop - start)) (by omega) m start
          (start + splitPoint (stop - start)) hpos (by rwa [hsh]) (by omega) hsh.symm
        rw [hsh] at hlen hclb
        refine ⟨seed, rest ++ [(start + splitPoint (stop - start), stop)], ?_, ?_, ?_⟩
        · rw [subproof_left hle htwo, hproof]
          rfl
        · rw [hsds]
          simp [hlen]
        · rw [hsds, List.map_append, List.map_singleton, climb_concat, hclb]
          · rfl
          · simp [hlen]
      · have hsh : stop - (start + splitPoint (stop - start)) = stop - start - splitPoint (stop - start) := by omega
        have hless : splitPoint (stop - start) < m := by omega
        have hsds := seedSides_split_right hless hlt
        obtain ⟨seed, rest, hproof, hlen, hclb⟩ := @ih (stop - start - splitPoint (stop - start)) (by omega)
          (m - splitPoint (stop - start)) (start + splitPoint (stop - start)) stop (by omega)
          (.inl (by omega)) hstop hsh.symm
        rw [hsh] at hlen hclb
        refine ⟨seed, rest ++ [(start, start + splitPoint (stop - start))], ?_, ?_, ?_⟩
        · rw [subproof_right hless hlt, hproof]
          rfl
        · rw [hsds]
          simp [hlen]
        · -- the old tree splits where the new one does
          have hold : root (slice leaves start (start + m)) =
              nodeHash (root (slice leaves start (start + splitPoint (stop - start))))
                (root (slice leaves (start + splitPoint (stop - start)) (start + m))) := by
            obtain ⟨j, hj, -, hhigh⟩ := splitPoint_spec htwo
            rw [Nat.pow_succ] at hhigh
            rw [hj] at hless ⊢
            apply root_slice_append rfl <;> omega
          have hend : start + splitPoint (stop - start) + (m - splitPoint (stop - start)) = start + m := by omega
          rw [hend] at hclb
          rw [hsds, List.map_append, List.map_singleton, climb_concat, hclb, hold]
          · rfl
          · simp [hlen]
    · have hstop' : start + m = stop := by
        have := Nat.two_pow_pos j
        omega
      refine ⟨(start, stop), [], ?_, ?_, ?_⟩
      · rw [subproof_whole hwh]
        rfl
      · rw [← hwh, hj, seedSides_full]
        rfl
      · rw [hstop', ← hwh, hj, seedSides_full]
        rfl

theorem root_inj_of_injective2 (hinj : Function.Injective2 (nodeHash : H → H → H)) {leaves leaves' : List H}
    (hlen : leaves.length = leaves'.length) (h : root leaves = root leaves') : leaves = leaves' := by
  refine root_inj hlen (fun p _ q _ hnode => ?_) h
  obtain ⟨hfst, hsnd⟩ := hinj hnode
  exact Prod.ext hfst hsnd

/-- **A seed and siblings that lead to both roots show that one list begins with the other**, where nodes do not
collide. -/
theorem climb_consistency_sound {old new rest : List H} {seed : H}
    (hinj : Function.Injective2 (nodeHash : H → H → H)) (hpos : 0 < old.length)
    (hm : Consistent old.length new.length)
    (hlen : rest.length = (seedSides (old.length - 1) (new.length - 1)).length)
    (h : climb joinBoth (seedSides (old.length - 1) (new.length - 1)) rest (seed, seed) = (root old, root new)) :
    old = new.take old.length := by
  obtain ⟨size, hsize⟩ : ∃ size, size = new.length := ⟨_, rfl⟩
  induction size using Nat.strongRecOn generalizing old new rest with
  | ind size ih =>
    rcases hm with hlt | ⟨hwh, j, hj⟩
    · have htwo : 2 ≤ new.length := by omega
      have hsp := splitPoint_lt htwo
      have hsplitPos := splitPoint_pos new.length
      rw [root_split htwo] at h
      by_cases hle : old.length ≤ splitPoint new.length
      · have htake : (new.take (splitPoint new.length)).length = splitPoint new.length := by
          rw [List.length_take]
          omega
        obtain ⟨hcons, hsds⟩ := seedSides_split_left hpos hle htwo
        rw [hsds] at hlen h
        obtain ⟨init, last, rfl, hinit⟩ := concat_of_length (hlen.trans (List.length_append))
        rw [climb_concat hinit.symm] at h
        obtain ⟨hold, hnew⟩ := Prod.mk.inj h
        obtain ⟨hleft, -⟩ := hinj hnew
        have hrest := @ih (splitPoint new.length) (by omega) old (new.take (splitPoint new.length)) init hpos
          (by rwa [htake]) (by rw [htake]; exact hinit) (by rw [htake]; exact Prod.ext hold hleft) htake.symm
        rw [List.take_take, Nat.min_eq_left hle] at hrest
        exact hrest
      · have hless : splitPoint new.length < old.length := by omega
        have hsds := seedSides_split_right hless hlt
        have hdrop : (new.drop (splitPoint new.length)).length = new.length - splitPoint new.length := by
          rw [List.length_drop]
        have hdrop' : (old.drop (splitPoint new.length)).length = old.length - splitPoint new.length := by
          rw [List.length_drop]
        -- the old tree splits where the new one does
        have hold : root old = nodeHash (root (old.take (splitPoint new.length)))
            (root (old.drop (splitPoint new.length))) := by
          obtain ⟨j, hj, -, hhigh⟩ := splitPoint_spec htwo
          rw [Nat.pow_succ] at hhigh
          rw [hj] at hless ⊢
          conv_lhs => rw [← List.take_append_drop (2 ^ j) old]
          apply root_append (k := j)
          · rw [List.length_take]
            omega
          · rw [List.length_drop]
            omega
          · rw [List.length_drop]
            omega
        rw [hsds] at hlen h
        obtain ⟨init, last, rfl, hinit⟩ := concat_of_length (hlen.trans (List.length_append))
        rw [climb_concat hinit.symm, hold] at h
        obtain ⟨hfst, hsnd⟩ := Prod.mk.inj h
        obtain ⟨hleftOld, hrightOld⟩ := hinj hfst
        obtain ⟨hleftNew, hrightNew⟩ := hinj hsnd
        have hleft : old.take (splitPoint new.length) = new.take (splitPoint new.length) := by
          apply root_inj_of_injective2 hinj
          · rw [List.length_take, List.length_take]
            omega
          · exact hleftOld.symm.trans hleftNew
        have hrt := @ih (new.length - splitPoint new.length) (by omega) (old.drop (splitPoint new.length))
          (new.drop (splitPoint new.length)) init (by omega) (.inl (by omega)) (by rw [hdrop, hdrop']; exact hinit)
          (by rw [hdrop, hdrop']; exact Prod.ext hrightOld hrightNew) hdrop.symm
        rw [hdrop'] at hrt
        calc old = old.take (splitPoint new.length) ++ old.drop (splitPoint new.length) :=
              (List.take_append_drop _ _).symm
          _ = new.take (splitPoint new.length) ++
                (new.drop (splitPoint new.length)).take (old.length - splitPoint new.length) := by rw [hleft, hrt]
          _ = new.take (splitPoint new.length + (old.length - splitPoint new.length)) := List.take_add.symm
          _ = new.take old.length := by congr 1; omega
    · rw [hwh, List.take_length]
      rw [← hwh, hj, seedSides_full] at hlen h
      obtain rfl := List.eq_nil_of_length_eq_zero hlen
      obtain ⟨hold, hnew⟩ := Prod.mk.inj h
      exact root_inj_of_injective2 hinj hwh (hold.symm.trans hnew)

end Merkle

end Adk
