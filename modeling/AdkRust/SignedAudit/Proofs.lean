import AdkRust.Lib.MerkleProofs

/-!
# The proofs of the signed audit log

`inclusion_proof` and `consistency_proof`, and the verifiers that climb the tree with two counters.

* `verifyInclusion`, `verifyConsistency`: one loop over the proof for each, `climbLoop`.
* `climbLoop_eq_ok`: **the loop takes just the proofs with a hash for each sibling, and climbs with them.**
* `proofs_exact`: **where nodes do not collide, the verifiers take the proofs of the log, and show what they prove.**
-/

namespace Adk

namespace Merkle

open TreeHash

inductive ProofError where
  | invalidRequest (reason : String)
  | wrongLength
  | rootMismatch
  deriving DecidableEq

def ProofError.display : ProofError → String
  | .invalidRequest reason => s!"invalid proof request: {reason}"
  | .wrongLength => "proof has the wrong length for its tree sizes"
  | .rootMismatch => "proof does not match the root hash"

variable {H : Type} [TreeHash H]

/-- The hash of a range of leaves. -/
def subtreeRoot (leaves : List H) (start stop : Nat) : H :=
  if stop - start = 0 then emptyRoot
  -- `leaves[start]`, and no proof asks for a range that goes past the leaves
  else if stop - start = 1 then leaves[start]?.getD emptyRoot
  else
    let mid := start + splitPoint (stop - start)
    nodeHash (subtreeRoot leaves start mid) (subtreeRoot leaves mid stop)
termination_by stop - start
decreasing_by
  all_goals
    have := splitPoint_lt (n := stop - start) (by omega)
    have := splitPoint_pos (stop - start)
    omega

/-- The proof that a leaf is in the tree. -/
def inclusionProof (leaves : List H) (index : Nat) : Except ProofError (List H) :=
  if leaves.length ≤ index then .error (.invalidRequest s!"leaf {index} is not in a tree of {leaves.length}")
  else .ok ((inclusionRanges index leaves.length).map fun range => subtreeRoot leaves range.1 range.2)

/-- The proof that the tree extends that of its first leaves. -/
def consistencyProof (leaves : List H) (old : Nat) : Except ProofError (List H) :=
  if leaves.length < old then .error (.invalidRequest s!"size {old} exceeds the tree's {leaves.length}")
  else .ok ((consistencyRanges old leaves.length).map fun range => subtreeRoot leaves range.1 range.2)

/-- Both counters, past the levels where the node is the left one of two. -/
def stripEven (fn sn : Nat) : Nat × Nat :=
  if fn % 2 = 0 ∧ fn ≠ 0 then stripEven (fn / 2) (sn / 2) else (fn, sn)
termination_by fn

/-- The loop of both verifiers: one level for each hash of the proof, until the second counter is at the root. -/
def climbLoop {α : Type} (join : Bool → H → α → α) : List H → Nat → Nat → α → Except ProofError (Nat × α)
  | [], _, sn, r => .ok (sn, r)
  | p :: proof, fn, sn, r =>
    if sn = 0 then .error .wrongLength
    else if fn % 2 = 1 ∨ fn = sn then
      climbLoop join proof ((stripEven fn sn).1 / 2) ((stripEven fn sn).2 / 2) (join true p r)
    else climbLoop join proof (fn / 2) (sn / 2) (join false p r)

section Verify

variable [DecidableEq H]

def verifyInclusion (index size : Nat) (leaf : H) (proof : List H) (root : H) : Except ProofError Unit :=
  if size ≤ index then .error (.invalidRequest s!"leaf {index} is not in a tree of {size}")
  else do
    let (sn, r) ← climbLoop joinOne proof index (size - 1) leaf
    if sn ≠ 0 then throw .wrongLength
    if r ≠ root then throw .rootMismatch

/-- Whether the tree with one root extends the tree with another. -/
def verifyConsistency (oldSize newSize : Nat) (oldRoot newRoot : H) (proof : List H) : Except ProofError Unit :=
  if newSize < oldSize then .error (.invalidRequest s!"old size {oldSize} exceeds new size {newSize}")
  else if oldSize = newSize then
    if proof ≠ [] then .error .wrongLength
    else if oldRoot = newRoot then .ok ()
    else .error .rootMismatch
  else if oldSize = 0 then
    if proof = [] then .ok () else .error .wrongLength
  else if proof = [] then .error .wrongLength
  else
    -- the old root is the seed where the old tree is complete
    match (if 2 ^ oldSize.log2 = oldSize then oldRoot :: proof else proof) with
    | [] => .error .wrongLength
    | seed :: rest => do
      let (fn, sn) := stripOnes (oldSize - 1) (newSize - 1)
      let (sn, fr, sr) ← climbLoop joinBoth rest fn sn (seed, seed)
      if sn ≠ 0 then throw .wrongLength
      if fr ≠ oldRoot ∨ sr ≠ newRoot then throw .rootMismatch

end Verify

/-! ## The ranges of a proof -/

variable {leaves : List H} {start stop : Nat}

theorem subtreeRoot_eq (hstop : stop ≤ leaves.length) :
    subtreeRoot leaves start stop = root (slice leaves start stop) := by
  obtain ⟨size, hsize⟩ : ∃ size, size = stop - start := ⟨_, rfl⟩
  induction size using Nat.strongRecOn generalizing start stop with
  | ind size ih =>
    unfold subtreeRoot
    by_cases hzero : stop - start = 0
    · rw [if_pos hzero]
      unfold slice
      rw [hzero, List.take_zero, root_nil]
    · rw [if_neg hzero]
      by_cases hone : stop - start = 1
      · have hget := List.getElem?_eq_getElem (show start < leaves.length by omega)
        obtain rfl : stop = start + 1 := by omega
        rw [if_pos hone, root_slice_leaf hget, hget]
        rfl
      · have htwo : 2 ≤ stop - start := by omega
        have hsp := splitPoint_lt htwo
        have hpos := splitPoint_pos (stop - start)
        rw [if_neg hone, root_slice_split htwo hstop]
        dsimp only
        rw [ih _ (by omega) (by omega) rfl, ih _ (by omega) hstop rfl]

/-- The ranges of an inclusion proof are in the tree. -/
theorem le_of_mem_path {index : Nat} {range : Nat × Nat} (h : range ∈ path index start stop) :
    start ≤ range.1 ∧ range.1 < range.2 ∧ range.2 ≤ stop := by
  obtain ⟨size, hsize⟩ : ∃ size, size = stop - start := ⟨_, rfl⟩
  induction size using Nat.strongRecOn generalizing start stop with
  | ind size ih =>
    by_cases hone : stop - start ≤ 1
    · rw [path_leaf hone] at h
      cases h
    · have htwo : 2 ≤ stop - start := by omega
      have hsp := splitPoint_lt htwo
      have hpos := splitPoint_pos (stop - start)
      by_cases hi : index < start + splitPoint (stop - start)
      · rw [path_left htwo hi, List.mem_append, List.mem_singleton] at h
        rcases h with h | rfl
        · have hrng := ih _ (by omega) h rfl
          omega
        · dsimp only
          omega
      · rw [path_right htwo (by omega), List.mem_append, List.mem_singleton] at h
        rcases h with h | rfl
        · have hrng := ih _ (by omega) h rfl
          omega
        · dsimp only
          omega

/-- The ranges of a consistency proof are in the tree. -/
theorem le_of_mem_subproof {m : Nat} {complete : Bool} {range : Nat × Nat} (hm : 0 < m)
    (hle : m ≤ stop - start) (h : range ∈ subproof m start stop complete) :
    start ≤ range.1 ∧ range.1 < range.2 ∧ range.2 ≤ stop := by
  obtain ⟨size, hsize⟩ : ∃ size, size = stop - start := ⟨_, rfl⟩
  induction size using Nat.strongRecOn generalizing m start stop complete with
  | ind size ih =>
    by_cases hwh : m = stop - start
    · rw [subproof_whole hwh] at h
      cases complete with
      | true => cases h
      | false =>
        obtain rfl := List.mem_singleton.mp h
        dsimp only
        omega
    · have htwo : 2 ≤ stop - start := by omega
      have hsp := splitPoint_lt htwo
      have hpos := splitPoint_pos (stop - start)
      by_cases hi : m ≤ splitPoint (stop - start)
      · rw [subproof_left hi htwo, List.mem_append, List.mem_singleton] at h
        rcases h with h | rfl
        · have hrng := ih _ (by omega) hm (by omega) h rfl
          omega
        · dsimp only
          omega
      · rw [subproof_right (by omega) (by omega), List.mem_append, List.mem_singleton] at h
        rcases h with h | rfl
        · have hrng := ih _ (by omega) (by omega) (by omega) h rfl
          omega
        · dsimp only
          omega

theorem inclusionProof_eq {index : Nat} (h : index < leaves.length) :
    inclusionProof leaves index = .ok ((path index 0 leaves.length).map (rangeHash leaves)) := by
  unfold inclusionProof inclusionRanges
  rw [if_neg (by omega)]
  congr 1
  apply List.map_congr_left
  intro range hrng
  exact subtreeRoot_eq (le_of_mem_path hrng).2.2

theorem consistencyProof_eq {old : Nat} (hpos : 0 < old) (h : old < leaves.length) :
    consistencyProof leaves old = .ok ((subproof old 0 leaves.length true).map (rangeHash leaves)) := by
  unfold consistencyProof consistencyRanges
  rw [if_neg (by omega), if_pos ⟨hpos, h⟩]
  congr 1
  apply List.map_congr_left
  intro range hrng
  exact subtreeRoot_eq (le_of_mem_subproof hpos (by omega) hrng).2.2

/-! ## The loop -/

omit [TreeHash H] in
/-- The levels without a sibling that the loop leaves out. -/
theorem sides_strip {fn sn : Nat} (hle : fn ≤ sn) (hsn : sn ≠ 0) (h : fn % 2 = 1 ∨ fn = sn) :
    (stripEven fn sn).1 ≤ (stripEven fn sn).2 ∧
      sides fn sn = true :: sides ((stripEven fn sn).1 / 2) ((stripEven fn sn).2 / 2) := by
  induction fn using Nat.strongRecOn generalizing sn with
  | ind fn ih =>
    unfold stripEven
    by_cases hodd : fn % 2 = 1
    · rw [if_neg (by omega)]
      exact ⟨hle, sides_odd hodd hsn⟩
    · have heq : fn = sn := h.resolve_left hodd
      subst heq
      rw [if_pos (by omega), sides_last (by omega)]
      apply ih <;> omega

omit [TreeHash H] in
/-- **The loop takes just the proofs with a hash for each sibling, and climbs with them.** -/
theorem climbLoop_eq_ok {α : Type} {join : Bool → H → α → α} {proof : List H} {fn sn : Nat} {r x : α} (hle : fn ≤ sn) :
    climbLoop join proof fn sn r = .ok (0, x) ↔
      proof.length = (sides fn sn).length ∧ climb join (sides fn sn) proof r = x := by
  induction proof generalizing fn sn r with
  | nil =>
    unfold climbLoop
    by_cases hsn : sn = 0
    · subst hsn
      simp [climb]
    · have hne := sides_ne_nil hle hsn
      constructor
      · intro h
        simp [hsn] at h
      · rintro ⟨hlen, -⟩
        exact absurd (List.eq_nil_of_length_eq_zero hlen.symm) hne
  | cons p proof ih =>
    unfold climbLoop
    by_cases hsn : sn = 0
    · subst hsn
      simp
    · rw [if_neg hsn]
      by_cases hleft : fn % 2 = 1 ∨ fn = sn
      · obtain ⟨hstrip, hsds⟩ := sides_strip hle hsn hleft
        rw [if_pos hleft, ih (Nat.div_le_div_right hstrip), hsds, List.length_cons, List.length_cons,
          Nat.add_right_cancel_iff]
        rfl
      · have hsds : sides fn sn = false :: sides (fn / 2) (sn / 2) := by
          apply sides_even <;> omega
        rw [if_neg hleft, ih (Nat.div_le_div_right hle), hsds, List.length_cons, List.length_cons,
          Nat.add_right_cancel_iff]
        rfl

omit [TreeHash H] in
theorem stripOnes_le {fn sn : Nat} (hle : fn ≤ sn) : (stripOnes fn sn).1 ≤ (stripOnes fn sn).2 := by
  induction fn using Nat.strongRecOn generalizing sn with
  | ind fn ih =>
    unfold stripOnes
    by_cases hodd : fn % 2 = 1
    · rw [if_pos hodd]
      apply ih <;> omega
    · rw [if_neg hodd]
      exact hle

section Verify

variable [DecidableEq H]

variable {index : Nat} {leaf : H} {proof leaves : List H}

/-- A leaf verifies just where the proof has a hash for each sibling and leads to the root. -/
theorem verifyInclusion_eq_ok {size : Nat} {top : H} :
    verifyInclusion index size leaf proof top = .ok () ↔
      index < size ∧ proof.length = (sides index (size - 1)).length ∧
        climb joinOne (sides index (size - 1)) proof leaf = top := by
  unfold verifyInclusion
  by_cases hin : size ≤ index
  · rw [if_pos hin]
    constructor
    · intro h
      cases h
    · rintro ⟨hlt, -⟩
      omega
  · rw [if_neg hin, ← climbLoop_eq_ok (show index ≤ size - 1 by omega)]
    cases climbLoop joinOne proof index (size - 1) leaf with
    | error problem => simp [bind, Except.bind]
    | ok reached =>
      obtain ⟨sn, r⟩ := reached
      by_cases hsn : sn = 0
      · by_cases hroot : r = top
        · simp [bind, Except.bind, pure, Except.pure, hsn, hroot]
          omega
        · simp [bind, Except.bind, throw, throwThe, MonadExceptOf.throw, hsn, hroot]
      · simp [bind, Except.bind, throw, throwThe, MonadExceptOf.throw, hsn]

/-- The hashes that a consistency proof is checked from: the old root first, where the old tree is complete. -/
def seeded (oldSize : Nat) (oldRoot : H) (proof : List H) : List H :=
  if 2 ^ oldSize.log2 = oldSize then oldRoot :: proof else proof

theorem verifyConsistency_eq_ok {oldSize newSize : Nat} {oldRoot newRoot : H} (hpos : 0 < oldSize)
    (hlt : oldSize < newSize) : verifyConsistency oldSize newSize oldRoot newRoot proof = .ok () ↔
      proof ≠ [] ∧ ∃ seed rest, seeded oldSize oldRoot proof = seed :: rest ∧
        rest.length = (seedSides (oldSize - 1) (newSize - 1)).length ∧
        climb joinBoth (seedSides (oldSize - 1) (newSize - 1)) rest (seed, seed) = (oldRoot, newRoot) := by
  unfold verifyConsistency
  rw [if_neg (by omega), if_neg (by omega), if_neg (by omega)]
  by_cases hemp : proof = []
  · simp [hemp]
  · rw [if_neg hemp]
    change (match seeded oldSize oldRoot proof with | [] => _ | _ :: _ => _) = _ ↔ _
    cases hseeded : seeded oldSize oldRoot proof with
    | nil =>
      constructor
      · intro h
        cases h
      · rintro ⟨-, seed, rest, hcons, -⟩
        cases hcons
    | cons seed rest =>
      have hstrip := @stripOnes_le (oldSize - 1) (newSize - 1) (by omega)
      have hloop := @climbLoop_eq_ok H (H × H) joinBoth rest _ _ (seed, seed) (oldRoot, newRoot) hstrip
      have hiff : (proof ≠ [] ∧ ∃ seed' rest', seed :: rest = seed' :: rest' ∧
          rest'.length = (seedSides (oldSize - 1) (newSize - 1)).length ∧
          climb joinBoth (seedSides (oldSize - 1) (newSize - 1)) rest' (seed', seed') = (oldRoot, newRoot)) ↔
          climbLoop joinBoth rest (stripOnes (oldSize - 1) (newSize - 1)).1 (stripOnes (oldSize - 1) (newSize - 1)).2
            (seed, seed) = .ok (0, oldRoot, newRoot) := by
        rw [hloop]
        constructor
        · rintro ⟨-, seed', rest', hcons, hrest⟩
          obtain ⟨rfl, rfl⟩ := List.cons.inj hcons
          exact hrest
        · intro hrest
          exact ⟨hemp, seed, rest, rfl, hrest⟩
      rw [hiff]
      dsimp only
      cases climbLoop joinBoth rest (stripOnes (oldSize - 1) (newSize - 1)).1
          (stripOnes (oldSize - 1) (newSize - 1)).2 (seed, seed) with
      | error problem => simp [bind, Except.bind]
      | ok reached =>
        obtain ⟨sn, fr, sr⟩ := reached
        by_cases hsn : sn = 0
        · by_cases hroots : fr = oldRoot ∧ sr = newRoot
          · simp [bind, Except.bind, pure, Except.pure, hsn, hroots]
          · have hor : fr ≠ oldRoot ∨ sr ≠ newRoot := by
              by_contra hnot
              exact hroots (by simpa using hnot)
            simp [bind, Except.bind, throw, throwThe, MonadExceptOf.throw, hsn, hroots, hor]
        · simp [bind, Except.bind, throw, throwThe, MonadExceptOf.throw, hsn]

/-! ## Completeness and soundness -/

theorem verifyInclusion_proof (hleaf : leaves[index]? = some leaf) :
    ∃ proof, inclusionProof leaves index = .ok proof ∧
      verifyInclusion index leaves.length leaf proof (root leaves) = .ok () := by
  obtain ⟨hlt, -⟩ := List.getElem?_eq_some_iff.mp hleaf
  obtain ⟨hlen, hclb⟩ := climb_inclusion hleaf (Nat.zero_le _) hlt (Nat.le_refl _)
  rw [Nat.sub_zero, Nat.sub_zero] at hlen hclb
  refine ⟨_, inclusionProof_eq hlt, verifyInclusion_eq_ok.mpr ⟨hlt, ?_, ?_⟩⟩
  · rw [List.length_map, hlen]
  · rw [hclb, root_slice_all]

theorem verifyInclusion_sound (hinj : Function.Injective2 (nodeHash : H → H → H))
    (h : verifyInclusion index leaves.length leaf proof (root leaves) = .ok ()) :
    leaves[index]? = some leaf ∧ inclusionProof leaves index = .ok proof := by
  obtain ⟨hlt, hlen, hclb⟩ := verifyInclusion_eq_ok.mp h
  have hsnd := @climb_inclusion_sound index H _ leaves proof 0 leaves.length leaf hinj (Nat.zero_le _) hlt
    (Nat.le_refl _) hlen (by rw [root_slice_all]; exact hclb)
  obtain ⟨hleaf, rfl⟩ := hsnd
  exact ⟨hleaf, inclusionProof_eq hlt⟩

theorem verifyConsistency_proof {old : Nat} (hle : old ≤ leaves.length) :
    ∃ proof, consistencyProof leaves old = .ok proof ∧
      verifyConsistency old leaves.length (root (leaves.take old)) (root leaves) proof = .ok () := by
  by_cases hends : old = 0 ∨ old = leaves.length
  · refine ⟨[], ?_, ?_⟩
    · unfold consistencyProof consistencyRanges
      rw [if_neg (by omega), if_neg (by omega)]
      rfl
    · unfold verifyConsistency
      rw [if_neg (by omega)]
      by_cases hall : old = leaves.length
      · rw [if_pos hall, hall, List.take_length]
        simp
      · rw [if_neg hall, if_pos (hends.resolve_right hall)]
        simp
  · have hpos : 0 < old := by omega
    have hlt : old < leaves.length := by omega
    obtain ⟨seed, rest, hproof, hlen, hclb⟩ := @climb_consistency old H _ leaves 0 leaves.length hpos (.inl hlt)
      (Nat.le_refl _)
    rw [Nat.sub_zero] at hlen hclb
    rw [Nat.zero_add, root_slice_all] at hclb
    have hold : root (slice leaves 0 old) = root (leaves.take old) := by
      unfold slice
      rw [List.drop_zero, Nat.sub_zero]
    rw [hold] at hclb
    refine ⟨_, consistencyProof_eq hpos hlt, (verifyConsistency_eq_ok hpos hlt).mpr ?_⟩
    by_cases hpow : 2 ^ old.log2 = old
    · -- the proof leaves the seed out, which is the old root
      have hseed := @subproof_power old.log2 0 leaves.length (by omega)
      rw [hpow, hproof] at hseed
      obtain ⟨rfl, rfl⟩ := List.cons.inj hseed
      have hrng : rangeHash leaves (0, 0 + old) = root (leaves.take old) := by
        unfold rangeHash
        rw [Nat.zero_add, hold]
      rw [hrng] at hclb
      refine ⟨?_, root (leaves.take old), _, ?_, ?_, hclb⟩
      · intro hnil
        obtain ⟨-, hleft⟩ := @seedSides_split_left old leaves.length hpos
          (by have := @le_splitPoint old.log2 leaves.length (by omega); omega) (by omega)
        rw [List.map_eq_nil_iff.mp hnil, hleft] at hlen
        simp at hlen
      · unfold seeded
        rw [if_pos hpow]
      · rw [List.length_map, hlen]
    · have hnot : ∀ j, old ≠ 2 ^ j := by
        rintro j rfl
        exact hpow (by rw [Nat.log2_two_pow])
      rw [subproof_not_power hpos hlt hnot, hproof]
      refine ⟨by simp, rangeHash leaves seed, rest.map (rangeHash leaves), ?_, ?_, hclb⟩
      · unfold seeded
        rw [if_neg hpow]
        rfl
      · rw [List.length_map, hlen]

theorem verifyConsistency_sound {old new : List H} (hinj : Function.Injective2 (nodeHash : H → H → H))
    (h : verifyConsistency old.length new.length (root old) (root new) proof = .ok ()) : old <+: new := by
  by_cases hlt : 0 < old.length ∧ old.length < new.length
  · obtain ⟨-, seed, rest, -, hlen, hclb⟩ := (verifyConsistency_eq_ok hlt.1 hlt.2).mp h
    rw [climb_consistency_sound hinj hlt.1 (.inl hlt.2) hlen hclb]
    exact List.take_prefix _ _
  · unfold verifyConsistency at h
    by_cases hmore : new.length < old.length
    · rw [if_pos hmore] at h
      cases h
    · rw [if_neg hmore] at h
      by_cases hsame : old.length = new.length
      · rw [if_pos hsame] at h
        have hroot : root old = root new := by
          by_contra hne
          by_cases hemp : proof = [] <;> simp [hne, hemp] at h
        obtain rfl := root_inj_of_injective2 hinj hsame hroot
        exact List.prefix_rfl
      · obtain rfl : old = [] := List.eq_nil_of_length_eq_zero (by omega)
        exact List.nil_prefix

/-- **The proofs of a log verify, and what verifies is so.** Where nodes do not collide, each leaf verifies with the
proof that the log gives for it and with no other, no other leaf does, each earlier size verifies with its proof, and two
roots verify only where the one log begins with the other. -/
theorem proofs_exact (hinj : Function.Injective2 (nodeHash : H → H → H)) (leaves : List H) :
    (∀ index leaf, leaves[index]? = some leaf → ∃ proof, inclusionProof leaves index = .ok proof ∧
      verifyInclusion index leaves.length leaf proof (root leaves) = .ok ()) ∧
    (∀ index leaf proof, verifyInclusion index leaves.length leaf proof (root leaves) = .ok () →
      leaves[index]? = some leaf ∧ inclusionProof leaves index = .ok proof) ∧
    (∀ old, old ≤ leaves.length → ∃ proof, consistencyProof leaves old = .ok proof ∧
      verifyConsistency old leaves.length (root (leaves.take old)) (root leaves) proof = .ok ()) ∧
    ∀ old proof, verifyConsistency (List.length old) leaves.length (root old) (root leaves) proof = .ok () →
      old <+: leaves :=
  ⟨fun _ _ hleaf => verifyInclusion_proof hleaf, fun _ _ _ h => verifyInclusion_sound hinj h,
    fun _ hle => verifyConsistency_proof hle, fun _ _ h => verifyConsistency_sound hinj h⟩

end Verify

inductive HashTerm where
  | empty
  | leaf (n : Nat)
  | node (left right : HashTerm)
  deriving DecidableEq

instance termHash : TreeHash HashTerm where
  nodeHash := .node
  emptyRoot := .empty

/-- What the proofs of three leaves show. -/
theorem proofs_exact_three :
    (∃ proof, inclusionProof [HashTerm.leaf 0, .leaf 1, .leaf 2] 2 = .ok proof ∧
      verifyInclusion 2 3 (.leaf 2) proof (root [HashTerm.leaf 0, .leaf 1, .leaf 2]) = .ok ()) ∧
    ∀ old proof, verifyConsistency (List.length old) 3 (root old) (root [HashTerm.leaf 0, .leaf 1, .leaf 2]) proof =
      .ok () → old <+: [HashTerm.leaf 0, .leaf 1, .leaf 2] := by
  have hinj : Function.Injective2 (nodeHash : HashTerm → HashTerm → HashTerm) := by
    intro left left' right right' h
    exact HashTerm.node.inj h
  have hexact := proofs_exact hinj [HashTerm.leaf 0, .leaf 1, .leaf 2]
  exact ⟨hexact.1 2 (.leaf 2) rfl, hexact.2.2.2⟩

end Merkle

end Adk
