import AdkRust.Lib.Text
import Mathlib.Algebra.Group.Nat.Defs

/-!
# Keys of the execution log

The execution log keys a task call by its task and by how many calls of the task came before it
(`functional/task_id.rs`), and the answer of an interrupt by how many interrupts came before it. A
call's arguments stand as the hash of those that serialize.

* `key_inj`, `interruptKey_inj`, `key_ne_interruptKey`: which keys are the same.
-/

namespace Adk

/-- A call of a task within a run. -/
structure Call where
  name : String
  /-- How many calls of the task came before it. -/
  ordinal : Nat
  /-- The hash of the arguments, when one of them serializes. -/
  argHash : Option UInt64
deriving DecidableEq

/-- A hash as 16 hexadecimal digits. -/
def hex16 (hash : UInt64) : List Char :=
  (List.range 16).reverse.map fun i => Nat.digitChar (hash.toNat / 16 ^ i % 16)

/-- The key of a call in the execution log (`task_call_id`). -/
def Call.key (c : Call) : String :=
  c.name ++ String.ofList ('#' :: Nat.toDigits 10 c.ordinal ++
    match c.argHash with
    | none => []
    | some hash => ':' :: hex16 hash)

/-- The continuation key of the `ordinal`-th interrupt of a run. -/
def interruptKey (ordinal : Nat) : String := s!"interrupt-{ordinal}"

theorem hash_not_mem_hex16 {hash : UInt64} : '#' ∉ hex16 hash := by
  intro h
  obtain ⟨i, -, hi⟩ := List.mem_map.mp h
  have hlt : hash.toNat / 16 ^ i % 16 < 16 := Nat.mod_lt _ (by omega)
  generalize hash.toNat / 16 ^ i % 16 = d at hi hlt
  have hdgt : ∀ d < 16, Nat.digitChar d ≠ '#' := by decide
  exact hdgt d hlt hi

/-- What follows the ordinal in a key. -/
def Call.keyTail (c : Call) : List Char :=
  match c.argHash with
  | none => []
  | some hash => ':' :: hex16 hash

theorem Call.toList_key (c : Call) :
    c.key.toList = c.name.toList ++ '#' :: (Nat.toDigits 10 c.ordinal ++ c.keyTail) := by
  unfold key keyTail
  rw [String.toList_append, String.toList_ofList]
  rfl

theorem Call.hash_not_mem (c : Call) : '#' ∉ Nat.toDigits 10 c.ordinal ++ c.keyTail := by
  have htail : '#' ∉ c.keyTail := by
    unfold keyTail
    split
    · simp
    · simp [hash_not_mem_hex16]
  rw [List.mem_append, not_or]
  exact ⟨not_mem_toDigits rfl, htail⟩

theorem Call.takeWhile_digits (c : Call) :
    (Nat.toDigits 10 c.ordinal ++ c.keyTail).takeWhile Char.isDigit = Nat.toDigits 10 c.ordinal := by
  rw [List.takeWhile_append_of_pos fun d hd => Nat.isDigit_of_mem_toDigits (by omega) (by omega) hd]
  have htail : c.keyTail.takeWhile Char.isDigit = [] := by
    unfold keyTail
    split
    · rfl
    · rfl
  rw [htail, List.append_nil]

theorem key_inj {c d : Call} (h : c.key = d.key) : c.name = d.name ∧ c.ordinal = d.ordinal := by
  have hlist := congrArg String.toList h
  rw [Call.toList_key, Call.toList_key] at hlist
  obtain ⟨hname, htail⟩ := append_cons_inj c.hash_not_mem d.hash_not_mem hlist
  refine ⟨String.toList_inj.mp hname, toDigits_inj ?_⟩
  rw [← c.takeWhile_digits, htail, d.takeWhile_digits]

theorem toList_interruptKey (n : Nat) :
    (interruptKey n).toList = "interrupt-".toList ++ Nat.toDigits 10 n := by
  have hdig : (toString n).toList = Nat.toDigits 10 n := by
    rw [Nat.toString_eq_ofList_toDigits, String.toList_ofList]
  rw [← hdig, ← String.toList_append]
  rfl

theorem interruptKey_inj {m n : Nat} (h : interruptKey m = interruptKey n) : m = n := by
  have hlist := congrArg String.toList h
  rw [toList_interruptKey, toList_interruptKey] at hlist
  exact toDigits_inj (List.append_cancel_left hlist)

theorem key_ne_interruptKey (c : Call) (n : Nat) : c.key ≠ interruptKey n := by
  intro h
  have hmem : '#' ∈ (interruptKey n).toList := by
    rw [← h, c.toList_key]
    simp
  rw [toList_interruptKey, List.mem_append] at hmem
  obtain hmem | hmem := hmem
  · exact absurd hmem (by decide)
  · exact not_mem_toDigits rfl hmem

end Adk
