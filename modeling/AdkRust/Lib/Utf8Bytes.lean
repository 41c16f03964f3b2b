import AdkRust.Lib.ByteSlices

/-!
# Texts as bytes

The bytes of a text in UTF-8. A scanner that compares its bytes with ASCII characters only reads the text as one that
compares its characters: no byte of another character is ASCII.

* `ascii_or_high`: the bytes of one character.
* `takeWhile_utf8Bytes`, `dropWhile_utf8Bytes`: what a scanner of a class of ASCII characters takes and leaves.
* `head?_utf8Bytes`: what it sees next.
-/

namespace Adk

def utf8Bytes (text : List Char) : List UInt8 := text.flatMap String.utf8EncodeChar

/-- A byte as a character (`as char`). -/
def byteChar (byte : UInt8) : Char := Char.ofNat byte.toNat

/-- The byte of an ASCII character (`b'c'`). -/
def byteOf (c : Char) : UInt8 := UInt8.ofNat c.toNat

variable {c d : Char} {text : List Char} {byte : UInt8}

@[simp] theorem utf8Bytes_nil : utf8Bytes [] = [] := rfl

@[simp] theorem utf8Bytes_cons (c : Char) (text : List Char) :
    utf8Bytes (c :: text) = String.utf8EncodeChar c ++ utf8Bytes text := rfl

@[simp] theorem utf8Bytes_append (first second : List Char) :
    utf8Bytes (first ++ second) = utf8Bytes first ++ utf8Bytes second := by
  simp [utf8Bytes]

theorem length_utf8Bytes (text : List Char) : (utf8Bytes text).length = byteLength text := by
  induction text with
  | nil => rfl
  | cons c text ih =>
    have hcons : byteLength (c :: text) = c.utf8Size + byteLength text := rfl
    rw [utf8Bytes_cons, List.length_append, String.length_utf8EncodeChar, ih, hcons]

theorem utf8EncodeChar_ascii (h : c.toNat < 128) : String.utf8EncodeChar c = [byteOf c] := by
  have hval : c.val.toNat = c.toNat := rfl
  unfold String.utf8EncodeChar
  exact if_pos (by omega)

theorem utf8EncodeChar_high (h : 128 ≤ c.toNat) : ∀ byte ∈ String.utf8EncodeChar c, 128 ≤ byte.toNat := by
  have hval : c.val.toNat = c.toNat := rfl
  have hlead (n k m : Nat) (hm : 128 ≤ m) (hk : k + m ≤ 256) (hpos : 0 < k) : 128 ≤ (UInt8.ofNat (n % k + m)).toNat := by
    have hlt := Nat.mod_lt n hpos
    rw [UInt8.toNat_ofNat']
    omega
  intro byte hbyte
  unfold String.utf8EncodeChar at hbyte
  rw [if_neg (by omega)] at hbyte
  split at hbyte
  · simp only [List.mem_cons, List.not_mem_nil, or_false] at hbyte
    rcases hbyte with rfl | rfl
    · exact hlead _ _ _ (by omega) (by omega) (by omega)
    · exact hlead _ _ _ (by omega) (by omega) (by omega)
  · split at hbyte
    · simp only [List.mem_cons, List.not_mem_nil, or_false] at hbyte
      rcases hbyte with rfl | rfl | rfl
      · exact hlead _ _ _ (by omega) (by omega) (by omega)
      · exact hlead _ _ _ (by omega) (by omega) (by omega)
      · exact hlead _ _ _ (by omega) (by omega) (by omega)
    · simp only [List.mem_cons, List.not_mem_nil, or_false] at hbyte
      rcases hbyte with rfl | rfl | rfl | rfl
      · exact hlead _ _ _ (by omega) (by omega) (by omega)
      · exact hlead _ _ _ (by omega) (by omega) (by omega)
      · exact hlead _ _ _ (by omega) (by omega) (by omega)
      · exact hlead _ _ _ (by omega) (by omega) (by omega)

/-- **The bytes of one character**: its own, if it is ASCII, or bytes that are not. -/
theorem ascii_or_high (c : Char) : (c.toNat < 128 ∧ String.utf8EncodeChar c = [byteOf c]) ∨
    (128 ≤ c.toNat ∧ ∀ byte ∈ String.utf8EncodeChar c, 128 ≤ byte.toNat) := by
  by_cases h : c.toNat < 128
  · exact .inl ⟨h, utf8EncodeChar_ascii h⟩
  · exact .inr ⟨by omega, utf8EncodeChar_high (by omega)⟩

theorem toNat_byteOf (h : c.toNat < 128) : (byteOf c).toNat = c.toNat := by
  rw [byteOf, UInt8.toNat_ofNat']
  omega

theorem byteChar_byteOf (h : c.toNat < 128) : byteChar (byteOf c) = c := by
  rw [byteChar, toNat_byteOf h, Char.ofNat_toNat]

theorem byteOf_inj (hc : c.toNat < 128) (hd : d.toNat < 128) : byteOf c = byteOf d ↔ c = d := by
  refine ⟨fun h => ?_, congrArg byteOf⟩
  rw [← byteChar_byteOf hc, h, byteChar_byteOf hd]

/-- A byte that is not ASCII is no ASCII character's. -/
theorem ne_byteOf (hbyte : 128 ≤ byte.toNat) (hd : d.toNat < 128) : byte ≠ byteOf d := by
  rintro rfl
  rw [toNat_byteOf hd] at hbyte
  omega

theorem toNat_byteChar (byte : UInt8) : (byteChar byte).toNat = byte.toNat := by
  have hlt := byte.toNat_lt
  have hvld : byte.toNat.isValidChar := .inl (by omega)
  unfold byteChar Char.ofNat
  rw [dif_pos hvld]
  rfl

/-- What is seen next, if it is ASCII. -/
theorem head?_utf8Bytes (hd : d.toNat < 128) : (utf8Bytes text).head? = some (byteOf d) ↔ text.head? = some d := by
  cases text with
  | nil => simp
  | cons c rest =>
    rw [utf8Bytes_cons, List.head?_cons, Option.some_inj]
    rcases ascii_or_high c with ⟨hc, hbyt⟩ | ⟨hc, hbyt⟩
    · rw [hbyt, List.singleton_append, List.head?_cons, Option.some_inj, byteOf_inj hc hd]
    · refine iff_of_false (fun h => ?_) (by rintro rfl; omega)
      have hne := String.utf8EncodeChar_ne_nil (c := c)
      rw [List.head?_append_of_ne_nil _ hne] at h
      exact ne_byteOf (hbyt _ (List.mem_of_head? h)) hd rfl

section Scan

variable {p : Char → Bool} (hp : ∀ c, p c = true → c.toNat < 128)
include hp

theorem class_high (hbyte : 128 ≤ byte.toNat) : p (byteChar byte) = false := by
  cases h : p (byteChar byte) with
  | false => rfl
  | true =>
    have hlt := hp _ h
    rw [toNat_byteChar] at hlt
    omega

/-- What a scanner of a class of ASCII characters takes. -/
theorem takeWhile_utf8Bytes (text : List Char) :
    (utf8Bytes text).takeWhile (fun byte => p (byteChar byte)) = utf8Bytes (text.takeWhile p) := by
  induction text with
  | nil => rfl
  | cons c rest ih =>
    rw [utf8Bytes_cons]
    rcases ascii_or_high c with ⟨hc, hbyt⟩ | ⟨hc, hbyt⟩
    · rw [hbyt, List.singleton_append, List.takeWhile_cons, byteChar_byteOf hc, List.takeWhile_cons, ih]
      by_cases hpc : p c = true
      · rw [if_pos hpc, if_pos hpc, utf8Bytes_cons, hbyt, List.singleton_append]
      · rw [if_neg hpc, if_neg hpc, utf8Bytes_nil]
    · have hpc : p c = false := Bool.eq_false_iff.mpr fun h => by
        have := hp c h
        omega
      obtain ⟨byte, bytes, hcons⟩ := List.exists_cons_of_ne_nil (String.utf8EncodeChar_ne_nil (c := c))
      rw [hcons, List.cons_append, List.takeWhile_cons_of_neg, List.takeWhile_cons_of_neg, utf8Bytes_nil]
      · rw [hpc]
        exact Bool.false_ne_true
      · rw [class_high hp (hbyt byte (by rw [hcons]; exact List.mem_cons_self))]
        exact Bool.false_ne_true

/-- What a scanner of a class of ASCII characters leaves. -/
theorem dropWhile_utf8Bytes (text : List Char) :
    (utf8Bytes text).dropWhile (fun byte => p (byteChar byte)) = utf8Bytes (text.dropWhile p) := by
  have hbyt : utf8Bytes text = utf8Bytes (text.takeWhile p) ++ utf8Bytes (text.dropWhile p) := by
    rw [← utf8Bytes_append, List.takeWhile_append_dropWhile]
  have hsp := List.takeWhile_append_dropWhile (p := fun byte => p (byteChar byte)) (l := utf8Bytes text)
  rw [takeWhile_utf8Bytes hp] at hsp
  exact List.append_cancel_left (hsp.trans hbyt)

end Scan

end Adk
