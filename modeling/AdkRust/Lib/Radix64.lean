/-!
# Base64

The standard alphabet, with padding. Three bytes are four characters.

* `decode_encode`: decoding what was encoded.
-/

namespace Adk

namespace Radix64

def alphabet : List Char :=
  ['A', 'B', 'C', 'D', 'E', 'F', 'G', 'H', 'I', 'J', 'K', 'L', 'M', 'N', 'O', 'P', 'Q', 'R', 'S', 'T', 'U', 'V', 'W', 'X', 'Y', 'Z',
   'a', 'b', 'c', 'd', 'e', 'f', 'g', 'h', 'i', 'j', 'k', 'l', 'm', 'n', 'o', 'p', 'q', 'r', 's', 't', 'u', 'v', 'w', 'x', 'y', 'z',
   '0', '1', '2', '3', '4', '5', '6', '7', '8', '9', '+', '/']

def digit (n : Nat) : Char := alphabet.getD n '='

def value (c : Char) : Option Nat := alphabet.findIdx? (· = c)

def encodeChars : List UInt8 → List Char
  | a :: b :: c :: rest =>
    digit (a.toNat / 4) :: digit (a.toNat % 4 * 16 + b.toNat / 16) :: digit (b.toNat % 16 * 4 + c.toNat / 64) ::
      digit (c.toNat % 64) :: encodeChars rest
  | [a, b] => [digit (a.toNat / 4), digit (a.toNat % 4 * 16 + b.toNat / 16), digit (b.toNat % 16 * 4), '=']
  | [a] => [digit (a.toNat / 4), digit (a.toNat % 4 * 16), '=', '=']
  | [] => []

/-- The bytes of four characters; what the padding drops must be zero. -/
def decodeFour (a b c d : Char) : Option (List UInt8) :=
  match value a, value b with
  | some x, some y =>
    if c = '=' ∧ d = '=' then if y % 16 = 0 then some [UInt8.ofNat (x * 4 + y / 16)] else none
    else
      match value c with
      | none => none
      | some z =>
        if d = '=' then
          if z % 4 = 0 then some [UInt8.ofNat (x * 4 + y / 16), UInt8.ofNat (y % 16 * 16 + z / 4)] else none
        else
          match value d with
          | none => none
          | some w =>
            some [UInt8.ofNat (x * 4 + y / 16), UInt8.ofNat (y % 16 * 16 + z / 4), UInt8.ofNat (z % 4 * 64 + w)]
  | _, _ => none

/-- The bytes of some characters. Only the last four may be padded. -/
def decodeChars : List Char → Option (List UInt8)
  | [] => some []
  | a :: b :: c :: d :: rest =>
    match decodeFour a b c d, decodeChars rest with
    | some bytes, some more => if bytes.length < 3 ∧ rest ≠ [] then none else some (bytes ++ more)
    | _, _ => none
  | _ => none

def encode (bytes : List UInt8) : String := String.ofList (encodeChars bytes)

def decode (text : String) : Option (List UInt8) := decodeChars text.toList

/-! ## The characters of what was encoded -/

theorem digit_mem (n : Nat) : digit n ∈ '=' :: alphabet := by
  unfold digit
  rw [List.getD_eq_getElem?_getD]
  cases hn : alphabet[n]? with
  | none => exact List.mem_cons_self
  | some c => exact List.mem_cons_of_mem _ (List.mem_of_getElem? hn)

theorem mem_symbols {bytes : List UInt8} {c : Char} (h : c ∈ encodeChars bytes) : c ∈ '=' :: alphabet := by
  induction bytes using encodeChars.induct with
  | case1 a b c' rest ih =>
    unfold encodeChars at h
    simp only [List.mem_cons] at h
    rcases h with rfl | rfl | rfl | rfl | h
    · exact digit_mem _
    · exact digit_mem _
    · exact digit_mem _
    · exact digit_mem _
    · exact ih h
  | case2 a b =>
    unfold encodeChars at h
    simp only [List.mem_cons, List.not_mem_nil, or_false] at h
    rcases h with rfl | rfl | rfl | rfl
    · exact digit_mem _
    · exact digit_mem _
    · exact digit_mem _
    · exact List.mem_cons_self
  | case3 a =>
    unfold encodeChars at h
    simp only [List.mem_cons, List.not_mem_nil, or_false] at h
    rcases h with rfl | rfl | rfl | rfl
    · exact digit_mem _
    · exact digit_mem _
    · exact List.mem_cons_self
    · exact List.mem_cons_self
  | case4 => cases h

/-! ## Decoding what was encoded -/

theorem value_digit {n : Nat} (h : n < 64) : value (digit n) = some n := by
  have hall : ∀ n < 64, value (digit n) = some n := by decide +kernel
  exact hall n h

theorem digit_ne {n : Nat} (h : n < 64) : digit n ≠ '=' := by
  have hall : ∀ n < 64, digit n ≠ '=' := by decide +kernel
  exact hall n h

theorem ofNat_of_eq (byte : UInt8) {n : Nat} (h : n = byte.toNat) : UInt8.ofNat n = byte := by
  rw [h]
  exact UInt8.ofNat_toNat

theorem decodeFour_encode (a b c : UInt8) : decodeFour (digit (a.toNat / 4)) (digit (a.toNat % 4 * 16 + b.toNat / 16))
    (digit (b.toNat % 16 * 4 + c.toNat / 64)) (digit (c.toNat % 64)) = some [a, b, c] := by
  have ha := a.toNat_lt
  have hb := b.toNat_lt
  have hc := c.toNat_lt
  unfold decodeFour
  rw [value_digit (by omega), value_digit (by omega), value_digit (by omega), value_digit (by omega)]
  dsimp only
  rw [if_neg (fun h => digit_ne (by omega) h.1), if_neg (digit_ne (by omega)), ofNat_of_eq a (by omega),
    ofNat_of_eq b (by omega), ofNat_of_eq c (by omega)]

theorem decodeFour_two (a b : UInt8) : decodeFour (digit (a.toNat / 4)) (digit (a.toNat % 4 * 16 + b.toNat / 16))
    (digit (b.toNat % 16 * 4)) '=' = some [a, b] := by
  have ha := a.toNat_lt
  have hb := b.toNat_lt
  unfold decodeFour
  rw [value_digit (by omega), value_digit (by omega), value_digit (by omega)]
  dsimp only
  rw [if_neg (fun h => digit_ne (by omega) h.1), if_pos rfl, if_pos (by omega), ofNat_of_eq a (by omega),
    ofNat_of_eq b (by omega)]

theorem decodeFour_one (a : UInt8) :
    decodeFour (digit (a.toNat / 4)) (digit (a.toNat % 4 * 16)) '=' '=' = some [a] := by
  have ha := a.toNat_lt
  unfold decodeFour
  rw [value_digit (by omega), value_digit (by omega)]
  dsimp only
  rw [if_pos ⟨rfl, rfl⟩, if_pos (by omega), ofNat_of_eq a (by omega)]

theorem decodeChars_encode (bytes : List UInt8) : decodeChars (encodeChars bytes) = some bytes := by
  induction bytes using encodeChars.induct with
  | case1 a b c rest ih =>
    unfold encodeChars decodeChars
    rw [decodeFour_encode, ih]
    simp
  | case2 a b =>
    unfold encodeChars decodeChars
    rw [decodeFour_two]
    simp [decodeChars]
  | case3 a =>
    unfold encodeChars decodeChars
    rw [decodeFour_one]
    simp [decodeChars]
  | case4 => rfl

/-- **Decoding what was encoded.** -/
theorem decode_encode (bytes : List UInt8) : decode (encode bytes) = some bytes := by
  unfold decode encode
  rw [String.toList_ofList]
  exact decodeChars_encode bytes

end Radix64

end Adk
