import AdkRust.Graph.Value
import Mathlib.Data.List.Sort

/-!
# Canonical JSON

RFC 8785: members in the order of the UTF-16 code units of their names, and no integer that a float does not hold
(`jcs.rs`). The text of a float is that of ECMAScript, given by an instance of `FloatText`.
-/

namespace Adk

/-- The text of a finite float (`ryu_js`). -/
class FloatText where
  formatFinite : UInt64 → String

namespace SignedAudit

/-- Largest integer every float represents exactly. -/
def maxSafeInteger : Nat := 9007199254740991

def encodeUtf16 (text : String) : List Nat :=
  text.toList.flatMap fun c =>
    if c.toNat < 0x10000 then [c.toNat]
    else [0xd800 + (c.toNat - 0x10000) / 0x400, 0xdc00 + (c.toNat - 0x10000) % 0x400]

def writeChar (c : Char) : String :=
  match c with
  | '"' => "\\\""
  | '\\' => "\\\\"
  | '\x08' => "\\b"
  | '\x0c' => "\\f"
  | '\n' => "\\n"
  | '\r' => "\\r"
  | '\t' => "\\t"
  | c =>
    if c.toNat < 0x20 then
      "\\u00" ++ String.ofList [Nat.digitChar (c.toNat / 16), Nat.digitChar (c.toNat % 16)]
    else String.singleton c

def writeString (text : String) : String := "\"" ++ String.join (text.toList.map writeChar) ++ "\""

section Canonicalize

variable [FloatText]

/-- A number. Negative zero is written as zero. -/
def writeNumber : Number → Except String String
  | .int n =>
    if maxSafeInteger < n.natAbs then .error s!"integer {n} exceeds 2^53" else .ok (toString n)
  | .float bits => .ok (if bits <<< 1 = 0 then "0" else FloatText.formatFinite bits)

mutual

def canonicalize : Value → Except String String
  | .null => .ok "null"
  | .bool true => .ok "true"
  | .bool false => .ok "false"
  | .number number => writeNumber number
  | .string text => .ok (writeString text)
  | .array items => do
    let texts ← canonicalizeItems items
    return "[" ++ ",".intercalate texts ++ "]"
  | .object members => do
    let sorted := (canonicalizeMembers members).insertionSort fun a b => ¬ encodeUtf16 b.1 < encodeUtf16 a.1
    let texts ← sorted.mapM fun member => member.2.map fun text => writeString member.1 ++ ":" ++ text
    return "\x7b" ++ ",".intercalate texts ++ "\x7d"

def canonicalizeItems : List Value → Except String (List String)
  | [] => .ok []
  | item :: items => do
    let text ← canonicalize item
    let texts ← canonicalizeItems items
    return text :: texts

def canonicalizeMembers : List (String × Value) → List (String × Except String String)
  | [] => []
  | (name, member) :: members => (name, canonicalize member) :: canonicalizeMembers members

end

end Canonicalize

end SignedAudit

end Adk
