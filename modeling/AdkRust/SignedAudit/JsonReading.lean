import AdkRust.Lib.Binary64
import AdkRust.SignedAudit.Canonical
import Mathlib.Data.String.Basic
import Std.Data.String.ToInt

/-!
# JSON texts

What `serde_json` makes of a text without blanks (`readJson`), and the values it holds. The reading of a number that
is no integer of 64 bits is other people's code, given by an instance of `FloatReading`.

* `Value.All`: a property of the numbers in a value and of the names of each object.
* `Value.Held`: what `serde_json` can hold: integers of 64 bits, finite doubles, members in the order of their names.
-/

namespace Adk

open Binary64

/-! ## Parts of a value -/

namespace Value

mutual

/-- `p` holds of every number, and `q` of the names of every object. -/
def All (p : Number → Prop) (q : List String → Prop) : Value → Prop
  | .number n => p n
  | .array items => AllItems p q items
  | .object members => q (members.map Prod.fst) ∧ AllMembers p q members
  | _ => True

def AllItems (p : Number → Prop) (q : List String → Prop) : List Value → Prop
  | [] => True
  | item :: items => All p q item ∧ AllItems p q items

def AllMembers (p : Number → Prop) (q : List String → Prop) : List (String × Value) → Prop
  | [] => True
  | (_, member) :: members => All p q member ∧ AllMembers p q members

end

mutual

def mapNumbers (f : Number → Number) : Value → Value
  | .number n => .number (f n)
  | .array items => .array (mapItems f items)
  | .object members => .object (mapMembers f members)
  | value => value

def mapItems (f : Number → Number) : List Value → List Value
  | [] => []
  | item :: items => mapNumbers f item :: mapItems f items

def mapMembers (f : Number → Number) : List (String × Value) → List (String × Value)
  | [] => []
  | (name, member) :: members => (name, mapNumbers f member) :: mapMembers f members

end

section Parts

variable {p : Number → Prop} {q : List String → Prop} {f : Number → Number}

variable {items : List Value} {members : List (String × Value)}

theorem allItems_iff : AllItems p q items ↔ ∀ item ∈ items, item.All p q := by
  induction items with
  | nil => simp [AllItems]
  | cons item items ih => simp [AllItems, ih]

theorem allMembers_iff :
    AllMembers p q members ↔ ∀ member ∈ members, member.2.All p q := by
  induction members with
  | nil => simp [AllMembers]
  | cons member members ih => simp [AllMembers, ih]

@[simp] theorem all_array : (array items).All p q ↔ ∀ item ∈ items, item.All p q :=
  allItems_iff

@[simp] theorem all_object :
    (object members).All p q ↔ q (members.map Prod.fst) ∧ ∀ member ∈ members, member.2.All p q :=
  and_congr_right fun _ => allMembers_iff

@[simp] theorem mapNumbers_array : mapNumbers f (array items) = array (items.map (mapNumbers f)) := by
  refine congrArg array ?_
  induction items with
  | nil => rfl
  | cons item items ih => exact congrArg (mapNumbers f item :: ·) ih

@[simp] theorem mapNumbers_object :
    mapNumbers f (object members) = object (members.map fun member => (member.1, mapNumbers f member.2)) := by
  refine congrArg object ?_
  induction members with
  | nil => rfl
  | cons member members ih => exact congrArg ((member.1, mapNumbers f member.2) :: ·) ih

end Parts

mutual

/-- Induction over a value: what holds of an array or an object when it holds of all it holds, holds of every value. -/
@[elab_as_elim] theorem induct {motive : Value → Prop} (null : motive null) (bool : ∀ b, motive (bool b))
    (number : ∀ n, motive (number n)) (string : ∀ s, motive (string s))
    (array : ∀ items, (∀ item ∈ items, motive item) → motive (array items))
    (object : ∀ members : List (String × Value), (∀ member ∈ members, motive member.2) → motive (object members)) :
    ∀ value, motive value
  | .null => null
  | .bool b => bool b
  | .number n => number n
  | .string s => string s
  | .array items => array items (inductItems null bool number string array object items)
  | .object members => object members (inductMembers null bool number string array object members)

theorem inductItems {motive : Value → Prop} (null : motive null) (bool : ∀ b, motive (bool b))
    (number : ∀ n, motive (number n)) (string : ∀ s, motive (string s))
    (array : ∀ items, (∀ item ∈ items, motive item) → motive (array items))
    (object : ∀ members : List (String × Value), (∀ member ∈ members, motive member.2) → motive (object members)) :
    ∀ items : List Value, ∀ item ∈ items, motive item
  | [] => fun _ h => absurd h List.not_mem_nil
  | first :: items => List.forall_mem_cons.mpr ⟨induct null bool number string array object first,
      inductItems null bool number string array object items⟩

theorem inductMembers {motive : Value → Prop} (null : motive null) (bool : ∀ b, motive (bool b))
    (number : ∀ n, motive (number n)) (string : ∀ s, motive (string s))
    (array : ∀ items, (∀ item ∈ items, motive item) → motive (array items))
    (object : ∀ members : List (String × Value), (∀ member ∈ members, motive member.2) → motive (object members)) :
    ∀ members : List (String × Value), ∀ member ∈ members, motive member.2
  | [] => fun _ h => absurd h List.not_mem_nil
  | (_, first) :: members => List.forall_mem_cons.mpr ⟨induct null bool number string array object first,
      inductMembers null bool number string array object members⟩

end

theorem All.imp {p p' : Number → Prop} {q : List String → Prop} {value : Value} (h : value.All p q)
    (himp : ∀ n, p n → p' n) : value.All p' q := by
  induction value using Value.induct with
  | null => trivial
  | bool b => trivial
  | number n => exact himp n h
  | string s => trivial
  | array items ih => exact all_array.mpr fun item hitem => ih item hitem (all_array.mp h item hitem)
  | object members ih =>
    obtain ⟨hnames, hmems⟩ := all_object.mp h
    exact all_object.mpr ⟨hnames, fun member hmem => ih member hmem (hmems member hmem)⟩

theorem mapNumbers_id (value : Value) : mapNumbers id value = value := by
  induction value using induct with
  | null => rfl
  | bool b => rfl
  | number n => rfl
  | string s => rfl
  | array items ih => rw [mapNumbers_array, List.map_congr_left ih, List.map_id']
  | object members ih =>
    rw [mapNumbers_object, List.map_congr_left fun member hmem => congrArg (Prod.mk member.1) (ih member hmem),
      List.map_id']

end Value

/-- An integer that `u64` or `i64` holds. -/
def FitsWord (n : Int) : Prop := -2 ^ 63 ≤ n ∧ n < 2 ^ 64

instance (n : Int) : Decidable (FitsWord n) := inferInstanceAs (Decidable (_ ∧ _))

/-- What `serde_json::Number` holds. -/
def Number.Held : Number → Prop
  | .int n => FitsWord n
  | .float bits => IsFinite bits

namespace Value

/-- A value as `serde_json` holds it: an object is a map from names, kept in their order. -/
def Held (value : Value) : Prop := value.All Number.Held fun names => names.Pairwise (· < ·)

end Value

/-! ## Reading -/

def isNumberChar (c : Char) : Bool := c.isDigit || c == '-' || c == '+' || c == '.' || c == 'e' || c == 'E'

def skipDigits (text : List Char) : Option (List Char) :=
  if (text.takeWhile Char.isDigit).isEmpty then none else some (text.dropWhile Char.isDigit)

/-- The text after the digits of an integer, which begins with `0` only when that is all of it. -/
def skipInteger : List Char → Option (List Char)
  | '0' :: text => some text
  | text => skipDigits text

def skipFraction : List Char → Option (List Char)
  | '.' :: text => skipDigits text
  | text => some text

def skipExponent : List Char → Option (List Char)
  | c :: text =>
    if c = 'e' ∨ c = 'E' then
      match text with
      | '+' :: text | '-' :: text => skipDigits text
      | text => skipDigits text
    else some (c :: text)
  | [] => some []

/-- Whether a text is a number of JSON. -/
def isDecimal (text : List Char) : Bool :=
  (((skipInteger (if text.head? = some '-' then text.tail else text)).bind skipFraction).bind skipExponent) = some []

def asInteger (text : String) : Option Int := text.toInt?.filter fun n => toString n = text ∧ FitsWord n

/-- The digit of a hexadecimal number. -/
def hexValue (c : Char) : Option Nat :=
  if c.isDigit then some (c.toNat - '0'.toNat)
  else if 'a' ≤ c ∧ c ≤ 'f' then some (c.toNat - 'a'.toNat + 10)
  else if 'A' ≤ c ∧ c ≤ 'F' then some (c.toNat - 'A'.toNat + 10)
  else none

/-- The character of an escape of four digits. The halves of a surrogate pair are not read here. -/
def hexChar (a b c d : Char) : Option Char := do
  let n := (((← hexValue a) * 16 + (← hexValue b)) * 16 + (← hexValue c)) * 16 + (← hexValue d)
  if n.isValidChar then some (Char.ofNat n) else none

def escapedChar : Char → Option Char
  | '"' => some '"'
  | '\\' => some '\\'
  | '/' => some '/'
  | 'b' => some '\x08'
  | 'f' => some '\x0c'
  | 'n' => some '\n'
  | 'r' => some '\r'
  | 't' => some '\t'
  | _ => none

/-- What is in a string, and what follows its closing quote. -/
def readString : List Char → Option (List Char × List Char)
  | [] => none
  | '"' :: rest => some ([], rest)
  | '\\' :: 'u' :: a :: b :: c :: d :: rest =>
    (hexChar a b c d).bind fun x => (readString rest).map fun text => (x :: text.1, text.2)
  | '\\' :: c :: rest => (escapedChar c).bind fun x => (readString rest).map fun text => (x :: text.1, text.2)
  | c :: rest => if c.toNat < 0x20 then none else (readString rest).map fun text => (c :: text.1, text.2)

def readWord : List Char → Option (Value × List Char)
  | 'n' :: 'u' :: 'l' :: 'l' :: rest => some (.null, rest)
  | 't' :: 'r' :: 'u' :: 'e' :: rest => some (.bool true, rest)
  | 'f' :: 'a' :: 'l' :: 's' :: 'e' :: rest => some (.bool false, rest)
  | _ => none

def afterColon : List Char → Option (List Char)
  | ':' :: rest => some rest
  | _ => none

/-- The reading of a number that is no integer of 64 bits: the double nearest to it, unless it is too large. -/
class FloatReading where
  readFloat : String → Option UInt64

section Reading

variable [FloatReading]

/-- A number: an integer that fits 64 bits is one, and any other number is a double. -/
def readNumber (text : List Char) : Option Number :=
  match asInteger (.ofList text) with
  | some n => some (.int n)
  | none => if isDecimal text then (FloatReading.readFloat (.ofList text)).map .float else none

mutual

/-- A value at the beginning of a text, and what follows it. A later member of a name stands over an earlier one. -/
def readValue : Nat → List Char → Option (Value × List Char)
  | 0, _ => none
  | _, [] => none
  | fuel + 1, c :: rest =>
    if isNumberChar c then
      (readNumber ((c :: rest).takeWhile isNumberChar)).map fun n => (.number n, (c :: rest).dropWhile isNumberChar)
    else if c = '"' then (readString rest).map fun text => (.string (.ofList text.1), text.2)
    else if c = '[' then
      if rest.head? = some ']' then some (.array [], rest.tail)
      else (readValue fuel rest).bind fun item =>
        (readTail fuel item.2).map fun items => (.array (item.1 :: items.1), items.2)
    else if c = '\x7b' then
      if rest.head? = some '\x7d' then some (.object [], rest.tail)
      else (readMember fuel rest).bind fun member =>
        (readMembersTail fuel member.2).map fun members => (.ofDict (.ofList (member.1 :: members.1)), members.2)
    else readWord (c :: rest)

/-- The items after the first one. -/
def readTail : Nat → List Char → Option (List Value × List Char)
  | fuel + 1, c :: rest =>
    if c = ']' then some ([], rest)
    else if c = ',' then (readValue fuel rest).bind fun item =>
      (readTail fuel item.2).map fun items => (item.1 :: items.1, items.2)
    else none
  | _, _ => none

def readMember : Nat → List Char → Option ((String × Value) × List Char)
  | fuel + 1, c :: rest =>
    if c = '"' then (readString rest).bind fun name => (afterColon name.2).bind fun rest =>
      (readValue fuel rest).map fun member => ((.ofList name.1, member.1), member.2)
    else none
  | _, _ => none

/-- The members after the first one. -/
def readMembersTail : Nat → List Char → Option (List (String × Value) × List Char)
  | fuel + 1, c :: rest =>
    if c = '\x7d' then some ([], rest)
    else if c = ',' then (readMember fuel rest).bind fun member =>
      (readMembersTail fuel member.2).map fun members => (member.1 :: members.1, members.2)
    else none
  | _, _ => none

end

/-- The value that the whole of a text is. Each step takes a character, so that there is fuel enough. -/
def readJson (text : String) : Option Value :=
  (readValue text.toList.length text.toList).bind fun value => if value.2.isEmpty then some value.1 else none

end Reading

end Adk
