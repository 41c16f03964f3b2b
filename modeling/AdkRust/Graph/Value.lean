import AdkRust.Lib.Dict

/-!
# JSON values

The values a graph's channels hold (`serde_json::Value`). An object's fields stand in key order,
which is how `serde_json` keeps them without its `preserve_order` feature; a float is held as its
bits, so that equality of values is decidable.
-/

namespace Adk

/-- A JSON number (`serde_json::Number`). -/
inductive Number where
  | int (n : Int)
  | float (bits : UInt64)
deriving DecidableEq, Repr

/-- A JSON value (`serde_json::Value`). -/
inductive Value where
  | null
  | bool (b : Bool)
  | number (n : Number)
  | string (s : String)
  | array (items : List Value)
  | object (fields : List (String × Value))
deriving Repr, Inhabited

namespace Value

/-! ## Equality is decidable -/

mutual

protected def decEq : (a b : Value) → Decidable (a = b)
  | .null, .null => .isTrue rfl
  | .bool a, .bool b => if h : a = b then .isTrue (by rw [h]) else .isFalse (by simp [h])
  | .number a, .number b => if h : a = b then .isTrue (by rw [h]) else .isFalse (by simp [h])
  | .string a, .string b => if h : a = b then .isTrue (by rw [h]) else .isFalse (by simp [h])
  | .array a, .array b =>
    match Value.decEqItems a b with
    | .isTrue h => .isTrue (by rw [h])
    | .isFalse h => .isFalse (by simp [h])
  | .object a, .object b =>
    match Value.decEqFields a b with
    | .isTrue h => .isTrue (by rw [h])
    | .isFalse h => .isFalse (by simp [h])
  | .null, .bool _ | .null, .number _ | .null, .string _ | .null, .array _ | .null, .object _
  | .bool _, .null | .bool _, .number _ | .bool _, .string _ | .bool _, .array _
  | .bool _, .object _
  | .number _, .null | .number _, .bool _ | .number _, .string _ | .number _, .array _
  | .number _, .object _
  | .string _, .null | .string _, .bool _ | .string _, .number _ | .string _, .array _
  | .string _, .object _
  | .array _, .null | .array _, .bool _ | .array _, .number _ | .array _, .string _
  | .array _, .object _
  | .object _, .null | .object _, .bool _ | .object _, .number _ | .object _, .string _
  | .object _, .array _ => .isFalse (by simp)

/-- Decides equality of two arrays' items. -/
protected def decEqItems : (a b : List Value) → Decidable (a = b)
  | [], [] => .isTrue rfl
  | [], _ :: _ | _ :: _, [] => .isFalse (by simp)
  | a :: as, b :: bs =>
    match Value.decEq a b, Value.decEqItems as bs with
    | .isTrue h, .isTrue hs => .isTrue (by rw [h, hs])
    | .isFalse h, _ => .isFalse (by simp [h])
    | _, .isFalse hs => .isFalse (by simp [hs])

protected def decEqFields : (a b : List (String × Value)) → Decidable (a = b)
  | [], [] => .isTrue rfl
  | [], _ :: _ | _ :: _, [] => .isFalse (by simp)
  | (k, a) :: as, (l, b) :: bs =>
    if hk : k = l then
      match Value.decEq a b, Value.decEqFields as bs with
      | .isTrue h, .isTrue hs => .isTrue (by rw [hk, h, hs])
      | .isFalse h, _ => .isFalse (by simp [h])
      | _, .isFalse hs => .isFalse (by simp [hs])
    else .isFalse (by simp [hk])

end

instance : DecidableEq Value := Value.decEq

/-! ## Building and reading values -/

/-- An integer (`json!(n)`). -/
def ofInt (n : Int) : Value := .number (.int n)

/-- `json!(x)` of an `f64`: a number JSON cannot hold is `null`. -/
def ofFloat (x : Float) : Value := if x.isFinite then .number (.float x.toBits) else .null

/-- `Value::Object` of a map. -/
def ofDict (fields : Dict Value) : Value := .object fields.toList

/-- `Value::as_f64`. -/
def asF64 : Value → Option Float
  | .number (.int n) => some (Float.ofInt n)
  | .number (.float bits) => some (Float.ofBits bits)
  | _ => none

/-- `Value::as_str`. -/
def asStr : Value → Option String
  | .string s => some s
  | _ => none

/-- `Value::as_i64`. -/
def asInt : Value → Option Int
  | .number (.int n) => some n
  | _ => none

/-- `Value::as_array`. -/
def asArray : Value → Option (List Value)
  | .array items => some items
  | _ => none

/-- `Value::as_object`. -/
def asObject : Value → Option (List (String × Value))
  | .object fields => some fields
  | _ => none

/-- `Value::get`: a field of an object. -/
def get? (v : Value) (key : String) : Option Value :=
  v.asObject.bind (·.lookup key)

def ofStrings (names : List String) : Value := .array (names.map .string)

def asStrings (v : Value) : Option (List String) := v.asArray.bind (·.mapM asStr)

theorem mapM_map {α β : Type} {encode : α → β} {decode : β → Option α} {items : List α}
    (h : ∀ a ∈ items, decode (encode a) = some a) : (items.map encode).mapM decode = some items := by
  induction items with
  | nil => rfl
  | cons a items ih =>
    rw [List.map_cons, List.mapM_cons, h a (by simp), ih fun b hb => h b (by simp [hb])]
    rfl

@[simp] theorem asStrings_ofStrings (names : List String) :
    (ofStrings names).asStrings = some names :=
  mapM_map fun _ _ => rfl

def ofDictWith {α : Type} (encode : α → Value) (d : Dict α) : Value :=
  .ofDict (d.map fun _ a => encode a)

/-- The map of an object, each field decoded. -/
def asDictWith {α : Type} (decode : Value → Option α) (v : Value) : Option (Dict α) := do
  let fields ← v.asObject
  let entries ← fields.mapM fun field => (decode field.2).map fun a => (field.1, a)
  return Dict.ofList entries

theorem asDictWith_ofDictWith_map {α : Type} {encode : α → Value} {decode : Value → Option α}
    {f : α → α} (h : ∀ a, decode (encode a) = some (f a)) (d : Dict α) :
    (ofDictWith encode d).asDictWith decode = some (d.map fun _ a => f a) := by
  have hfields : (d.toList.map fun entry => (entry.1, encode entry.2)).mapM
      (fun field => (decode field.2).map fun a => (field.1, a)) =
      some (d.toList.map fun entry => (entry.1, f entry.2)) := by
    induction d.toList with
    | nil => rfl
    | cons entry entries ih =>
      rw [List.map_cons, List.mapM_cons, ih]
      simp [h]
  simp only [ofDictWith, ofDict, asDictWith, asObject, Std.ExtTreeMap.toList_map, hfields,
    Option.bind_eq_bind, Option.bind_some, Option.pure_def]
  rw [Dict.ofList_map_toList d fun _ a => f a]

theorem asDictWith_ofDictWith {α : Type} {encode : α → Value} {decode : Value → Option α}
    (h : ∀ a, decode (encode a) = some a) (d : Dict α) :
    (ofDictWith encode d).asDictWith decode = some d := by
  have hid : (d.map fun _ a => a) = d := by
    refine Std.ExtTreeMap.ext_getElem? fun key => ?_
    simp
  rw [asDictWith_ofDictWith_map h, hid]

end Value

end Adk
