import AdkRust.Graph.Value

/-!
# References of a JSON schema

The definitions that a schema refers to are put in the place of the references (`resolve_refs` in `schema_utils.rs`).

* `locations`: where a schema has sub-schemas; `visit` changes them, one after another, with a state.
* `inlinable`: the definition that takes the place of a reference, if one does.
* `resolve`: the expansion.
-/

namespace Adk

namespace Schema

abbrev Fields := List (String × Value)

/-! ## Objects -/

/-- Puts a field in its place in key order, or changes it (`Map::insert`). -/
def insertField (key : String) (value : Value) : Fields → Fields
  | [] => [(key, value)]
  | (key', value') :: fields =>
    if key = key' then (key, value) :: fields
    else if key < key' then (key, value) :: (key', value') :: fields
    else (key', value') :: insertField key value fields

/-- `Map::extend`. The keys of a map differ, so the order of the insertions does not matter. -/
def extend (fields more : Fields) : Fields := more.foldr (fun field => insertField field.1 field.2) fields

/-- Changes the value of a field (`get_mut`). -/
def setField (key : String) (value : Value) (fields : Fields) : Fields :=
  fields.map fun field => if field.1 = key then (key, value) else field

mutual

/-- The number of JSON values in a value, itself included. -/
def countValues : Value → Nat
  | .array items => countItems items + 1
  | .object fields => countFields fields + 1
  | _ => 1

def countItems : List Value → Nat
  | [] => 0
  | item :: items => countValues item + countItems items

def countFields : List (String × Value) → Nat
  | [] => 0
  | (_, value) :: fields => countValues value + countFields fields

end

/-! ## The sub-schemas of a schema -/

/-- How the value of a keyword holds sub-schemas. -/
inductive Place where
  /-- One, if the value is an object. -/
  | one
  /-- The items of an array. -/
  | each
  /-- An object, or the items of an array. -/
  | oneOrEach
  /-- The values of an object. -/
  | members

namespace Place

def subs : Place → Value → List Value
  | one, .object fields => [.object fields]
  | each, .array items => items
  | oneOrEach, .object fields => [.object fields]
  | oneOrEach, .array items => items
  | members, .object fields => fields.map Prod.snd
  | _, _ => []

def put : Place → Value → List Value → Value
  | one, .object fields, subs => subs.headD (.object fields)
  | each, .array _, subs => .array subs
  | oneOrEach, .object fields, subs => subs.headD (.object fields)
  | oneOrEach, .array _, subs => .array subs
  | members, .object fields, subs => .object (fields.zipWith (fun field sub => (field.1, sub)) subs)
  | _, value, _ => value

end Place

/-- The sub-schema locations, in the order they are visited in. -/
def locations : List (String × Place) :=
  [("properties", .members), ("items", .oneOrEach), ("additionalProperties", .one), ("allOf", .each), ("anyOf", .each),
    ("oneOf", .each), ("not", .one), ("patternProperties", .members), ("prefixItems", .each), ("if", .one), ("then", .one),
    ("else", .one)]

section Visit

variable {σ : Type} (f : σ → Value → Option (Value × σ))

/-- Changes values one after another. -/
def visitEach (state : σ) : List Value → Option (List Value × σ)
  | [] => some ([], state)
  | value :: values =>
    (f state value).bind fun first => (visitEach first.2 values).map fun rest => (first.1 :: rest.1, rest.2)

/-- Changes the sub-schemas of one keyword. -/
def visitField (state : σ) (location : String × Place) (fields : Fields) : Option (Fields × σ) :=
  (fields.lookup location.1).elim (some (fields, state)) fun value =>
    (visitEach f state (location.2.subs value)).map fun visited =>
      (setField location.1 (location.2.put value visited.1) fields, visited.2)

/-- Changes the sub-schemas of some keywords. -/
def visitFields (state : σ) : List (String × Place) → Fields → Option (Fields × σ)
  | [], fields => some (fields, state)
  | location :: rest, fields =>
    (visitField f state location fields).bind fun first => visitFields first.2 rest first.1

/-- Changes every sub-schema of a schema (`resolve_refs_recurse`). -/
def visit (state : σ) : Value → Option (Value × σ)
  | .object fields => (visitFields f state locations fields).map fun visited => (.object visited.1, visited.2)
  | schema => some (schema, state)

end Visit

/-! ## References -/

/-- The most JSON values that are copied into one schema from its definitions. -/
def maxInlinedRefNodes : Nat := 10000

def behind (start text : String) : Option String :=
  if start.toList.isPrefixOf text.toList then some (String.ofList (text.toList.drop start.toList.length)) else none

/-- The reference of a schema, and the keywords beside it. -/
def reference : Value → Option (String × Fields)
  | .object fields => ((fields.lookup "$ref").bind Value.asStr).map fun reference =>
    (reference, fields.filter fun field => field.1 ≠ "$ref")
  | _ => none

def definitionOf (definitions : Fields) (reference : String) : Option (String × Fields) :=
  ((behind "#/definitions/" reference).or (behind "#/$defs/" reference)).bind fun name =>
    ((definitions.lookup name).bind Value.asObject).map fun definition => (name, definition)

structure Expansion where
  /-- JSON values that may still be copied in from definitions. -/
  budget : Nat
  /-- The definitions that were copied: a record of the model. -/
  copied : List Value

def Expansion.copy (state : Expansion) (definition : Fields) : Expansion :=
  { budget := state.budget - countValues (.object definition), copied := .object definition :: state.copied }

/-- The definition that takes the place of a reference: one that is not open, not too deep and that the budget pays for. -/
def inlinable (definitions : Fields) (expanding : List String) (depth budget : Nat) (reference : String) :
    Option (String × Fields) :=
  (definitionOf definitions reference).bind fun named =>
    if depth ≤ 10 ∧ named.1 ∉ expanding ∧ countValues (.object named.2) ≤ budget then some named else none

/-- What takes the place of another reference. -/
def fallback : Fields := [("type", .string "object")]

/-- Puts definitions in the place of references. `expanding` has the definitions that are being inlined on the path here. -/
def resolve (definitions : Fields) : Nat → List String → Nat → Expansion → Value → Option (Value × Expansion)
  | 0, _, _, _, _ => none
  | fuel + 1, expanding, depth, state, schema =>
    (reference schema).elim (visit (resolve definitions fuel expanding depth) state schema) fun found =>
      (inlinable definitions expanding depth state.budget found.1).elim
        (visit (resolve definitions fuel expanding depth) state (.object (extend fallback found.2)))
        fun named => resolve definitions fuel (expanding ++ [named.1]) (depth + 1) (state.copy named.2)
          (.object (extend named.2 found.2))

/-- Puts definitions in the place of the references of a schema. -/
def resolveRefs (definitions : Fields) (fuel depth : Nat) (schema : Value) : Option (Value × Expansion) :=
  resolve definitions fuel [] depth { budget := maxInlinedRefNodes, copied := [] } schema

/-! ## The meaning of references -/

/-- Puts every definition in the place of its reference, the keywords beside a reference over those of the definition,
and counts what is copied. -/
def substitute (definitions : Fields) : Nat → Nat → Value → Option (Value × Nat)
  | 0, _, _ => none
  | fuel + 1, copies, schema =>
    (reference schema).elim (visit (substitute definitions fuel) copies schema) fun found =>
      (definitionOf definitions found.1).bind fun named =>
        substitute definitions fuel (copies + countValues (.object named.2)) (.object (extend named.2 found.2))

end Schema

end Adk
