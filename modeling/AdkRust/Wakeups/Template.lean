import AdkRust.Core.ToolCall
import AdkRust.Lib.Text

/-!
# Templates

A template is a JSON value with placeholders `\x7b\x7b/pointer\x7d\x7d` in its texts (`webhooks/ingress.rs`). The
pointers are those of `serde_json`.

* `Value.pointer`: the value at a pointer.
* `renderPlaceholders`, `Value.render`: a template with its placeholders replaced.
-/

namespace Adk

namespace Value

/-! ## Pointers -/

/-- A text in which two characters in a row became one. -/
def replacePair (a b new : Char) : List Char → List Char
  | c :: d :: rest => if c = a ∧ d = b then new :: replacePair a b new rest else c :: replacePair a b new (d :: rest)
  | rest => rest

/-- The name that a token of a pointer stands for. -/
def unescape (token : List Char) : List Char := replacePair '~' '0' '~' (replacePair '~' '1' '/' token)

/-- The index that a token stands for: digits without a sign and without a zero before them. -/
def parseIndex (token : List Char) : Option Nat :=
  if token = [] ∨ ¬ token.all Char.isDigit ∨ token.head? = some '0' ∧ token.length ≠ 1 then none
  else some (Nat.ofDigitChars 10 token 0)

def child (token : List Char) : Value → Option Value
  | .object fields => (fields.find? fun field => field.1.toList = token).map (·.2)
  | .array items => (parseIndex token).bind (items[·]?)
  | _ => none

def pointer (value : Value) (path : List Char) : Option Value :=
  match path with
  | [] => some value
  | '/' :: path => (path.splitOn '/').foldlM (fun value token => value.child (unescape token)) value
  | _ => none

/-! ## Texts -/

variable [JsonText]

mutual

/-- The JSON text of a value (`to_string`). -/
def toText : Value → String
  | .object fields => "\x7b" ++ ",".intercalate (fieldTexts fields) ++ "\x7d"
  | .array items => "[" ++ ",".intercalate (itemTexts items) ++ "]"
  | other => JsonText.text other

def itemTexts : List Value → List String
  | [] => []
  | item :: items => toText item :: itemTexts items

def fieldTexts : List (String × Value) → List String
  | [] => []
  | (key, value) :: fields => (JsonText.text (.string key) ++ ":" ++ toText value) :: fieldTexts fields

end

end Value

variable [JsonText]

/-! ## Placeholders -/

/-- How a placeholder begins. -/
def placeholderOpen : List Char := ['\x7b', '\x7b']

/-- How a placeholder ends. -/
def placeholderClose : List Char := ['\x7d', '\x7d']

/-- The text of the value at a pointer; a `strict` one is there. -/
def pointedText (context : Value) (strict : Bool) (pointer : List Char) : Except String (List Char) :=
  match context.pointer pointer with
  | some (.string text) => .ok text.toList
  | some .null | none =>
    if strict then .error s!"`{String.ofList pointer}` is missing from the delivery" else .ok []
  | some other => .ok other.toText.toList

/-- Replaces the placeholders of a text. Each is four characters at least, so a text has no more than its length. -/
def renderFrom (context : Value) (strict : Bool) : Nat → List Char → Except String (List Char)
  | 0, rest => .ok rest
  | fuel + 1, rest =>
    match splitOnce placeholderOpen rest with
    | none => .ok rest
    | some (before, after) =>
      match splitOnce placeholderClose after with
      | none => .ok rest
      | some (pointer, after) =>
        match pointedText context strict (trimmed pointer) with
        | .error reason => .error reason
        | .ok text => (renderFrom context strict fuel after).map fun out => before ++ text ++ out

/-- A text with its placeholders replaced. -/
def renderPlaceholders (template : String) (context : Value) (strict : Bool) : Except String String :=
  (renderFrom context strict template.toList.length template.toList).map String.ofList

/-- A text that is rendered with all of its placeholders. -/
def renderKey (template : String) (context : Value) : Except String String := renderPlaceholders template context true

def renderText (template : String) (context : Value) : String :=
  ((renderPlaceholders template context false).toOption).getD ""

def onlyPointer (text : List Char) : Option (List Char) :=
  match trimmed text with
  | '\x7b' :: '\x7b' :: rest =>
    if placeholderClose.isSuffixOf rest then
      let pointer := rest.dropLast.dropLast
      if (splitOnce placeholderOpen pointer).isSome then none else some (trimmed pointer)
    else none
  | _ => none

namespace Value

mutual

/-- A template with its placeholders replaced. -/
def render (context : Value) : Value → Value
  | .string text =>
    match onlyPointer text.toList with
    | some pointer => (context.pointer pointer).getD .null
    | none => .string (renderText text context)
  | .array items => .array (renderItems context items)
  | .object fields => .object (renderFields context fields)
  | other => other

/-- `render`, of the items of an array. -/
def renderItems (context : Value) : List Value → List Value
  | [] => []
  | item :: items => render context item :: renderItems context items

/-- `render`, of the fields of an object. -/
def renderFields (context : Value) : List (String × Value) → List (String × Value)
  | [] => []
  | (key, value) :: fields => (key, render context value) :: renderFields context fields

end

end Value

end Adk
