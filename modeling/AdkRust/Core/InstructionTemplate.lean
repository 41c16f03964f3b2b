import AdkRust.Core.Error
import AdkRust.Core.Event
import AdkRust.Lib.Utf8Bytes
import Mathlib.Data.List.Infix

/-!
# Instruction templates

The placeholders of an instruction are replaced by values of the session's state and by artifacts
(`instruction_template.rs`). They are looked for byte by byte, from the end of the last one; what is between two of them
is copied.

* `findNextPlaceholder`: the scanner.
* `replaceMatch`: the value of a placeholder, from the state or from an artifact.
* `injectSessionState`: the loop.
-/

namespace Adk

namespace InstructionTemplate

/-! ## Placeholders -/

def isIdentStart (c : Char) : Bool := c.isAlpha || c = '_'

def isIdentBody (c : Char) : Bool := c.isAlphanum || c = '_' || c = ':' || c = '.'

/-- The length of the content of a placeholder whose brace is in front of some bytes. -/
def contentLength : List UInt8 → Option Nat
  | [] => none
  | first :: more =>
    if isIdentStart (byteChar first) then
      let body := more.takeWhile fun byte => isIdentBody (byteChar byte)
      let after := more.dropWhile fun byte => isIdentBody (byteChar byte)
      let mark := if after.head? = some (byteOf '?') then 1 else 0
      if (after.drop mark).head? = some (byteOf '}') then some (1 + body.length + mark) else none
    else none

/-- Where the next placeholder starts and ends, from an offset on. `skipping` is whether a run of braces is skipped,
`previous` the byte in front. -/
def findFrom (skipping : Bool) (previous : Option UInt8) (offset : Nat) : List UInt8 → Option (Nat × Nat)
  | [] => none
  | byte :: rest =>
    if byte = byteOf '{' then
      let escaped := previous = some (byteOf '$') || previous = some (byteOf '\\')
      if skipping || escaped || rest.head? = some (byteOf '{') then findFrom true (some byte) (offset + 1) rest
      else (contentLength rest).elim (findFrom false (some byte) (offset + 1) rest) fun length =>
        some (offset, offset + length + 2)
    else findFrom false (some byte) (offset + 1) rest

def findNextPlaceholder (template : List UInt8) (start : Nat) : Option (Nat × Nat) :=
  findFrom false (if start = 0 then none else template[start - 1]?) start (template.drop start)

/-- Whether a text is an identifier. What the scanner finds is ASCII, where `is_alphabetic` is `isAlpha`. -/
def isIdentifier : List Char → Bool
  | [] => false
  | first :: rest => (first.isAlpha || first = '_') && rest.all fun c => c.isAlphanum || c = '_'

/-- The prefixes of the names of a state. -/
def stateScopes : List (List Char) := ["app".toList, "user".toList, "temp".toList]

def isValidStateName (name : List Char) : Bool :=
  match name.splitOn ':' with
  | [_] => isIdentifier name
  | [scope, ident] => stateScopes.contains scope && isIdentifier ident
  | _ => false

structure TemplateContext where
  /-- The session's state. -/
  state : String → Option Value
  /-- Loads an artifact, where there is a service for them. -/
  artifacts : Option (String → Except AdkError Part)
  /-- A value as JSON (its `Display`). -/
  display : Value → String

def agentError (message : String) : AdkError := { component := .agent, category := .internal, code := "agent.legacy", message }

/-- What follows `artifact.` in a name. -/
def artifactFile (name : List Char) : Option (List Char) :=
  if "artifact.".toList.isPrefixOf name then some (name.drop 9) else none

def loadArtifact (ctx : TemplateContext) (file : List Char) (optional : Bool) : Except AdkError (List Char) :=
  if file = [] then .error (agentError "Invalid artifact name '': must include a file name after 'artifact.'")
  else if ['.', '.'] <:+: file ∨ '/' ∈ file ∨ '\\' ∈ file then
    .error (agentError s!"Invalid artifact name '{String.ofList file}': must not contain path separators or '..'")
  else ctx.artifacts.elim (.error (agentError "Artifact service is not initialized")) fun load =>
    match load (String.ofList file) with
    | .ok part => .ok ((part.asText.map String.toList).getD [])
    | .error e =>
      if optional then .ok []
      else .error (agentError s!"Failed to load artifact {String.ofList file}: {e.display}")

def valueText (ctx : TemplateContext) (value : Value) : List Char := (value.asStr.getD (ctx.display value)).toList

def loadVariable (ctx : TemplateContext) (name : List Char) (optional : Bool) : Except AdkError (List Char) :=
  match ctx.state (String.ofList name) with
  | some value => .ok (valueText ctx value)
  | none => if optional then .ok [] else .error (agentError s!"State variable '{String.ofList name}' not found")

def replaceMatch (ctx : TemplateContext) (content : List Char) : Except AdkError (List Char) :=
  let varName := trimmed content
  let optional := varName.getLast? = some '?'
  let name := if optional then varName.dropLast else varName
  (artifactFile name).elim
    (if isValidStateName name then loadVariable ctx name optional else .ok ('{' :: content ++ ['}']))
    fun file => loadArtifact ctx file optional

/-- How a call ends without a text. -/
inductive TemplateStop where
  /-- A slice that is not between characters. -/
  | badSlice
  /-- The model ran out of steps. -/
  | outOfFuel
  | error (e : AdkError)

/-- The part of a text between two offsets (`text[start..stop]`). -/
def slice (start stop : Nat) (text : List Char) : Except TemplateStop (List Char) :=
  ((splitBytes stop text).bind fun upTo => (splitBytes start upTo.1).map (·.2)).mapError fun _ => .badSlice

def injectFrom (ctx : TemplateContext) (template : List Char) : Nat → Nat → List Char → Except TemplateStop (List Char)
  | 0, _, _ => .error .outOfFuel
  | fuel + 1, lastEnd, result =>
    (findNextPlaceholder (utf8Bytes template) lastEnd).elim
      ((slice lastEnd (byteLength template) template).map (result ++ ·))
      fun place => do
        let content ← slice (place.1 + 1) (place.2 - 1) template
        let between ← slice lastEnd place.1 template
        let replacement ← (replaceMatch ctx content).mapError .error
        injectFrom ctx template fuel place.2 (result ++ between ++ replacement)

/-- A template with its placeholders replaced. -/
def injectSessionState (ctx : TemplateContext) (template : List Char) : Except TemplateStop (List Char) :=
  injectFrom ctx template (template.length + 1) 0 []

end InstructionTemplate

end Adk
