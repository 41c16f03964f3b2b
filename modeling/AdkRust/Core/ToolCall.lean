import AdkRust.Core.Principal
import AdkRust.Core.Time
import AdkRust.Graph.Value
import Mathlib.Data.List.Sort

/-!
# Tool calls and their approvals

A call that waits for a confirmation, the decision that is made of it, and the fingerprint that ties the two
together (`context.rs`, `governance.rs`).

The text of a scalar is that of `serde_json`, given by an instance of `JsonText`.
-/

namespace Adk

namespace Value

mutual

/-- Whether two values are equal (`PartialEq`): as values, where the two zeros of a float are the same. -/
def same : Value → Value → Bool
  | .number (.float a), .number (.float b) => a = b || (a <<< 1 = 0 && b <<< 1 = 0)
  | .array as, .array bs => sameItems as bs
  | .object as, .object bs => sameFields as bs
  | a, b => a = b

/-- `same`, of the items of arrays. -/
def sameItems : List Value → List Value → Bool
  | [], [] => true
  | a :: as, b :: bs => same a b && sameItems as bs
  | _, _ => false

/-- `same`, of the fields of objects. -/
def sameFields : List (String × Value) → List (String × Value) → Bool
  | [], [] => true
  | (k, a) :: as, (l, b) :: bs => k = l && same a b && sameFields as bs
  | _, _ => false

end

end Value

/-- The text of a scalar (`to_string` of a `serde_json::Value`). -/
class JsonText where
  text : Value → String

/-- The text of a scalar that has no characters to escape. -/
@[reducible] def plainText : JsonText where
  text
    | .number (.int n) => toString n
    | .string s => "\"" ++ s ++ "\""
    | .bool b => toString b
    | _ => "null"

section Fingerprint

variable [JsonText]

mutual

def writeCanonical : Value → String
  | .object fields =>
    let sorted := (writeFields fields).insertionSort fun a b => a.1 ≤ b.1
    "\x7b" ++ ",".intercalate (sorted.map fun field => JsonText.text (.string field.1) ++ ":" ++ field.2) ++
      "\x7d"
  | .array items => "[" ++ ",".intercalate (writeItems items) ++ "]"
  | other => JsonText.text other

def writeItems : List Value → List String
  | [] => []
  | item :: items => writeCanonical item :: writeItems items

def writeFields : List (String × Value) → List (String × String)
  | [] => []
  | (key, value) :: fields => (key, writeCanonical value) :: writeFields fields

end

def toolCallFingerprint (toolName : String) (args : Value) : String :=
  toolName ++ "\x1f" ++ writeCanonical args

end Fingerprint

/-- What a tool or a node can cause. -/
inductive ToolEffect where
  | readOnly
  | idempotent
  | nonIdempotent
deriving DecidableEq

inductive ToolConfirmationDecision where
  | approve
  | deny
deriving DecidableEq

/-- Who publishes a tool, and the digest of what it declares. -/
structure ToolOrigin where
  source : String
  declarationDigest : String
deriving DecidableEq

/-- A tool call awaiting human confirmation. -/
structure ToolConfirmationRequest where
  toolName : String
  functionCallId : Option String := none
  /-- Arguments the tool would be called with. -/
  args : Value
  /-- The agent that made the call and the subject it acted for. -/
  acting : Option ActingContext := none
  /-- Who published the tool and what it declared when the call was held. -/
  origin : Option ToolOrigin := none

namespace ToolConfirmationRequest

/-- A part without control characters, which would forge a separator. -/
def clean (part : String) : String :=
  String.ofList (part.toList.map fun c => if AgentId.isControl c then '\ufffd' else c)

/-- The acting agent's identifier, the tool's origin, the tool's name and the canonical arguments. -/
def fingerprint [JsonText] (request : ToolConfirmationRequest) : String :=
  let agent := (request.acting.map fun acting => clean acting.agent.id.asStr).getD ""
  let origin := match request.origin with
    | some origin => clean origin.source ++ "\x1f" ++ clean origin.declarationDigest
    | none => "\x1f"
  agent ++ "\x1f" ++ origin ++ "\x1f" ++ toolCallFingerprint request.toolName request.args

end ToolConfirmationRequest

/-- A decision for one fingerprint, with an optional expiry. -/
structure ToolApproval where
  decision : ToolConfirmationDecision
  /-- When the decision stops applying. -/
  expiresAt : Option Utc := none
  /-- Arguments an approver substituted for the call's own. -/
  editedArgs : Option Value := none
  /-- What the approver said. -/
  message : Option String := none
deriving DecidableEq

namespace ToolApproval

def approve : ToolApproval := { decision := .approve }

/-- A denial that does not expire. -/
def deny : ToolApproval := { decision := .deny }

/-- Whether the decision still applies. -/
def isLive (approval : ToolApproval) (now : Utc) : Bool := approval.expiresAt.all fun at_ => decide (now < at_)

end ToolApproval

/-- The identity an approval belongs to. -/
structure ApprovalScope where
  appName : String
  userId : String
  sessionId : String
deriving DecidableEq

end Adk
