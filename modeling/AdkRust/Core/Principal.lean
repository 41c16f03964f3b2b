import AdkRust.Lib.Dict

/-!
# Agents and subjects

Who an agent is, who sponsors it and on whose behalf it acts (`principal.rs`). An `AgentId` carries the
proof that it passed its checks.
-/

namespace Adk

/-- Why a text is no agent identifier. -/
inductive PrincipalError where
  | empty
  | tooLong (len : Nat)
  | containsControl (codePoint : Nat)
deriving DecidableEq

/-- Maximum length of an `AgentId`, in bytes. -/
def maxAgentIdLen : Nat := 512

namespace AgentId

/-- Whether a character is a control character (`char::is_control`). -/
def isControl (c : Char) : Bool := c.toNat < 0x20 || 0x7f ≤ c.toNat && c.toNat < 0xa0

/-- Why a text is refused. -/
def problem (value : String) : Option PrincipalError :=
  if value.isEmpty then some .empty
  else if maxAgentIdLen < value.utf8ByteSize then some (.tooLong value.utf8ByteSize)
  else (value.toList.find? isControl).map fun c => .containsControl c.toNat

end AgentId

/-- Opaque, stable agent identifier. -/
structure AgentId where
  asStr : String
  valid : AgentId.problem asStr = none
deriving DecidableEq

/-- An agent identifier, from a text that passes the checks. -/
def AgentId.new (value : String) : Except PrincipalError AgentId :=
  match h : AgentId.problem value with
  | some error => .error error
  | none => .ok { asStr := value, valid := h }

/-- What kind of subject a `SubjectRef` names. -/
inductive SubjectKind where
  | human
  | service
  | agent
deriving DecidableEq

/-- A reference to a human, a service or an agent. -/
structure SubjectRef where
  kind : SubjectKind
  id : String
deriving DecidableEq

def SubjectRef.agent (id : AgentId) : SubjectRef := { kind := .agent, id := id.asStr }

/-- An agent's identity: its stable identifier plus where and for whom it runs. -/
structure AgentPrincipal where
  id : AgentId
  tenant : Option String := none
  class_ : Option String := none
  «instance» : Option String := none
  sponsor : Option SubjectRef := none
  attributes : Dict String := ∅

/-- An agent acting for a subject, through a delegation chain. -/
structure ActingContext where
  agent : AgentPrincipal
  /-- The subject the agent acts for, when it acts for one. -/
  onBehalfOf : Option SubjectRef := none
  /-- The subjects that delegated the work, outermost first. -/
  delegationChain : List SubjectRef := []

end Adk
