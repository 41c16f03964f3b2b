import AdkRust.Graph.Value

/-!
# Errors of the core

`AdkError` is how an operation of the core fails: where, in which way, under which code, and with which
text (`error.rs`). Its `metadata` is that of its details.
-/

namespace Adk

/-- The subsystem that produced an error. -/
inductive ErrorComponent where
  | agent
  | model
  | tool
  | session
  | artifact
  | memory
  | graph
  | realtime
  | code
  | server
  | auth
  | guardrail
  | eval
  | deploy
deriving DecidableEq

/-- The name of a subsystem (its `Display`). -/
def ErrorComponent.asStr : ErrorComponent → String
  | .agent => "agent"
  | .model => "model"
  | .tool => "tool"
  | .session => "session"
  | .artifact => "artifact"
  | .memory => "memory"
  | .graph => "graph"
  | .realtime => "realtime"
  | .code => "code"
  | .server => "server"
  | .auth => "auth"
  | .guardrail => "guardrail"
  | .eval => "eval"
  | .deploy => "deploy"

/-- The kind of a failure. -/
inductive ErrorCategory where
  | invalidInput
  | unauthorized
  | forbidden
  | notFound
  | rateLimited
  | timeout
  | unavailable
  | cancelled
  | internal
  | unsupported
  | resourceExhausted
  | conflict
deriving DecidableEq

/-- The name of a kind of failure (its `Display`). -/
def ErrorCategory.asStr : ErrorCategory → String
  | .invalidInput => "invalid_input"
  | .unauthorized => "unauthorized"
  | .forbidden => "forbidden"
  | .notFound => "not_found"
  | .rateLimited => "rate_limited"
  | .timeout => "timeout"
  | .unavailable => "unavailable"
  | .cancelled => "cancelled"
  | .internal => "internal"
  | .unsupported => "unsupported"
  | .resourceExhausted => "resource_exhausted"
  | .conflict => "conflict"

/-- How an operation fails. -/
structure AdkError where
  component : ErrorComponent
  category : ErrorCategory
  code : String
  message : String
  metadata : Dict Value := ∅
deriving DecidableEq

namespace AdkError

/-- The text of a failure (its `Display`). -/
def display (error : AdkError) : String := s!"{error.component.asStr}.{error.category.asStr}: {error.message}"

/-- Whether the write lost a race. -/
def isConflict (error : AdkError) : Bool := error.category = .conflict

end AdkError

end Adk
