import AdkRust.Core.Principal

/-!
# Who acted and what was decided

The parts of an audit record that its callers fill in (`audit_log.rs`).
-/

namespace Adk

structure AuditActor where
  agent : Option AgentId := none
  tenant : Option String := none
  instance_ : Option String := none
  onBehalfOf : Option SubjectRef := none
  delegationChain : List SubjectRef := []
  invocationId : Option String := none
deriving DecidableEq

inductive AuditDecision where
  | allowed
  | denied
  | approvalRequired
  | approved
  | rejected
deriving DecidableEq

end Adk
