import AdkRust.Core.Error

/-!
# Identities of sessions

The three names that address a session, and the check that each of them passes (`identity.rs`).
-/

namespace Adk

/-- The identity of a session (`AdkIdentity`). -/
structure AdkIdentity where
  appName : String
  userId : String
  sessionId : String
deriving DecidableEq

/-- Maximum allowed length of a name, in bytes. -/
def maxIdLen : Nat := 512

def identityError (text : String) : AdkError where
  component := .session
  category := .invalidInput
  code := "session.invalid_identifier"
  message := s!"{text}; identifiers must be non-empty, at most {maxIdLen} bytes, and free of NUL characters"

/-- Checks a name of some kind. -/
def validateId (value kind : String) : Except AdkError Unit :=
  if value.isEmpty then .error (identityError s!"{kind} must not be empty")
  else if maxIdLen < value.utf8ByteSize then
    .error (identityError s!"{kind} exceeds maximum length of {maxIdLen} bytes")
  else if value.toList.contains '\x00' then .error (identityError s!"{kind} must not contain null bytes")
  else .ok ()

def makeIdentity (appName userId sessionId : String) : Except AdkError AdkIdentity := do
  validateId appName "AppName"
  validateId userId "UserId"
  validateId sessionId "SessionId"
  return { appName, userId, sessionId }

end Adk
