import AdkRust.Core.Time
import AdkRust.Graph.Value

/-!
# Events

What a run appends to the log of its session (`event.rs`, `types.rs`): contents of parts, with who produced them.
-/

namespace Adk

/-- Binary data in a function response. -/
structure InlineDataPart where
  mimeType : String
  data : List UInt8
  uri : Option String := none
  annotations : Option Value := none
deriving DecidableEq

/-- A file that a function response refers to. -/
structure FileDataPart where
  mimeType : String
  fileUri : String
  annotations : Option Value := none
deriving DecidableEq

/-- What a function returned to the model. -/
structure FunctionResponseData where
  name : String
  response : Value
  inlineData : List InlineDataPart := []
  fileData : List FileDataPart := []
deriving DecidableEq

inductive EmbeddedResource where
  | text (uri : String) (mimeType : Option String) (text : String)
  | blob (uri : String) (mimeType : Option String) (data : List UInt8)
deriving DecidableEq

/-- Who owns replay data of a provider. -/
structure ProviderOrigin where
  provider : String
  model : String
  scope : String
deriving DecidableEq

/-- A part of a content. Data that only a provider or a client reads is held as JSON. -/
inductive Part where
  | providerData (origin : Option ProviderOrigin) (part : Part)
  | thinking (thinking : String) (signature : Option String)
  | text (text : String)
  | inlineData (mimeType : String) (data : List UInt8) (uri : Option String) (annotations : Option Value)
  | fileData (mimeType fileUri : String) (annotations : Option Value)
  | functionCall (name : String) (args : Value) (id : Option String) (thoughtSignature : Option String)
  | functionResponse (functionResponse : FunctionResponseData) (id : Option String) (annotations : Option Value)
  | serverToolCall (serverToolCall : Value)
  | serverToolResponse (serverToolResponse : Value)
  | embeddedResource (resource : EmbeddedResource)
deriving DecidableEq

/-- The text of a part, if it is one (`Part::text`). -/
def Part.asText : Part → Option String
  | .text said => some said
  | _ => none

/-- What one side said. -/
structure Content where
  role : String
  parts : List Part
deriving DecidableEq

/-- An event of a session's log. -/
structure Event where
  timestamp : Utc
  /-- The invocation that produced this event. -/
  invocationId : String
  /-- The conversation branch this event belongs to. -/
  branch : String := ""
  author : String := ""
  /-- A chunk of a content that is still streamed (`llm_response.partial`). -/
  isPartial : Bool := false
  content : Option Content := none
deriving DecidableEq

end Adk
