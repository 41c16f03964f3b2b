import AdkRust.Core.Time
import AdkRust.Core.ToolCall
import AdkRust.Lib.Dict
import AdkRust.Lib.ProcPool
import AdkRust.Lib.Text

/-!
# Tasks of the A2A server

A message of a caller starts the agent on a task (`a2a/v1/request_handler.rs`, `executor.rs`, `task_store.rs`). The
states of a task follow a state machine; a message id that was seen before is answered with its task; a message in the
context of a task that waits for input resumes it.

* `transitionState`: a get, a check and an update.
* `messageSend`, `messageStream`, `tasksCancel`: the calls, one store call or access to the idempotency map at a time.
* `taskLaws`: the in-memory store and the map. What is drawn at random or read from the clock is the world's.
* `handlerSystem`: any calls by any callers on one handler.
-/

namespace Adk

namespace A2a

/-! ## States -/

inductive TaskState where
  | submitted
  | working
  | inputRequired
  | authRequired
  | completed
  | failed
  | canceled
  | rejected
  | unspecified
deriving DecidableEq

def TaskState.name : TaskState → String
  | .submitted => "SUBMITTED"
  | .working => "WORKING"
  | .inputRequired => "INPUT_REQUIRED"
  | .authRequired => "AUTH_REQUIRED"
  | .completed => "COMPLETED"
  | .failed => "FAILED"
  | .canceled => "CANCELED"
  | .rejected => "REJECTED"
  | .unspecified => "UNSPECIFIED"

/-- A state as it is printed in an error. -/
def TaskState.debug : TaskState → String
  | .submitted => "Submitted"
  | .working => "Working"
  | .inputRequired => "InputRequired"
  | .authRequired => "AuthRequired"
  | .completed => "Completed"
  | .failed => "Failed"
  | .canceled => "Canceled"
  | .rejected => "Rejected"
  | .unspecified => "Unspecified"

def isTerminalState : TaskState → Bool
  | .completed | .failed | .canceled | .rejected => true
  | .submitted | .working | .inputRequired | .authRequired | .unspecified => false

inductive A2aError where
  | taskNotFound (taskId : String)
  | taskNotCancelable (taskId currentState : String)
  | invalidParams (message : String)
  | internal (message : String)
  | invalidStateTransition (source target : String)
deriving DecidableEq

def A2aError.display : A2aError → String
  | .taskNotFound taskId => s!"Task not found: {taskId}"
  | .taskNotCancelable taskId currentState => s!"Task not cancelable: {taskId} is in state {currentState}"
  | .invalidParams message => s!"Invalid parameters: {message}"
  | .internal message => s!"Internal error: {message}"
  | .invalidStateTransition source target => s!"Invalid state transition from {source} to {target}"

def TaskState.allowed : TaskState → List TaskState
  | .submitted => [.working, .rejected, .failed, .canceled]
  | .working => [.completed, .failed, .canceled, .inputRequired, .authRequired]
  | .inputRequired => [.working, .failed, .canceled]
  | .authRequired => [.working, .failed, .canceled]
  | .completed | .failed | .canceled | .rejected | .unspecified => []

def canTransitionTo (source target : TaskState) : Except A2aError Unit :=
  if target ∈ source.allowed then .ok () else .error (.invalidStateTransition source.name target.name)

theorem canTransitionTo_eq_ok {source target : TaskState} :
    canTransitionTo source target = .ok () ↔ target ∈ source.allowed := by
  unfold canTransitionTo
  by_cases h : target ∈ source.allowed <;> simp [h]

theorem allowed_of_isTerminalState {state : TaskState} (h : isTerminalState state = true) : state.allowed = [] := by
  cases state <;> first | rfl | cases h

/-! ## Tasks -/

structure Message where
  id : String
  contextId : Option String := none
  parts : List Value
  metadata : Option Value := none

structure TaskStatus where
  state : TaskState
  /-- The text of the agent's message. -/
  message : Option String := none

structure TaskEntry where
  id : String
  contextId : String
  status : TaskStatus
  artifacts : List String := []
  history : List Message := []
  metadata : List (String × Value) := []
  createdAt : Utc
  updatedAt : Utc

def ownerMetadataKey : String := "adk.owner"

/-- The authenticated user that created a task. -/
def TaskEntry.owner (entry : TaskEntry) : Option String := (entry.metadata.lookup ownerMetadataKey).bind Value.asStr

def TaskEntry.isOpen (entry : TaskEntry) (contextId : String) : Bool :=
  entry.contextId = contextId && !isTerminalState entry.status.state

/-- A task as `V1Executor::create_task_for` makes it. -/
def createTaskFor (id contextId : String) (owner : Option String) (now : Utc) : TaskEntry where
  id
  contextId
  status := { state := .submitted }
  metadata := match owner with
    | some owner => [(ownerMetadataKey, .string owner)]
    | none => []
  createdAt := now
  updatedAt := now

@[simp] theorem createTaskFor_owner (id contextId : String) (owner : Option String) (now : Utc) :
    (createTaskFor id contextId owner now).owner = owner := by
  cases owner with
  | none => rfl
  | some owner => simp [TaskEntry.owner, createTaskFor, Value.asStr]

/-- The metadata that is sent: all but the owner. -/
def TaskEntry.wireMetadata (entry : TaskEntry) : Option Value :=
  let fields := entry.metadata.filter fun field => field.1 ≠ ownerMetadataKey
  if fields.isEmpty then none else some (.object fields)

structure Task where
  id : String
  contextId : String
  status : TaskStatus
  history : Option (List Message)
  artifacts : Option (List String)
  metadata : Option Value

def internalTaskToWire (entry : TaskEntry) : Task where
  id := entry.id
  contextId := entry.contextId
  status := entry.status
  history := if entry.history.isEmpty then none else some entry.history
  artifacts := if entry.artifacts.isEmpty then none else some entry.artifacts
  metadata := entry.wireMetadata

structure TaskStatusUpdateEvent where
  taskId : String
  contextId : String
  status : TaskStatus
  metadata : Option Value

inductive StreamResponse where
  | task (task : Task)
  | statusUpdate (event : TaskStatusUpdateEvent)
  | artifactUpdate (taskId contextId text : String) (append lastChunk : Bool)

/-! ## Requests -/

def validateId (id fieldName : String) : Except A2aError Unit :=
  if isBlank id then .error (.invalidParams s!"{fieldName} must not be empty or whitespace-only")
  else if 256 < id.utf8ByteSize then
    .error (.invalidParams s!"{fieldName} exceeds 256 character limit ({id.utf8ByteSize} chars)")
  else .ok ()

def validateMessage [JsonText] (msg : Message) : Except A2aError Unit := do
  if msg.parts.isEmpty then throw (.invalidParams "message must contain at least one part")
  validateId msg.id "messageId"
  match msg.metadata with
  | some metadata =>
    let size := (writeCanonical metadata).utf8ByteSize
    if 65536 < size then throw (.invalidParams s!"metadata exceeds 64 KB limit ({size} bytes)")
  | none => return ()

/-! ## What the agent yields -/

inductive EventPart where
  | text (text : String)
  | functionCall (name : String)
  | other

structure AgentEvent where
  id : String
  parts : List EventPart := []
  isPartial : Bool := false
  contentComplete : Bool := false
  toolConfirmation : Bool := false
  longRunningToolIds : List String := []

/-- What a task waits for. -/
inductive Awaiting where
  | input
  | auth
deriving DecidableEq

def requestCredentialFunction : String := "adk_request_credential"

def awaiting (event : AgentEvent) : Option Awaiting :=
  if event.parts.any fun part => match part with
      | .functionCall name => name = requestCredentialFunction
      | _ => false then some .auth
  else if event.toolConfirmation || !event.longRunningToolIds.isEmpty then some .input
  else none

/-- The one that outranks the other. -/
def maxAwaiting : Option Awaiting → Option Awaiting → Option Awaiting
  | some .auth, _ | _, some .auth => some .auth
  | some .input, _ | _, some .input => some .input
  | none, none => none

def finishedState : Option Awaiting → TaskState
  | some .auth => .authRequired
  | some .input => .inputRequired
  | none => .completed

/-- The text of a response, by the events that it came with. -/
abbrev ResponseText : Type := List (String × String)

namespace ResponseText

def text (chunks : ResponseText) : String := String.join (chunks.map (·.2))

def add (chunks : ResponseText) (id text : String) : Option (String × Bool) × ResponseText :=
  if text.isEmpty then (none, chunks) else (some (text, true), chunks ++ [(id, text)])

/-- Takes the text of an event. A complete one stands for the chunks that its response came in; what is answered is the
text to send, and whether it is appended to what was sent. -/
def push (chunks : ResponseText) (event : AgentEvent) : Option (String × Bool) × ResponseText :=
  let text := String.join (event.parts.filterMap fun part => match part with
    | .text text => some text
    | _ => none)
  if !event.isPartial && event.contentComplete then
    match chunks.findIdx? (·.1 = event.id) with
    | some index =>
      let emitted := ResponseText.text (chunks.filter (·.1 = event.id))
      let replaced := (chunks.filter (·.1 ≠ event.id)).insertIdx index (event.id, text)
      if emitted.toList.isPrefixOf text.toList then
        (some (String.ofList (text.toList.drop emitted.length), true), replaced)
      else (some (ResponseText.text replaced, false), replaced)
    | none => chunks.add event.id text
  else chunks.add event.id text

end ResponseText

/-- What a run yields: an event, or the error that ends it. -/
abbrev AgentRun : Type := List (Except String AgentEvent)

/-- Reads a run to its end. -/
def drain (pending : Option Awaiting) (chunks : ResponseText) : AgentRun → Except A2aError (Option Awaiting × ResponseText)
  | [] => .ok (pending, chunks)
  | .error e :: _ => .error (.internal s!"agent error: {e}")
  | .ok event :: rest => drain (maxAwaiting pending (awaiting event)) (chunks.push event).2 rest

/-! ## Operations -/

/-- A caller and a message id. -/
abbrev IdempotencyKey : Type := Option String × String

inductive TaskOp where
  | mapGet (key : IdempotencyKey)
  | mapRemove (key : IdempotencyKey)
  | mapInsert (key : IdempotencyKey) (taskId : String)
  | createTask (contextId owner : Option String)
  | getTask (taskId : String)
  | updateStatus (taskId : String) (status : TaskStatus)
  | addArtifact (taskId text : String)
  | addHistory (taskId : String) (message : Message)
  | findByContext (contextId : String)
  | startAgent (caller : Option String) (contextId : String) (message : Message)
  | emit (item : Except A2aError StreamResponse)

abbrev TaskOp.Ret : TaskOp → Type
  | .mapGet _ => Option String
  | .createTask .. => TaskEntry
  | .getTask _ => Except A2aError TaskEntry
  | .updateStatus .. | .addArtifact .. | .addHistory .. => Except A2aError Unit
  | .findByContext _ => Option TaskEntry
  | .startAgent .. => Except A2aError AgentRun
  | .mapRemove _ | .mapInsert .. | .emit _ => Unit

abbrev TaskProg : Type → Type := ExceptT A2aError (Prog TaskOp TaskOp.Ret)

def askTask (op : TaskOp) : TaskProg op.Ret := ExceptT.lift (Prog.perform op)

/-- A result that ends the call when it is an error. -/
def orFail {α : Type} : Except A2aError α → TaskProg α
  | .ok a => pure a
  | .error e => throw e

def attempt {α : Type} (p : TaskProg α) : TaskProg (Except A2aError α) := ExceptT.lift p.run

/-! ## Tasks of a caller -/

def getTask (taskId : String) : TaskProg TaskEntry := do
  let entry ← askTask (.getTask taskId)
  orFail entry

def ownedTask (caller : Option String) (taskId : String) : TaskProg TaskEntry := do
  let entry ← getTask taskId
  if entry.owner = caller then return entry else throw (.taskNotFound taskId)

def tasksGet (caller : Option String) (taskId : String) : TaskProg Task := do
  orFail (validateId taskId "taskId")
  let entry ← ownedTask caller taskId
  return internalTaskToWire entry

def updateStatus (taskId : String) (status : TaskStatus) : TaskProg Unit := do
  let updated ← askTask (.updateStatus taskId status)
  orFail updated

def addHistoryMessage (taskId : String) (message : Message) : TaskProg Unit := do
  let added ← askTask (.addHistory taskId message)
  orFail added

/-- Moves a task to another state: it is read, the state machine is asked, and the status is stored. -/
def transitionState (taskId contextId : String) (state : TaskState) (message : Option String) :
    TaskProg TaskStatusUpdateEvent := do
  let current ← getTask taskId
  orFail (canTransitionTo current.status.state state)
  updateStatus taskId { state, message }
  return { taskId, contextId, status := { state, message }, metadata := current.wireMetadata }

def recordArtifact (taskId text : String) : TaskProg Unit := do
  let _ ← getTask taskId
  let added ← askTask (.addArtifact taskId text)
  orFail added

def failTask (taskId contextId error : String) : TaskProg TaskStatusUpdateEvent :=
  transitionState taskId contextId .failed (some error)

/-! ## Sending a message -/

/-- Stores what a run that has ended said; the state that it leaves its task in. -/
def finishRun (taskId : String) (pending : Option Awaiting) (text : String) : TaskProg TaskState :=
  if text ≠ "" then do
    recordArtifact taskId text
    return finishedState pending
  else return finishedState pending

def runAgent (caller : Option String) (taskId contextId : String) (msg : Message) : TaskProg TaskState := do
  let run ← askTask (.startAgent caller contextId msg)
  let results ← orFail run
  let drained ← orFail (drain none [] results)
  finishRun taskId drained.1 drained.2.text

def finishSend (key : IdempotencyKey) (taskId contextId : String) : Except A2aError TaskState → TaskProg Task
  | .error e => do
    let _ ← attempt (failTask taskId contextId e.display)
    let entry ← getTask taskId
    return internalTaskToWire entry
  | .ok state => do
    let _ ← transitionState taskId contextId state none
    askTask (.mapInsert key taskId)
    let entry ← getTask taskId
    return internalTaskToWire entry

section Handler

variable (agent : Bool) (caller : Option String) (msg : Message)

/-- Serves a message on its task. `agent` is whether the handler has one to run. -/
def serveTask (taskId contextId : String) : TaskProg Task := do
  let finished ← if agent then attempt (runAgent caller taskId contextId msg) else pure (.ok .completed)
  finishSend (caller, msg.id) taskId contextId finished

/-- Whether a task waits for the caller's input. -/
def resumable (entry : TaskEntry) : Bool := entry.status.state = .inputRequired && entry.owner = caller

/-- A message for a task that waits for input. -/
def resumeSend (existing : TaskEntry) : TaskProg Task := do
  let _ ← transitionState existing.id existing.contextId .working none
  addHistoryMessage existing.id msg
  serveTask agent caller msg existing.id existing.contextId

/-- A message for a task of its own. -/
def createSend : TaskProg Task := do
  let entry ← askTask (.createTask msg.contextId caller)
  addHistoryMessage entry.id msg
  let _ ← transitionState entry.id entry.contextId .working none
  serveTask agent caller msg entry.id entry.contextId

def sendFound (found : Option TaskEntry) : TaskProg Task :=
  match found.filter (resumable caller) with
  | some existing => resumeSend agent caller msg existing
  | none => createSend agent caller msg

/-- A message that was not seen before. -/
def sendNew : TaskProg Task :=
  match msg.contextId with
  | some contextId => do
    let found ← askTask (.findByContext contextId)
    sendFound agent caller msg found
  | none => createSend agent caller msg

/-- What a message is answered whose task was looked up. -/
def sendKnown : Except A2aError Task → TaskProg Task
  | .ok task => pure task
  | .error (.taskNotFound _) => do
    askTask (.mapRemove (caller, msg.id))
    sendNew agent caller msg
  | .error e => throw e

/-- A message after the idempotency map was asked. -/
def sendLooked : Option String → TaskProg Task
  | some existing => do
    let result ← attempt (tasksGet caller existing)
    sendKnown agent caller msg result
  | none => sendNew agent caller msg

def messageSend [JsonText] : TaskProg Task := do
  orFail (validateMessage msg)
  let known ← askTask (.mapGet (caller, msg.id))
  sendLooked agent caller msg known

/-! ## Streaming a message -/

/-- Yields the status of a task, or why it has none. -/
def emitStatus : Except A2aError TaskStatusUpdateEvent → TaskProg Unit
  | .ok event => askTask (.emit (.ok (.statusUpdate event)))
  | .error e => askTask (.emit (.error e))

/-- Ends a stream whose agent failed. -/
def failStream (taskId contextId : String) (error : A2aError) : TaskProg Unit := do
  let failed ← attempt (transitionState taskId contextId .failed none)
  match failed with
  | .ok event => askTask (.emit (.ok (.statusUpdate event)))
  | .error _ => pure ()
  askTask (.emit (.error error))

/-- Ends a stream with the state that the run leaves the task in. -/
def closeStream (taskId contextId : String) (pending : Option Awaiting) : TaskProg Unit := do
  let closed ← attempt (transitionState taskId contextId (finishedState pending) none)
  emitStatus closed

def storeStream (taskId contextId : String) (pending : Option Awaiting) (text : String) : TaskProg Unit :=
  if text ≠ "" then do
    let stored ← attempt (recordArtifact taskId text)
    match stored with
    | .error e => askTask (.emit (.error e))
    | .ok () => closeStream taskId contextId pending
  else closeStream taskId contextId pending

def streamRun (taskId contextId : String) (pending : Option Awaiting) (chunks : ResponseText) (chunksSent : Bool) :
    AgentRun → TaskProg Unit
  | [] => storeStream taskId contextId pending chunks.text
  | .error e :: _ => failStream taskId contextId (.internal s!"agent error: {e}")
  | .ok event :: rest =>
    match chunks.push event with
    | (none, chunks) => streamRun taskId contextId (maxAwaiting pending (awaiting event)) chunks chunksSent rest
    | (some (text, append), chunks) => do
      askTask (.emit (.ok (.artifactUpdate taskId contextId text (chunksSent && append) (!event.isPartial))))
      streamRun taskId contextId (maxAwaiting pending (awaiting event)) chunks true rest

def streamAgent (taskId contextId : String) : TaskProg Unit := do
  let run ← askTask (.startAgent caller contextId msg)
  match run with
  | .ok results => streamRun taskId contextId none [] false results
  | .error e => failStream taskId contextId e

def streamTask (taskId contextId : String) (firstTask : Task) : TaskProg Unit := do
  askTask (.emit (.ok (.task firstTask)))
  let started ← attempt (transitionState taskId contextId .working none)
  emitStatus started
  match started with
  | .ok _ => if agent then streamAgent caller msg taskId contextId else closeStream taskId contextId none
  | .error _ => pure ()

/-- A message that was not seen before, and its stream. -/
def streamNew : TaskProg Unit := do
  let entry ← askTask (.createTask msg.contextId caller)
  addHistoryMessage entry.id msg
  askTask (.mapInsert (caller, msg.id) entry.id)
  let first ← getTask entry.id
  streamTask agent caller msg entry.id entry.contextId (internalTaskToWire first)

/-- The stream of a message whose task was looked up. -/
def streamKnown : Except A2aError TaskEntry → TaskProg Unit
  | .ok entry => askTask (.emit (.ok (.task (internalTaskToWire entry))))
  | .error (.taskNotFound _) => do
    askTask (.mapRemove (caller, msg.id))
    streamNew agent caller msg
  | .error e => throw e

/-- A message to be streamed after the idempotency map was asked. -/
def streamLooked : Option String → TaskProg Unit
  | some existing => do
    let result ← attempt (ownedTask caller existing)
    streamKnown agent caller msg result
  | none => streamNew agent caller msg

def messageStream [JsonText] : TaskProg Unit := do
  orFail (validateMessage msg)
  let known ← askTask (.mapGet (caller, msg.id))
  streamLooked agent caller msg known

end Handler

/-! ## Cancelling a task -/

def tasksCancel (caller : Option String) (taskId : String) : TaskProg Task := do
  orFail (validateId taskId "taskId")
  let entry ← ownedTask caller taskId
  if isTerminalState entry.status.state then throw (.taskNotCancelable taskId entry.status.state.debug)
  let _ ← transitionState taskId entry.contextId .canceled none
  let updated ← getTask taskId
  return internalTaskToWire updated

/-! ## The handler -/

inductive HandlerCall where
  | messageSend (caller : Option String) (msg : Message)
  | messageStream (caller : Option String) (msg : Message)
  | tasksCancel (caller : Option String) (taskId : String)

def HandlerCall.caller : HandlerCall → Option String
  | .messageSend caller _ | .messageStream caller _ | .tasksCancel caller _ => caller

def HandlerCall.key : HandlerCall → Option IdempotencyKey
  | .messageSend caller msg | .messageStream caller msg => some (caller, msg.id)
  | .tasksCancel .. => none

def handlerProgram [JsonText] (agent : Bool) : HandlerCall → TaskProg (Option Task)
  | .messageSend caller msg => do
    let task ← messageSend agent caller msg
    return some task
  | .messageStream caller msg => do
    messageStream agent caller msg
    return none
  | .tasksCancel caller taskId => do
    let task ← tasksCancel caller taskId
    return some task

/-- The store, and the map of the messages that were seen. -/
structure TaskWorld where
  tasks : Dict TaskEntry := ∅
  idempotencyMap : IdempotencyKey → Option String := fun _ => none
  /-- The states that were stored for each task, the latest first. -/
  states : String → List TaskState := fun _ => []

namespace TaskWorld

/-- The store after an entry was changed and its time was set. -/
def modify (w : TaskWorld) (taskId : String) (now : Utc) (f : TaskEntry → TaskEntry) : Except A2aError Unit × TaskWorld :=
  match w.tasks[taskId]? with
  | some entry => (.ok (), { w with tasks := w.tasks.insert taskId { f entry with updatedAt := now } })
  | none => (.error (.taskNotFound taskId), w)

def create (w : TaskWorld) (entry : TaskEntry) : TaskWorld :=
  { w with
    tasks := w.tasks.insert entry.id entry
    states := fun id => if id = entry.id then [entry.status.state] else w.states id }

def updateStatus (w : TaskWorld) (taskId : String) (status : TaskStatus) (now : Utc) : Except A2aError Unit × TaskWorld :=
  match w.modify taskId now fun entry => { entry with status } with
  | (.ok (), w') =>
    (.ok (), { w' with states := fun id => if id = taskId then status.state :: w.states id else w.states id })
  | (.error e, w') => (.error e, w')

def remember (w : TaskWorld) (key : IdempotencyKey) (taskId : Option String) : TaskWorld :=
  { w with idempotencyMap := fun other => if other = key then taskId else w.idempotencyMap other }

def Stored (w : TaskWorld) (entry : TaskEntry) : Prop := w.tasks[entry.id]? = some entry

/-- What `find_task_by_context` returns: a task that was updated last among those that are not terminal. -/
def Latest (w : TaskWorld) (contextId : String) : Option TaskEntry → Prop
  | some entry => w.Stored entry ∧ entry.isOpen contextId = true ∧
    ∀ other, w.Stored other → other.isOpen contextId = true → other.updatedAt ≤ entry.updatedAt
  | none => ∀ other, w.Stored other → other.isOpen contextId = false

end TaskWorld

/-- How the store and the map answer. A new task has an id that no task has, and a context of its own when it was given
none. -/
def taskLaws : Laws TaskOp TaskOp.Ret TaskWorld where
  answers
    | .mapGet key, w, found, w' => found = w.idempotencyMap key ∧ w' = w
    | .mapRemove key, w, _, w' => w' = w.remember key none
    | .mapInsert key taskId, w, _, w' => w' = w.remember key (some taskId)
    | .createTask contextId owner, w, entry, w' => w.tasks[entry.id]? = none ∧
      (∃ now, entry = createTaskFor entry.id entry.contextId owner now) ∧
      (∀ given, contextId = some given → entry.contextId = given) ∧ w' = w.create entry
    | .getTask taskId, w, found, w' => found = w.tasks[taskId]?.elim (.error (.taskNotFound taskId)) .ok ∧ w' = w
    | .updateStatus taskId status, w, updated, w' => ∃ now, (updated, w') = w.updateStatus taskId status now
    | .addArtifact taskId text, w, added, w' => ∃ now,
      (added, w') = w.modify taskId now fun entry => { entry with artifacts := entry.artifacts ++ [text] }
    | .addHistory taskId message, w, added, w' => ∃ now,
      (added, w') = w.modify taskId now fun entry => { entry with history := entry.history ++ [message] }
    | .findByContext contextId, w, found, w' => w.Latest contextId found ∧ w' = w
    | .startAgent .., w, _, w' => w' = w
    | .emit _, w, _, w' => w' = w
  moves _ _ := False

abbrev TaskLogEntry : Type := Entry TaskOp.Ret TaskWorld

abbrev HandlerPool : Type := ProcPool (fun _ : HandlerCall => Except A2aError (Option Task)) TaskOp.Ret TaskWorld

abbrev HandlerProc : Type := Proc (fun _ : HandlerCall => Except A2aError (Option Task)) TaskOp.Ret TaskWorld

def handlerSystem [JsonText] (agent : Bool) (acts : HandlerPool → Nat → TaskOp → Prop) :
    System (fun _ : HandlerCall => Except A2aError (Option Task)) TaskOp.Ret TaskWorld where
  laws := taskLaws
  program call := (handlerProgram agent call).run
  acts

/-- Nothing was sent. -/
def noTasks : HandlerPool := { world := {} }

end A2a

end Adk
