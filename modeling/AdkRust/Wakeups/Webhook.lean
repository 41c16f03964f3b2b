import AdkRust.Lib.ProcPool
import AdkRust.Runs.Wakeups
import AdkRust.Schedules.Spec
import AdkRust.Wakeups.Template

/-!
# Webhook wake-ups

A verified delivery of a webhook becomes a durable run (`webhooks/ingress.rs`). The idempotency key of the run is made
of the hook's name and the delivery's `webhook-id`; a hook may bound how many of its runs are unfinished.

What a signature says of a delivery is the hook's verifier, and what JSON a body holds is an instance of `JsonRead`.

* `WebhookHook.map`: the run that a delivery wakes.
* `WebhookIngress.receive`: one request.
* `HookWorld.laws`: how the store of runs answers, and what others do.
-/

namespace Adk

/-- The value that a body holds, or why it is none (`serde_json::from_slice`). -/
class JsonRead where
  fromSlice : List UInt8 → Except String Value

/-! ## Deliveries -/

structure WebhookHeaders where
  id : String
  timestamp : String
  signature : String

/-- Reads the headers of a delivery. -/
def WebhookHeaders.fromLookup (lookup : String → Option String) : Option WebhookHeaders := do
  let id ← lookup "webhook-id"
  if isBlank id ∨ 256 < id.utf8ByteSize then none
  else some { id, timestamp := ← lookup "webhook-timestamp", signature := ← lookup "webhook-signature" }

/-- A delivery whose signature and timestamp checked out. -/
structure VerifiedWebhook where
  /-- The same across retries of one message. -/
  id : String
  /-- When the sender signed this attempt. -/
  timestamp : Utc

/-- A verified delivery, as a mapper sees it. -/
structure HookDelivery where
  hook : String
  webhook : VerifiedWebhook
  payload : Value

structure HookRequest where
  /-- The hook that its path names. -/
  name : String
  headers : String → Option String
  body : List UInt8
  /-- What the clock shows when it is verified. -/
  receivedAt : Utc

/-- A moment as text, with its offset as numbers (`to_rfc3339`). -/
def offsetRfc3339 (moment : Utc) : String := String.ofList ((toRfc3339 moment).toList.dropLast ++ "+00:00".toList)

/-! ## Hooks -/

/-- One inbound webhook, and the run that each delivery enqueues. -/
structure WebhookHook where
  name : String
  verifier : WebhookHeaders → List UInt8 → Utc → Option VerifiedWebhook
  queue : String := "default"
  appName : String
  target : String
  userId : String := s!"webhook:{name}"
  sessionId : Option String := none
  input : Option Value := none
  concurrencyKey : Option (String × OnConflict) := none
  maxAttempts : Nat := 3
  maxPending : Option Nat := none
  mapper : Option (HookDelivery → Except AdkError NewRun) := none

/-- The idempotency key of the run a delivery creates. -/
def hookIdempotencyKey (hook webhookId : String) : String := s!"hook:{hook}:{webhookId}"

structure HookRef where
  hook : String
  id : String
deriving DecidableEq

def HookRef.key (ref : HookRef) : String := hookIdempotencyKey ref.hook ref.id

namespace WebhookHook

section Mapping

variable [JsonText]

/-- What the placeholders of a delivery are read from. -/
def context (hook : WebhookHook) (delivery : HookDelivery) : Value :=
  .object [
    ("hook", .object [("name", .string hook.name)]),
    ("payload", delivery.payload),
    ("webhook", .object [
      ("id", .string delivery.webhook.id), ("timestamp", .string (offsetRfc3339 delivery.webhook.timestamp))])]

/-- A text of the run, which is not blank. -/
def text (context : Value) (field template : String) : Except String String :=
  match renderKey template context with
  | .error reason => .error s!"{field} template `{template}`: {reason}"
  | .ok rendered =>
    if isBlank rendered then .error s!"{field} template `{template}` rendered empty" else .ok rendered

def mapTemplates (hook : WebhookHook) (delivery : HookDelivery) : Except String NewRun := do
  let context := hook.context delivery
  let run : NewRun := {
    queue := hook.queue
    appName := hook.appName
    userId := ← text context "userId" hook.userId
    target := hook.target
    input := hook.input.elim delivery.payload (·.render context)
    maxAttempts := hook.maxAttempts
    sessionId := ← hook.sessionId.mapM (text context "sessionId") }
  match hook.concurrencyKey with
  | none => .ok run
  | some (template, onConflict) =>
    .ok { run with concurrencyKey := some (← text context "concurrencyKey" template), onConflict }

def mapped (hook : WebhookHook) (delivery : HookDelivery) : Except String NewRun :=
  match hook.mapper with
  | some mapper => (mapper delivery).mapError (·.message)
  | none => hook.mapTemplates delivery

def map (hook : WebhookHook) (delivery : HookDelivery) : Except String NewRun := do
  let run ← hook.mapped delivery
  let run := { run with idempotencyKey := some (hookIdempotencyKey hook.name delivery.webhook.id) }
  match run.validate with
  | .error error => .error error.message
  | .ok () => .ok run.withServiceSubject

end Mapping

def verify (hook : WebhookHook) (request : HookRequest) : Option VerifiedWebhook := do
  hook.verifier (← WebhookHeaders.fromLookup request.headers) request.body request.receivedAt

def keyPrefix (hook : WebhookHook) : String := s!"hook:{hook.name}:"

def ownKey (hook : WebhookHook) (run : RunRecord) : Bool :=
  run.idempotencyKey.any fun key => startsWith key hook.keyPrefix

end WebhookHook

/-! ## The ingress -/

/-- The hooks, and how the ingress answers. -/
structure WebhookIngress where
  hooks : Dict WebhookHook
  /-- A hook is under its name. -/
  named : ∀ (name : String) (hook : WebhookHook), hooks[name]? = some hook → hook.name = name
  /-- Whether it asks a governance control. -/
  governed : Bool := false
  retryAfter : Duration := 30000000000

/-- An ingress without hooks. -/
def WebhookIngress.new : WebhookIngress where
  hooks := ∅
  named name hook h := by simp at h

/-- Adds a hook, or replaces the one of its name. -/
def WebhookIngress.withHook (ingress : WebhookIngress) (hook : WebhookHook) : WebhookIngress :=
  { ingress with
    hooks := ingress.hooks.insert hook.name hook
    named := by
      intro name hook' h
      rw [Std.ExtTreeMap.getElem?_insert] at h
      split at h
      next heq =>
        obtain rfl := Option.some.inj h
        exact Std.LawfulEqOrd.eq_of_compare heq
      next => exact ingress.named name hook' h }

inductive HookBody where
  | error (code : String) (message : Option String)
  | accepted (runId : String) (state : RunState) (duplicate : Bool)
  | conflict (blockingRunId : String)
deriving DecidableEq

structure HookResponse where
  status : Nat
  retryAfter : Option Nat := none
  body : HookBody
deriving DecidableEq

/-- What a request calls. -/
inductive HookOp where
  | check
  | list (filter : RunFilter)
  /-- Enqueues the run of a message. -/
  | enqueue (ref : HookRef) (run : NewRun)

abbrev HookOp.Ret : HookOp → Type
  | .check => Except AdkError Unit
  | .list _ => Except AdkError (List RunRecord)
  | .enqueue .. => Except AdkError Enqueued

abbrev HookProg : Type → Type := Prog HookOp HookOp.Ret

def HookResponse.accepted (status : Nat) (run : RunRecord) (duplicate : Bool) : HookResponse where
  status
  body := .accepted run.runId run.state duplicate

namespace WebhookIngress

variable (ingress : WebhookIngress)

/-- An answer to try again. -/
def retryLater (status : Nat) (code message : String) : HookResponse where
  status
  retryAfter := some (max (ingress.retryAfter / 1000000000) 1)
  body := .error code (some message)

def check : HookProg (Except AdkError Unit) := if ingress.governed then .ask .check .pure else .pure (.ok ())

/-- The answer of a hook with so many unfinished runs, when it has no room for another. -/
def full (hook : WebhookHook) (id : String) (maxPending : Nat) (pending : List RunRecord) : Option HookResponse :=
  if maxPending ≤ pending.length then
    some <| match pending.find? fun run => run.idempotencyKey = some (hookIdempotencyKey hook.name id) with
      | some run => .accepted 200 run true
      | none => ingress.retryLater 429 "hook.max_pending"
          s!"hook '{hook.name}' has {pending.length} unfinished runs (max {maxPending})"
  else none

/-- The answer to a delivery that the bound on unfinished runs holds off. -/
def throttle (hook : WebhookHook) (id : String) : HookProg (Option HookResponse) :=
  match hook.maxPending with
  | none => .pure none
  | some maxPending => .ask (.list (Wakeups.unfinishedFilter (some hook.queue))) fun
    | .error error => .pure (some (ingress.retryLater 503 error.code error.message))
    | .ok unfinished => .pure (ingress.full hook id maxPending (unfinished.filter hook.ownKey))

def answer : Except AdkError Enqueued → HookResponse
  | .ok (.created record) => .accepted 202 record false
  | .ok (.existing record) => .accepted 200 record true
  | .ok (.rejected blockingRunId) => { status := 409, body := .conflict blockingRunId }
  | .error error => ingress.retryLater 503 error.code error.message

variable [JsonText] [JsonRead]

/-- The run of a verified delivery, or the answer that refuses it. -/
def runOf (hook : WebhookHook) (webhook : VerifiedWebhook) (body : List UInt8) : Except HookResponse NewRun :=
  match JsonRead.fromSlice body with
  | .error error =>
    .error { status := 422, body := .error "hook.invalid_body" (some s!"body is not JSON: {error}") }
  | .ok payload =>
    match hook.map { hook := hook.name, webhook, payload } with
    | .error message => .error { status := 422, body := .error "hook.mapping_failed" (some message) }
    | .ok run => .ok run

/-- Enqueues the run of a verified delivery. -/
def wake (hook : WebhookHook) (webhook : VerifiedWebhook) (body : List UInt8) : HookProg HookResponse :=
  match runOf hook webhook body with
  | .error response => .pure response
  | .ok run => .ask (.enqueue ⟨hook.name, webhook.id⟩ run) fun result => .pure (ingress.answer result)

def receive (request : HookRequest) : HookProg HookResponse :=
  match ingress.hooks[request.name]? with
  | none => .pure { status := 404, body := .error "hook.not_found" none }
  | some hook =>
    match hook.verify request with
    | none => .pure { status := 401, body := .error "unauthorized" none }
    | some webhook => ingress.check.bind fun
      | .error error => .pure (ingress.retryLater 503 error.code error.message)
      | .ok () => (ingress.throttle hook webhook.id).bind fun
        | some response => .pure response
        | none => ingress.wake hook webhook request.body

end WebhookIngress

/-! ## The store of runs -/

/-- The store of runs, with what it answered to each message. -/
structure HookWorld where
  runs : RunTable := {}
  answered : List (Wakeups.Answered HookRef) := []

namespace HookWorld

/-- How the store answers. A new run has an identifier of its own. Others claim, finish and cancel runs and enqueue runs
of their own. -/
def laws : Laws HookOp HookOp.Ret HookWorld where
  answers
    | .check, w, _, w' => w' = w
    | .list filter, w, runs, w' => runs = .ok (w.runs.list filter) ∧ w' = w
    | .enqueue ref run, w, result, w' => ∃ now runId table, w.runs.runs[runId]? = none ∧
        w.runs.enqueue now runId run = (result, table) ∧
        w' = { w with runs := table, answered := w.answered ++ Wakeups.answersOf ref run.queue result }
  moves w w' := ∃ now call answer table, Wakeups.Foreign HookRef.key w.runs call ∧
    w.runs.call now call = (answer, table) ∧ w' = { w with runs := table }

def openRuns (w : HookWorld) (name : String) : Nat :=
  Wakeups.unfinished w.runs w.answered fun ref => decide (ref.hook = name)

end HookWorld

abbrev HookEntry : Type := Entry HookOp.Ret HookWorld

abbrev HookProc : Type := Proc (fun _ : HookRequest => HookResponse) HookOp.Ret HookWorld

abbrev HookPool : Type := ProcPool (fun _ : HookRequest => HookResponse) HookOp.Ret HookWorld

/-- Requests to an ingress. The deliveries of a `sole` hook are handled one at a time. -/
def hookSystem [JsonText] [JsonRead] (ingress : WebhookIngress) (sole : String → Bool)
    (acts : HookPool → Nat → HookOp → Prop) :
    System (fun _ : HookRequest => HookResponse) HookOp.Ret HookWorld where
  laws := HookWorld.laws
  program := ingress.receive
  starts := ProcPool.Idle HookRequest.name fun name => sole name = true
  acts

end Adk
