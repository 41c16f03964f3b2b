import AdkRust.Lib.FirstCome
import AdkRust.Runner.InFlight

/-!
# Each call is answered once

A log as requests and replies (`Lib.FirstCome`): a call and a response have a key, which is their author, branch and
invocation and a label, the id of the call, or the name of a call without one.

* `inFlightCalls_eq`: the calls in flight are those of first come, first answered by label.
* `responsesOf_answerWith`: the answers carry the key of their call.
* `interruptedOnce`: **after the answers every call has one response, and it is reported from its own record, exactly
  where the answered calls of each label are its first and the others have one outcome.**
* `not_recoveredOnce`: a recovery that answers the wrong call.
-/

namespace Adk

open FirstCome

/-! ## Logs as marks -/

/-- What a response names its call by. -/
inductive CallLabel where
  | id (id : String)
  | name (name : String)
deriving DecidableEq

/-- A call as its response has to carry it. -/
structure CallKey where
  author : String
  branch : String
  invocationId : String
  label : CallLabel
deriving DecidableEq

def callLabel (name : String) : Option String → CallLabel
  | some id => .id id
  | none => .name name

def Event.callKey (event : Event) (name : String) (id : Option String) : CallKey where
  author := event.author
  branch := event.branch
  invocationId := event.invocationId
  label := callLabel name id

/-- A call, with the id that its tool runs under. -/
structure IssuedCall where
  call : InFlightCall
  functionCallId : String

structure CallResponse where
  key : CallKey
  response : Value

def InFlightCall.key (call : InFlightCall) : CallKey where
  author := call.author
  branch := call.branch
  invocationId := call.invocationId
  label := callLabel call.name call.id

def IssuedCall.key (issued : IssuedCall) : CallKey := issued.call.key

/-- The calls and responses of some parts, from the call with an index on. A call without an id runs under a generated
one (`collect_function_calls`). -/
def Event.partMarks (event : Event) : Nat → List Part → List (Delivery IssuedCall CallResponse)
  | _, [] => []
  | index, .functionCall name args id _ :: parts =>
    .sent {
      call := { id, name, args, author := event.author, branch := event.branch, invocationId := event.invocationId }
      functionCallId := id.getD s!"{event.invocationId}_{name}_{index}" } :: event.partMarks (index + 1) parts
  | index, .functionResponse functionResponse id _ :: parts =>
    .answered { key := event.callKey functionResponse.name id, response := functionResponse.response } ::
      event.partMarks index parts
  | index, _ :: parts => event.partMarks index parts

/-- The calls and responses of an event. A chunk has none: they are saved with the whole content. -/
def Event.marks (event : Event) : List (Delivery IssuedCall CallResponse) :=
  if event.isPartial then []
  else match event.content with
    | none => []
    | some content => event.partMarks 0 content.parts

def callMarks (log : List Event) : List (Delivery IssuedCall CallResponse) := log.flatMap Event.marks

def issuedOf (key : CallKey) (log : List Event) : List IssuedCall :=
  ofLabel IssuedCall.key key (requests (callMarks log))

def responsesOf (key : CallKey) (log : List Event) : List CallResponse :=
  ofLabel CallResponse.key key (replies (callMarks log))

@[simp] theorem callMarks_append (first second : List Event) :
    callMarks (first ++ second) = callMarks first ++ callMarks second := List.flatMap_append

@[simp] theorem issuedOf_append (key : CallKey) (first second : List Event) :
    issuedOf key (first ++ second) = issuedOf key first ++ issuedOf key second := by simp [issuedOf]

@[simp] theorem responsesOf_append (key : CallKey) (first second : List Event) :
    responsesOf key (first ++ second) = responsesOf key first ++ responsesOf key second := by simp [responsesOf]

/-! ## Calls in flight -/

def issuedInFlight (log : List Event) : List IssuedCall :=
  inFlight (fun issued => issued.key.label) (fun response => response.key.label) (callMarks log)

theorem answered_eq (calls : InFlightCalls) (name : String) (id : Option String) :
    calls.answered name id = calls.findIdx? fun call => call.key.label = callLabel name id := by
  cases id with
  | some id =>
    apply congrArg (calls.findIdx? ·)
    funext call
    cases hid : call.id <;> simp [InFlightCall.key, callLabel, hid]
  | none =>
    apply congrArg (calls.findIdx? ·)
    funext call
    cases hid : call.id <;> simp [InFlightCall.key, callLabel, hid]

theorem observePart_response (event : Event) (calls : InFlightCalls) (data : FunctionResponseData)
    (id : Option String) (annotations : Option Value) :
    InFlightCalls.observePart event calls (.functionResponse data id annotations) =
      calls.eraseP fun call => call.key.label = callLabel data.name id := by
  rw [List.eraseP_eq_eraseIdx, ← answered_eq]
  simp only [InFlightCalls.observePart]
  cases calls.answered data.name id <;> rfl

theorem foldl_observePart (event : Event) (index : Nat) (parts : List Part) (issued : List IssuedCall) :
    parts.foldl (InFlightCalls.observePart event) (issued.map (·.call)) =
      ((event.partMarks index parts).foldl
        (receive (fun issued => issued.key.label) (fun response => response.key.label)) issued).map (·.call) := by
  induction parts generalizing index issued with
  | nil => rfl
  | cons part parts ih =>
    cases part with
    | functionCall name args id signature =>
      rw [Event.partMarks, List.foldl_cons, List.foldl_cons, ← ih, receive, List.map_append]
      rfl
    | functionResponse data id annotations =>
      rw [Event.partMarks, List.foldl_cons, List.foldl_cons, ← ih, receive]
      rw [observePart_response, List.eraseP_map]
      rfl
    | _ => exact ih index issued

theorem observe_map (event : Event) (issued : List IssuedCall) :
    InFlightCalls.observe (issued.map (·.call)) event =
      (event.marks.foldl (receive (fun issued => issued.key.label) (fun response => response.key.label)) issued).map
        (·.call) := by
  unfold InFlightCalls.observe Event.marks
  by_cases hstrm : event.isPartial
  · simp [hstrm]
  · cases hcont : event.content with
    | none => simp [hstrm]
    | some content =>
      simp only [hstrm, Bool.false_eq_true, ↓reduceIte]
      exact foldl_observePart event 0 content.parts issued

/-- The calls in flight are those of first come, first answered by label. -/
theorem inFlightCalls_eq (log : List Event) : inFlightCalls log = (issuedInFlight log).map (·.call) := by
  have h : ∀ issued : List IssuedCall, log.foldl InFlightCalls.observe (issued.map (·.call)) =
      ((callMarks log).foldl (receive (fun issued => issued.key.label) (fun response => response.key.label))
        issued).map (·.call) := by
    induction log with
    | nil => exact fun _ => rfl
    | cons event log ih =>
      intro issued
      rw [List.foldl_cons, observe_map, ih, ← List.foldl_append]
      rfl
  exact h []

/-! ## Answers -/

def Event.origin (event : Event) : String × String × String := (event.author, event.branch, event.invocationId)

def InFlightCall.origin (call : InFlightCall) : String × String × String :=
  (call.author, call.branch, call.invocationId)

/-- Events that hold whole contents, one for each origin. -/
structure Answering (events : List Event) : Prop where
  whole : ∀ event ∈ events, event.isPartial = false ∧ event.content.isSome = true
  apart : (events.map Event.origin).Nodup

theorem partMarks_append_response (event : Event) (index : Nat) (parts : List Part) (data : FunctionResponseData)
    (id : Option String) (annotations : Option Value) :
    event.partMarks index (parts ++ [.functionResponse data id annotations]) =
      event.partMarks index parts ++
        [.answered { key := event.callKey data.name id, response := data.response }] := by
  induction parts generalizing index with
  | nil => rfl
  | cons part parts ih => cases part <;> simp [Event.partMarks, ih]

theorem partMarks_congr {event event' : Event} (h : event'.origin = event.origin) (index : Nat) (parts : List Part) :
    event'.partMarks index parts = event.partMarks index parts := by
  simp only [Event.origin, Prod.mk.injEq] at h
  obtain ⟨hauthor, hbranch, hinv⟩ := h
  induction parts generalizing index with
  | nil => rfl
  | cons part parts ih => cases part <;> simp [Event.partMarks, ih, Event.callKey, hauthor, hbranch, hinv]

theorem marks_pushPart {event : Event} {call : InFlightCall} (response : Value) (hwh : event.isPartial = false)
    (hcont : event.content.isSome = true) (hori : event.origin = call.origin) :
    (event.pushPart (call.responsePart response)).marks =
      event.marks ++ [.answered { key := call.key, response }] := by
  obtain ⟨content, hcont⟩ := Option.isSome_iff_exists.mp hcont
  simp only [Event.origin, InFlightCall.origin, Prod.mk.injEq] at hori
  obtain ⟨hauthor, hbranch, hinv⟩ := hori
  have hmks : ∀ index parts, (event.pushPart (call.responsePart response)).partMarks index parts =
      event.partMarks index parts := partMarks_congr rfl
  unfold Event.marks
  rw [show (event.pushPart (call.responsePart response)).isPartial = false from hwh, hwh,
    show (event.pushPart (call.responsePart response)).content =
      some { content with parts := content.parts ++ [call.responsePart response] } by simp [Event.pushPart, hcont],
    hcont]
  dsimp only
  rw [if_neg Bool.false_ne_true, if_neg Bool.false_ne_true, hmks, InFlightCall.responsePart,
    partMarks_append_response]
  simp [InFlightCall.key, Event.callKey, hauthor, hbranch, hinv]

theorem marks_new (now : Utc) (call : InFlightCall) (response : Value) :
    callMarks (addResponse now call (call.responsePart response) []) =
      [.answered { key := call.key, response }] := rfl

theorem origin_of_mem_marks {event : Event} {response : CallResponse} (h : .answered response ∈ event.marks) :
    response.key.author = event.author ∧ response.key.branch = event.branch ∧
      response.key.invocationId = event.invocationId := by
  have hpts : ∀ index parts, .answered response ∈ event.partMarks index parts →
      response.key.author = event.author ∧ response.key.branch = event.branch ∧
        response.key.invocationId = event.invocationId := by
    intro index parts
    induction parts generalizing index with
    | nil => intro h; cases h
    | cons part parts ih =>
      cases part with
      | functionCall name args id signature =>
        intro h
        rcases List.mem_cons.mp h with h | h
        · cases h
        · exact ih _ h
      | functionResponse data id annotations =>
        intro h
        rcases List.mem_cons.mp h with h | h
        · cases h
          exact ⟨rfl, rfl, rfl⟩
        · exact ih _ h
      | _ => exact ih index
  unfold Event.marks at h
  split at h
  · cases h
  · split at h
    · cases h
    · exact hpts _ _ h

theorem responsesOf_nil_of_origin {events : List Event} {call : InFlightCall}
    (h : call.origin ∉ events.map Event.origin) : responsesOf call.key events = [] := by
  rw [responsesOf, ofLabel, List.filter_eq_nil_iff]
  intro response hresp
  rw [decide_eq_true_eq]
  rintro hkey
  obtain ⟨mark, hmark, hreply⟩ := List.mem_filterMap.mp hresp
  obtain ⟨event, hev, hmark⟩ := List.mem_flatMap.mp hmark
  cases mark with
  | sent issued => cases hreply
  | answered response' =>
    cases hreply
    obtain ⟨hauthor, hbranch, hinv⟩ := origin_of_mem_marks hmark
    rw [hkey] at hauthor hbranch hinv
    apply h
    apply List.mem_map.mpr
    exact ⟨event, hev, by simp [Event.origin, InFlightCall.origin, ← hauthor, ← hbranch, ← hinv,
      InFlightCall.key]⟩

def withResponse (key : CallKey) (responses : List CallResponse) (call : InFlightCall) (response : Value) :
    List CallResponse :=
  if call.key = key then responses ++ [⟨key, response⟩] else responses

/-- What adding a response does: it comes last of its key, no call is made, and no other key is touched. -/
structure Added (call : InFlightCall) (response : Value) (events events' : List Event) : Prop where
  answering : Answering events'
  requests : requests (callMarks events') = requests (callMarks events)
  responses : ∀ key, responsesOf key events' = withResponse key (responsesOf key events) call response
  origins : ∀ origin ∈ events'.map Event.origin, origin = call.origin ∨ origin ∈ events.map Event.origin

theorem responsesOf_answered (key : CallKey) (call : InFlightCall) (response : Value) :
    ofLabel CallResponse.key key [{ key := call.key, response }] = withResponse key [] call response := by
  by_cases h : call.key = key
  · subst h
    simp [ofLabel, withResponse]
  · simp [ofLabel, withResponse, h]

theorem addResponse_added (now : Utc) (call : InFlightCall) (response : Value) {events : List Event}
    (h : Answering events) :
    Added call response events (addResponse now call (call.responsePart response) events) := by
  induction events with
  | nil =>
    constructor
    · exact ⟨by simp [addResponse], by simp [addResponse]⟩
    · rw [marks_new]
      rfl
    · intro key
      rw [responsesOf, marks_new]
      exact responsesOf_answered key call response
    · intro origin hori
      simp only [addResponse, List.map_cons, List.map_nil, List.mem_singleton] at hori
      exact .inl hori
  | cons event events ih =>
    obtain ⟨hwh, hcont⟩ := h.whole event List.mem_cons_self
    obtain ⟨hfr, hapart⟩ := List.nodup_cons.mp h.apart
    rw [addResponse]
    by_cases hori : event.origin = call.origin
    · -- the event of the call's origin: no later one has the key
      have hpush := marks_pushPart response hwh hcont hori
      rw [if_pos (by simpa [Event.origin, InFlightCall.origin] using hori)]
      constructor
      · constructor
        · intro event' hev'
          rcases List.mem_cons.mp hev' with rfl | hev'
          · exact ⟨hwh, by simpa [Event.pushPart] using hcont⟩
          · exact h.whole event' (List.mem_cons_of_mem _ hev')
        · exact h.apart
      · simp only [callMarks, List.flatMap_cons, hpush, requests_append, requests_answered, List.append_nil]
      · intro key
        have hlat : call.key = key → responsesOf key events = [] := by
          rintro rfl
          exact responsesOf_nil_of_origin (hori ▸ hfr)
        simp only [responsesOf, callMarks, List.flatMap_cons, hpush, replies_append, replies_answered, ofLabel_append,
          responsesOf_answered]
        by_cases hkey : call.key = key
        · have hlat := hlat hkey
          simp only [responsesOf, callMarks] at hlat
          simp [withResponse, hkey, hlat]
        · simp [withResponse, hkey]
      · intro origin hmem
        exact .inr hmem
    · rw [if_neg (by simpa [Event.origin, InFlightCall.origin] using hori)]
      have hadd := ih ⟨fun event' hev' => h.whole event' (List.mem_cons_of_mem _ hev'), hapart⟩
      constructor
      · constructor
        · intro event' hev'
          rcases List.mem_cons.mp hev' with rfl | hev'
          · exact ⟨hwh, hcont⟩
          · exact hadd.answering.whole event' hev'
        · rw [List.map_cons, List.nodup_cons]
          refine ⟨fun hmem => ?_, hadd.answering.apart⟩
          rcases hadd.origins _ hmem with hsame | hmem
          · exact hori hsame
          · exact hfr hmem
      · have hreqs := hadd.requests
        simp only [callMarks, List.flatMap_cons, requests_append] at hreqs ⊢
        rw [hreqs]
      · intro key
        have hresps := hadd.responses key
        simp only [responsesOf, callMarks, List.flatMap_cons, replies_append, ofLabel_append] at hresps ⊢
        rw [hresps]
        by_cases hkey : call.key = key <;> simp [withResponse, hkey]
      · intro origin hmem
        rcases List.mem_cons.mp hmem with rfl | hmem
        · exact .inr List.mem_cons_self
        · exact (hadd.origins origin hmem).imp_right (List.mem_cons_of_mem _)

theorem responsesOf_answerWith (now : Utc) (respond : InFlightCall → Value) (calls : InFlightCalls) :
    requests (callMarks (calls.answerWith now respond)) = [] ∧ ∀ key, responsesOf key (calls.answerWith now respond) =
      (ofLabel InFlightCall.key key calls).map fun call => { key := call.key, response := respond call } := by
  have h : ∀ events, Answering events →
      let events' := calls.foldl (fun events call => addResponse now call (call.responsePart (respond call)) events)
        events
      requests (callMarks events') = requests (callMarks events) ∧ ∀ key, responsesOf key events' =
        responsesOf key events ++
          (ofLabel InFlightCall.key key calls).map fun call => { key := call.key, response := respond call } := by
    induction calls with
    | nil => simp
    | cons call calls ih =>
      intro events hevents
      have hadd := addResponse_added now call (respond call) hevents
      obtain ⟨hreqs, hresps⟩ := ih _ hadd.answering
      constructor
      · exact hreqs.trans hadd.requests
      · intro key
        refine (hresps key).trans ?_
        rw [hadd.responses]
        by_cases hkey : call.key = key <;> simp [withResponse, ofLabel, hkey]
  have := h [] ⟨by simp, by simp⟩
  simpa [InFlightCalls.answerWith, responsesOf, callMarks] using this

theorem responsesOf_answers (now : Utc) (respond : InFlightCall → Value) (key : CallKey) (log : List Event) :
    responsesOf key ((inFlightCalls log).answerWith now respond) =
      (ofLabel IssuedCall.key key (issuedInFlight log)).map fun issued =>
        { key := issued.key, response := respond issued.call } := by
  rw [(responsesOf_answerWith now respond _).2, inFlightCalls_eq, ofLabel, List.filter_map, List.map_map]
  rfl

theorem issuedOf_answers (now : Utc) (respond : InFlightCall → Value) (key : CallKey) (calls : InFlightCalls) :
    issuedOf key (calls.answerWith now respond) = [] := by
  rw [issuedOf, (responsesOf_answerWith now respond calls).1]
  rfl

theorem inFlightCalls_answered (now : Utc) (respond : InFlightCall → Value) (log : List Event) :
    inFlightCalls (log ++ (inFlightCalls log).answerWith now respond) = [] := by
  have hmks : callMarks ((inFlightCalls log).answerWith now respond) =
      (replies (callMarks ((inFlightCalls log).answerWith now respond))).map .answered :=
    eq_replies_of_requests_nil (responsesOf_answerWith now respond _).1
  have hperm : ((replies (callMarks ((inFlightCalls log).answerWith now respond))).map CallResponse.key).Perm
      ((issuedInFlight log).map IssuedCall.key) := by
    rw [List.perm_iff_count]
    intro key
    have hkey := responsesOf_answers now respond key log
    rw [responsesOf] at hkey
    rw [← length_ofLabel, ← length_ofLabel, hkey, List.length_map]
  rw [inFlightCalls_eq, issuedInFlight, callMarks_append, hmks, inFlight_append_replies, List.map_nil]
  intro label
  rw [length_ofLabel, length_ofLabel]
  have := (hperm.map CallKey.label).count_eq label
  rwa [List.map_map, List.map_map] at this

/-! ## Once -/

/-- Every call of a log has one response, of its author, branch and invocation. -/
def AnsweredOnce (log : List Event) : Prop := ∀ key, (responsesOf key log).length = (issuedOf key log).length

/-- The answered calls of each label are its first, and each has a response of its own. -/
def AnsweredInOrder (log : List Event) : Prop :=
  ∀ label, AnsweredFirst IssuedCall.key CallResponse.key CallKey.label (callMarks log) label

/-- A log, of some events that are answered among themselves and others whose calls in flight were answered, has one
response to each call exactly where the others answer calls in order. -/
theorem answeredOnce_iff (now : Utc) (respond : InFlightCall → Value) {log rest own : List Event}
    (hlog : log.Perm (rest ++ own)) (hrest : AnsweredOnce rest) :
    AnsweredOnce (log ++ (inFlightCalls own).answerWith now respond) ↔ AnsweredInOrder own := by
  refine Iff.trans (forall_congr' fun key => ?_) answeredFirst_iff_count
  have hmks : (callMarks log).Perm (callMarks (rest ++ own)) := hlog.flatMap_right _
  have hcls : (issuedOf key log).length = (issuedOf key (rest ++ own)).length :=
    ((hmks.filterMap _).filter _).length_eq
  have hresps : (responsesOf key log).length = (responsesOf key (rest ++ own)).length :=
    ((hmks.filterMap _).filter _).length_eq
  rw [issuedOf_append, List.length_append] at hcls
  rw [responsesOf_append, List.length_append] at hresps
  have hrest := hrest key
  rw [responsesOf_append, issuedOf_append, issuedOf_answers, responsesOf_answers, List.append_nil, List.length_append,
    List.length_map]
  change _ ↔ (responsesOf key own).length + (ofLabel IssuedCall.key key (issuedInFlight own)).length =
    (issuedOf key own).length
  omega

/-! ## From its own record -/

def reportedOutcome (response : Value) : Option ActionOutcome :=
  if response.get? "status" = some (.string "already_succeeded") then
    ((response.get? "result_digest").bind Value.asStr).map .succeeded
  else if response.get? "status" = some (.string "already_failed") then
    ((response.get? "error").bind Value.asStr).map .failed
  else none

@[simp] theorem reportedOutcome_recovered (name : String) (outcome : Option ActionOutcome) :
    reportedOutcome (recoveredCallResponse name outcome) = outcome := by
  cases outcome with
  | none => rfl
  | some outcome => cases outcome <;> rfl

/-- The outcome that the ledger holds under a call's own key. -/
def IssuedCall.outcome (identity : AdkIdentity) (ledger : ActionLedger) (issued : IssuedCall) : Option ActionOutcome :=
  (ledger (idempotencyKey identity issued.call.invocationId issued.functionCallId)).bind (·.outcome)

/-- What a recovery is to leave: every call has one response, the calls that had none are reported with the outcomes
under their own keys, and a later recovery finds nothing to answer. -/
structure RecoveredOnce (identity : AdkIdentity) (ledger : ActionLedger) (log log' : List Event) : Prop where
  once : AnsweredOnce log'
  reports : ∀ key, (responsesOf key (log'.drop log.length)).map (fun response => reportedOutcome response.response) =
    ((issuedOf key log).drop (responsesOf key log).length).map (IssuedCall.outcome identity ledger)
  settled : ∀ later : Recovery, later.recoverUnansweredCalls log' = .ok (0, log')

/-- The calls of a label after as many as it has responses. -/
def unansweredCalls (log : List Event) (label : CallLabel) : List IssuedCall :=
  unanswered IssuedCall.key CallResponse.key CallKey.label (callMarks log) label

/-- Unanswered calls of one id have one outcome, and those without an id have none. -/
structure OneOutcome (identity : AdkIdentity) (ledger : ActionLedger) (log : List Event) : Prop where
  shared : ∀ id, ∀ first ∈ unansweredCalls log (.id id), ∀ second ∈ unansweredCalls log (.id id),
    first.outcome identity ledger = second.outcome identity ledger
  unnamed : ∀ name, ∀ issued ∈ unansweredCalls log (.name name), issued.outcome identity ledger = none

namespace Recovery

variable {r : Recovery} {ledger : ActionLedger}

def outcomeOf (r : Recovery) (calls : InFlightCalls) (call : InFlightCall) : Option ActionOutcome :=
  (recordOf (r.records calls) call).bind (·.outcome)

theorem recover_eq {log log' : List Event} {count : Nat} (h : r.recoverUnansweredCalls log = .ok (count, log')) :
    count = (inFlightCalls log).length ∧ log' = log ++ (inFlightCalls log).answerWith r.now fun call =>
      recoveredCallResponse call.name (r.outcomeOf (inFlightCalls log) call) := by
  unfold recoverUnansweredCalls at h
  cases hcls : inFlightCalls log with
  | nil =>
    rw [hcls] at h
    cases h
    simp [InFlightCalls.answerWith]
  | cons call calls =>
    rw [hcls] at h
    dsimp only [List.isEmpty_cons] at h
    rw [if_neg Bool.false_ne_true] at h
    cases haud : r.auditCalls
      (fun call' => auditOutcome ((recordOf (r.records (call :: calls)) call').bind (·.outcome))) (call :: calls) with
    | error error =>
      rw [haud] at h
      cases h
    | ok audited =>
      rw [haud] at h
      cases h
      exact ⟨rfl, rfl⟩

theorem records_id (hled : r.ledger = some ledger) {calls : InFlightCalls} {id : String}
    (h : ∃ call ∈ calls, call.id = some id) : ∃ last ∈ calls, last.id = some id ∧
      (r.records calls)[id]? = some (ledger (idempotencyKey r.identity last.invocationId id)) := by
  induction calls using List.reverseRecOn with
  | nil =>
    obtain ⟨call, hcall, -⟩ := h
    cases hcall
  | append_singleton calls call ih =>
    have hrecords : r.records (calls ++ [call]) = r.lookUp (r.records calls) call := by
      rw [records, List.foldl_append]
      rfl
    rw [hrecords]
    by_cases hid : call.id = some id
    · exact ⟨call, by simp, hid, by simp [lookUp, hled, hid]⟩
    · obtain ⟨call', hcall', hid'⟩ := h
      have hcall' : call' ∈ calls := by
        rcases List.mem_append.mp hcall' with hcall' | hcall'
        · exact hcall'
        · rw [List.mem_singleton.mp hcall'] at hid'
          exact absurd hid' hid
      obtain ⟨last, hlast, hlastid, hfnd⟩ := ih ⟨call', hcall', hid'⟩
      refine ⟨last, List.mem_append_left _ hlast, hlastid, ?_⟩
      rw [← hfnd, lookUp, hled]
      cases hoth : call.id with
      | none => rfl
      | some other =>
        rw [hoth] at hid
        exact Dict.getElem?_insert_of_ne (fun h => hid (congrArg some h.symm)) _

theorem outcomeOf_id (hled : r.ledger = some ledger) {calls : InFlightCalls} {id : String}
    (h : ∃ call ∈ calls, call.id = some id) : ∃ last ∈ calls, last.id = some id ∧ ∀ call : InFlightCall,
      call.id = some id → r.outcomeOf calls call =
        (ledger (idempotencyKey r.identity last.invocationId id)).bind (·.outcome) := by
  obtain ⟨last, hlast, hlastid, hfnd⟩ := records_id hled h
  refine ⟨last, hlast, hlastid, fun call hcall => ?_⟩
  simp [outcomeOf, recordOf, hcall, hfnd]

theorem outcomeOf_unnamed {calls : InFlightCalls} {call : InFlightCall} (h : call.id = none) :
    r.outcomeOf calls call = none := by simp [outcomeOf, recordOf, h]

end Recovery

theorem functionCallId_of_mem {log : List Event} {issued : IssuedCall} (h : issued ∈ requests (callMarks log))
    {id : String} (hid : issued.call.id = some id) : issued.functionCallId = id := by
  have hpts : ∀ (event : Event) index parts, .sent issued ∈ event.partMarks index parts →
      issued.functionCallId = id := by
    intro event index parts
    induction parts generalizing index with
    | nil => intro h; cases h
    | cons part parts ih =>
      cases part with
      | functionCall name args id' signature =>
        intro h
        rcases List.mem_cons.mp h with h | h
        · cases h
          dsimp only at hid
          rw [hid]
          rfl
        · exact ih _ h
      | functionResponse data id' annotations =>
        intro h
        rcases List.mem_cons.mp h with h | h
        · cases h
        · exact ih _ h
      | _ => exact ih index
  obtain ⟨mark, hmark, hsent⟩ := List.mem_filterMap.mp h
  obtain ⟨event, -, hmark⟩ := List.mem_flatMap.mp hmark
  cases mark with
  | answered response => cases hsent
  | sent issued' =>
    cases hsent
    unfold Event.marks at hmark
    split at hmark
    · cases hmark
    · split at hmark
      · cases hmark
      · exact hpts _ _ _ hmark

section InOrder

variable {r : Recovery} {ledger : ActionLedger} {log : List Event}

theorem AnsweredInOrder.mem_iff (h : AnsweredInOrder log) {issued : IssuedCall} {label : CallLabel} :
    issued ∈ unansweredCalls log label ↔ issued ∈ issuedInFlight log ∧ issued.key.label = label := by
  rw [unansweredCalls, ← (h label).inFlight]
  exact mem_ofLabel

theorem AnsweredInOrder.mem_requests (h : AnsweredInOrder log) {issued : IssuedCall}
    (hiss : issued ∈ issuedInFlight log) : issued ∈ requests (callMarks log) := by
  have hmem := h.mem_iff.mpr ⟨hiss, rfl⟩
  exact (mem_ofLabel.mp (List.mem_of_mem_drop hmem)).1

theorem AnsweredInOrder.reports_iff (h : AnsweredInOrder log) (outcome : InFlightCall → Option ActionOutcome) :
    (∀ key, (responsesOf key ((inFlightCalls log).answerWith r.now fun call =>
        recoveredCallResponse call.name (outcome call))).map (fun response => reportedOutcome response.response) =
      ((issuedOf key log).drop (responsesOf key log).length).map (IssuedCall.outcome r.identity ledger)) ↔
      ∀ issued ∈ issuedInFlight log, outcome issued.call = issued.outcome r.identity ledger := by
  have hkey : ∀ key, (issuedOf key log).drop (responsesOf key log).length =
      ofLabel IssuedCall.key key (issuedInFlight log) := fun key => (h key.label).inFlight_key.2.symm
  simp only [hkey, responsesOf_answers, List.map_map, List.map_inj_left, Function.comp_apply,
    reportedOutcome_recovered, mem_ofLabel]
  constructor
  · intro h issued hiss
    exact h issued.key issued ⟨hiss, rfl⟩
  · intro h key issued hiss
    exact h issued hiss.1

/-- The calls in flight are reported from their own records exactly where those of one id have one outcome and those
without an id have none. -/
theorem AnsweredInOrder.outcome_iff (h : AnsweredInOrder log) (hled : r.ledger = some ledger) :
    (∀ issued ∈ issuedInFlight log,
      r.outcomeOf (inFlightCalls log) issued.call = issued.outcome r.identity ledger) ↔
      OneOutcome r.identity ledger log := by
  -- one record is found for all calls of an id, under the own key of one of them
  have hlast : ∀ id, (∃ issued ∈ issuedInFlight log, issued.call.id = some id) →
      ∃ last ∈ issuedInFlight log, last.key.label = .id id ∧ ∀ call : InFlightCall, call.id = some id →
        r.outcomeOf (inFlightCalls log) call = last.outcome r.identity ledger := by
    rintro id ⟨issued, hiss, hid⟩
    have hmem : ∃ call ∈ inFlightCalls log, call.id = some id := by
      rw [inFlightCalls_eq]
      exact ⟨issued.call, List.mem_map_of_mem hiss, hid⟩
    obtain ⟨last, hlast, hlastid, hfnd⟩ := Recovery.outcomeOf_id hled hmem
    rw [inFlightCalls_eq] at hlast
    obtain ⟨issued', hiss', rfl⟩ := List.mem_map.mp hlast
    refine ⟨issued', hiss', ?_, fun call hcall => ?_⟩
    · simp [IssuedCall.key, InFlightCall.key, callLabel, hlastid]
    · rw [hfnd call hcall, IssuedCall.outcome, functionCallId_of_mem (h.mem_requests hiss') hlastid]
  have hidof : ∀ {issued : IssuedCall} {id : String}, issued.key.label = .id id ↔ issued.call.id = some id := by
    intro issued id
    cases hid : issued.call.id <;> simp [IssuedCall.key, InFlightCall.key, callLabel, hid]
  constructor
  · intro hown
    constructor
    · intro id first hfst second hsec
      obtain ⟨hfst, hfirstid⟩ := h.mem_iff.mp hfst
      obtain ⟨hsec, hsecondid⟩ := h.mem_iff.mp hsec
      obtain ⟨last, -, -, hfnd⟩ := hlast id ⟨first, hfst, hidof.mp hfirstid⟩
      rw [← hown first hfst, ← hown second hsec, hfnd _ (hidof.mp hfirstid), hfnd _ (hidof.mp hsecondid)]
    · intro name issued hiss
      obtain ⟨hiss, hname⟩ := h.mem_iff.mp hiss
      rw [← hown issued hiss]
      apply Recovery.outcomeOf_unnamed
      cases hid : issued.call.id with
      | none => rfl
      | some id => simp [IssuedCall.key, InFlightCall.key, callLabel, hid] at hname
  · intro hone issued hiss
    cases hid : issued.call.id with
    | none =>
      rw [Recovery.outcomeOf_unnamed hid]
      refine (hone.unnamed issued.call.name issued (h.mem_iff.mpr ⟨hiss, ?_⟩)).symm
      simp [IssuedCall.key, InFlightCall.key, callLabel, hid]
    | some id =>
      obtain ⟨last, hmem, hlabel, hfnd⟩ := hlast id ⟨issued, hiss, hid⟩
      rw [hfnd _ hid]
      exact hone.shared id last (h.mem_iff.mpr ⟨hmem, hlabel⟩) issued (h.mem_iff.mpr ⟨hiss, hidof.mpr hid⟩)

end InOrder

theorem recoveredOnce_iff {r : Recovery} {ledger : ActionLedger} {log log' : List Event} {count : Nat}
    (hled : r.ledger = some ledger) (h : r.recoverUnansweredCalls log = .ok (count, log')) :
    RecoveredOnce r.identity ledger log log' ↔ AnsweredInOrder log ∧ OneOutcome r.identity ledger log := by
  obtain ⟨-, rfl⟩ := Recovery.recover_eq h
  have honce := answeredOnce_iff r.now (fun call => recoveredCallResponse call.name
    (r.outcomeOf (inFlightCalls log) call)) (List.Perm.refl (([] : List Event) ++ log)) (fun _ => rfl)
  constructor
  · intro hrecovered
    have horder : AnsweredInOrder log := honce.mp hrecovered.once
    have hreports := hrecovered.reports
    rw [List.drop_left] at hreports
    exact ⟨horder, (horder.outcome_iff hled).mp ((horder.reports_iff _).mp hreports)⟩
  · rintro ⟨horder, hone⟩
    refine ⟨honce.mpr horder, ?_, fun later => ?_⟩
    · rw [List.drop_left]
      exact (horder.reports_iff _).mpr ((horder.outcome_iff hled).mpr hone)
    · rw [Recovery.recoverUnansweredCalls, inFlightCalls_answered]
      rfl

/-- **Interrupted calls are answered once, each from its own record, exactly where the answered calls of each label are
its first**, and, of a recovery, where its other calls have one outcome under their own keys. -/
theorem interruptedOnce (log : List Event) :
    (∀ now rest own, log.Perm (rest ++ own) → AnsweredOnce rest →
      (AnsweredOnce (log ++ (inFlightCalls own).answerInterrupted now) ↔ AnsweredInOrder own)) ∧
    ∀ (r : Recovery) ledger count log', r.ledger = some ledger →
      r.recoverUnansweredCalls log = .ok (count, log') →
      (RecoveredOnce r.identity ledger log log' ↔ AnsweredInOrder log ∧ OneOutcome r.identity ledger log) :=
  ⟨fun now _ _ hlog hrest => answeredOnce_iff now _ hlog hrest,
    fun _ _ _ _ hledger h => recoveredOnce_iff hledger h⟩

/-! A call of one agent that a response to another agent's call of the same id takes away. -/

/-- Two agents of an invocation call with one id, and the second is answered. -/
def sharedIdLog : List Event :=
  [{ timestamp := 0, invocationId := "i", author := "first"
     content := some { role := "model", parts := [.functionCall "pay" .null (some "c1") none] } },
   { timestamp := 1, invocationId := "i", author := "second"
     content := some { role := "model", parts := [.functionCall "pay" .null (some "c1") none] } },
   { timestamp := 2, invocationId := "i", author := "second"
     content := some { role := "function", parts := [.functionResponse { name := "pay", response := .null } (some "c1") none] } }]

/-- A recovery over a ledger without records. -/
def plainRecovery : Recovery where
  identity := { appName := "app", userId := "user", sessionId := "session" }
  ledger := some fun _ => none
  audit := none
  now := 3

theorem not_recoveredOnce : ¬ ∀ (r : Recovery) ledger log count log', r.ledger = some ledger →
    r.recoverUnansweredCalls log = .ok (count, log') → RecoveredOnce r.identity ledger log log' := by
  intro h
  have hrecovered := h plainRecovery _ sharedIdLog 1 _ rfl rfl
  have := hrecovered.once { author := "first", branch := "", invocationId := "i", label := .id "c1" }
  exact absurd this (by decide +kernel)

/-- The ledger after the call under a key succeeded. -/
def paidLedger : ActionLedger := fun key =>
  if key = "app/user/session/i/c1" then
    some { key, toolName := "pay", argsDigest := "", effect := .nonIdempotent, startedAt := 0,
           outcome := some (.succeeded "digest") }
  else none

/-- A call that succeeded before its process stopped. -/
theorem interruptedOnce_of_paid : ∃ log', RecoveredOnce plainRecovery.identity paidLedger (sharedIdLog.take 1) log' := by
  refine ⟨_, ((interruptedOnce (sharedIdLog.take 1)).2 { plainRecovery with ledger := some paidLedger } paidLedger 1 _
    rfl rfl).mpr ⟨fun label => ?_, ⟨fun id first hfirst second hsecond => ?_, fun name issued hissued => ?_⟩⟩⟩
  · have hnone : replies (callMarks (sharedIdLog.take 1)) = [] := rfl
    constructor
    · intro first hfirst
      have : replies first = [] := List.prefix_nil.mp (hnone ▸ hfirst.filterMap _)
      simp [this]
    · rw [hnone]
      exact List.Perm.refl _
  · have hfirst := List.mem_singleton.mp (List.mem_of_mem_filter (List.mem_of_mem_drop hfirst))
    have hsecond := List.mem_singleton.mp (List.mem_of_mem_filter (List.mem_of_mem_drop hsecond))
    rw [hfirst, hsecond]
  · have hmem := List.mem_of_mem_drop hissued
    have hname := (mem_ofLabel.mp hmem).2
    rw [List.mem_singleton.mp (List.mem_of_mem_filter hmem)] at hname
    cases hname

end Adk
