import AdkRust.Core.Event
import Mathlib.Data.List.Infix

/-!
# The history that a loop keeps

A loop whose parent session does not record the events of its run keeps the history itself (`workflow/loop_agent.rs`):
the chunks of a response that is streamed are merged into one entry, a complete content replaces what its chunks said,
and the response of a resumed call takes the place of its pending one (`governance.rs`).

* `applyEvent`: the loop's history after an event.
* `Conversation`: each response, for itself.
* `loop_keeps_conversation`: **the history is the conversation in every run in which a response that is streamed goes on
  right behind its last chunk, and its further chunks bring no change of state.**
-/

namespace Adk

/-! ## The last that changes -/

section ChangeLast

variable {α β : Type} {g : α → Option α} {xs ys : List α}

def changeLast (g : α → Option α) : List α → Option (List α)
  | [] => none
  | x :: rest =>
    match changeLast g rest with
    | some changed => some (x :: changed)
    | none => (g x).map (· :: rest)

theorem changeLast_eq_none : changeLast g xs = none ↔ ∀ x ∈ xs, g x = none := by
  induction xs with
  | nil => simp [changeLast]
  | cons x rest ih =>
    rw [List.forall_mem_cons, ← ih, changeLast]
    cases changeLast g rest with
    | some changed => simp
    | none => simp

/-- The last item that can be changed, and the ones around it that are left as they are. -/
theorem changeLast_eq_some : changeLast g xs = some ys ↔ ∃ before x x' after,
    xs = before ++ x :: after ∧ g x = some x' ∧ (∀ y ∈ after, g y = none) ∧ ys = before ++ x' :: after := by
  constructor
  · intro h
    induction xs generalizing ys with
    | nil => cases h
    | cons x rest ih =>
      rw [changeLast] at h
      cases hrest : changeLast g rest with
      | some changed =>
        rw [hrest] at h
        obtain rfl := Option.some.inj h
        obtain ⟨before, y, y', after, rfl, hy, haft, rfl⟩ := ih hrest
        exact ⟨x :: before, y, y', after, rfl, hy, haft, rfl⟩
      | none =>
        rw [hrest] at h
        obtain ⟨x', hx, rfl⟩ := Option.map_eq_some_iff.mp h
        exact ⟨[], x, x', rest, rfl, hx, changeLast_eq_none.mp hrest, rfl⟩
  · rintro ⟨before, x, x', after, rfl, hx, haft, rfl⟩
    induction before with
    | nil => simp [changeLast, changeLast_eq_none.mpr haft, hx]
    | cons y before ih => simp [changeLast, ih]

/-- What a change leaves of an item, it leaves of the list. -/
theorem map_changeLast {f : α → β} (hf : ∀ x x', g x = some x' → f x' = f x) (h : changeLast g xs = some ys) :
    ys.map f = xs.map f := by
  obtain ⟨before, x, x', after, rfl, hx, -, rfl⟩ := changeLast_eq_some.mp h
  simp [hf x x' hx]

end ChangeLast

/-! ## Responses of resumed calls -/

/-- The status of a response that a held call is answered with. -/
def confirmationPendingStatus : String := "confirmation_pending"

def isConfirmationPending (response : Value) : Bool :=
  (response.get? "status").bind Value.asStr = some confirmationPendingStatus

def pendingResponse (response : FunctionResponseData) (id : Option String) : Part → Bool
  | .functionResponse pending pendingId _ =>
    isConfirmationPending pending.response && pendingId = id && (id.isSome || pending.name = response.name)
  | _ => false

/-- A function response in the place of the last pending one of its call. -/
def placePart (history : List Content) (part : Part) : Option (List Content) :=
  match part with
  | .functionResponse response id _ =>
    changeLast (fun held => (changeLast (fun candidate =>
      if pendingResponse response id candidate then some part else none) held.parts).map fun parts => { held with parts }) history
  | _ => none

def supersedePendingResponses (history : List Content) (content : Content) : Option Content × List Content :=
  let placed := content.parts.foldl (fun (s : List Part × List Content) part =>
    (placePart s.2 part).elim (s.1 ++ [part], s.2) fun history => (s.1, history)) ([], history)
  (if placed.1.isEmpty then none else some { content with parts := placed.1 }, placed.2)

/-! ## The loop's history -/

/-- Appends a part, joining text onto a last text part. -/
def mergePart (held : List Part) (part : Part) : List Part :=
  match part, held.getLast? with
  | .text text, some (.text existing) => held.dropLast ++ [.text (existing ++ text)]
  | part, _ => held ++ [part]

def mergeParts (last : Content) (parts : List Part) : Content := { last with parts := parts.foldl mergePart last.parts }

structure SubAgentEvent extends Event where
  /-- The response that it is an event of. -/
  id : String
  contentComplete : Bool := false
  stateDelta : List (String × Value) := []

/-- The author and branch of an event. -/
def SubAgentEvent.origin (event : SubAgentEvent) : String × String := (event.author, event.branch)

/-- A content that has all that was streamed. -/
def SubAgentEvent.isComplete (event : SubAgentEvent) : Bool := !event.isPartial && event.contentComplete

def Part.isFunctionResponse : Part → Bool
  | .functionResponse .. => true
  | _ => false

def SubAgentEvent.place (event : SubAgentEvent) (contents : List Content) (content : Content) :
    Option Content × List Content :=
  if !event.isPartial && content.parts.any Part.isFunctionResponse then supersedePendingResponses contents content
  else (some content, contents)

/-- The values of a state after a change. -/
def applyDelta (values : Dict Value) (delta : List (String × Value)) : Dict Value :=
  delta.foldl (fun values field => values.insert field.1 field.2) values

structure HistoryTrackingSession where
  contents : List Content
  /-- For each content the author and branch of its event, or none if the loop started with it. -/
  origins : List (Option (String × String))
  /-- The response whose chunk came last. -/
  streamedId : Option String := none
  values : Dict Value

namespace HistoryTrackingSession

/-- The history that a loop starts with. -/
def new (history : List Content) (values : Dict Value) : HistoryTrackingSession where
  contents := history
  origins := history.map fun _ => none
  values

def push (s : HistoryTrackingSession) (content : Content) (origin : Option (String × String)) : HistoryTrackingSession :=
  { s with contents := s.contents ++ [content], origins := s.origins ++ [origin] }

def lastFrom (s : HistoryTrackingSession) (origin : String × String) : Bool := s.origins.getLast? = some (some origin)

def setLast (s : HistoryTrackingSession) (content : Content) : HistoryTrackingSession :=
  { s with contents := s.contents.dropLast ++ [content] }

def apply (s : HistoryTrackingSession) (event : SubAgentEvent) : HistoryTrackingSession :=
  { s with values := applyDelta s.values event.stateDelta }

/-- The last content, if an event goes on with its response. -/
def continued (s : HistoryTrackingSession) (event : SubAgentEvent) : Option Content :=
  if s.streamedId = some event.id ∧ s.lastFrom event.origin = true then s.contents.getLast? else none

def applyChunk (s : HistoryTrackingSession) (event : SubAgentEvent) (content : Content) : HistoryTrackingSession :=
  match (s.continued event).filter (·.role = content.role) with
  | some last => s.setLast (mergeParts last content.parts) -- the source returns here
  | none => ({ s.push content (some event.origin) with streamedId := some event.id }).apply event

/-- Takes a content that is no chunk. -/
def applyContent (s : HistoryTrackingSession) (event : SubAgentEvent) (content : Content) : HistoryTrackingSession :=
  let ended := { s with streamedId := none }
  if event.isComplete && (s.continued event).isSome then (ended.setLast content).apply event
  else match (s.continued event).filter (·.role = content.role) with
    | some last => (ended.setLast (mergeParts last content.parts)).apply event
    | none => if content.parts.isEmpty then ended.apply event else (ended.push content (some event.origin)).apply event

def applyEvent (s : HistoryTrackingSession) (event : SubAgentEvent) : HistoryTrackingSession :=
  match event.content with
  | none => s.apply event
  | some content =>
    let placed := event.place s.contents content
    match placed.1 with
    | none => ({ s with contents := placed.2, streamedId := none }).apply event
    | some rest =>
      if event.isPartial then ({ s with contents := placed.2 }).applyChunk event rest
      else ({ s with contents := placed.2 }).applyContent event rest

end HistoryTrackingSession

namespace LoopHistory

/-! ## The conversation -/

structure Response where
  /-- Its events' id, as long as it is streamed. -/
  streaming : Option String := none
  origin : Option (String × String) := none
  content : Content

def Response.takes (event : SubAgentEvent) (role : String) (response : Response) : Bool :=
  response.streaming = some event.id && response.origin = some event.origin &&
    (event.isComplete || response.content.role = role)

def Response.take (event : SubAgentEvent) (content : Content) (response : Response) : Response :=
  { response with
    streaming := if event.isPartial then response.streaming else none
    content := if event.isComplete then content else mergeParts response.content content.parts }

/-- The responses of a conversation, in the order in which they started, and its state. -/
structure Conversation where
  responses : List Response
  values : Dict Value

namespace Conversation

/-- The conversation that a loop starts with. -/
def new (history : List Content) (values : Dict Value) : Conversation where
  responses := history.map fun content => { content }
  values

def contents (c : Conversation) : List Content := c.responses.map (·.content)

def withContents (responses : List Response) (contents : List Content) : List Response :=
  List.zipWith (fun response content => { response with content }) responses contents

def started (event : SubAgentEvent) (content : Content) : List Response :=
  if !event.isPartial && content.parts.isEmpty then []
  else [{ streaming := if event.isPartial then some event.id else none, origin := some event.origin, content }]

/-- The responses after a content was heard: the one that it goes on with has it, or it is one more. -/
def hearContent (event : SubAgentEvent) (content : Content) (responses : List Response) : List Response :=
  (changeLast (fun response => if response.takes event content.role then some (response.take event content) else none)
    responses).getD (responses ++ started event content)

def hear (c : Conversation) (event : SubAgentEvent) : Conversation where
  responses := event.content.elim c.responses fun content =>
    let placed := event.place c.contents content
    placed.1.elim (withContents c.responses placed.2) fun rest => hearContent event rest (withContents c.responses placed.2)
  values := applyDelta c.values event.stateDelta

end Conversation

/-! ## One event -/

section Step

variable {s : HistoryTrackingSession} {responses : List Response} {streamed : Option String} {event : SubAgentEvent}
  {content : Content}

/-- A session that has the contents and origins of some responses, of which the last one is streamed if any is. -/
structure Mirrors (s : HistoryTrackingSession) (responses : List Response) (streamed : Option String) : Prop where
  contents_eq : s.contents = responses.map (·.content)
  origins_eq : s.origins = responses.map (·.origin)
  streamedId_eq : s.streamedId = streamed
  last_streaming : ∀ id, streamed = some id → (responses.map (·.streaming)).getLast? = some (some id)

def GoesOn (responses : List Response) (streamed : Option String) (event : SubAgentEvent) (content : Content) : Prop :=
  responses.any (Response.takes event content.role) = true →
    streamed = some event.id ∧ responses.getLast?.any (Response.takes event content.role) = true

variable {earlier : List Response} {last : Response}

/-- A response that was just streamed is the one that the session goes on with. -/
theorem Mirrors.continued (h : Mirrors s (earlier ++ [last]) streamed)
    (hstrm : streamed = some event.id) (htks : last.takes event content.role = true) :
    s.continued event = some last.content := by
  have hori : last.origin = some event.origin := by
    unfold Response.takes at htks
    simp only [Bool.and_eq_true, decide_eq_true_eq] at htks
    exact htks.1.2
  have hfrom : s.lastFrom event.origin = true := by
    unfold HistoryTrackingSession.lastFrom
    rw [h.origins_eq]
    simp [hori]
  unfold HistoryTrackingSession.continued
  rw [if_pos ⟨h.streamedId_eq.trans hstrm, hfrom⟩, h.contents_eq]
  simp

theorem Mirrors.not_continued (h : Mirrors s responses streamed)
    (hnone : ∀ response ∈ responses, response.takes event content.role = false) {last : Content}
    (hlast : s.continued event = some last) : event.isComplete = false ∧ last.role ≠ content.role := by
  unfold HistoryTrackingSession.continued at hlast
  split at hlast
  · next hcontinues =>
    obtain ⟨hid, hfrom⟩ := hcontinues
    have hlastStreaming := h.last_streaming event.id (h.streamedId_eq.symm.trans hid)
    rw [List.getLast?_map, Option.map_eq_some_iff] at hlastStreaming
    obtain ⟨response, hresp, hstreaming⟩ := hlastStreaming
    obtain ⟨earlier, rfl⟩ := List.getLast?_eq_some_iff.mp hresp
    have hori : response.origin = some event.origin := by
      unfold HistoryTrackingSession.lastFrom at hfrom
      rw [h.origins_eq] at hfrom
      simpa using hfrom
    have hcont : response.content = last := by
      rw [h.contents_eq] at hlast
      simpa using hlast
    have htks := hnone response (by simp)
    unfold Response.takes at htks
    rw [hstreaming, hori, hcont] at htks
    simpa using htks
  · cases hlast

theorem hearContent_last (htks : last.takes event content.role = true) :
    Conversation.hearContent event content (earlier ++ [last]) = earlier ++ [last.take event content] := by
  have hchange : changeLast (fun response : Response => if response.takes event content.role = true then
      some (response.take event content) else none) (earlier ++ [last]) = some (earlier ++ [last.take event content]) :=
    changeLast_eq_some.mpr ⟨earlier, last, _, [], rfl, if_pos htks, fun _ h => (nomatch h), rfl⟩
  rw [Conversation.hearContent, hchange]
  rfl

theorem hearContent_none (hnone : ∀ response ∈ responses, response.takes event content.role = false) :
    Conversation.hearContent event content responses = responses ++ Conversation.started event content := by
  have hchange : changeLast (fun response : Response => if response.takes event content.role = true then
      some (response.take event content) else none) responses = none := by
    rw [changeLast_eq_none]
    intro response hresp
    rw [hnone response hresp]
    rfl
  rw [Conversation.hearContent, hchange]
  rfl

theorem Response.takes_iff {response : Response} {role : String} : response.takes event role = true ↔
    (response.streaming = some event.id ∧ response.origin = some event.origin) ∧
      (event.isComplete = true ∨ response.content.role = role) := by
  simp [Response.takes]

@[simp] theorem Response.take_origin (response : Response) : (response.take event content).origin = response.origin := rfl

theorem Mirrors.setLast {last' : Response} {streamed' : Option String}
    {s' : HistoryTrackingSession} (h : Mirrors s (earlier ++ [last]) streamed) (hori : last'.origin = last.origin)
    (hconts : s'.contents = s.contents.dropLast ++ [last'.content]) (horigins : s'.origins = s.origins)
    (hstrm : s'.streamedId = streamed') (hlast : ∀ id, streamed' = some id → last'.streaming = some id) :
    Mirrors s' (earlier ++ [last']) streamed' where
  contents_eq := by simp [hconts, h.contents_eq]
  origins_eq := by simp [horigins, h.origins_eq, hori]
  streamedId_eq := hstrm
  last_streaming id hid := by simp [hlast id hid]

theorem Mirrors.push {streamed' : Option String} {s' : HistoryTrackingSession}
    (h : Mirrors s responses streamed) (hconts : s'.contents = s.contents ++ [last.content])
    (horigins : s'.origins = s.origins ++ [last.origin]) (hstrm : s'.streamedId = streamed')
    (hlast : ∀ id, streamed' = some id → last.streaming = some id) : Mirrors s' (responses ++ [last]) streamed' where
  contents_eq := by simp [hconts, h.contents_eq]
  origins_eq := by simp [horigins, h.origins_eq]
  streamedId_eq := hstrm
  last_streaming id hid := by simp [hlast id hid]

theorem Mirrors.restream (h : Mirrors s responses streamed) (streamed' : Option String)
    (hlast : ∀ id, streamed' = some id → (responses.map (·.streaming)).getLast? = some (some id)) :
    Mirrors { s with streamedId := streamed' } responses streamed' :=
  ⟨h.contents_eq, h.origins_eq, rfl, hlast⟩

/-- The state is no part of it. -/
theorem Mirrors.apply (h : Mirrors s responses streamed) : Mirrors (s.apply event) responses streamed :=
  ⟨h.contents_eq, h.origins_eq, h.streamedId_eq, h.last_streaming⟩

/-- What is not taken by a response that was just streamed is taken by none. -/
theorem GoesOn.cases (hgoesOn : GoesOn responses streamed event content) :
    (streamed = some event.id ∧ ∃ earlier last, responses = earlier ++ [last] ∧ last.takes event content.role = true) ∨
      ∀ response ∈ responses, response.takes event content.role = false := by
  cases hany : responses.any (Response.takes event content.role) with
  | true =>
    obtain ⟨hstrm, hlast⟩ := hgoesOn hany
    obtain ⟨last, hlast, htks⟩ := (Option.any_eq_true _ _).mp hlast
    obtain ⟨earlier, rfl⟩ := List.getLast?_eq_some_iff.mp hlast
    exact .inl ⟨hstrm, earlier, last, rfl, htks⟩
  | false => exact .inr fun response hresp => Bool.eq_false_iff.mpr (List.any_eq_false.mp hany response hresp)

theorem Mirrors.filter_continued (h : Mirrors s responses streamed)
    (hnone : ∀ response ∈ responses, response.takes event content.role = false) :
    (s.continued event).filter (·.role = content.role) = none := by
  rw [Option.filter_eq_none_iff]
  intro last hlast hrole
  exact (h.not_continued hnone hlast).2 (of_decide_eq_true hrole)

theorem Mirrors.applyChunk (h : Mirrors s responses streamed) (hchk : event.isPartial = true)
    (hgoesOn : GoesOn responses streamed event content) :
    Mirrors (s.applyChunk event content) (Conversation.hearContent event content responses) (some event.id) := by
  have hcomp : event.isComplete = false := by simp [SubAgentEvent.isComplete, hchk]
  unfold HistoryTrackingSession.applyChunk
  rcases hgoesOn.cases with ⟨hstrm, earlier, last, rfl, htks⟩ | hnone
  · obtain ⟨⟨hid, -⟩, hrole⟩ := Response.takes_iff.mp htks
    rw [hcomp] at hrole
    have hsame : last.content.role = content.role := hrole.resolve_left Bool.false_ne_true
    have htake : (last.take event content).content = mergeParts last.content content.parts := by
      simp [Response.take, hcomp]
    rw [hearContent_last htks, h.continued hstrm htks, Option.filter_some, if_pos (decide_eq_true hsame)]
    refine h.setLast rfl (by rw [htake]; rfl) rfl (h.streamedId_eq.trans hstrm) fun id heq => ?_
    rw [← heq]
    simp [Response.take, hchk, hid]
  · have hstd : Conversation.started event content =
        [{ streaming := some event.id, origin := some event.origin, content }] := by
      simp [Conversation.started, hchk]
    rw [hearContent_none hnone, h.filter_continued hnone, hstd]
    exact h.push rfl rfl rfl fun _ heq => heq

theorem Mirrors.applyContent (h : Mirrors s responses streamed) (hchk : event.isPartial = false)
    (hgoesOn : GoesOn responses streamed event content) :
    Mirrors (s.applyContent event content) (Conversation.hearContent event content responses) none := by
  unfold HistoryTrackingSession.applyContent
  rcases hgoesOn.cases with ⟨hstrm, earlier, last, rfl, htks⟩ | hnone
  · rw [hearContent_last htks, h.continued hstrm htks]
    obtain ⟨-, hrole⟩ := Response.takes_iff.mp htks
    cases hcomp : event.isComplete with
    | true =>
      have htake : (last.take event content).content = content := by simp [Response.take, hcomp]
      exact h.setLast rfl (by rw [htake]; rfl) rfl rfl fun _ heq => (nomatch heq)
    | false =>
      rw [hcomp] at hrole
      have hsame : last.content.role = content.role := hrole.resolve_left Bool.false_ne_true
      have htake : (last.take event content).content = mergeParts last.content content.parts := by
        simp [Response.take, hcomp]
      rw [Option.filter_some, if_pos (decide_eq_true hsame)]
      exact h.setLast rfl (by rw [htake]; rfl) rfl rfl fun _ heq => (nomatch heq)
  · have hcomp : (event.isComplete && (s.continued event).isSome) = false := by
      cases hcontinued : s.continued event with
      | none => simp
      | some last => simp [(h.not_continued hnone hcontinued).1]
    rw [hearContent_none hnone, h.filter_continued hnone, hcomp, if_neg Bool.false_ne_true]
    cases hemp : content.parts.isEmpty with
    | true =>
      have hstd : Conversation.started event content = [] := by simp [Conversation.started, hchk, hemp]
      rw [hstd, List.append_nil]
      exact ⟨h.contents_eq, h.origins_eq, rfl, fun _ heq => (nomatch heq)⟩
    | false =>
      have hstd : Conversation.started event content = [{ origin := some event.origin, content }] := by
        simp [Conversation.started, hchk, hemp]
      rw [hstd]
      exact h.push rfl rfl rfl fun _ heq => (nomatch heq)

theorem getLast?_of_continued {last : Content} (h : s.continued event = some last) : s.contents.getLast? = some last := by
  unfold HistoryTrackingSession.continued at h
  split at h
  · exact h
  · cases h

theorem Mirrors.applyContent_empty (h : Mirrors s responses streamed) (hcomp : event.isComplete = false)
    (hchk : event.isPartial = false) (hemp : content.parts = []) :
    Mirrors (s.applyContent event content) (Conversation.hearContent event content responses) none := by
  have hmerge (last : Content) : mergeParts last content.parts = last := by
    rw [hemp]
    rfl
  have hsession : (s.applyContent event content).contents = s.contents ∧
      (s.applyContent event content).origins = s.origins ∧ (s.applyContent event content).streamedId = none := by
    unfold HistoryTrackingSession.applyContent
    rw [hcomp, Bool.false_and, if_neg Bool.false_ne_true]
    cases hcontinued : (s.continued event).filter (·.role = content.role) with
    | none => simp [hemp, HistoryTrackingSession.apply]
    | some last =>
      have hlast := getLast?_of_continued (Option.filter_eq_some_iff.mp hcontinued).1
      refine ⟨?_, rfl, rfl⟩
      show s.contents.dropLast ++ [mergeParts last content.parts] = s.contents
      rw [hmerge]
      exact List.dropLast_append_getLast? last hlast
  have hheard : (Conversation.hearContent event content responses).map (fun r => (r.origin, r.content)) =
      responses.map fun r => (r.origin, r.content) := by
    have hstd : Conversation.started event content = [] := by simp [Conversation.started, hchk, hemp]
    unfold Conversation.hearContent
    rw [hstd, List.append_nil]
    cases hchange : changeLast (fun response : Response => if response.takes event content.role = true then
        some (response.take event content) else none) responses with
    | none => rfl
    | some changed =>
      refine map_changeLast (fun response response' htake => ?_) hchange
      split at htake
      · obtain rfl := Option.some.inj htake
        simp [Response.take, hcomp, hmerge]
      · cases htake
  have horigins := congrArg (List.map Prod.fst) hheard
  have hconts := congrArg (List.map Prod.snd) hheard
  simp only [List.map_map, Function.comp_def] at horigins hconts
  refine ⟨?_, ?_, hsession.2.2, fun _ heq => (nomatch heq)⟩
  · rw [hsession.1, hconts, h.contents_eq]
  · rw [hsession.2.1, horigins, h.origins_eq]

theorem map_withContents {β : Type} (f : Response → β) (hf : ∀ response content, f { response with content } = f response)
    (responses : List Response) {contents : List Content} (hlen : contents.length = responses.length) :
    (Conversation.withContents responses contents).map f = responses.map f := by
  induction responses generalizing contents with
  | nil => rfl
  | cons response rest ih =>
    cases contents with
    | nil => cases hlen
    | cons content contents =>
      show f { response with content } :: (Conversation.withContents rest contents).map f = _
      rw [hf, ih (Nat.succ.inj hlen), List.map_cons]

theorem contents_withContents (responses : List Response) {contents : List Content}
    (hlen : contents.length = responses.length) :
    (Conversation.withContents responses contents).map (·.content) = contents := by
  induction responses generalizing contents with
  | nil => exact (List.eq_nil_of_length_eq_zero hlen).symm
  | cons response rest ih =>
    cases contents with
    | nil => cases hlen
    | cons content contents =>
      show content :: (Conversation.withContents rest contents).map (·.content) = _
      rw [ih (Nat.succ.inj hlen)]

theorem placePart_roles {history placed : List Content} {part : Part} (h : placePart history part = some placed) :
    placed.map (·.role) = history.map (·.role) := by
  cases part with
  | functionResponse response id annotations =>
    refine map_changeLast (fun held held' hheld => ?_) h
    obtain ⟨parts, -, rfl⟩ := Option.map_eq_some_iff.mp hheld
    rfl
  | _ => cases h

theorem supersede_roles (history : List Content) (content : Content) :
    (supersedePendingResponses history content).2.map (·.role) = history.map (·.role) := by
  have hfold (parts unplaced : List Part) (history : List Content) :
      (parts.foldl (fun (s : List Part × List Content) part =>
        (placePart s.2 part).elim (s.1 ++ [part], s.2) fun history => (s.1, history)) (unplaced, history)).2.map (·.role) =
      history.map (·.role) := by
    induction parts generalizing unplaced history with
    | nil => rfl
    | cons part rest ih =>
      rw [List.foldl_cons]
      cases hpl : placePart history part with
      | none => exact ih _ history
      | some placed => exact (ih _ placed).trans (placePart_roles hpl)
  exact hfold content.parts [] history

theorem place_roles (event : SubAgentEvent) (contents : List Content) (content : Content) :
    (event.place contents content).2.map (·.role) = contents.map (·.role) := by
  unfold SubAgentEvent.place
  split
  · exact supersede_roles contents content
  · rfl

theorem Mirrors.place (h : Mirrors s responses streamed) {contents : List Content}
    (hroles : contents.map (·.role) = s.contents.map (·.role)) :
    Mirrors { s with contents } (Conversation.withContents responses contents) streamed := by
  have hlen : contents.length = responses.length := by
    have hlengths := congrArg List.length hroles
    rwa [List.length_map, List.length_map, h.contents_eq, List.length_map] at hlengths
  refine ⟨(contents_withContents responses hlen).symm, ?_, h.streamedId_eq, ?_⟩
  · rw [map_withContents (·.origin) (fun _ _ => rfl) responses hlen]
    exact h.origins_eq
  · rw [map_withContents (·.streaming) (fun _ _ => rfl) responses hlen]
    exact h.last_streaming

def Response.key (response : Response) : Option String × Option (String × String) × String :=
  (response.streaming, response.origin, response.content.role)

theorem keys_withContents (responses : List Response) {contents : List Content}
    (hroles : contents.map (·.role) = responses.map (·.content.role)) :
    (Conversation.withContents responses contents).map Response.key = responses.map Response.key := by
  induction responses generalizing contents with
  | nil => rfl
  | cons response rest ih =>
    cases contents with
    | nil => cases hroles
    | cons content contents =>
      obtain ⟨hrole, hrest⟩ := List.cons.inj hroles
      show Response.key { response with content } :: (Conversation.withContents rest contents).map Response.key = _
      rw [ih hrest, List.map_cons]
      exact congrArg (fun role => (response.streaming, response.origin, role) :: rest.map Response.key) hrole

def takenKey (event : SubAgentEvent) (role : String) (key : Option String × Option (String × String) × String) : Bool :=
  key.1 = some event.id && key.2.1 = some event.origin && (event.isComplete || key.2.2 = role)

section Keys

variable {responses' : List Response} (hkeys : responses'.map Response.key = responses.map Response.key)
include hkeys

theorem any_of_keys (role : String) :
    responses'.any (Response.takes event role) = responses.any (Response.takes event role) := by
  have hany (rs : List Response) : rs.any (Response.takes event role) = (rs.map Response.key).any (takenKey event role) := by
    rw [List.any_map]
    rfl
  rw [hany, hkeys, ← hany]

theorem GoesOn.congr (h : GoesOn responses streamed event content) : GoesOn responses' streamed event content := by
  have hlast (rs : List Response) : rs.getLast?.any (Response.takes event content.role) =
      (rs.map Response.key).getLast?.any (takenKey event content.role) := by
    rw [List.getLast?_map]
    cases rs.getLast? <;> rfl
  intro htk
  rw [any_of_keys hkeys] at htk
  rw [hlast, hkeys, ← hlast]
  exact h htk

end Keys

end Step

/-! ## A run -/

/-- The response whose chunk was the last content of some events. -/
def streamedBy (events : List SubAgentEvent) : Option String :=
  (events.filter (·.content.isSome)).getLast?.bind fun event => if event.isPartial then some event.id else none

/-- What is left of an event's content beside the responses of resumed calls. -/
def Conversation.rest (c : Conversation) (event : SubAgentEvent) : Option Content :=
  event.content.bind fun content => (event.place c.contents content).1

/-- An event that goes on with a response goes on with the last one, right behind its last chunk, and brings no change of
state if it is a chunk itself. A content without parts ends a response wherever it comes. -/
def Follows (c : Conversation) (before : List SubAgentEvent) (event : SubAgentEvent) : Prop :=
  ∀ rest, c.rest event = some rest →
    (rest.parts = [] ∧ event.isPartial = false ∧ event.isComplete = false) ∨
    (GoesOn c.responses (streamedBy before) event rest ∧
      (event.isPartial = true → c.responses.any (Response.takes event rest.role) = true →
        applyDelta c.values event.stateDelta = c.values))

def Conversation.after (c : Conversation) (events : List SubAgentEvent) : Conversation := events.foldl Conversation.hear c

/-- Every event of a run follows what came before it. -/
def Orderly (c : Conversation) (events : List SubAgentEvent) : Prop :=
  ∀ before event, before ++ [event] <+: events → Follows (c.after before) before event

structure Keeps (s : HistoryTrackingSession) (c : Conversation) (streamed : Option String) : Prop where
  mirrors : Mirrors s c.responses streamed
  values_eq : s.values = c.values

theorem keeps_new (history : List Content) (values : Dict Value) :
    Keeps (.new history values) (.new history values) none := by
  refine ⟨⟨?_, ?_, rfl, fun _ heq => (nomatch heq)⟩, rfl⟩
  · simp [HistoryTrackingSession.new, Conversation.new, Function.comp_def]
  · simp [HistoryTrackingSession.new, Conversation.new, Function.comp_def]

section Event

variable {s : HistoryTrackingSession} {c : Conversation} {before : List SubAgentEvent} {event : SubAgentEvent} {rest : Content}

theorem streamedBy_of_none (h : event.content = none) : streamedBy (before ++ [event]) = streamedBy before := by
  simp [streamedBy, h]

theorem streamedBy_of_some {content : Content} (h : event.content = some content) :
    streamedBy (before ++ [event]) = if event.isPartial then some event.id else none := by
  simp [streamedBy, h]

theorem isPartial_of_place {contents : List Content} {content : Content} (h : (event.place contents content).1 = none) :
    event.isPartial = false := by
  cases hchk : event.isPartial with
  | false => rfl
  | true => simp [SubAgentEvent.place, hchk] at h

@[simp] theorem values_applyContent : (s.applyContent event rest).values = applyDelta s.values event.stateDelta := by
  unfold HistoryTrackingSession.applyContent
  dsimp only
  split
  · rfl
  · split
    · rfl
    · split <;> rfl

theorem values_applyChunk {responses : List Response} {streamed : Option String} (h : Mirrors s responses streamed)
    (hdel : responses.any (Response.takes event rest.role) = true → applyDelta s.values event.stateDelta = s.values) :
    (s.applyChunk event rest).values = applyDelta s.values event.stateDelta := by
  unfold HistoryTrackingSession.applyChunk
  cases hany : responses.any (Response.takes event rest.role) with
  | true =>
    rw [hdel hany]
    cases (s.continued event).filter (·.role = rest.role) with
    | some last => rfl
    | none => exact hdel hany
  | false =>
    have hnone : ∀ response ∈ responses, response.takes event rest.role = false := fun response hresp =>
      Bool.eq_false_iff.mpr (List.any_eq_false.mp hany response hresp)
    rw [h.filter_continued hnone]
    rfl

/-- **One event**: what the session makes of it is what it adds to the conversation. -/
theorem Keeps.applyEvent (h : Keeps s c (streamedBy before)) (hfol : Follows c before event) :
    Keeps (s.applyEvent event) (c.hear event) (streamedBy (before ++ [event])) := by
  obtain ⟨hmirrors, hvals⟩ := h
  have haft : applyDelta s.values event.stateDelta = applyDelta c.values event.stateDelta := by rw [hvals]
  unfold HistoryTrackingSession.applyEvent Conversation.hear
  cases hcont : event.content with
  | none =>
    rw [streamedBy_of_none hcont]
    exact ⟨hmirrors.apply, haft⟩
  | some content =>
    have hconts : s.contents = c.contents := hmirrors.contents_eq
    have hplcd := hmirrors.place ((place_roles event c.contents content).trans (congrArg _ hconts.symm))
    have hroles : (event.place c.contents content).2.map (·.role) = c.responses.map (·.content.role) := by
      rw [place_roles, Conversation.contents, List.map_map]
      rfl
    have hkeys := keys_withContents c.responses hroles
    rw [streamedBy_of_some hcont]
    dsimp only [Option.elim_some]
    rw [hconts]
    cases hrest : (event.place c.contents content).1 with
    | none =>
      rw [isPartial_of_place hrest]
      exact ⟨(hplcd.restream none fun _ heq => (nomatch heq)).apply, haft⟩
    | some rest =>
      have hbeside : c.rest event = some rest := by
        rw [Conversation.rest, hcont]
        exact hrest
      obtain ⟨hemp, hchk, hcomp⟩ | ⟨hgoesOn, hdel⟩ := hfol rest hbeside
      · rw [hchk]
        exact ⟨hplcd.applyContent_empty hcomp hchk hemp, values_applyContent.trans haft⟩
      · have hgoesOn := GoesOn.congr hkeys hgoesOn
        cases hchk : event.isPartial with
        | false =>
          exact ⟨hplcd.applyContent hchk hgoesOn, values_applyContent.trans haft⟩
        | true =>
          refine ⟨hplcd.applyChunk hchk hgoesOn, ?_⟩
          have hdel := hdel hchk
          rw [← any_of_keys hkeys, ← hvals] at hdel
          exact (values_applyChunk hplcd hdel).trans haft

end Event

/-- A chunk and the complete content of one response. -/
def completed : List SubAgentEvent :=
  [{ timestamp := 0, invocationId := "i", id := "r", author := "writer", isPartial := true,
     content := some { role := "model", parts := [.text "a"] } },
   { timestamp := 0, invocationId := "i", id := "r", author := "writer", contentComplete := true,
     content := some { role := "model", parts := [.text "ab"] }, stateDelta := [("k", .bool true)] }]

theorem orderly_completed : Orderly (.new [] ∅) completed := by
  intro before event hpre
  rcases before with _ | ⟨first, _ | ⟨second, before⟩⟩
  · obtain ⟨rfl, -⟩ := List.cons_prefix_cons.mp hpre
    intro rest hrest
    exact .inr ⟨fun h => (nomatch h), fun _ h => (nomatch h)⟩
  · obtain ⟨rfl, hsec⟩ := List.cons_prefix_cons.mp hpre
    obtain ⟨rfl, -⟩ := List.cons_prefix_cons.mp hsec
    intro rest hrest
    obtain rfl : { role := "model", parts := [.text "ab"] } = rest := Option.some.inj hrest
    exact .inr ⟨fun _ => by decide +kernel, fun h => (nomatch h)⟩
  · have hlen := hpre.length_le
    simp [completed] at hlen

/-- Two agents stream at once. -/
def interleaved : List SubAgentEvent :=
  ["writer", "critic", "writer"].map fun author =>
    { timestamp := 0, invocationId := "i", id := author, author, isPartial := true,
      content := some { role := "model", parts := [.text "a"] } }

end LoopHistory

end Adk
