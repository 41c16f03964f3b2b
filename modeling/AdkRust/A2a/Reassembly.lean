import AdkRust.A2a.HandlerRuns

/-!
# A streamed artifact reassembles

The stream of a message sends the text of the agent's responses as updates of one artifact (`a2a/v1/text.rs`,
`request_handler.rs`); a client that replaces its text or appends to it has read the artifact at the end. The whole
text is recorded on the task, as it is for a message that is not streamed.

* `Streaming`: what was said, and what the client has read of it.
* `push_inStep_iff`: **the client keeps up with an event exactly when the event agrees with what was said**.
* `stream_reassembles`: both calls record one text and leave the task in one state; the client reads that text after
  every event of a run exactly when every event agrees.
-/

namespace Adk

namespace A2a

/-! ## What a client reads -/

def AgentEvent.text (event : AgentEvent) : String :=
  String.join (event.parts.filterMap fun part => match part with
    | .text text => some text
    | _ => none)

/-- Whether an event has the whole text of its response. -/
def AgentEvent.isSnapshot (event : AgentEvent) : Bool := !event.isPartial && event.contentComplete

def receiveUpdate (client text : String) (append : Bool) : String := if append then client ++ text else text

def receive (client : String) : Except A2aError StreamResponse → String
  | .ok (.artifactUpdate _ _ text append _) => receiveUpdate client text append
  | _ => client

/-- What a client reads in a stream. -/
def reassembled (items : List (Except A2aError StreamResponse)) : String := items.foldl receive ""

/-- What was said, whether an update was sent, and the text that the client has. -/
structure Streaming where
  chunks : ResponseText := []
  sent : Bool := false
  client : String := ""

namespace Streaming

def push (s : Streaming) (event : AgentEvent) : Streaming :=
  match s.chunks.push event with
  | (none, chunks) => { s with chunks }
  | (some (text, append), chunks) => { chunks, sent := true, client := receiveUpdate s.client text (s.sent && append) }

def after (s : Streaming) (events : List AgentEvent) : Streaming := events.foldl push s

/-- The client has what was said. -/
def InStep (s : Streaming) : Prop := s.client = s.chunks.text

end Streaming

def ResponseText.saidBy (chunks : ResponseText) (id : String) : String := ResponseText.text (chunks.filter (·.1 = id))

def ResponseText.since (chunks : ResponseText) (id : String) : ResponseText := chunks.dropWhile (·.1 ≠ id)

/-- What the other responses said after the first chunk of a response. -/
def ResponseText.besides (chunks : ResponseText) (id : String) : String :=
  ResponseText.text ((ResponseText.since chunks id).filter (·.1 ≠ id))

/-- A whole text that goes on where the chunks of its response end: what is missing of it reads the same after all that
was said as before what the other responses said since its first chunk. -/
def Agrees (chunks : ResponseText) (event : AgentEvent) : Prop :=
  event.isSnapshot = true → ∀ missing, event.text = ResponseText.saidBy chunks event.id ++ missing →
    event.text ++ ResponseText.besides chunks event.id =
      ResponseText.text (ResponseText.since chunks event.id) ++ missing

def said (chunks : ResponseText) (events : List AgentEvent) : ResponseText :=
  events.foldl (fun chunks event => (chunks.push event).2) chunks

/-- Every event agrees with what was said before it. -/
def Orderly (events : List AgentEvent) : Prop :=
  ∀ before event, before ++ [event] <+: events → Agrees (said [] before) event

/-! ## An event and the client -/

namespace ResponseText

variable {chunks : ResponseText} {id : String}

@[simp] theorem text_nil : text [] = "" := rfl

@[simp] theorem text_append (first second : ResponseText) : text (first ++ second) = text first ++ text second := by
  simp [text]

@[simp] theorem text_cons (chunk : String × String) (rest : ResponseText) : text (chunk :: rest) = chunk.2 ++ text rest := by
  simp [text]

theorem first_chunk (chunks : ResponseText) (id : String) : (∀ chunk ∈ chunks, chunk.1 ≠ id) ∨
    ∃ before first rest, chunks = before ++ (id, first) :: rest ∧ ∀ chunk ∈ before, chunk.1 ≠ id := by
  induction chunks with
  | nil => exact .inl fun chunk hchk => by cases hchk
  | cons chunk rest ih =>
    by_cases hid : chunk.1 = id
    · subst hid
      exact .inr ⟨[], chunk.2, rest, rfl, fun _ h => by cases h⟩
    · rcases ih with hnone | ⟨before, first, after, rfl, hbef⟩
      · exact .inl (List.forall_mem_cons.mpr ⟨hid, hnone⟩)
      · exact .inr ⟨chunk :: before, first, after, rfl, List.forall_mem_cons.mpr ⟨hid, hbef⟩⟩

section None

variable (hnone : ∀ chunk ∈ chunks, chunk.1 ≠ id)
include hnone

theorem findIdx?_none : chunks.findIdx? (·.1 = id) = none := by
  rw [List.findIdx?_eq_none_iff]
  intro chunk hchk
  exact decide_eq_false (hnone chunk hchk)

theorem filter_none : chunks.filter (·.1 = id) = [] := by
  rw [List.filter_eq_nil_iff]
  intro chunk hchk hid
  exact hnone chunk hchk (of_decide_eq_true hid)

theorem filter_all : chunks.filter (·.1 ≠ id) = chunks := by
  rw [List.filter_eq_self]
  intro chunk hchk
  exact decide_eq_true (hnone chunk hchk)

theorem since_none : since chunks id = [] := by
  rw [since, List.dropWhile_eq_nil_iff]
  intro chunk hchk
  exact decide_eq_true (hnone chunk hchk)

theorem since_first (first : String) (rest : ResponseText) :
    since (chunks ++ (id, first) :: rest) id = (id, first) :: rest := by
  rw [since, List.dropWhile_append_of_pos]
  · simp
  · intro chunk hchk
    exact decide_eq_true (hnone chunk hchk)

theorem findIdx?_first (first : String) (rest : ResponseText) :
    (chunks ++ (id, first) :: rest).findIdx? (·.1 = id) = some chunks.length := by
  rw [List.findIdx?_append, findIdx?_none hnone]
  simp [List.findIdx?_cons]

end None

theorem insertIdx_length_append (before rest : ResponseText) (chunk : String × String) :
    (before ++ rest).insertIdx before.length chunk = before ++ chunk :: rest := by
  induction before with
  | nil => rfl
  | cons first before ih => rw [List.cons_append, List.length_cons, List.insertIdx_succ_cons, ih, List.cons_append]

theorem push_of_not_isSnapshot {event : AgentEvent} (h : event.isSnapshot = false) :
    chunks.push event = chunks.add event.id event.text :=
  if_neg (by rw [← AgentEvent.isSnapshot, h]; exact Bool.false_ne_true)

theorem push_of_none {event : AgentEvent} (hnone : ∀ chunk ∈ chunks, chunk.1 ≠ event.id) :
    chunks.push event = chunks.add event.id event.text := by
  cases hsnap : event.isSnapshot with
  | false => exact push_of_not_isSnapshot hsnap
  | true =>
    refine (if_pos hsnap).trans ?_
    rw [findIdx?_none hnone]
    rfl

section Snapshot

variable {event : AgentEvent} (hsnap : event.isSnapshot = true) {before rest : ResponseText} {first : String}
  (hchks : chunks = before ++ (event.id, first) :: rest) (hbef : ∀ chunk ∈ before, chunk.1 ≠ event.id)
include hsnap hchks hbef

/-- A whole text takes the place of the first chunk of its response, and the other chunks go. -/
theorem push_snapshot : chunks.push event = if startsWith event.text (saidBy chunks event.id) = true then
      (some (String.ofList (event.text.toList.drop (saidBy chunks event.id).length), true),
        before ++ (event.id, event.text) :: rest.filter (·.1 ≠ event.id))
      else (some (text (before ++ (event.id, event.text) :: rest.filter (·.1 ≠ event.id)), false),
        before ++ (event.id, event.text) :: rest.filter (·.1 ≠ event.id)) := by
  have hidx : chunks.findIdx? (·.1 = event.id) = some before.length := by rw [hchks, findIdx?_first hbef]
  have hpl : (chunks.filter (·.1 ≠ event.id)).insertIdx before.length (event.id, event.text) =
      before ++ (event.id, event.text) :: rest.filter (·.1 ≠ event.id) := by
    rw [hchks, List.filter_append, filter_all hbef, List.filter_cons_of_neg (by simp), insertIdx_length_append]
  rw [← hpl]
  refine (if_pos hsnap).trans ?_
  rw [hidx]
  rfl

theorem push_extends {missing : String} (h : event.text = saidBy chunks event.id ++ missing) :
    chunks.push event = (some (missing, true), before ++ (event.id, event.text) :: rest.filter (·.1 ≠ event.id)) := by
  rw [push_snapshot hsnap hchks hbef, if_pos (startsWith_iff.mpr ⟨missing, h⟩)]
  have hdrop : event.text.toList.drop (saidBy chunks event.id).length = missing.toList := by
    rw [h, String.toList_append, ← String.length_toList, List.drop_left]
  rw [hdrop, String.ofList_toList]

theorem push_corrects (h : ¬∃ missing, event.text = saidBy chunks event.id ++ missing) :
    chunks.push event = (some (text (before ++ (event.id, event.text) :: rest.filter (·.1 ≠ event.id)), false),
      before ++ (event.id, event.text) :: rest.filter (·.1 ≠ event.id)) := by
  rw [push_snapshot hsnap hchks hbef, if_neg fun hsta => h (startsWith_iff.mp hsta)]

end Snapshot

/-- Nothing is sent when nothing was added. -/
theorem push_none {event : AgentEvent} {left : ResponseText} (h : chunks.push event = (none, left)) : left = chunks := by
  have hadd : chunks.add event.id event.text = (none, left) → left = chunks := by
    intro hadd
    unfold add at hadd
    split at hadd
    · exact (Prod.mk.inj hadd).2.symm
    · cases hadd
  rcases first_chunk chunks event.id with hnone | ⟨before, first, rest, hchks, hbef⟩
  · exact hadd (push_of_none hnone ▸ h)
  cases hsnap : event.isSnapshot with
  | false => exact hadd (push_of_not_isSnapshot hsnap ▸ h)
  | true =>
    by_cases hmis : ∃ missing, event.text = saidBy chunks event.id ++ missing
    · obtain ⟨missing, hmis⟩ := hmis
      rw [push_extends hsnap hchks hbef hmis] at h
      cases h
    · rw [push_corrects hsnap hchks hbef hmis] at h
      cases h

end ResponseText

section Step

variable {s : Streaming} {event : AgentEvent}

theorem inStep_push_of_add (hsent : s.sent = false → s.chunks = []) (h : s.InStep)
    (hpush : s.chunks.push event = s.chunks.add event.id event.text) : (s.push event).InStep := by
  unfold Streaming.push
  rw [hpush, ResponseText.add]
  by_cases hemp : event.text.isEmpty
  · rw [if_pos hemp]
    exact h
  · rw [if_neg hemp]
    show receiveUpdate s.client event.text (s.sent && true) = ResponseText.text (s.chunks ++ [(event.id, event.text)])
    rw [ResponseText.text_append, ← h]
    cases hs : s.sent with
    | true => simp [receiveUpdate]
    | false =>
      have hcli : s.client = "" := by
        rw [h, hsent hs]
        rfl
      simp [receiveUpdate, hcli]

theorem sent_push (hsent : s.sent = false → s.chunks = []) : (s.push event).sent = false → (s.push event).chunks = [] := by
  unfold Streaming.push
  rcases hpush : s.chunks.push event with ⟨_ | ⟨text, append⟩, left⟩
  · intro hunsent
    exact (ResponseText.push_none hpush).trans (hsent hunsent)
  · intro hunsent
    cases hunsent

/-- **The client keeps up with an event exactly when the event agrees with what was said.** -/
theorem push_inStep_iff (hsent : s.sent = false → s.chunks = []) (h : s.InStep) :
    (s.push event).InStep ↔ Agrees s.chunks event := by
  rcases ResponseText.first_chunk s.chunks event.id with hnone | ⟨before, first, rest, hchks, hbef⟩
  · refine iff_of_true (inStep_push_of_add hsent h (ResponseText.push_of_none hnone)) ?_
    intro _ missing hmis
    rw [ResponseText.besides, ResponseText.since_none hnone, hmis, ResponseText.saidBy, ResponseText.filter_none hnone]
    simp
  cases hsnap : event.isSnapshot with
  | false =>
    refine iff_of_true (inStep_push_of_add hsent h (ResponseText.push_of_not_isSnapshot hsnap)) ?_
    intro hwh
    rw [hsnap] at hwh
    cases hwh
  | true =>
    have hs : s.sent = true := by
      cases hs : s.sent with
      | true => rfl
      | false => simp [hsent hs] at hchks
    have hsin : ResponseText.since s.chunks event.id = (event.id, first) :: rest := by
      rw [hchks, ResponseText.since_first hbef]
    have hbesides : ResponseText.besides s.chunks event.id = ResponseText.text (rest.filter (·.1 ≠ event.id)) := by
      rw [ResponseText.besides, hsin, List.filter_cons_of_neg (by simp)]
    by_cases hmis : ∃ missing, event.text = ResponseText.saidBy s.chunks event.id ++ missing
    · obtain ⟨missing, hmis⟩ := hmis
      have hpush : (s.push event).InStep ↔ s.client ++ missing =
          ResponseText.text (before ++ (event.id, event.text) :: rest.filter (·.1 ≠ event.id)) := by
        unfold Streaming.push
        rw [ResponseText.push_extends hsnap hchks hbef hmis, hs]
        exact Iff.rfl
      have hagrees : Agrees s.chunks event ↔ event.text ++ ResponseText.text (rest.filter (·.1 ≠ event.id)) =
          ResponseText.text ((event.id, first) :: rest) ++ missing := by
        rw [Agrees, hsin, hbesides]
        refine ⟨fun hagrees => hagrees hsnap missing hmis, fun heq _ other hoth => ?_⟩
        have hsame := (String.append_right_inj _).mp (hmis.symm.trans hoth)
        rw [← hsame]
        exact heq
      rw [hpush, hagrees, h, hchks, ResponseText.text_append, ResponseText.text_append, String.append_assoc,
        String.append_right_inj, ResponseText.text_cons (event.id, event.text)]
      exact eq_comm
    · refine iff_of_true ?_ fun _ missing h => absurd ⟨missing, h⟩ hmis
      unfold Streaming.push
      rw [ResponseText.push_corrects hsnap hchks hbef hmis, hs]
      rfl

end Step

/-! ## A run and the client -/

namespace Streaming

theorem after_concat (s : Streaming) (events : List AgentEvent) (event : AgentEvent) :
    s.after (events ++ [event]) = (s.after events).push event := by
  simp [after]

theorem sent_after {s : Streaming} (hsent : s.sent = false → s.chunks = []) (events : List AgentEvent) :
    (s.after events).sent = false → (s.after events).chunks = [] := by
  induction events generalizing s with
  | nil => exact hsent
  | cons event rest ih => exact ih (sent_push hsent)

end Streaming

theorem chunks_after (s : Streaming) (events : List AgentEvent) : (s.after events).chunks = said s.chunks events := by
  induction events generalizing s with
  | nil => rfl
  | cons event rest ih =>
    have hpush : (s.push event).chunks = (s.chunks.push event).2 := by
      unfold Streaming.push
      rcases s.chunks.push event with ⟨_ | ⟨text, append⟩, left⟩ <;> rfl
    show ((s.push event).after rest).chunks = said (s.chunks.push event).2 rest
    rw [ih, hpush]

/-- **The client keeps up with a run exactly when every event of it agrees.** -/
theorem client_eq_iff_orderly (events : List AgentEvent) :
    (∀ read, read <+: events → (Streaming.after {} read).client = (said [] read).text) ↔ Orderly events := by
  have hsent (read : List AgentEvent) := Streaming.sent_after (s := {}) (fun _ => rfl) read
  have hchks (read : List AgentEvent) : (Streaming.after {} read).chunks = said [] read := chunks_after {} read
  have hinStep (read : List AgentEvent) :
      (Streaming.after {} read).client = (said [] read).text ↔ (Streaming.after {} read).InStep := by
    rw [Streaming.InStep, hchks]
  constructor
  · intro h before event hread
    have hpush := (hinStep _).mp (h _ hread)
    have hbef := (hinStep _).mp (h before ((List.prefix_append _ _).trans hread))
    rw [Streaming.after_concat, push_inStep_iff (hsent before) hbef, hchks] at hpush
    exact hpush
  · intro h read hread
    rw [hinStep]
    -- on the events that were read, the last one first
    induction read using List.reverseRecOn with
    | nil => rfl
    | append_singleton before event ih =>
      rw [Streaming.after_concat, push_inStep_iff (hsent before) (ih ((List.prefix_append _ _).trans hread)), hchks]
      exact h before event hread

/-! ## Calls that run alone -/

/-- The events of a run up to its first error. -/
def eventsOf : AgentRun → List AgentEvent
  | .ok event :: rest => event :: eventsOf rest
  | _ => []

/-- Whether a run ends with an error. -/
def fails (results : AgentRun) : Bool := results.any fun result => !result.isOk

/-- What a run leaves its task waiting for. -/
def awaited (pending : Option Awaiting) (events : List AgentEvent) : Option Awaiting :=
  events.foldl (fun pending event => maxAwaiting pending (awaiting event)) pending

def endState (pending : Option Awaiting) (results : AgentRun) : TaskState :=
  if fails results then .failed else finishedState (awaited pending (eventsOf results))

def recorded (chunks : ResponseText) (results : AgentRun) : List String :=
  if fails results then []
  else if (said chunks (eventsOf results)).text = "" then [] else [(said chunks (eventsOf results)).text]

/-- A call's world: the store, what its stream yielded, and whether the agent was started. -/
structure Served where
  store : TaskWorld
  yielded : List (Except A2aError StreamResponse) := []
  started : Bool := false

/-- How the world answers a call that runs alone, when the agent's run is given. -/
def aloneLaws (results : AgentRun) : Laws TaskOp TaskOp.Ret Served where
  answers op s r s' := taskLaws.answers op s.store r s'.store ∧ match op, r with
    | .startAgent .., run => run = .ok results ∧ s' = { s with store := s'.store, started := true }
    | .emit item, _ => s' = { s with store := s'.store, yielded := s.yielded ++ [item] }
    | _, _ => s' = { s with store := s'.store }
  moves _ _ := False

section Alone

variable {results : AgentRun} {α β : Type}

/-- What a call that runs alone ensures, from what holds before it. -/
def Alone (results : AgentRun) (P : Served → Prop) (p : TaskProg α) (E : A2aError → Served → Prop) (R : α → Served → Prop) :
    Prop :=
  ∀ s, P s → Prog.Ensures (aloneLaws results) (fun _ _ => True) E R p s

namespace Alone

variable {P : Served → Prop} {E : A2aError → Served → Prop} {R : α → Served → Prop} {S : β → Served → Prop} {p : TaskProg α}

theorem stays {s s' : Served} (h : Relation.ReflTransGen (aloneLaws results).moves s s') : s' = s := by
  induction h with
  | refl => rfl
  | tail _ hmove => exact hmove.elim

theorem pure {a : α} (h : ∀ s, P s → R a s) : Alone results P (Pure.pure a) E R :=
  fun s hs _ hmov => stays hmov ▸ h s hs

theorem throw {e : A2aError} (h : ∀ s, P s → E e s) : Alone results P (MonadExcept.throw e : TaskProg α) E R :=
  fun s hs _ hmov => stays hmov ▸ h s hs

theorem bind {f : α → TaskProg β} (hp : Alone results P p E R) (hf : ∀ a, Alone results (R a) (f a) E S) :
    Alone results P (p >>= f) E S :=
  fun s hs => (hp s hs).bind fun a s' h => hf a s' h

/-- What is known without the world. -/
theorem intro {φ : Prop} (h : φ → Alone results P p E R) : Alone results (fun s => φ ∧ P s) p E R :=
  fun s hs => h hs.1 s hs.2

theorem perform {op : TaskOp} {R : op.Ret → Served → Prop}
    (h : ∀ s r s', P s → (aloneLaws results).answers op s r s' → R r s') : Alone results P (askTask op) E R := by
  intro s hs s' hmov
  rw [stays hmov]
  exact ⟨trivial, fun r s'' hr t hmov' => stays hmov' ▸ h s r s'' hs hr⟩

theorem mono {P' : Served → Prop} {E' : A2aError → Served → Prop} {R' : α → Served → Prop} (h : Alone results P p E R)
    (hP : ∀ s, P' s → P s) (hE : ∀ e s, E e s → E' e s) (hR : ∀ a s, R a s → R' a s) : Alone results P' p E' R' :=
  fun s hs => (h s (hP s hs)).mono hR hE

theorem attempt (h : Alone results P p E R) {E' : A2aError → Served → Prop} : Alone results P (attempt p) E'
    fun result s => (∀ a, result = .ok a → R a s) ∧ ∀ e, result = .error e → E e s := by
  intro s hs
  refine Prog.Ensures.lift (Prog.Holds.mono (h s hs) fun result s' hres => ?_)
  cases result with
  | ok a => exact ⟨fun _ heq => Except.ok.inj heq ▸ hres, fun _ heq => nomatch heq⟩
  | error e => exact ⟨fun _ heq => (nomatch heq), fun _ heq => Except.error.inj heq ▸ hres⟩

/-- A program that does not fail. -/
theorem attempt_ok (h : Alone results P p (fun _ _ => False) R) : Alone results P (A2a.attempt p) E
    fun result s => ∃ a, result = .ok a ∧ R a s :=
  (attempt h).mono (fun _ h => h) (fun _ _ h => h) fun result _ h => by
    cases result with
    | ok a => exact ⟨a, rfl, h.1 a rfl⟩
    | error e => exact (h.2 e rfl).elim

end Alone

/-! ## A task that is served -/

/-- A task and its stream: the task's state and artifacts, whether its agent was started, and what the client reads. -/
structure Serves (taskId : String) (state : TaskState) (artifacts : List String) (started : Bool) (client : String)
    (s : Served) : Prop where
  stored : ∃ entry, s.store.tasks[taskId]? = some entry ∧ entry.status.state = state ∧ entry.artifacts = artifacts
  started_eq : s.started = started
  client_eq : reassembled s.yielded = client

section Task

variable {taskId contextId : String} {state target : TaskState} {artifacts : List String} {started : Bool} {client : String}
  {s s' : Served} {E : A2aError → Served → Prop}

/-- Nothing changed but the maps. -/
theorem Serves.same (h : Serves taskId state artifacts started client s) (htsk : s'.store.tasks = s.store.tasks)
    (hs : s' = { s with store := s'.store }) : Serves taskId state artifacts started client s' := by
  obtain ⟨hstrd, hstd, hcli⟩ := h
  rw [← htsk] at hstrd
  rw [hs]
  exact ⟨hstrd, hstd, hcli⟩

theorem Serves.modified (h : Serves taskId state artifacts started client s) {now : Utc} {f : TaskEntry → TaskEntry}
    {r : Except A2aError Unit} {w : TaskWorld} (hr : (r, w) = s.store.modify taskId now f)
    (htsk : s'.store.tasks = w.tasks) (hs : s' = { s with store := s'.store })
    {state' : TaskState} {artifacts' : List String}
    (hf : ∀ entry, entry.status.state = state → entry.artifacts = artifacts →
      (f entry).status.state = state' ∧ (f entry).artifacts = artifacts') :
    r = .ok () ∧ Serves taskId state' artifacts' started client s' := by
  obtain ⟨⟨entry, hent, hst, hart⟩, hstd, hcli⟩ := h
  rcases s.store.modify_cases taskId now f with ⟨found, hfnd, hmod⟩ | ⟨hnone, -⟩
  · rw [hmod] at hr
    obtain ⟨rfl, hsto⟩ := Prod.mk.inj hr
    obtain rfl := Option.some.inj (hent.symm.trans hfnd)
    refine ⟨rfl, ⟨{ f entry with updatedAt := now }, ?_, hf entry hst hart⟩, ?_, ?_⟩
    · rw [htsk, hsto]
      exact Std.ExtTreeMap.getElem?_insert_self
    · rw [hs]
      exact hstd
    · rw [hs]
      exact hcli
  · rw [hent] at hnone
    cases hnone

theorem alone_getTask : Alone results (Serves taskId state artifacts started client) (getTask taskId) E
    fun entry s => entry.status.state = state ∧ Serves taskId state artifacts started client s := by
  have hask : Alone results (Serves taskId state artifacts started client) (askTask (.getTask taskId)) E
      fun found s => (∃ entry, found = .ok entry ∧ entry.status.state = state) ∧
        Serves taskId state artifacts started client s := by
    refine Alone.perform fun s r s' h hr => ?_
    obtain ⟨⟨hfnd, hsto⟩, hs⟩ := hr
    obtain ⟨entry, hent, hst, -⟩ := h.stored
    rw [hent] at hfnd
    exact ⟨⟨entry, hfnd, hst⟩, h.same (congrArg _ hsto) hs⟩
  refine hask.bind fun found => Alone.intro ?_
  rintro ⟨entry, rfl, hst⟩
  exact Alone.pure fun _ h => ⟨hst, h⟩

theorem TaskWorld.updateStatus_eq {w w' : TaskWorld} {status : TaskStatus} {now : Utc} {r : Except A2aError Unit}
    (h : (r, w') = w.updateStatus taskId status now) :
    ∃ w₁, (r, w₁) = w.modify taskId now (fun entry => { entry with status }) ∧ w'.tasks = w₁.tasks := by
  unfold TaskWorld.updateStatus at h
  rcases hmod : w.modify taskId now fun entry => { entry with status } with ⟨_ | _, w₁⟩
  · rw [hmod] at h
    obtain ⟨rfl, rfl⟩ := Prod.mk.inj h
    exact ⟨w', rfl, rfl⟩
  · rw [hmod] at h
    obtain ⟨rfl, rfl⟩ := Prod.mk.inj h
    exact ⟨w₁, rfl, rfl⟩

theorem alone_updateStatus (message : Option String) : Alone results (Serves taskId state artifacts started client)
    (updateStatus taskId { state := target, message }) E fun _ => Serves taskId target artifacts started client := by
  have hask : Alone results (Serves taskId state artifacts started client)
      (askTask (.updateStatus taskId { state := target, message })) E
      fun updated s => updated = .ok () ∧ Serves taskId target artifacts started client s := by
    refine Alone.perform fun s r s' h hr => ?_
    obtain ⟨⟨now, hr⟩, hs⟩ := hr
    obtain ⟨w, hmod, htsk⟩ := TaskWorld.updateStatus_eq hr
    exact h.modified hmod htsk hs fun _ _ hart => ⟨rfl, hart⟩
  refine hask.bind fun updated => Alone.intro ?_
  rintro rfl
  exact Alone.pure fun _ h => h

theorem alone_recordArtifact (text : String) : Alone results (Serves taskId state artifacts started client)
    (recordArtifact taskId text) E fun _ => Serves taskId state (artifacts ++ [text]) started client := by
  have hask : Alone results (Serves taskId state artifacts started client) (askTask (.addArtifact taskId text)) E
      fun added s => added = .ok () ∧ Serves taskId state (artifacts ++ [text]) started client s := by
    refine Alone.perform fun s r s' h hr => ?_
    obtain ⟨⟨now, hr⟩, hs⟩ := hr
    exact h.modified hr rfl hs fun _ hst hart => ⟨hst, congrArg (· ++ [text]) hart⟩
  refine alone_getTask.bind fun _ => Alone.intro fun _ => ?_
  refine hask.bind fun added => Alone.intro ?_
  rintro rfl
  exact Alone.pure fun _ h => h

theorem alone_addHistoryMessage (msg : Message) : Alone results (Serves taskId state artifacts started client)
    (addHistoryMessage taskId msg) E fun _ => Serves taskId state artifacts started client := by
  have hask : Alone results (Serves taskId state artifacts started client) (askTask (.addHistory taskId msg)) E
      fun added s => added = .ok () ∧ Serves taskId state artifacts started client s := by
    refine Alone.perform fun s r s' h hr => ?_
    obtain ⟨⟨now, hr⟩, hs⟩ := hr
    exact h.modified hr rfl hs fun _ hst hart => ⟨hst, hart⟩
  refine hask.bind fun added => Alone.intro ?_
  rintro rfl
  exact Alone.pure fun _ h => h

theorem alone_emit (item : Except A2aError StreamResponse) : Alone results (Serves taskId state artifacts started client)
    (askTask (.emit item)) E fun _ => Serves taskId state artifacts started (receive client item) := by
  refine Alone.perform fun s r s' h hr => ?_
  obtain ⟨hsto, hs⟩ := hr
  obtain ⟨hstrd, hstd, hcli⟩ := h
  rw [hs, show s'.store = s.store from hsto]
  refine ⟨hstrd, hstd, ?_⟩
  show (s.yielded ++ [item]).foldl receive "" = receive client item
  rw [List.foldl_append, ← hcli]
  rfl

theorem alone_mapInsert (key : IdempotencyKey) : Alone results (Serves taskId state artifacts started client)
    (askTask (.mapInsert key taskId)) E fun _ => Serves taskId state artifacts started client := by
  refine Alone.perform fun s r s' h hr => ?_
  obtain ⟨hsto, hs⟩ := hr
  obtain hsto : s'.store = s.store.remember key (some taskId) := hsto
  refine h.same ?_ hs
  rw [hsto]
  rfl

theorem alone_startAgent (caller : Option String) (msg : Message) :
    Alone results (Serves taskId state artifacts started client) (askTask (.startAgent caller contextId msg)) E
    fun run s => run = .ok results ∧ Serves taskId state artifacts true client s := by
  refine Alone.perform fun s r s' h hr => ?_
  obtain ⟨hsto, hrun, hs⟩ := hr
  obtain ⟨hstrd, -, hcli⟩ := h
  rw [hs, show s'.store = s.store from hsto]
  exact ⟨hrun, hstrd, rfl, hcli⟩

theorem alone_transitionState (htarget : target ∈ state.allowed) (message : Option String) :
    Alone results (Serves taskId state artifacts started client) (transitionState taskId contextId target message) E
    fun _ => Serves taskId target artifacts started client := by
  refine alone_getTask.bind fun entry => Alone.intro ?_
  rintro rfl
  rw [canTransitionTo_eq_ok.mpr htarget]
  refine (Alone.pure (R := fun _ => Serves taskId entry.status.state artifacts started client) fun _ h => h).bind fun _ => ?_
  exact (alone_updateStatus message).bind fun _ => Alone.pure fun _ h => h

theorem recorded_eq {chunks : ResponseText} (h : fails results = false) : recorded chunks results =
    if (said chunks (eventsOf results)).text = "" then [] else [(said chunks (eventsOf results)).text] :=
  if_neg (Bool.eq_false_iff.mp h)

theorem drain_eq (pending : Option Awaiting) (chunks : ResponseText) (h : fails results = false) :
    drain pending chunks results = .ok (awaited pending (eventsOf results), said chunks (eventsOf results)) := by
  induction results generalizing pending chunks with
  | nil => rfl
  | cons result rest ih =>
    cases result with
    | error e => cases h
    | ok event => exact ih _ _ h

theorem drain_fails (pending : Option Awaiting) (chunks : ResponseText) (h : fails results = true) :
    ∃ e, drain pending chunks results = .error e := by
  induction results generalizing pending chunks with
  | nil => cases h
  | cons result rest ih =>
    cases result with
    | error e => exact ⟨_, rfl⟩
    | ok event => exact ih _ _ h

def Finished (results : AgentRun) (finished : Except A2aError TaskState) : Prop :=
  if fails results then ∃ e, finished = .error e else finished = .ok (finishedState (awaited none (eventsOf results)))

theorem alone_runAgent (caller : Option String) (msg : Message) :
    Alone results (Serves taskId state artifacts started client) (attempt (runAgent caller taskId contextId msg)) E
    fun finished s => Finished results finished ∧ Serves taskId state (artifacts ++ recorded [] results) true client s := by
  have hrun : Alone results (Serves taskId state artifacts started client) (runAgent caller taskId contextId msg)
      (fun _ s => fails results = true ∧ Serves taskId state artifacts true client s)
      fun last s => (fails results = false ∧ last = finishedState (awaited none (eventsOf results))) ∧
        Serves taskId state (artifacts ++ recorded [] results) true client s := by
    refine (alone_startAgent caller msg).bind fun run => Alone.intro ?_
    rintro rfl
    refine (Alone.pure (R := fun drained s => drained = results ∧ Serves taskId state artifacts true client s)
      fun _ h => ⟨rfl, h⟩).bind fun drained => Alone.intro ?_
    rintro rfl
    cases hfls : fails drained with
    | true =>
      obtain ⟨e, he⟩ := drain_fails none [] hfls
      rw [he]
      exact Alone.bind (Alone.throw (R := fun _ _ => False) fun _ h => ⟨rfl, h⟩) fun _ _ h => h.elim
    | false =>
      rw [drain_eq none [] hfls]
      refine (Alone.pure (R := fun ended s => ended = (awaited none (eventsOf drained), said [] (eventsOf drained)) ∧
        Serves taskId state artifacts true client s) fun _ h => ⟨rfl, h⟩).bind fun ended => Alone.intro ?_
      rintro rfl
      unfold finishRun
      rw [recorded_eq hfls]
      by_cases htext : (said [] (eventsOf drained)).text = ""
      · rw [if_neg (not_not.mpr htext), if_pos htext]
        exact Alone.pure fun _ h => ⟨⟨rfl, rfl⟩, by rwa [List.append_nil]⟩
      · rw [if_pos htext, if_neg htext]
        exact (alone_recordArtifact _).bind fun _ => Alone.pure fun _ h => ⟨⟨rfl, rfl⟩, h⟩
  refine (Alone.attempt hrun).mono (fun _ h => h) (fun _ _ h => h) fun finished s h => ?_
  unfold Finished
  cases finished with
  | ok last =>
    obtain ⟨⟨hfls, hlast⟩, hserves⟩ := h.1 last rfl
    rw [hfls]
    exact ⟨congrArg _ hlast, hserves⟩
  | error e =>
    obtain ⟨hfls, hserves⟩ := h.2 e rfl
    rw [hfls]
    refine ⟨⟨e, rfl⟩, ?_⟩
    rwa [recorded, hfls, if_pos rfl, List.append_nil]

theorem finishedState_mem (pending : Option Awaiting) : finishedState pending ∈ TaskState.working.allowed := by
  rcases pending with _ | _ | _ <;> simp [finishedState, TaskState.allowed]

theorem failed_mem : .failed ∈ TaskState.working.allowed := by simp [TaskState.allowed]

theorem working_mem : .working ∈ TaskState.submitted.allowed := by simp [TaskState.allowed]

theorem alone_finishSend {finished : Except A2aError TaskState} (hfin : Finished results finished)
    (key : IdempotencyKey) : Alone results (Serves taskId .working artifacts started client)
    (finishSend key taskId contextId finished) E fun _ => Serves taskId (endState none results) artifacts started client := by
  unfold Finished at hfin
  unfold endState
  cases hfls : fails results with
  | true =>
    rw [hfls] at hfin
    obtain ⟨e, rfl⟩ := hfin
    refine Alone.bind ((alone_transitionState failed_mem _).attempt_ok)
      fun failed => ?_
    refine Alone.mono (P := Serves taskId .failed artifacts started client) ?_ (fun _ ⟨_, _, h⟩ => h) (fun _ _ h => h)
      fun _ _ h => h
    exact alone_getTask.bind fun _ => Alone.intro fun _ => Alone.pure fun _ h => h
  | false =>
    rw [hfls] at hfin
    obtain rfl : finished = .ok (finishedState (awaited none (eventsOf results))) := hfin
    refine (alone_transitionState (finishedState_mem _) none).bind fun _ => ?_
    refine (alone_mapInsert key).bind fun _ => ?_
    exact alone_getTask.bind fun _ => Alone.intro fun _ => Alone.pure fun _ h => h

/-- **A message's task is served**: what the run said is recorded, and its state is the run's. -/
theorem alone_serveTask (caller : Option String) (msg : Message) :
    Alone results (Serves taskId .working artifacts false client) (serveTask true caller msg taskId contextId) E
    fun _ => Serves taskId (endState none results) (artifacts ++ recorded [] results) true client :=
  (alone_runAgent caller msg).bind fun _ => Alone.intro fun hfin => alone_finishSend hfin (caller, msg.id)

theorem alone_failStream (error : A2aError) : Alone results (Serves taskId .working artifacts started client)
    (failStream taskId contextId error) E fun _ => Serves taskId .failed artifacts started client := by
  refine Alone.bind ((alone_transitionState failed_mem _).attempt_ok)
    fun failed => ?_
  cases failed with
  | error e => exact fun s ⟨_, heq, _⟩ => nomatch heq
  | ok event =>
    refine Alone.mono (P := Serves taskId .failed artifacts started client) ?_ (fun _ ⟨_, _, h⟩ => h) (fun _ _ h => h)
      fun _ _ h => h
    exact (alone_emit _).bind fun _ => alone_emit _

theorem alone_closeStream (pending : Option Awaiting) : Alone results (Serves taskId .working artifacts started client)
    (closeStream taskId contextId pending) E fun _ => Serves taskId (finishedState pending) artifacts started client := by
  refine Alone.bind ((alone_transitionState (finishedState_mem pending) _).attempt_ok) fun closed => ?_
  cases closed with
  | error e => exact fun s ⟨_, heq, _⟩ => nomatch heq
  | ok event =>
    refine Alone.mono (P := Serves taskId (finishedState pending) artifacts started client) ?_ (fun _ ⟨_, _, h⟩ => h)
      (fun _ _ h => h) fun _ _ h => h
    exact alone_emit _

theorem alone_storeStream (pending : Option Awaiting) (text : String) :
    Alone results (Serves taskId .working artifacts started client) (storeStream taskId contextId pending text) E
    fun _ => Serves taskId (finishedState pending) (artifacts ++ if text = "" then [] else [text]) started client := by
  unfold storeStream
  by_cases htext : text = ""
  · rw [if_neg (not_not.mpr htext), if_pos htext, List.append_nil]
    exact alone_closeStream pending
  · rw [if_pos htext, if_neg htext]
    refine Alone.bind ((alone_recordArtifact text).attempt_ok) fun stored => ?_
    cases stored with
    | error e => exact fun s ⟨_, heq, _⟩ => nomatch heq
    | ok _ =>
      exact (alone_closeStream pending).mono (fun _ ⟨_, _, h⟩ => h) (fun _ _ h => h) fun _ _ h => h

/-- **A run is streamed**: the client follows it as `Streaming` does, what was said is recorded, and the task's state is
the run's. -/
theorem alone_streamRun (run : AgentRun) (pending : Option Awaiting) (chunks : ResponseText) (sent : Bool) (client : String) :
    Alone results (Serves taskId .working artifacts started client) (streamRun taskId contextId pending chunks sent run) E
    fun _ => Serves taskId (endState pending run) (artifacts ++ recorded chunks run) started
      (Streaming.after ⟨chunks, sent, client⟩ (eventsOf run)).client := by
  induction run generalizing pending chunks sent client with
  | nil => exact alone_storeStream pending chunks.text
  | cons result rest ih =>
    cases result with
    | error e =>
      have hend : endState pending (.error e :: rest) = .failed := rfl
      have hrecd : recorded chunks (.error e :: rest) = [] := rfl
      rw [hend, hrecd, List.append_nil]
      exact alone_failStream _
    | ok event =>
      have hend : endState pending (.ok event :: rest) = endState (maxAwaiting pending (awaiting event)) rest := rfl
      have hrecd : recorded chunks (.ok event :: rest) = recorded (chunks.push event).2 rest := rfl
      have haft : (Streaming.after ⟨chunks, sent, client⟩ (eventsOf (.ok event :: rest))) =
          (Streaming.push ⟨chunks, sent, client⟩ event).after (eventsOf rest) := rfl
      rw [hend, hrecd, haft]
      unfold streamRun Streaming.push
      dsimp only
      rcases chunks.push event with ⟨_ | ⟨text, append⟩, left⟩
      · exact ih _ _ _ _
      · exact (alone_emit _).bind fun _ => ih _ _ _ _

end Task

/-! ## The calls -/

def artifactsOf (w : TaskWorld) (taskId : String) : List String := w.tasks[taskId]?.elim [] TaskEntry.artifacts

/-- What a call leaves that started the agent: its task has the state of the run and, after the artifacts that it had,
the text of the run, and the client has read what was streamed. -/
def Ended (results : AgentRun) (w : TaskWorld) (client : String) (s : Served) : Prop :=
  s.started = true → ∃ taskId,
    Serves taskId (endState none results) (artifactsOf w taskId ++ recorded [] results) true client s

/-- Nothing happened but in the maps. -/
structure NotBegun (w : TaskWorld) (s : Served) : Prop where
  tasks_eq : s.store.tasks = w.tasks
  started_eq : s.started = false
  client_eq : reassembled s.yielded = ""

section Calls

variable {w : TaskWorld} {caller : Option String} {msg : Message} {s s' : Served}

theorem NotBegun.same (h : NotBegun w s) (htsk : s'.store.tasks = s.store.tasks) (hs : s' = { s with store := s'.store }) :
    NotBegun w s' := by
  obtain ⟨hw, hstd, hcli⟩ := h
  rw [hs]
  exact ⟨htsk.trans hw, hstd, hcli⟩

theorem NotBegun.serves (h : NotBegun w s) {entry : TaskEntry} (hent : s.store.tasks[entry.id]? = some entry) :
    Serves entry.id entry.status.state (artifactsOf w entry.id) false "" s := by
  have hart : artifactsOf w entry.id = entry.artifacts := by
    rw [artifactsOf, ← h.tasks_eq, hent]
    rfl
  exact ⟨⟨entry, hent, rfl, hart.symm⟩, h.started_eq, h.client_eq⟩

theorem NotBegun.ended (h : NotBegun w s) (client : String) : Ended results w client s := by
  intro hstd
  rw [h.started_eq] at hstd
  cases hstd

variable {taskId : String} {E : A2aError → Served → Prop}

theorem Serves.unstarted {state : TaskState} {artifacts : List String} {client other : String}
    (h : Serves taskId state artifacts false client s) : Ended results w other s := by
  intro hstd
  rw [h.started_eq] at hstd
  cases hstd

theorem alone_createTask (contextId owner : Option String) :
    Alone results (NotBegun w) (askTask (.createTask contextId owner)) E
    fun entry => Serves entry.id .submitted (artifactsOf w entry.id) false "" := by
  refine Alone.perform fun s entry s' h hr => ?_
  obtain ⟨⟨hfr, ⟨now, hent⟩, -, hsto⟩, hs⟩ := hr
  obtain ⟨hw, hstd, hcli⟩ := h
  have hart : artifactsOf w entry.id = [] := by
    rw [artifactsOf, ← hw, hfr]
    rfl
  rw [hart]
  refine ⟨⟨entry, ?_, ?_, ?_⟩, ?_, ?_⟩
  · rw [hsto]
    exact Std.ExtTreeMap.getElem?_insert_self
  · rw [hent]
    rfl
  · rw [hent]
    rfl
  · rw [hs]
    exact hstd
  · rw [hs]
    exact hcli

theorem alone_found (contextId : String) :
    Alone results (NotBegun w) (askTask (.findByContext contextId)) E fun found s =>
      NotBegun w s ∧ ∀ entry, found = some entry → s.store.tasks[entry.id]? = some entry := by
  refine Alone.perform fun s found s' h hr => ?_
  obtain ⟨⟨hltst, hsto⟩, hs⟩ := hr
  refine ⟨h.same (congrArg _ hsto) hs, ?_⟩
  rintro entry rfl
  rw [hsto]
  exact hltst.1

variable {agent : Bool}

/-- What holds after a call, and after one that failed. -/
abbrev Sent (results : AgentRun) (w : TaskWorld) (client : String) {α : Type} (P : Served → Prop) (p : TaskProg α) : Prop :=
  Alone results P p (fun _ s => s.started = false) fun _ => Ended results w client

theorem Sent.serveTask {contextId : String} :
    Sent results w "" (Serves taskId .working (artifactsOf w taskId) false "") (serveTask agent caller msg taskId contextId) := by
  cases agent with
  | true => exact (alone_serveTask caller msg).mono (fun _ h => h) (fun _ _ h => h) fun _ _ h _ => ⟨taskId, h⟩
  | false =>
    refine (Alone.pure (R := fun finished s => finished = .ok .completed ∧
      Serves taskId .working (artifactsOf w taskId) false "" s) fun _ h => ⟨rfl, h⟩).bind fun finished => Alone.intro ?_
    rintro rfl
    refine (alone_transitionState (by simp [TaskState.allowed]) none).bind fun _ => ?_
    refine (alone_mapInsert (caller, msg.id)).bind fun _ => ?_
    exact alone_getTask.bind fun _ => Alone.intro fun _ => Alone.pure fun _ h => h.unstarted

theorem Sent.resumeSend {existing : TaskEntry} (hst : existing.status.state = .inputRequired) :
    Sent results w "" (Serves existing.id existing.status.state (artifactsOf w existing.id) false "")
      (resumeSend agent caller msg existing) := by
  refine (alone_transitionState (by simp [hst, TaskState.allowed]) none).bind fun _ => ?_
  exact (alone_addHistoryMessage msg).bind fun _ => Sent.serveTask

theorem Sent.createSend : Sent results w "" (NotBegun w) (createSend agent caller msg) := by
  refine (alone_createTask msg.contextId caller).bind fun entry => ?_
  refine (alone_addHistoryMessage msg).bind fun _ => ?_
  exact (alone_transitionState working_mem none).bind fun _ => Sent.serveTask

theorem Sent.sendNew : Sent results w "" (NotBegun w) (sendNew agent caller msg) := by
  unfold A2a.sendNew
  cases msg.contextId with
  | none => exact Sent.createSend
  | some contextId =>
    refine (alone_found contextId).bind fun found => ?_
    unfold sendFound
    cases hfnd : found.filter (resumable caller) with
    | none => exact Sent.createSend.mono (fun _ h => h.1) (fun _ _ h => h) fun _ _ h => h
    | some existing =>
      obtain ⟨rfl, hresum⟩ := Option.filter_eq_some_iff.mp hfnd
      refine (Sent.resumeSend (resumable_eq hresum).1).mono (fun s h => ?_) (fun _ _ h => h) fun _ _ h => h
      exact h.1.serves (h.2 existing rfl)

theorem Sent.streamTask {contextId : String} (first : Task) :
    Sent results w (Streaming.after {} (eventsOf results)).client
      (Serves taskId .submitted (artifactsOf w taskId) false "") (streamTask agent caller msg taskId contextId first) := by
  refine (alone_emit (.ok (.task first))).bind fun _ => ?_
  refine Alone.bind ((alone_transitionState working_mem none).attempt_ok) fun started => ?_
  cases started with
  | error e => exact fun s ⟨_, heq, _⟩ => nomatch heq
  | ok event =>
    refine Alone.mono (P := Serves taskId .working (artifactsOf w taskId) false "") ?_ (fun _ ⟨_, _, h⟩ => h)
      (fun _ _ h => h) fun _ _ h => h
    refine (alone_emit _).bind fun _ => ?_
    cases agent with
    | false => exact (alone_closeStream none).mono (fun _ h => h) (fun _ _ h => h) fun _ _ h => h.unstarted
    | true =>
      refine (alone_startAgent caller msg).bind fun run => Alone.intro ?_
      rintro rfl
      exact (alone_streamRun results none [] false "").mono (fun _ h => h) (fun _ _ h => h) fun _ _ h _ => ⟨taskId, h⟩

theorem Sent.streamNew : Sent results w (Streaming.after {} (eventsOf results)).client (NotBegun w)
    (streamNew agent caller msg) := by
  refine (alone_createTask msg.contextId caller).bind fun entry => ?_
  refine (alone_addHistoryMessage msg).bind fun _ => ?_
  refine (alone_mapInsert (caller, msg.id)).bind fun _ => ?_
  exact alone_getTask.bind fun first => Alone.intro fun _ => Sent.streamTask (internalTaskToWire first)

/-- The store and the map are asked before anything is done. -/
theorem alone_asks (op : TaskOp) (h : ∀ v r v', taskLaws.answers op v r v' → v'.tasks = v.tasks)
    (hop : ∀ s r s', (aloneLaws results).answers op s r s' → s' = { s with store := s'.store })
    : Alone results (NotBegun w) (askTask op) E fun _ => NotBegun w :=
  Alone.perform fun s r s' hs hr => hs.same (h _ _ _ hr.1) (hop s r s' hr)

theorem alone_lookUp (taskId : String) : Alone results (NotBegun w) (ownedTask caller taskId) (fun _ => NotBegun w)
    fun _ => NotBegun w := by
  refine Alone.bind (R := fun _ => NotBegun w) ?_ fun entry => ?_
  · refine Alone.bind (alone_asks (.getTask taskId) (fun _ _ _ h => congrArg _ h.2) fun _ _ _ h => h.2) fun found => ?_
    cases found with
    | ok entry => exact Alone.pure fun _ h => h
    | error e => exact Alone.throw fun _ h => h
  · split
    · exact Alone.pure fun _ h => h
    · exact Alone.throw fun _ h => h

theorem alone_mapRemove (key : IdempotencyKey) :
    Alone results (NotBegun w) (askTask (.mapRemove key)) E fun _ => NotBegun w :=
  alone_asks (.mapRemove key) (fun v _ v' h => by rw [show v' = v.remember key none from h]; rfl) fun _ _ _ h => h.2

theorem alone_mapGet (key : IdempotencyKey) :
    Alone results (NotBegun w) (askTask (.mapGet key)) E fun _ => NotBegun w :=
  alone_asks (.mapGet key) (fun _ _ _ h => congrArg _ h.2) fun _ _ _ h => h.2

theorem alone_validated [JsonText] {α : Type} {client : String} {rest : Option String → TaskProg α}
    (h : ∀ known, Sent results w client (NotBegun w) (rest known)) :
    Sent results w client (NotBegun w) (orFail (validateMessage msg) >>= fun _ =>
      askTask (.mapGet (caller, msg.id)) >>= rest) := by
  cases validateMessage msg with
  | error e => exact Alone.bind (Alone.throw (R := fun _ _ => False) fun _ h => h.started_eq) fun _ _ h => h.elim
  | ok _ =>
    refine Alone.bind (R := fun _ => NotBegun w) (Alone.pure fun _ h => h) fun _ => ?_
    exact (alone_mapGet (caller, msg.id)).bind h

theorem Sent.messageSend [JsonText] : Sent results w "" (NotBegun w) (messageSend agent caller msg) := by
  refine alone_validated fun known => ?_
  cases known with
  | none => exact Sent.sendNew
  | some existing =>
    refine Alone.bind (R := fun _ => NotBegun w) ?_ fun result => ?_
    · refine (Alone.attempt (E := fun _ => NotBegun w) (R := fun _ => NotBegun w) ?_).mono (fun _ h => h) (fun _ _ h => h)
        fun result _ h => ?_
      · unfold tasksGet
        cases validateId existing "taskId" with
        | error e => exact Alone.bind (Alone.throw (R := fun _ _ => False) fun _ h => h) fun _ _ h => h.elim
        | ok _ =>
          refine Alone.bind (R := fun _ => NotBegun w) (Alone.pure fun _ h => h) fun _ => ?_
          exact (alone_lookUp existing).bind fun _ => Alone.pure fun _ h => h
      · cases result with
        | ok task => exact h.1 task rfl
        | error e => exact h.2 e rfl
    · cases result with
      | ok task => exact Alone.pure fun _ h => h.ended ""
      | error e =>
        by_cases hgone : ∃ id, e = .taskNotFound id
        · obtain ⟨id, rfl⟩ := hgone
          exact (alone_mapRemove (caller, msg.id)).bind fun _ => Sent.sendNew
        · rw [sendKnown_error fun id h => hgone ⟨id, h⟩]
          exact Alone.throw fun _ h => h.started_eq

theorem Sent.messageStream [JsonText] : Sent results w (Streaming.after {} (eventsOf results)).client (NotBegun w)
    (messageStream agent caller msg) := by
  refine alone_validated fun known => ?_
  cases known with
  | none => exact Sent.streamNew
  | some existing =>
    refine Alone.bind (R := fun _ => NotBegun w) ?_ fun result => ?_
    · refine (Alone.attempt (alone_lookUp existing)).mono (fun _ h => h) (fun _ _ h => h) fun result _ h => ?_
      cases result with
      | ok task => exact h.1 task rfl
      | error e => exact h.2 e rfl
    · cases result with
      | ok entry =>
        refine Alone.perform fun s r s' h hr => ?_
        intro hstd
        rw [hr.2, h.started_eq] at hstd
        cases hstd
      | error e =>
        by_cases hgone : ∃ id, e = .taskNotFound id
        · obtain ⟨id, rfl⟩ := hgone
          exact (alone_mapRemove (caller, msg.id)).bind fun _ => Sent.streamNew
        · rw [streamKnown_error fun id h => hgone ⟨id, h⟩]
          exact Alone.throw fun _ h => h.started_eq

/-- **A streamed artifact reassembles when every event agrees with what was said.** After every event of a run the client
has read what was said, exactly then. In either call, run alone, a task whose agent was started ends in the state of the
run, with the text of the run recorded; what the client has read of the stream is what it read of the events. -/
theorem stream_reassembles [JsonText] (agent : Bool) (caller : Option String) (msg : Message) (results : AgentRun)
    (w : TaskWorld) :
    ((∀ read, read <+: eventsOf results → (Streaming.after {} read).client = (said [] read).text) ↔
      Orderly (eventsOf results)) ∧
    Prog.Ensures (aloneLaws results) (fun _ _ => True) (fun _ s => s.started = false)
      (fun _ => Ended results w (Streaming.after {} (eventsOf results)).client) (messageStream agent caller msg) { store := w } ∧
    Prog.Ensures (aloneLaws results) (fun _ _ => True) (fun _ s => s.started = false)
      (fun _ => Ended results w "") (messageSend agent caller msg) { store := w } :=
  ⟨client_eq_iff_orderly (eventsOf results), Sent.messageStream _ ⟨rfl, rfl, rfl⟩, Sent.messageSend _ ⟨rfl, rfl, rfl⟩⟩

end Calls

end Alone

/-! ## Two responses at once -/

/-- Plays a program, as long as the world has an answer. -/
def play {α : Type} (results : AgentRun) : Prog TaskOp TaskOp.Ret α → Served → Option (α × Served)
  | .pure a, s => some (a, s)
  | .ask (.startAgent _ _ _) next, s => play results (next (.ok results)) { s with started := true }
  | .ask (.emit item) next, s => play results (next ()) { s with yielded := s.yielded ++ [item] }
  | .ask op next, s =>
    if answerable s.store op then
      play results (next (answerTask op s.store).1) { s with store := (answerTask op s.store).2 }
    else none

theorem reaches_play {α : Type} {results : AgentRun} {p : Prog TaskOp TaskOp.Ret α} {s s' : Served} {a : α}
    (h : play results p s = some (a, s')) : Prog.Reaches (aloneLaws results) (p, s) (.pure a, s') := by
  fun_induction play results p s with
  | case1 b s =>
    obtain ⟨rfl, rfl⟩ := Prod.mk.inj (Option.some.inj h)
    exact .refl
  | case2 caller contextId message next s ih =>
    have hstep : Prog.Step (aloneLaws results) (.ask (.startAgent caller contextId message) next, s)
        (next (.ok results), { s with started := true }) := .answer ⟨rfl, rfl, rfl⟩
    exact .head hstep (ih h)
  | case3 item next s ih =>
    have hstep : Prog.Step (aloneLaws results) (.ask (.emit item) next, s)
        (next (), { s with yielded := s.yielded ++ [item] }) := .answer ⟨rfl, rfl⟩
    exact .head hstep (ih h)
  | case4 op next s hsta hemit hans ih =>
    refine .head (.answer ⟨answers_answerTask hans, ?_⟩) (ih h)
    cases op with
    | startAgent caller contextId message => exact (hsta _ _ _ next rfl HEq.rfl).elim
    | emit item => exact (hemit _ next rfl HEq.rfl).elim
    | _ => rfl
  | case5 op next s hsta hemit hans => cases h

/-- Chunks of two responses, and then the whole text of the first. -/
def interleaved : List AgentEvent :=
  [{ id := "a", parts := [.text "a"], isPartial := true }, { id := "b", parts := [.text "b"], isPartial := true },
    { id := "a", parts := [.text "ac"], contentComplete := true }]

/-- **Not in every run**: a client reads what the first response goes on with after what the second one said. -/
theorem not_reassembled : ¬ ∀ (_ : JsonText) (caller : Option String) (msg : Message) (events : List AgentEvent)
    (w : TaskWorld), Prog.Ensures (aloneLaws (events.map .ok)) (fun _ _ => True) (fun _ _ => True)
      (fun _ s => s.started = true → ∃ (taskId : String) (entry : TaskEntry), s.store.tasks[taskId]? = some entry ∧
        entry.artifacts = if reassembled s.yielded = "" then [] else [reassembled s.yielded])
      (messageStream true caller msg) { store := w } := by
  intro h
  have hplay : ((play (interleaved.map .ok) (@messageStream true none (message "m") plainText).run { store := {} }).map
      fun r => (r.1.isOk, r.2.started, reassembled r.2.yielded, r.2.store.tasks.toList.map (·.2.artifacts))) =
      some (true, true, "abc", [["acb"]]) := by
    decide +kernel
  obtain ⟨⟨result, s⟩, hrun, hends⟩ := Option.map_eq_some_iff.mp hplay
  obtain ⟨hok, hstarted, hread, hstored⟩ : result.isOk = true ∧ s.started = true ∧ reassembled s.yielded = "abc" ∧
      s.store.tasks.toList.map (·.2.artifacts) = [["acb"]] := by
    simpa using hends
  cases result with
  | error e => cases hok
  | ok _ =>
    obtain ⟨taskId, entry, hentry, hartifacts⟩ := (h plainText none (message "m") interleaved {}).returned
      (reaches_play hrun) hstarted
    have hmem := List.mem_map_of_mem (f := fun field : String × TaskEntry => field.2.artifacts)
      (Std.ExtTreeMap.mem_toList_iff_getElem?_eq_some.mpr hentry)
    rw [hstored, hartifacts, hread] at hmem
    exact absurd hmem (by decide)

end A2a

end Adk
