import AdkRust.A2a.Handler
import AdkRust.Lib.LogRules

/-!
# Tasks follow their life cycle

Any calls by any callers interleave on one handler, one store call or access to the idempotency map at a time, and end
anywhere.

* `OneLifeCycle`: the states of a task follow the state machine, a message starts the agent once, and no call serves or
  changes a task of another owner.
* `Careful`: what has to hold before an update, a lookup of a message id and a lookup of a context.
* `oneLifeCycle_careful`: **a run whose steps are careful keeps it**, ends no task twice, and resumes the task that waits
  for a message sent alone.
* `not_oneLifeCycle`: not in every run.
-/

namespace Adk

namespace A2a

open ProcPool

/-! ## The store -/

section Store

variable {w w' : TaskWorld} {op : TaskOp} {r : op.Ret} {taskId : String}

namespace TaskWorld

/-- A change of a task that is there, or of none. -/
theorem modify_cases (w : TaskWorld) (taskId : String) (now : Utc) (f : TaskEntry → TaskEntry) :
    (∃ entry, w.tasks[taskId]? = some entry ∧ w.modify taskId now f =
      (.ok (), { w with tasks := w.tasks.insert taskId { f entry with updatedAt := now } })) ∨
    (w.tasks[taskId]? = none ∧ w.modify taskId now f = (.error (.taskNotFound taskId), w)) := by
  unfold modify
  cases hent : w.tasks[taskId]? with
  | some entry => exact .inl ⟨entry, rfl, rfl⟩
  | none => exact .inr ⟨rfl, rfl⟩

end TaskWorld

inductive Touches (w : TaskWorld) (op : TaskOp) (r : op.Ret) (w' : TaskWorld) (taskId : String) : Prop where
  | left (htasks : w'.tasks[taskId]? = w.tasks[taskId]?) (hstates : w'.states taskId = w.states taskId)
  | created (entry : TaskEntry) (hbefore : w.tasks[taskId]? = none) (htasks : w'.tasks[taskId]? = some entry)
      (hid : entry.id = taskId) (hstates : w'.states taskId = [entry.status.state])
  | changed (entry entry' : TaskEntry) (hbefore : w.tasks[taskId]? = some entry)
      (htasks : w'.tasks[taskId]? = some entry') (hid : entry'.id = entry.id) (howner : entry'.owner = entry.owner)
      (hstatus : entry'.status = entry.status) (hstates : w'.states taskId = w.states taskId)
  | moved (entry entry' : TaskEntry) (status : TaskStatus) (hop : op = .updateStatus taskId status)
      (hbefore : w.tasks[taskId]? = some entry) (htasks : w'.tasks[taskId]? = some entry') (hid : entry'.id = entry.id)
      (howner : entry'.owner = entry.owner) (hstatus : entry'.status = status)
      (hstates : w'.states taskId = status.state :: w.states taskId)

theorem touches_modify {other : String} {now : Utc} {f : TaskEntry → TaskEntry} {u : Except A2aError Unit}
    (hf : ∀ entry, (f entry).id = entry.id ∧ (f entry).owner = entry.owner ∧ (f entry).status = entry.status)
    (h : (u, w') = w.modify other now f) (taskId : String) : Touches w op r w' taskId := by
  rcases w.modify_cases other now f with ⟨entry, hent, hmod⟩ | ⟨-, hmod⟩
  · rw [hmod] at h
    obtain ⟨-, rfl⟩ := Prod.mk.inj h
    by_cases hoth : taskId = other
    · subst hoth
      obtain ⟨hid, howr, hstatus⟩ := hf entry
      exact .changed entry { f entry with updatedAt := now } hent Std.ExtTreeMap.getElem?_insert_self hid howr hstatus rfl
    · exact .left (Dict.getElem?_insert_of_ne hoth _) rfl
  · rw [hmod] at h
    obtain ⟨-, rfl⟩ := Prod.mk.inj h
    exact .left rfl rfl

/-- **What an operation does to a task**: nothing, or it creates it, changes it, or moves it to another state. -/
theorem touches_answers (h : taskLaws.answers op w r w') (taskId : String) : Touches w op r w' taskId := by
  cases op with
  | mapGet key => exact h.2 ▸ .left rfl rfl
  | mapRemove key =>
    obtain rfl : w' = _ := h
    exact .left rfl rfl
  | mapInsert key other =>
    obtain rfl : w' = _ := h
    exact .left rfl rfl
  | getTask other => exact h.2 ▸ .left rfl rfl
  | findByContext contextId => exact h.2 ▸ .left rfl rfl
  | startAgent caller contextId message =>
    obtain rfl : w' = w := h
    exact .left rfl rfl
  | emit item =>
    obtain rfl : w' = w := h
    exact .left rfl rfl
  | createTask contextId owner =>
    obtain ⟨hfr, -, -, rfl⟩ := h
    by_cases hid : taskId = r.id
    · subst hid
      exact .created r hfr Std.ExtTreeMap.getElem?_insert_self rfl (if_pos rfl)
    · exact .left (Dict.getElem?_insert_of_ne hid _) (if_neg hid)
  | addArtifact other text =>
    obtain ⟨now, h⟩ := h
    exact touches_modify (f := fun entry => { entry with artifacts := entry.artifacts ++ [text] })
      (fun _ => ⟨rfl, rfl, rfl⟩) h taskId
  | addHistory other message =>
    obtain ⟨now, h⟩ := h
    exact touches_modify (f := fun entry => { entry with history := entry.history ++ [message] })
      (fun _ => ⟨rfl, rfl, rfl⟩) h taskId
  | updateStatus other status =>
    obtain ⟨now, h⟩ := h
    unfold TaskWorld.updateStatus at h
    rcases w.modify_cases other now fun entry => { entry with status } with ⟨entry, hent, hmod⟩ | ⟨-, hmod⟩
    · rw [hmod] at h
      obtain ⟨-, rfl⟩ := Prod.mk.inj h
      by_cases hoth : taskId = other
      · subst hoth
        exact .moved entry { entry with status, updatedAt := now } status rfl hent Std.ExtTreeMap.getElem?_insert_self rfl
          rfl rfl (if_pos rfl)
      · exact .left (Dict.getElem?_insert_of_ne hoth _) (if_neg hoth)
    · rw [hmod] at h
      obtain ⟨-, rfl⟩ := Prod.mk.inj h
      exact .left rfl rfl

theorem map_answers (h : taskLaws.answers op w r w') (key : IdempotencyKey) :
    w'.idempotencyMap key = w.idempotencyMap key ∨ (op = .mapRemove key ∧ w'.idempotencyMap key = none) ∨
    ∃ taskId, op = .mapInsert key taskId ∧ w'.idempotencyMap key = some taskId := by
  have hmod : ∀ {other now f} {u : Except A2aError Unit}, (u, w') = w.modify other now f →
      w'.idempotencyMap key = w.idempotencyMap key := by
    intro other now f u h
    rcases w.modify_cases other now f with ⟨entry, -, hmod⟩ | ⟨-, hmod⟩
    · rw [hmod] at h
      rw [(Prod.mk.inj h).2]
    · rw [hmod] at h
      rw [(Prod.mk.inj h).2]
  cases op with
  | mapGet key => exact .inl (by rw [h.2])
  | getTask other => exact .inl (by rw [h.2])
  | findByContext contextId => exact .inl (by rw [h.2])
  | startAgent caller contextId message =>
    obtain rfl : w' = w := h
    exact .inl rfl
  | emit item =>
    obtain rfl : w' = w := h
    exact .inl rfl
  | createTask contextId owner =>
    obtain ⟨-, -, -, rfl⟩ := h
    exact .inl rfl
  | addArtifact other text => exact .inl (hmod h.choose_spec)
  | addHistory other message => exact .inl (hmod h.choose_spec)
  | updateStatus other status =>
    obtain ⟨now, h⟩ := h
    unfold TaskWorld.updateStatus at h
    rcases w.modify_cases other now fun entry => { entry with status } with ⟨entry, -, hmod⟩ | ⟨-, hmod⟩
    · rw [hmod] at h
      exact .inl (by rw [(Prod.mk.inj h).2])
    · rw [hmod] at h
      exact .inl (by rw [(Prod.mk.inj h).2])
  | mapRemove other =>
    obtain rfl : w' = _ := h
    by_cases hkey : key = other
    · subst hkey
      exact .inr (.inl ⟨rfl, if_pos rfl⟩)
    · exact .inl (if_neg hkey)
  | mapInsert other id =>
    obtain rfl : w' = _ := h
    by_cases hkey : key = other
    · subst hkey
      exact .inr (.inr ⟨id, rfl, if_pos rfl⟩)
    · exact .inl (if_neg hkey)

def TaskWorld.Owns (w : TaskWorld) (caller : Option String) (taskId : String) : Prop :=
  ∃ entry, w.tasks[taskId]? = some entry ∧ entry.owner = caller

theorem TaskWorld.Owns.answers {caller : Option String} (h : w.Owns caller taskId) (hr : taskLaws.answers op w r w') :
    w'.Owns caller taskId := by
  obtain ⟨entry, hent, howr⟩ := h
  cases touches_answers hr taskId with
  | left htsk hstts => exact ⟨entry, htsk.trans hent, howr⟩
  | created entry' hbef htsk hid hstts =>
    rw [hbef] at hent
    cases hent
  | changed old entry' hbef htsk hid howr' hstatus hstts =>
    obtain rfl := Option.some.inj (hbef.symm.trans hent)
    exact ⟨entry', htsk, howr'.trans howr⟩
  | moved old entry' status hop hbef htsk hid howr' hstatus hstts =>
    obtain rfl := Option.some.inj (hbef.symm.trans hent)
    exact ⟨entry', htsk, howr'.trans howr⟩

/-- A store in which the states of each task follow the state machine, and a message id leads to a task of its caller. -/
structure TaskWorld.Sound (w : TaskWorld) : Prop where
  ids : ∀ (taskId : String) (entry : TaskEntry), w.tasks[taskId]? = some entry → entry.id = taskId
  mapped : ∀ key taskId, w.idempotencyMap key = some taskId → w.Owns key.1 taskId
  current : ∀ taskId, (w.tasks[taskId]?.map fun entry => entry.status.state) = (w.states taskId).head?
  follows : ∀ taskId, (w.states taskId).IsChain fun later earlier => canTransitionTo earlier later = .ok ()

theorem sound_empty : TaskWorld.Sound {} :=
  ⟨fun taskId entry h => by simp at h, fun key taskId h => (by cases h), fun taskId => (by simp), fun taskId => .nil⟩

/-- **An operation keeps the store sound**, where a task is moved as the state machine allows and a message id is mapped to
a task of its caller. -/
theorem TaskWorld.Sound.answers (h : w.Sound) (hr : taskLaws.answers op w r w')
    (hmov : ∀ taskId status entry, op = .updateStatus taskId status → w.tasks[taskId]? = some entry →
      status.state ∈ entry.status.state.allowed)
    (hmaps : ∀ key taskId, op = .mapInsert key taskId → w.Owns key.1 taskId) : w'.Sound := by
  refine ⟨fun taskId entry hent => ?_, fun key taskId hkey => ?_, fun taskId => ?_, fun taskId => ?_⟩
  · cases touches_answers hr taskId with
    | left htsk hstts => exact h.ids taskId entry (htsk.symm.trans hent)
    | created entry' hbef htsk hid hstts =>
      obtain rfl := Option.some.inj (htsk.symm.trans hent)
      exact hid
    | changed old entry' hbef htsk hid howr hstatus hstts =>
      obtain rfl := Option.some.inj (htsk.symm.trans hent)
      exact hid.trans (h.ids taskId old hbef)
    | moved old entry' status hop hbef htsk hid howr hstatus hstts =>
      obtain rfl := Option.some.inj (htsk.symm.trans hent)
      exact hid.trans (h.ids taskId old hbef)
  · apply TaskWorld.Owns.answers ?_ hr
    rcases map_answers hr key with hsame | ⟨-, hnone⟩ | ⟨other, hop, hsome⟩
    · exact h.mapped key taskId (hsame.symm.trans hkey)
    · rw [hnone] at hkey
      cases hkey
    · obtain rfl := Option.some.inj (hsome.symm.trans hkey)
      exact hmaps key other hop
  · have hold := h.current taskId
    cases touches_answers hr taskId with
    | left htsk hstts => rw [htsk, hstts, hold]
    | created entry' hbef htsk hid hstts => rw [htsk, hstts]; rfl
    | changed old entry' hbef htsk hid howr hstatus hstts =>
      rw [htsk, hstts, ← hold, hbef, Option.map_some, Option.map_some, hstatus]
    | moved old entry' status hop hbef htsk hid howr hstatus hstts =>
      rw [htsk, hstts, Option.map_some, hstatus]
      rfl
  · have hold := h.follows taskId
    cases touches_answers hr taskId with
    | left htsk hstts => rwa [hstts]
    | created entry' hbef htsk hid hstts =>
      rw [hstts]
      exact .singleton _
    | changed old entry' hbef htsk hid howr hstatus hstts => rwa [hstts]
    | moved old entry' status hop hbef htsk hid howr hstatus hstts =>
      have hallow := hmov taskId status old hop hbef
      have hhead := h.current taskId
      rw [hbef] at hhead
      rw [hstts]
      apply List.isChain_cons.mpr ⟨fun state hst => ?_, hold⟩
      obtain rfl := Option.some.inj (hhead.trans hst)
      exact canTransitionTo_eq_ok.mpr hallow

end Store

/-! ## What a log says -/

def TaskOp.isStart : TaskOp → Bool
  | .startAgent .. => true
  | _ => false

/-- An operation after which a task is the caller's. -/
def Grants (caller : Option String) (taskId : String) : TaskLogEntry → Prop
  | ⟨_, .mapGet key, found⟩ => key.1 = caller ∧ found = some taskId
  | ⟨_, .createTask _ owner, entry⟩ => owner = caller ∧ entry.id = taskId
  | ⟨_, .getTask other, found⟩ => other = taskId ∧ ∃ entry, found = .ok entry ∧ entry.owner = caller
  | ⟨_, .findByContext _, found⟩ => ∃ entry, found = some entry ∧ entry.id = taskId ∧ entry.owner = caller
  | _ => False

def Denies (caller : Option String) (taskId : String) : TaskLogEntry → Prop
  | ⟨_, .getTask other, found⟩ => other = taskId ∧ ∀ entry, found = .ok entry → entry.owner ≠ caller
  | ⟨_, .updateStatus other _, updated⟩ => other = taskId ∧ updated ≠ .ok ()
  | ⟨_, .addHistory other _, added⟩ => other = taskId ∧ added ≠ .ok ()
  | _ => False

def OwnIn (caller : Option String) (log : List TaskLogEntry) (taskId : String) : Prop :=
  ∃ entry ∈ log, Grants caller taskId entry

def Denied (caller : Option String) (log : List TaskLogEntry) : Prop :=
  ∃ before entry later taskId, log = before ++ entry :: later ∧ OwnIn caller before taskId ∧ Denies caller taskId entry

def ReadsOwn (caller : Option String) (log : List TaskLogEntry) : Prop :=
  ∀ w taskId entry, (⟨w, .getTask taskId, .ok entry⟩ : TaskLogEntry) ∈ log → entry.owner = caller

/-- A log in which a message was not seen before. -/
def FreshIn (log : List TaskLogEntry) (key : IdempotencyKey) : Prop := ∃ w, (⟨w, .mapGet key, none⟩ : TaskLogEntry) ∈ log

def StartedIn (log : List TaskLogEntry) : Prop := ∃ entry ∈ log, entry.op.isStart = true

def SeenIn (log : List TaskLogEntry) (task : Task) : Prop :=
  ∃ w taskId entry, (⟨w, .getTask taskId, .ok entry⟩ : TaskLogEntry) ∈ log ∧ internalTaskToWire entry = task

def lastRead (log : List TaskLogEntry) (taskId : String) : Option TaskState :=
  match log.getLast? with
  | some ⟨_, .getTask other, .ok entry⟩ => if other = taskId then some entry.status.state else none
  | _ => none

section Logs

variable {caller : Option String} {log : List TaskLogEntry} {entry : TaskLogEntry} {taskId : String} {task : Task}

theorem OwnIn.concat (h : OwnIn caller log taskId) : OwnIn caller (log ++ [entry]) taskId := by
  obtain ⟨old, hmem, hgrs⟩ := h
  exact ⟨old, List.mem_append_left _ hmem, hgrs⟩

theorem ownIn_concat (h : Grants caller taskId entry) : OwnIn caller (log ++ [entry]) taskId :=
  ⟨entry, by simp, h⟩

theorem ownIn_concat_iff : OwnIn caller (log ++ [entry]) taskId ↔ OwnIn caller log taskId ∨ Grants caller taskId entry := by
  constructor
  · rintro ⟨old, hmem, hgrs⟩
    rcases List.mem_append.mp hmem with hold | hnew
    · exact .inl ⟨old, hold, hgrs⟩
    · exact .inr (List.mem_singleton.mp hnew ▸ hgrs)
  · rintro (h | h)
    · exact h.concat
    · exact ownIn_concat h

theorem Denied.concat (h : Denied caller log) (entry : TaskLogEntry) : Denied caller (log ++ [entry]) := by
  obtain ⟨before, old, later, id, rfl, hown, hdenies⟩ := h
  exact ⟨before, old, later ++ [entry], id, by simp, hown, hdenies⟩

theorem denied_concat (h : OwnIn caller log taskId) (hdenies : Denies caller taskId entry) : Denied caller (log ++ [entry]) :=
  ⟨log, entry, [], taskId, rfl, h, hdenies⟩

/-- A log is denied when it was already, or with its last operation. -/
theorem Denied.of_concat (h : Denied caller (log ++ [entry])) :
    Denied caller log ∨ ∃ taskId, OwnIn caller log taskId ∧ Denies caller taskId entry := by
  obtain ⟨before, old, later, id, hlog, hown, hdenies⟩ := h
  rcases List.eq_nil_or_concat later with rfl | ⟨later, last, rfl⟩
  · obtain ⟨rfl, hent⟩ := List.append_inj' hlog rfl
    obtain rfl := (List.cons.inj hent).1
    exact .inr ⟨id, hown, hdenies⟩
  · rw [List.concat_eq_append, ← List.cons_append, ← List.append_assoc] at hlog
    exact .inl ⟨before, old, later, id, (List.append_inj' hlog rfl).1, hown, hdenies⟩

theorem ReadsOwn.concat (h : ReadsOwn caller log)
    (hent : ∀ w id read, entry = ⟨w, .getTask id, .ok read⟩ → read.owner = caller) : ReadsOwn caller (log ++ [entry]) := by
  intro w id read hmem
  rcases List.mem_append.mp hmem with hold | hnew
  · exact h w id read hold
  · exact hent w id read (List.mem_singleton.mp hnew).symm

theorem lastRead_concat {w : TaskWorld} {read : TaskEntry} :
    lastRead (log ++ [⟨w, .getTask taskId, .ok read⟩]) taskId = some read.status.state := by
  unfold lastRead
  rw [List.getLast?_concat]
  exact if_pos rfl

end Logs

/-! ## What a call does -/

def lookups (w w' : TaskWorld) (key : IdempotencyKey) (contextId : String) (found : Option TaskEntry) : List TaskLogEntry :=
  [⟨w, .mapGet key, none⟩, ⟨w', .findByContext contextId, found⟩]

/-- The log of a call that found no task waiting in the context of its message. -/
def Untaken (call : HandlerCall) (log : List TaskLogEntry) : Prop :=
  ∀ caller msg contextId, call = .messageSend caller msg → msg.contextId = some contextId → ∃ w w' found,
    log = lookups w w' (caller, msg.id) contextId found ∧ ∀ existing, found = some existing → resumable caller existing = false

/-- What holds before an operation of a call. -/
def Permits (call : HandlerCall) : TaskOp → List TaskLogEntry → Prop
  | .mapGet key, log => log = [] ∧ call.key = some key
  | .mapRemove _, _ => False
  | .mapInsert key taskId, log => key.1 = call.caller ∧ OwnIn call.caller log taskId
  | .createTask _ owner, log => owner = call.caller ∧ Untaken call log
  | .updateStatus taskId status, log => OwnIn call.caller log taskId ∧
    ∃ state, lastRead log taskId = some state ∧ status.state ∈ state.allowed
  | .addArtifact taskId _, log | .addHistory taskId _, log => OwnIn call.caller log taskId
  | .startAgent .., log => (∃ key, call.key = some key ∧ FreshIn log key) ∧ ¬ StartedIn log
  | .emit (.ok (.task task)), log => SeenIn log task
  | .getTask _, _ | .findByContext _, _ | .emit _, _ => True

def TaskPre (call : HandlerCall) (op : TaskOp) (log : List TaskLogEntry) : Prop :=
  ReadsOwn call.caller log ∧ Permits call op log

abbrev Rule (call : HandlerCall) {α : Type} (F : List TaskLogEntry → Prop) (p : TaskProg α)
    (E : A2aError → List TaskLogEntry → Prop) (R : α → List TaskLogEntry → Prop) : Prop :=
  Barred taskLaws (Denied call.caller) (TaskPre call) F p E R

structure Serving (call : HandlerCall) (taskId : String) (started : Bool) (Q : List TaskLogEntry → Prop)
    (log : List TaskLogEntry) : Prop where
  own : OwnIn call.caller log taskId
  reads : ReadsOwn call.caller log
  unstarted : started = false → (∃ key, call.key = some key ∧ FreshIn log key) ∧ ¬ StartedIn log
  /-- What else is known of the log. -/
  also : Q log

section Parts

variable {call : HandlerCall} {taskId contextId : String} {started : Bool} {Q : List TaskLogEntry → Prop}
  {log : List TaskLogEntry}

theorem Rule.bind {α β : Type} {F : List TaskLogEntry → Prop} {p : TaskProg α} {f : α → TaskProg β}
    {E : A2aError → List TaskLogEntry → Prop} {R : α → List TaskLogEntry → Prop} {S : β → List TaskLogEntry → Prop}
    (h : Rule call F p E R) (hf : ∀ a, Rule call (R a) (f a) E S) : Rule call F (p >>= f) E S :=
  Barred.bind (fun _ entry h => h.concat entry) h hf

theorem Serving.concat {entry : TaskLogEntry} (h : Serving call taskId started Q log) (hsta : entry.op.isStart = false)
    (hent : ∀ w id read, entry = ⟨w, .getTask id, .ok read⟩ → read.owner = call.caller)
    (hQ : Q (log ++ [entry])) : Serving call taskId started Q (log ++ [entry]) := by
  refine ⟨h.own.concat, h.reads.concat hent, fun hno => ?_, hQ⟩
  obtain ⟨⟨key, hkey, w, hfr⟩, hnot⟩ := h.unstarted hno
  refine ⟨⟨key, hkey, w, List.mem_append_left _ hfr⟩, ?_⟩
  rintro ⟨old, hmem, hold⟩
  rcases List.mem_append.mp hmem with hbef | hnow
  · exact hnot ⟨old, hbef, hold⟩
  · rw [List.mem_singleton.mp hnow, hsta] at hold
    cases hold

theorem Serving.weaken {Q' : List TaskLogEntry → Prop} (h : Serving call taskId started Q log) (hQ : Q' log) :
    Serving call taskId true Q' log :=
  ⟨h.own, h.reads, fun h => (by cases h), hQ⟩

theorem rule_getTask (h : Serving call taskId started Q log) : Rule call (fun log' => log' = log) (getTask taskId)
    (fun _ _ => False) fun entry log' => ∃ w, log' = log ++ [⟨w, .getTask taskId, .ok entry⟩] ∧ entry.owner = call.caller := by
  refine Rule.bind (R := fun found log' => ∃ w entry, found = .ok entry ∧ log' = log ++ [⟨w, .getTask taskId, .ok entry⟩] ∧
    entry.owner = call.caller) (Barred.perform (fun _ hlog => hlog ▸ ⟨h.reads, trivial⟩) fun _ w found w' hlog _ => ?_)
    fun found => Barred.intro ?_
  · subst hlog
    by_cases hgood : ∃ entry, found = .ok entry ∧ entry.owner = call.caller
    · obtain ⟨entry, rfl, howr⟩ := hgood
      exact .inr ⟨w, entry, rfl, rfl, howr⟩
    · exact .inl (denied_concat h.own ⟨rfl, fun entry hok howr => hgood ⟨entry, hok, howr⟩⟩)
  · rintro log' ⟨w, entry, rfl, rfl, howr⟩
    exact Barred.pure fun _ hlog => ⟨w, hlog, howr⟩

/-- **Moving the task**: it is read and stored, or it is read in a state that does not allow it. -/
theorem rule_transitionState (h : Serving call taskId started Q log) (state : TaskState) (message : Option String) :
    Rule call (fun log' => log' = log) (transitionState taskId contextId state message)
      (fun _ log' => ∃ w entry, log' = log ++ [⟨w, .getTask taskId, .ok entry⟩] ∧ entry.owner = call.caller ∧
        state ∉ entry.status.state.allowed)
      fun _ log' => ∃ w entry w', log' = log ++ [⟨w, .getTask taskId, .ok entry⟩,
        ⟨w', .updateStatus taskId { state, message }, .ok ()⟩] ∧ entry.owner = call.caller := by
  refine Rule.bind ((rule_getTask h).mono (fun _ h => h) (fun _ _ h => h.elim) fun _ _ h => h) fun entry =>
    Barred.intro ?_
  rintro _ ⟨w, rfl, howr⟩
  by_cases hallow : state ∈ entry.status.state.allowed
  · rw [canTransitionTo_eq_ok.mpr hallow]
    refine Rule.bind (R := fun _ log' => log' = log ++ [⟨w, .getTask taskId, .ok entry⟩]) (Barred.pure fun _ h => h) fun _ => ?_
    refine Rule.bind (R := fun _ log' => ∃ w', log' = log ++ [⟨w, .getTask taskId, .ok entry⟩,
      ⟨w', .updateStatus taskId { state, message }, .ok ()⟩]) ?_ fun _ => ?_
    · refine Rule.bind (R := fun updated log' => ∃ w', updated = .ok () ∧ log' = log ++ [⟨w, .getTask taskId, .ok entry⟩,
        ⟨w', .updateStatus taskId { state, message }, .ok ()⟩]) (Barred.perform ?_ ?_) fun updated => Barred.intro ?_
      · rintro _ rfl
        refine ⟨h.reads.concat ?_, h.own.concat, entry.status.state, lastRead_concat, hallow⟩
        intro _ _ _ heq
        cases heq
        exact howr
      · rintro _ w' updated w'' rfl -
        by_cases hok : updated = .ok ()
        · subst hok
          exact .inr ⟨w', rfl, by simp⟩
        · exact .inl (denied_concat h.own.concat ⟨rfl, hok⟩)
      · rintro _ ⟨w', rfl, rfl⟩
        exact Barred.pure fun _ hlog => ⟨w', hlog⟩
    · exact Barred.pure fun _ ⟨w', hlog⟩ => ⟨w, entry, w', hlog, howr⟩
  · have herr : canTransitionTo entry.status.state state =
        .error (.invalidStateTransition entry.status.state.name state.name) := if_neg hallow
    rw [herr]
    refine Rule.bind (R := fun _ _ => False) (Barred.throw fun _ hlog => ⟨w, entry, hlog, howr, hallow⟩) fun _ => ?_
    exact Barred.intro fun _ h => h.elim

def Stays (Q : List TaskLogEntry → Prop) : Prop := ∀ log entry, Q log → Q (log ++ [entry])

theorem Stays.and {Q' : List TaskLogEntry → Prop} (h : Stays Q) (h' : Stays Q') : Stays fun log => Q log ∧ Q' log :=
  fun log entry hlog => ⟨h log entry hlog.1, h' log entry hlog.2⟩

theorem stays_mem (entry : TaskLogEntry) : Stays fun log => entry ∈ log := fun _ _ h => List.mem_append_left _ h

theorem stays_exists {α : Type} {P : α → List TaskLogEntry → Prop} (h : ∀ a, Stays (P a)) : Stays fun log => ∃ a, P a log :=
  fun log entry ⟨a, ha⟩ => ⟨a, h a log entry ha⟩

/-- An operation that starts nothing and reads nothing. -/
theorem Serving.quiet (entry : TaskLogEntry) (hQ : Stays Q) (h : Serving call taskId started Q log)
    (hsta : entry.op.isStart = false) (hread : ∀ w id read, entry ≠ ⟨w, .getTask id, .ok read⟩) :
    Serving call taskId started Q (log ++ [entry]) :=
  h.concat hsta (fun w id read heq => (hread w id read heq).elim) (hQ log entry h.also)

theorem Serving.read {w : TaskWorld} {entry : TaskEntry} (hQ : Stays Q) (h : Serving call taskId started Q log)
    (howr : entry.owner = call.caller) : Serving call taskId started Q (log ++ [⟨w, .getTask taskId, .ok entry⟩]) := by
  refine h.concat rfl (fun _ _ _ heq => ?_) (hQ log _ h.also)
  cases heq
  exact howr

theorem Serving.moved (w w' : TaskWorld) {entry : TaskEntry} (status : TaskStatus) (hQ : Stays Q)
    (h : Serving call taskId started Q log) (howr : entry.owner = call.caller) : Serving call taskId started Q
      (log ++ [⟨w, .getTask taskId, .ok entry⟩, ⟨w', .updateStatus taskId status, .ok ()⟩]) := by
  have hboth := (h.read (w := w) hQ howr).quiet ⟨w', .updateStatus taskId status, .ok ()⟩ hQ rfl
    fun _ _ _ heq => by cases heq
  rwa [List.append_assoc] at hboth

theorem rule_orFail {α : Type} (result : Except A2aError α) : Rule call (Serving call taskId started Q) (orFail result)
    (fun _ => Serving call taskId started Q) fun _ => Serving call taskId started Q := by
  cases result with
  | ok a => exact Barred.pure fun _ h => h
  | error e => exact Barred.throw fun _ h => h

/-! ### Parts that go on serving the task -/

section Going

variable (hQ : Stays Q)
include hQ

theorem rule_moving (state : TaskState) (message : Option String) :
    Rule call (Serving call taskId started Q) (transitionState taskId contextId state message)
      (fun _ => Serving call taskId started Q) fun _ => Serving call taskId started Q := by
  refine Barred.intro fun log h => (rule_transitionState h state message).mono (fun _ h => h) ?_ ?_
  · rintro _ _ ⟨w, entry, rfl, howr, -⟩
    exact h.read hQ howr
  · rintro _ _ ⟨w, entry, w', rfl, howr⟩
    exact h.moved w w' _ hQ howr

theorem rule_showing : Rule call (Serving call taskId started Q) (getTask taskId) (fun _ => Serving call taskId started Q)
    fun entry log => Serving call taskId started Q log ∧ SeenIn log (internalTaskToWire entry) := by
  refine Barred.intro fun log h => (rule_getTask h).mono (fun _ h => h) (fun _ _ h => h.elim) ?_
  rintro entry _ ⟨w, rfl, howr⟩
  exact ⟨h.read hQ howr, w, taskId, entry, by simp, rfl⟩

/-- An operation whose answer leaves the task served. -/
theorem rule_quiet {op : TaskOp} (hpre : ∀ log, Serving call taskId started Q log → Permits call op log)
    (hsta : op.isStart = false) (hread : ∀ id, op ≠ .getTask id) : Rule call (Serving call taskId started Q) (askTask op)
      (fun _ => Serving call taskId started Q) fun _ => Serving call taskId started Q := by
  refine Barred.perform (fun log h => ⟨h.reads, hpre log h⟩) fun log w r w' h _ => .inr (h.quiet _ hQ hsta ?_)
  intro _ id read heq
  cases heq
  exact hread id rfl

theorem rule_recordArtifact (text : String) : Rule call (Serving call taskId started Q) (recordArtifact taskId text)
    (fun _ => Serving call taskId started Q) fun _ => Serving call taskId started Q := by
  refine Rule.bind ((rule_showing hQ).mono (fun _ h => h) (fun _ _ h => h) fun _ _ h => h.1) fun _ => ?_
  exact Rule.bind (rule_quiet hQ (fun _ h => h.own) rfl fun _ h => by cases h) fun added => rule_orFail added

theorem rule_addHistoryMessage (msg : Message) : Rule call (Serving call taskId started Q) (addHistoryMessage taskId msg)
    (fun _ _ => False) fun _ => Serving call taskId started
      (fun log => Q log ∧ ∃ w, (⟨w, .addHistory taskId msg, .ok ()⟩ : TaskLogEntry) ∈ log) := by
  refine Rule.bind (R := fun added log => added = .ok () ∧ Serving call taskId started
      (fun log => Q log ∧ ∃ w, (⟨w, .addHistory taskId msg, .ok ()⟩ : TaskLogEntry) ∈ log) log)
    (Barred.perform (fun log h => ⟨h.reads, h.own⟩) fun log w added w' h _ => ?_) fun added => Barred.intro ?_
  · by_cases hok : added = .ok ()
    · subst hok
      have hadd := h.quiet ⟨w, .addHistory taskId msg, .ok ()⟩ hQ rfl fun _ _ _ heq => by cases heq
      exact .inr ⟨rfl, hadd.own, hadd.reads, hadd.unstarted, hadd.also, w, by simp⟩
    · exact .inl (denied_concat h.own ⟨rfl, hok⟩)
  · rintro _ ⟨rfl, h⟩
    exact Barred.pure fun _ hlog => hlog ▸ h

end Going

theorem rule_attempt {α : Type} {F G : List TaskLogEntry → Prop} {p : TaskProg α} {E : A2aError → List TaskLogEntry → Prop}
    (h : Rule call F p (fun _ => G) fun _ => G) : Rule call F (attempt p) E fun _ => G := by
  refine (Barred.attempt h).mono (fun _ h => h) (fun _ _ h => h) fun result log h => ?_
  cases result with
  | ok a => exact h.1 a rfl
  | error e => exact h.2 e rfl

def AgentRan (caller : Option String) (contextId : String) (msg : Message) (log : List TaskLogEntry) : Prop :=
  ∃ w run, (⟨w, .startAgent caller contextId msg, run⟩ : TaskLogEntry) ∈ log

theorem stays_agentRan (caller : Option String) (contextId : String) (msg : Message) :
    Stays (AgentRan caller contextId msg) := stays_exists fun _ => stays_exists fun _ => stays_mem _

section Sending

variable {agent : Bool} {caller : Option String} {msg : Message}

theorem rule_startAgent (hQ : Stays Q) : Rule call (Serving call taskId false Q) (askTask (.startAgent caller contextId msg))
    (fun _ _ => False) fun _ => Serving call taskId true fun log => Q log ∧ AgentRan caller contextId msg log :=
  Barred.perform (fun _ h => ⟨h.reads, h.unstarted rfl⟩) fun _ w run _ h _ => .inr
    ⟨h.own.concat, h.reads.concat fun _ _ _ heq => (by cases heq), fun h => (by cases h), hQ _ _ h.also, w, run, by simp⟩

theorem rule_runAgent (hQ : Stays Q) : Rule call (Serving call taskId false Q) (runAgent caller taskId contextId msg)
    (fun _ => Serving call taskId true fun log => Q log ∧ AgentRan caller contextId msg log)
    fun _ => Serving call taskId true fun log => Q log ∧ AgentRan caller contextId msg log := by
  have hboth := hQ.and (stays_agentRan caller contextId msg)
  refine Rule.bind ((rule_startAgent hQ).mono (fun _ h => h) (fun _ _ h => h.elim) fun _ _ h => h) fun run => ?_
  refine Rule.bind (rule_orFail run) fun results => ?_
  refine Rule.bind (rule_orFail (drain none [] results)) fun drained => ?_
  unfold finishRun
  by_cases htext : drained.2.text ≠ ""
  · rw [if_pos htext]
    exact Rule.bind (rule_recordArtifact hboth drained.2.text) fun _ => Barred.pure fun _ h => h
  · rw [if_neg htext]
    exact Barred.pure fun _ h => h

theorem rule_finishSend (hQ : Stays Q) {key : IdempotencyKey} (hkey : key.1 = call.caller)
    (finished : Except A2aError TaskState) : Rule call (Serving call taskId started Q)
      (finishSend key taskId contextId finished) (fun _ => Serving call taskId started Q)
      fun task log => Serving call taskId started Q log ∧ SeenIn log task := by
  have hlast : Rule call (Serving call taskId started Q) (do let entry ← getTask taskId; return internalTaskToWire entry)
      (fun _ => Serving call taskId started Q) fun task log => Serving call taskId started Q log ∧ SeenIn log task :=
    Rule.bind (rule_showing hQ) fun _ => Barred.pure fun _ h => h
  cases finished with
  | error e => exact Rule.bind (rule_attempt (rule_moving hQ _ _)) fun _ => hlast
  | ok state =>
    refine Rule.bind (rule_moving hQ _ _) fun _ => Rule.bind (rule_quiet hQ ?_ rfl ?_) fun _ => hlast
    · exact fun _ h => ⟨hkey, h.own⟩
    · exact fun _ h => by cases h

/-- **Serving a message on its task.** -/
theorem rule_serveTask (hQ : Stays Q) (hclr : call.caller = caller) : Rule call (Serving call taskId false Q)
    (serveTask agent caller msg taskId contextId)
    (fun _ => Serving call taskId true fun log => Q log ∧ (agent = true → AgentRan caller contextId msg log))
    fun task log => Serving call taskId true (fun log => Q log ∧ (agent = true → AgentRan caller contextId msg log)) log ∧
      SeenIn log task := by
  have hboth : Stays fun log => Q log ∧ (agent = true → AgentRan caller contextId msg log) :=
    hQ.and fun log entry h hagent => stays_agentRan caller contextId msg log entry (h hagent)
  cases agent with
  | true =>
    refine Rule.bind (rule_attempt ?_) fun finished => rule_finishSend hboth hclr.symm finished
    refine (rule_runAgent hQ).mono (fun _ h => h) (fun _ _ h => ?_) fun _ _ h => ?_
    · exact h.weaken ⟨h.also.1, fun _ => h.also.2⟩
    · exact h.weaken ⟨h.also.1, fun _ => h.also.2⟩
  | false =>
    refine Rule.bind (R := fun _ => Serving call taskId false Q) (Barred.pure fun _ h => h) fun finished => ?_
    refine (rule_finishSend hboth hclr.symm finished).mono (fun _ h => ?_) (fun _ _ h => h) fun _ _ h => h
    exact h.weaken ⟨h.also, fun h => by cases h⟩

/-! ### Sending -/

def ResumedIn (agent : Bool) (caller : Option String) (msg : Message) (existing : TaskEntry) (log : List TaskLogEntry) :
    Prop :=
  (∃ w, (⟨w, .updateStatus existing.id { state := .working }, .ok ()⟩ : TaskLogEntry) ∈ log) ∧
  (∃ w, (⟨w, .addHistory existing.id msg, .ok ()⟩ : TaskLogEntry) ∈ log) ∧
  (agent = true → AgentRan caller existing.contextId msg log)

/-- A log in which the task that was found was then read in a state that is not resumed. -/
def TakenIn (existing : TaskEntry) (start log : List TaskLogEntry) : Prop :=
  ∃ w entry rest, log = start ++ (⟨w, .getTask existing.id, .ok entry⟩ : TaskLogEntry) :: rest ∧
    .working ∉ entry.status.state.allowed

/-- **What a message in a context does**: it was seen before, or a task that waits for it is resumed, unless another call
took it. -/
def Continues (agent : Bool) (caller : Option String) (msg : Message) (log : List TaskLogEntry) : Prop :=
  ∀ contextId, msg.contextId = some contextId →
    (∃ w taskId rest, log = (⟨w, .mapGet (caller, msg.id), some taskId⟩ : TaskLogEntry) :: rest) ∨
    ∃ w w' found, lookups w w' (caller, msg.id) contextId found <+: log ∧
      ∀ existing, found = some existing → resumable caller existing = true →
        ResumedIn agent caller msg existing log ∨ TakenIn existing (lookups w w' (caller, msg.id) contextId found) log

theorem stays_begins (start : List TaskLogEntry) : Stays fun log => start <+: log :=
  fun _ _ h => h.trans (List.prefix_append _ _)

theorem resumable_eq {existing : TaskEntry} (h : resumable caller existing = true) :
    existing.status.state = .inputRequired ∧ existing.owner = caller := by
  unfold resumable at h
  rw [Bool.and_eq_true] at h
  exact ⟨of_decide_eq_true h.1, of_decide_eq_true h.2⟩

variable {w : TaskWorld}

/-- **Resuming a task.** -/
theorem rule_resumeSend {w' : TaskWorld} {existing : TaskEntry} (hclr : call.caller = caller)
    (hkey : call.key = some (caller, msg.id)) (hctx : msg.contextId = some contextId)
    (hresum : resumable caller existing = true) :
    Rule call (fun log => log = lookups w w' (caller, msg.id) contextId (some existing))
      (resumeSend agent caller msg existing)
      (fun _ log => ReadsOwn call.caller log ∧ Continues agent caller msg log)
      fun task log => ReadsOwn call.caller log ∧ Continues agent caller msg log ∧ SeenIn log task := by
  obtain ⟨hst, howr⟩ := resumable_eq hresum
  have hfrom : Serving call existing.id false (fun log => lookups w w' (caller, msg.id) contextId (some existing) <+: log)
      (lookups w w' (caller, msg.id) contextId (some existing)) := by
    refine ⟨⟨_, List.mem_cons_of_mem _ List.mem_cons_self, existing, rfl, rfl, howr.trans hclr.symm⟩, ?_, fun _ => ?_,
      List.prefix_rfl⟩
    · intro v id read hmem
      rcases List.mem_cons.mp hmem with heq | hmem
      · cases heq
      · cases List.mem_singleton.mp hmem
    · refine ⟨⟨_, hkey, w, List.mem_cons_self⟩, ?_⟩
      rintro ⟨entry, hmem, hsta⟩
      rcases List.mem_cons.mp hmem with rfl | hmem
      · cases hsta
      · obtain rfl := List.mem_singleton.mp hmem
        cases hsta
  -- once the task is moved, the rest of the call serves it
  have hmvd : Stays fun log => lookups w w' (caller, msg.id) contextId (some existing) <+: log ∧
      ∃ v, (⟨v, .updateStatus existing.id { state := .working }, .ok ()⟩ : TaskLogEntry) ∈ log :=
    (stays_begins _).and (stays_exists fun _ => stays_mem _)
  have hadd := hmvd.and (stays_exists fun v => stays_mem (⟨v, .addHistory existing.id msg, .ok ()⟩ : TaskLogEntry))
  have hdone : ∀ log, Serving call existing.id true (fun log => ((lookups w w' (caller, msg.id) contextId (some existing) <+: log ∧
      ∃ v, (⟨v, .updateStatus existing.id { state := .working }, .ok ()⟩ : TaskLogEntry) ∈ log) ∧
      ∃ v, (⟨v, .addHistory existing.id msg, .ok ()⟩ : TaskLogEntry) ∈ log) ∧
      (agent = true → AgentRan caller existing.contextId msg log)) log →
      ReadsOwn call.caller log ∧ Continues agent caller msg log := by
    rintro log ⟨-, hrd, -, ⟨⟨hbegs, hupdate⟩, hhist⟩, hran⟩
    refine ⟨hrd, fun contextId' hctx' => .inr ?_⟩
    obtain rfl := Option.some.inj (hctx.symm.trans hctx')
    refine ⟨w, w', some existing, hbegs, fun other hoth _ => .inl ?_⟩
    obtain rfl := Option.some.inj hoth
    exact ⟨hupdate, hhist, hran⟩
  refine Rule.bind (R := fun _ => Serving call existing.id false fun log =>
    lookups w w' (caller, msg.id) contextId (some existing) <+: log ∧
      ∃ v, (⟨v, .updateStatus existing.id { state := .working }, .ok ()⟩ : TaskLogEntry) ∈ log)
    ((rule_transitionState hfrom .working none).mono (fun _ h => h) ?_ ?_) fun _ => ?_
  · rintro _ _ ⟨v, entry, rfl, hown, hnot⟩
    refine ⟨(hfrom.read (stays_begins _) hown).reads, fun contextId' hctx' => .inr ?_⟩
    obtain rfl := Option.some.inj (hctx.symm.trans hctx')
    refine ⟨w, w', some existing, List.prefix_append _ _, fun other hoth _ => .inr ?_⟩
    obtain rfl := Option.some.inj hoth
    exact ⟨v, entry, [], rfl, hnot⟩
  · rintro _ _ ⟨v, entry, v', rfl, hown⟩
    have hthen := hfrom.moved v v' { state := .working } (stays_begins _) hown
    exact ⟨hthen.own, hthen.reads, hthen.unstarted, hthen.also, v', by simp⟩
  · refine Rule.bind ((rule_addHistoryMessage hmvd msg).mono (fun _ h => h) (fun _ _ h => h.elim) fun _ _ h => h) fun _ => ?_
    refine (rule_serveTask hadd hclr).mono (fun _ h => h) (fun _ log h => hdone log h) fun task log h => ?_
    exact ⟨(hdone log h.1).1, (hdone log h.1).2, h.2⟩

structure Unserved (call : HandlerCall) (log : List TaskLogEntry) : Prop where
  reads : ReadsOwn call.caller log
  fresh : ∃ key, call.key = some key ∧ FreshIn log key
  unstarted : ¬ StartedIn log
  untaken : Untaken call log

/-- The first of a new task: it is created, and the message is its history. -/
theorem rule_created {start : List TaskLogEntry} (h : Unserved call start) (hclr : call.caller = caller) {α : Type}
    {f : TaskEntry → TaskProg α} {E : A2aError → List TaskLogEntry → Prop} {R : α → List TaskLogEntry → Prop}
    (hf : ∀ entry, Rule call (Serving call entry.id false fun log => start <+: log) (f entry) E R) :
    Rule call (fun log => log = start) (do
      let entry ← askTask (.createTask msg.contextId caller)
      addHistoryMessage entry.id msg
      f entry) E R := by
  refine Rule.bind (R := fun entry => Serving call entry.id false fun log => start <+: log) (Barred.perform ?_ ?_)
    fun entry => ?_
  · rintro _ rfl
    exact ⟨h.reads, hclr.symm, h.untaken⟩
  · rintro _ w entry w' rfl -
    refine .inr ⟨ownIn_concat ⟨hclr.symm, rfl⟩, h.reads.concat fun _ _ _ heq => (by cases heq), fun _ => ?_,
      List.prefix_append _ _⟩
    obtain ⟨key, hkey, v, hfr⟩ := h.fresh
    refine ⟨⟨key, hkey, v, List.mem_append_left _ hfr⟩, ?_⟩
    rintro ⟨old, hmem, hsta⟩
    rcases List.mem_append.mp hmem with hold | hnew
    · exact h.unstarted ⟨old, hold, hsta⟩
    · obtain rfl := List.mem_singleton.mp hnew
      cases hsta
  · refine Rule.bind ((rule_addHistoryMessage (stays_begins _) msg).mono (fun _ h => h) (fun _ _ h => h.elim)
      fun _ _ h => ?_) fun _ => hf entry
    exact ⟨h.own, h.reads, h.unstarted, h.also.1⟩

/-- **A task of its own.** -/
theorem rule_createSend {start : List TaskLogEntry} (h : Unserved call start) (hclr : call.caller = caller) :
    Rule call (fun log => log = start) (createSend agent caller msg)
      (fun _ log => ReadsOwn call.caller log ∧ start <+: log)
      fun task log => ReadsOwn call.caller log ∧ start <+: log ∧ SeenIn log task := by
  refine rule_created h hclr fun entry => ?_
  refine Rule.bind ((rule_moving (stays_begins _) _ _).mono (fun _ h => h) (fun _ _ h => ⟨h.reads, h.also⟩)
    fun _ _ h => h) fun _ => ?_
  refine (rule_serveTask (stays_begins _) hclr).mono (fun _ h => h) (fun _ _ h => ⟨h.reads, h.also.1⟩) ?_
  exact fun _ _ h => ⟨h.1.reads, h.1.also.1, h.2⟩

/-- A log that has no task yet, of lookups that found none that waits. -/
theorem unserved_lookups {w' : TaskWorld} {found : Option TaskEntry} (hcall : call = .messageSend caller msg)
    (hctx : msg.contextId = some contextId)
    (hnone : ∀ existing, found = some existing → resumable caller existing = false) :
    Unserved call (lookups w w' (caller, msg.id) contextId found) := by
  subst hcall
  refine ⟨fun v id read hmem => ?_, ⟨_, rfl, w, List.mem_cons_self⟩, ?_, ?_⟩
  · rcases List.mem_cons.mp hmem with heq | hmem
    · cases heq
    · cases List.mem_singleton.mp hmem
  · rintro ⟨entry, hmem, hsta⟩
    rcases List.mem_cons.mp hmem with rfl | hmem
    · cases hsta
    · obtain rfl := List.mem_singleton.mp hmem
      cases hsta
  · rintro _ _ contextId' ⟨rfl, rfl⟩ hctx'
    obtain rfl := Option.some.inj (hctx.symm.trans hctx')
    exact ⟨w, w', found, rfl, hnone⟩

theorem unserved_fresh (hkey : call.key = some (caller, msg.id))
    (huntaken : Untaken call [(⟨w, .mapGet (caller, msg.id), none⟩ : TaskLogEntry)]) :
    Unserved call [(⟨w, .mapGet (caller, msg.id), none⟩ : TaskLogEntry)] := by
  refine ⟨fun v id read hmem => ?_, ⟨_, hkey, w, List.mem_cons_self⟩, ?_, huntaken⟩
  · cases List.mem_singleton.mp hmem
  · rintro ⟨entry, hmem, hsta⟩
    obtain rfl := List.mem_singleton.mp hmem
    cases hsta

/-- **A message that was not seen before.** -/
theorem rule_sendNew (hcall : call = .messageSend caller msg) :
    Rule call (fun log => log = [(⟨w, .mapGet (caller, msg.id), none⟩ : TaskLogEntry)]) (sendNew agent caller msg)
      (fun _ log => ReadsOwn call.caller log ∧ Continues agent caller msg log)
      fun task log => ReadsOwn call.caller log ∧ Continues agent caller msg log ∧ SeenIn log task := by
  have hclr : call.caller = caller := by rw [hcall]; rfl
  have hkey : call.key = some (caller, msg.id) := by rw [hcall]; rfl
  unfold sendNew
  cases hctx : msg.contextId with
  | none =>
    have huntaken : ∀ log, Untaken call log := by
      intro log _ _ contextId heq h
      obtain ⟨rfl, rfl⟩ := HandlerCall.messageSend.inj (hcall.symm.trans heq)
      rw [hctx] at h
      cases h
    have hconts : ∀ log, Continues agent caller msg log := by
      intro log contextId h
      rw [hctx] at h
      cases h
    refine (rule_createSend (unserved_fresh hkey (huntaken _)) hclr).mono (fun _ h => h)
      (fun _ log h => ⟨h.1, hconts log⟩) ?_
    exact fun _ log h => ⟨h.1, hconts log, h.2.2⟩
  | some contextId =>
    refine Rule.bind (R := fun found log => ∃ w', log = lookups w w' (caller, msg.id) contextId found)
      (Barred.perform ?_ fun log w' found _ hlog _ => .inr ⟨w', hlog ▸ rfl⟩) fun found => Barred.intro ?_
    · rintro _ rfl
      refine ⟨fun v id read hmem => ?_, trivial⟩
      cases List.mem_singleton.mp hmem
    · rintro _ ⟨w', rfl⟩
      unfold sendFound
      cases hfnd : found.filter (resumable caller) with
      | some existing =>
        obtain ⟨rfl, hresum⟩ := Option.filter_eq_some_iff.mp hfnd
        exact rule_resumeSend hclr hkey hctx hresum
      | none =>
        have hnone : ∀ existing, found = some existing → resumable caller existing = false := by
          rintro existing rfl
          have hnot := Option.filter_eq_none_iff.mp hfnd existing rfl
          exact Bool.eq_false_iff.mpr hnot
        have hconts : ∀ log, lookups w w' (caller, msg.id) contextId found <+: log → Continues agent caller msg log := by
          intro log hbegs contextId' hctx'
          obtain rfl := Option.some.inj (hctx.symm.trans hctx')
          refine .inr ⟨w, w', found, hbegs, fun existing hexist hresum => ?_⟩
          rw [hnone existing hexist] at hresum
          cases hresum
        refine (rule_createSend (unserved_lookups hcall hctx hnone) hclr).mono (fun _ h => h) ?_ ?_
        · exact fun _ log h => ⟨h.1, hconts log h.2⟩
        · exact fun _ log h => ⟨h.1, hconts log h.2.1, h.2.2⟩

/-- A task that a message was mapped to. -/
theorem rule_ownedTask (hQ : Stays Q) (hclr : call.caller = caller) : Rule call (Serving call taskId started Q)
    (ownedTask caller taskId) (fun _ _ => False)
    fun entry log => Serving call taskId started Q log ∧ SeenIn log (internalTaskToWire entry) := by
  refine Rule.bind (R := fun entry log => entry.owner = caller ∧ Serving call taskId started Q log ∧
    SeenIn log (internalTaskToWire entry)) (Barred.intro fun log h => (rule_getTask h).mono (fun _ h => h)
      (fun _ _ h => h) ?_) fun entry => Barred.intro ?_
  · rintro entry _ ⟨w, rfl, howr⟩
    exact ⟨howr.trans hclr, h.read hQ howr, w, taskId, entry, by simp, rfl⟩
  · rintro log ⟨howr, h⟩
    rw [if_pos howr]
    exact Barred.pure fun _ hlog => hlog ▸ h

/-- Only a task that is missing is sent anew. -/
theorem sendKnown_error {e : A2aError} (h : ∀ id, e ≠ .taskNotFound id) : sendKnown agent caller msg (.error e) = throw e := by
  cases e with
  | taskNotFound id => exact (h id rfl).elim
  | taskNotCancelable id state => rfl
  | invalidParams message => rfl
  | internal message => rfl
  | invalidStateTransition source target => rfl

/-- **A message after the map was asked.** -/
theorem rule_sendLooked (known : Option String) (hcall : call = .messageSend caller msg) :
    Rule call (fun log => log = [(⟨w, .mapGet (caller, msg.id), known⟩ : TaskLogEntry)]) (sendLooked agent caller msg known)
      (fun _ log => ReadsOwn call.caller log ∧ Continues agent caller msg log)
      fun task log => ReadsOwn call.caller log ∧ Continues agent caller msg log ∧ SeenIn log task := by
  have hclr : call.caller = caller := by rw [hcall]; rfl
  cases known with
  | none => exact rule_sendNew hcall
  | some taskId =>
    have hseen : Stays fun log => [(⟨w, .mapGet (caller, msg.id), some taskId⟩ : TaskLogEntry)] <+: log := stays_begins _
    have hconts : ∀ log, [(⟨w, .mapGet (caller, msg.id), some taskId⟩ : TaskLogEntry)] <+: log →
        Continues agent caller msg log := by
      rintro log ⟨rest, rfl⟩
      exact fun _ _ => .inl ⟨w, taskId, rest, rfl⟩
    have hfrom : ∀ log, log = [(⟨w, .mapGet (caller, msg.id), some taskId⟩ : TaskLogEntry)] →
        Serving call taskId true (fun log => [(⟨w, .mapGet (caller, msg.id), some taskId⟩ : TaskLogEntry)] <+: log) log := by
      rintro _ rfl
      refine ⟨⟨_, List.mem_cons_self, hclr.symm, rfl⟩, fun v id read hmem => ?_, fun h => (by cases h), List.prefix_rfl⟩
      cases List.mem_singleton.mp hmem
    refine Rule.bind (R := fun result log => (∀ id, result ≠ .error (.taskNotFound id)) ∧ ReadsOwn call.caller log ∧
      Continues agent caller msg log ∧ ∀ task, result = .ok task → SeenIn log task) ?_ fun result => ?_
    · refine (Barred.attempt (E := fun e log => (∀ id, e ≠ .taskNotFound id) ∧ ReadsOwn call.caller log ∧
        Continues agent caller msg log) (R := fun task log => ReadsOwn call.caller log ∧ Continues agent caller msg log ∧
          SeenIn log task) ?_).mono hfrom (fun _ _ h => h) fun result log h => ?_
      · unfold tasksGet
        have hlook : ∀ log, Serving call taskId true
            (fun log => [(⟨w, .mapGet (caller, msg.id), some taskId⟩ : TaskLogEntry)] <+: log) log →
            ReadsOwn call.caller log ∧ Continues agent caller msg log := fun log h => ⟨h.reads, hconts log h.also⟩
        refine Rule.bind (R := fun _ => Serving call taskId true
          fun log => [(⟨w, .mapGet (caller, msg.id), some taskId⟩ : TaskLogEntry)] <+: log) ?_ fun _ => ?_
        · unfold validateId
          by_cases hblank : isBlank taskId
          · rw [if_pos hblank]
            exact Barred.throw fun log h => ⟨fun _ h => (by cases h), hlook log h⟩
          · rw [if_neg hblank]
            by_cases hlong : 256 < taskId.utf8ByteSize
            · rw [if_pos hlong]
              exact Barred.throw fun log h => ⟨fun _ h => (by cases h), hlook log h⟩
            · rw [if_neg hlong]
              exact Barred.pure fun _ h => h
        · refine Rule.bind ((rule_ownedTask hseen hclr).mono (fun _ h => h) (fun _ _ h => h.elim) fun _ _ h => h)
            fun entry => Barred.pure fun log h => ?_
          exact ⟨(hlook log h.1).1, (hlook log h.1).2, h.2⟩
      · cases result with
        | ok task =>
          obtain ⟨hrd, hcont, htask⟩ := h.1 task rfl
          exact ⟨fun _ h => (by cases h), hrd, hcont, fun other hoth => Except.ok.inj hoth ▸ htask⟩
        | error e =>
          obtain ⟨hoth, hrd, hcont⟩ := h.2 e rfl
          exact ⟨fun id h => hoth id (Except.error.inj h), hrd, hcont, fun _ h => (by cases h)⟩
    · cases result with
      | ok task => exact Barred.pure fun _ h => ⟨h.2.1, h.2.2.1, h.2.2.2 task rfl⟩
      | error e =>
        refine Barred.intro fun log h => ?_
        rw [sendKnown_error fun id he => h.1 id (by rw [he])]
        exact Barred.throw fun _ hlog => hlog ▸ ⟨h.2.1, h.2.2.1⟩

/-- The lookup of a message id, the first operation of a message. -/
theorem rule_mapGet (hkey : call.key = some (caller, msg.id)) : Rule call (fun log => log = [])
    (askTask (.mapGet (caller, msg.id))) (fun _ _ => False)
    fun known log => ∃ w, log = [(⟨w, .mapGet (caller, msg.id), known⟩ : TaskLogEntry)] := by
  refine Barred.perform ?_ fun log w known w' hlog _ => .inr ⟨w, by rw [hlog]; rfl⟩
  rintro _ rfl
  exact ⟨fun _ _ _ h => (by cases h), rfl, hkey⟩

def SendPost (agent : Bool) (call : HandlerCall) (caller : Option String) [JsonText] (msg : Message)
    (log : List TaskLogEntry) : Prop :=
  ReadsOwn call.caller log ∧ (validateMessage msg = .ok () → Continues agent caller msg log)

theorem rule_messageSend [JsonText] (hcall : call = .messageSend caller msg) :
    Rule call (fun log => log = []) (messageSend agent caller msg)
      (fun _ log => SendPost agent call caller msg log)
      fun task log => SendPost agent call caller msg log ∧ SeenIn log task := by
  unfold messageSend
  cases hval : validateMessage msg with
  | error e =>
    refine Rule.bind (R := fun _ _ => False) (Barred.throw ?_) fun _ => Barred.intro fun _ h => h.elim
    rintro _ rfl
    exact ⟨fun _ _ _ h => (by cases h), fun h => by rw [hval] at h; cases h⟩
  | ok u =>
    refine Rule.bind (R := fun _ log => log = []) (Barred.pure fun _ h => h) fun _ => ?_
    have hkey : call.key = some (caller, msg.id) := by rw [hcall]; rfl
    refine Rule.bind ((rule_mapGet hkey).mono (fun _ h => h) (fun _ _ h => h.elim) fun _ _ h => h) fun known =>
      Barred.intro ?_
    rintro _ ⟨w, rfl⟩
    refine (rule_sendLooked known hcall).mono (fun _ h => h) ?_ ?_
    · exact fun _ log h => ⟨h.1, fun _ => h.2⟩
    · exact fun _ log h => ⟨⟨h.1, fun _ => h.2.1⟩, h.2.2⟩

/-! ### Streaming -/

theorem rule_emit (hQ : Stays Q) {item : Except A2aError StreamResponse} (h : ∀ task, item ≠ .ok (.task task)) :
    Rule call (Serving call taskId started Q) (askTask (.emit item)) (fun _ => Serving call taskId started Q)
      fun _ => Serving call taskId started Q := by
  refine rule_quiet hQ (fun _ _ => ?_) rfl fun _ h => by cases h
  cases item with
  | error e => trivial
  | ok item =>
    cases item with
    | task task => exact (h task rfl).elim
    | statusUpdate event => trivial
    | artifactUpdate taskId contextId text append lastChunk => trivial

theorem rule_emitStatus (hQ : Stays Q) (status : Except A2aError TaskStatusUpdateEvent) :
    Rule call (Serving call taskId started Q) (emitStatus status) (fun _ => Serving call taskId started Q)
      fun _ => Serving call taskId started Q := by
  cases status with
  | ok event => exact rule_emit hQ fun _ h => by cases h
  | error e => exact rule_emit hQ fun _ h => by cases h

theorem rule_failStream (hQ : Stays Q) (error : A2aError) : Rule call (Serving call taskId started Q)
    (failStream taskId contextId error) (fun _ => Serving call taskId started Q) fun _ => Serving call taskId started Q := by
  refine Rule.bind (rule_attempt (rule_moving hQ _ _)) fun failed => ?_
  have hlast : Rule call (Serving call taskId started Q) (askTask (.emit (.error error)))
      (fun _ => Serving call taskId started Q) fun _ => Serving call taskId started Q := rule_emit hQ fun _ h => by cases h
  cases failed with
  | ok event => exact Rule.bind (rule_emit hQ fun _ h => by cases h) fun _ => hlast
  | error e => exact hlast

theorem rule_closeStream (hQ : Stays Q) (pending : Option Awaiting) : Rule call (Serving call taskId started Q)
    (closeStream taskId contextId pending) (fun _ => Serving call taskId started Q) fun _ => Serving call taskId started Q :=
  Rule.bind (rule_attempt (rule_moving hQ _ _)) fun closed => rule_emitStatus hQ closed

theorem rule_storeStream (hQ : Stays Q) (pending : Option Awaiting) (text : String) :
    Rule call (Serving call taskId started Q) (storeStream taskId contextId pending text)
      (fun _ => Serving call taskId started Q) fun _ => Serving call taskId started Q := by
  unfold storeStream
  by_cases htext : text ≠ ""
  · rw [if_pos htext]
    refine Rule.bind (rule_attempt (rule_recordArtifact hQ text)) fun stored => ?_
    cases stored with
    | ok u => exact rule_closeStream hQ pending
    | error e => exact rule_emit hQ fun _ h => by cases h
  · rw [if_neg htext]
    exact rule_closeStream hQ pending

theorem rule_streamRun (hQ : Stays Q) (run : AgentRun) : ∀ (pending : Option Awaiting) (chunks : ResponseText) (sent : Bool),
    Rule call (Serving call taskId started Q) (streamRun taskId contextId pending chunks sent run)
      (fun _ => Serving call taskId started Q) fun _ => Serving call taskId started Q := by
  induction run with
  | nil => exact fun pending chunks sent => rule_storeStream hQ pending chunks.text
  | cons result rest ih =>
    intro pending chunks sent
    cases result with
    | error e => exact rule_failStream hQ _
    | ok event =>
      unfold streamRun
      split
      next => exact ih _ _ _
      next => exact Rule.bind (rule_emit hQ fun _ h => by cases h) fun _ => ih _ _ _

theorem rule_streamAgent (hQ : Stays Q) : Rule call (Serving call taskId false Q) (streamAgent caller msg taskId contextId)
    (fun _ => Serving call taskId true Q) fun _ => Serving call taskId true Q := by
  refine Rule.bind ((rule_startAgent hQ).mono (fun _ h => h) (fun _ _ h => h.elim) fun _ _ h => h.weaken h.also.1)
    fun run => ?_
  cases run with
  | ok results => exact rule_streamRun hQ results none [] false
  | error e => exact rule_failStream hQ e

theorem rule_streamTask (hQ : Stays Q) (first : Task) : Rule call
    (fun log => Serving call taskId false Q log ∧ SeenIn log first) (streamTask agent caller msg taskId contextId first)
    (fun _ => Serving call taskId true Q) fun _ => Serving call taskId true Q := by
  refine Rule.bind (R := fun _ => Serving call taskId false Q) (Barred.perform (fun log h => ⟨h.1.reads, h.2⟩) ?_) fun _ => ?_
  · exact fun log w r w' h _ => .inr (h.1.quiet _ hQ rfl fun _ _ _ heq => by cases heq)
  refine Rule.bind (R := fun _ => Serving call taskId false Q) (rule_attempt (rule_moving hQ _ _)) fun moved => ?_
  refine Rule.bind ((rule_emitStatus hQ moved).mono (fun _ h => h) (fun _ _ h => h.weaken h.also) fun _ _ h => h) fun _ => ?_
  cases moved with
  | error e => exact Barred.pure fun _ h => h.weaken h.also
  | ok event =>
    cases agent with
    | true => exact rule_streamAgent hQ
    | false => exact (rule_closeStream hQ none).mono (fun _ h => h.weaken h.also) (fun _ _ h => h) fun _ _ h => h

theorem rule_streamNew (hcall : call = .messageStream caller msg) :
    Rule call (fun log => log = [(⟨w, .mapGet (caller, msg.id), none⟩ : TaskLogEntry)]) (streamNew agent caller msg)
      (fun _ => ReadsOwn call.caller) fun _ => ReadsOwn call.caller := by
  have hclr : call.caller = caller := by rw [hcall]; rfl
  have hkey : call.key = some (caller, msg.id) := by rw [hcall]; rfl
  refine rule_created (unserved_fresh hkey fun _ _ _ heq => (by rw [hcall] at heq; cases heq)) hclr fun entry => ?_
  have hstays := stays_begins [(⟨w, .mapGet (caller, msg.id), none⟩ : TaskLogEntry)]
  have hinsert : Rule call (Serving call entry.id false fun log => [(⟨w, .mapGet (caller, msg.id), none⟩ : TaskLogEntry)] <+: log)
      (askTask (.mapInsert (caller, msg.id) entry.id)) (fun _ => ReadsOwn call.caller) fun _ => Serving call entry.id false
        fun log => [(⟨w, .mapGet (caller, msg.id), none⟩ : TaskLogEntry)] <+: log := by
    apply (rule_quiet hstays ?_ rfl ?_).mono (fun _ h => h) (fun _ _ h => h.reads) fun _ _ h => h
    · exact fun _ h => ⟨hclr.symm, h.own⟩
    · exact fun _ h => by cases h
  refine Rule.bind hinsert fun _ => ?_
  refine Rule.bind ((rule_showing hstays).mono (fun _ h => h) (fun _ _ h => h.reads) fun _ _ h => h) fun first => ?_
  exact (rule_streamTask hstays _).mono (fun _ h => h) (fun _ _ h => h.reads) fun _ _ h => h.reads

theorem streamKnown_error {e : A2aError} (h : ∀ id, e ≠ .taskNotFound id) :
    streamKnown agent caller msg (.error e) = throw e := by
  cases e with
  | taskNotFound id => exact (h id rfl).elim
  | taskNotCancelable id state => rfl
  | invalidParams message => rfl
  | internal message => rfl
  | invalidStateTransition source target => rfl

theorem rule_streamLooked (known : Option String) (hcall : call = .messageStream caller msg) :
    Rule call (fun log => log = [(⟨w, .mapGet (caller, msg.id), known⟩ : TaskLogEntry)]) (streamLooked agent caller msg known)
      (fun _ => ReadsOwn call.caller) fun _ => ReadsOwn call.caller := by
  have hclr : call.caller = caller := by rw [hcall]; rfl
  cases known with
  | none => exact rule_streamNew hcall
  | some taskId =>
    have howned : Rule call (Serving call taskId true fun _ => True) (ownedTask caller taskId) (fun _ _ => False)
        fun entry log => Serving call taskId true (fun _ => True) log ∧ SeenIn log (internalTaskToWire entry) :=
      rule_ownedTask (fun _ _ _ => trivial) hclr
    refine Rule.bind (R := fun result log => ∃ entry, result = .ok entry ∧ ReadsOwn call.caller log ∧
      SeenIn log (internalTaskToWire entry)) (howned.attempt.mono (fun log h => ?_) (fun _ _ h => h)
        fun result log h => ?_) fun result => Barred.intro ?_
    · subst h
      refine ⟨⟨_, List.mem_cons_self, hclr.symm, rfl⟩, fun v id read hmem => ?_, fun h => (by cases h), trivial⟩
      cases List.mem_singleton.mp hmem
    · cases result with
      | ok entry => exact ⟨entry, rfl, (h.1 entry rfl).1.reads, (h.1 entry rfl).2⟩
      | error e => exact (h.2 e rfl).elim
    · rintro log ⟨entry, rfl, hrd, hseen⟩
      refine Barred.perform ?_ ?_
      · rintro _ rfl
        exact ⟨hrd, hseen⟩
      · rintro _ v r v' rfl -
        exact .inr (hrd.concat fun _ _ _ heq => by cases heq)

theorem rule_messageStream [JsonText] (hcall : call = .messageStream caller msg) :
    Rule call (fun log => log = []) (messageStream agent caller msg) (fun _ => ReadsOwn call.caller)
      fun _ => ReadsOwn call.caller := by
  refine Rule.bind (R := fun _ log => log = []) ?_ fun _ => ?_
  · cases validateMessage msg with
    | ok u => exact Barred.pure fun _ h => h
    | error e => exact Barred.throw fun _ h _ _ _ hmem => (by rw [h] at hmem; cases hmem)
  · have hkey : call.key = some (caller, msg.id) := by rw [hcall]; rfl
    refine Rule.bind ((rule_mapGet hkey).mono (fun _ h => h) (fun _ _ h => h.elim) fun _ _ h => h) fun known =>
      Barred.intro ?_
    rintro _ ⟨w, rfl⟩
    exact rule_streamLooked known hcall

end Sending

/-! ### Cancelling -/

/-- What a cancellation leaves: it has read its task, or refused another caller's. -/
def CancelErr (call : HandlerCall) (e : A2aError) (log : List TaskLogEntry) : Prop :=
  ∀ w id entry, (⟨w, .getTask id, .ok entry⟩ : TaskLogEntry) ∈ log → entry.owner ≠ call.caller → e = .taskNotFound id

theorem cancelErr_of_reads {e : A2aError} (h : ReadsOwn call.caller log) : CancelErr call e log :=
  fun w id entry hmem hoth => (hoth (h w id entry hmem)).elim

theorem rule_tasksCancel {caller : Option String} (hclr : call.caller = caller) : Rule call (fun log => log = [])
    (tasksCancel caller taskId) (CancelErr call) fun task log => ReadsOwn call.caller log ∧ SeenIn log task := by
  have hemp : ReadsOwn call.caller [] := fun _ _ _ h => (by cases h)
  have htrue : Stays fun _ => True := fun _ _ _ => trivial
  unfold tasksCancel
  refine Rule.bind (R := fun _ log => log = []) ?_ fun _ => ?_
  · cases validateId taskId "taskId" with
    | ok u => exact Barred.pure fun _ h => h
    | error e => exact Barred.throw fun _ h => cancelErr_of_reads (h ▸ hemp)
  refine Rule.bind (R := fun entry => Serving call taskId true fun _ => True) ?_ fun entry => ?_
  · -- the task may be another caller's
    refine Rule.bind (R := fun entry log => ∃ w, log = [(⟨w, .getTask taskId, .ok entry⟩ : TaskLogEntry)]) ?_ fun entry =>
      Barred.intro ?_
    · refine Rule.bind (R := fun found log => ∃ w, log = [(⟨w, .getTask taskId, found⟩ : TaskLogEntry)])
        (Barred.perform (fun _ h => ⟨h ▸ hemp, trivial⟩) fun log w found w' h _ => .inr ⟨w, by rw [h]; rfl⟩) fun found => ?_
      cases found with
      | ok entry => exact Barred.pure fun _ h => h
      | error e =>
        refine Barred.throw ?_
        rintro _ ⟨w, rfl⟩ w' id entry hmem
        cases List.mem_singleton.mp hmem
    · rintro _ ⟨w, rfl⟩
      by_cases howr : entry.owner = caller
      · rw [if_pos howr]
        refine Barred.pure ?_
        rintro _ rfl
        refine ⟨⟨_, List.mem_cons_self, rfl, entry, rfl, howr.trans hclr.symm⟩, fun w' id read hmem => ?_,
          fun h => (by cases h), trivial⟩
        cases List.mem_singleton.mp hmem
        exact howr.trans hclr.symm
      · rw [if_neg howr]
        refine Barred.throw ?_
        rintro _ rfl w' id read hmem -
        cases List.mem_singleton.mp hmem
        rfl
  · have hlast : Rule call (Serving call taskId true fun _ => True) (do
        let _ ← transitionState taskId entry.contextId .canceled none
        let updated ← getTask taskId
        return internalTaskToWire updated) (CancelErr call) fun task log => ReadsOwn call.caller log ∧ SeenIn log task := by
      refine Rule.bind ((rule_moving htrue _ _).mono (fun _ h => h) (fun _ _ h => cancelErr_of_reads h.reads)
        fun _ _ h => h) fun _ => ?_
      refine Rule.bind ((rule_showing htrue).mono (fun _ h => h) (fun _ _ h => cancelErr_of_reads h.reads) fun _ _ h => h)
        fun updated => Barred.pure fun _ h => ⟨h.1.reads, h.2⟩
    by_cases hterm : isTerminalState entry.status.state = true
    · rw [if_pos hterm]
      exact Barred.throw fun _ h => cancelErr_of_reads h.reads
    · rw [if_neg hterm]
      exact hlast

end Parts

/-! ## What a run keeps -/

def TaskOp.changes : TaskOp → Option String
  | .updateStatus taskId _ | .addArtifact taskId _ | .addHistory taskId _ => some taskId
  | _ => none

def TaskOp.isCreate : TaskOp → Bool
  | .createTask .. => true
  | _ => false

section Runs

variable {s s' : HandlerPool}

/-- A call is over, and did not start the agent. -/
def Spent (proc : HandlerProc) : Prop := ¬ proc.IsActive ∧ ¬ StartedIn proc.log

/-- A task is in the state that a call has just read. -/
def Unmoved (s : HandlerPool) (i : Nat) (taskId : String) : Prop :=
  ∀ state, lastRead (s.logOf i) taskId = some state → ∀ entry, s.world.tasks[taskId]? = some entry →
    entry.status.state = state

/-- A message id that is not mapped is that of no other message, unless that one is over and did not start the agent. -/
def Unsent (s : HandlerPool) (i : Nat) (key : IdempotencyKey) : Prop :=
  s.world.idempotencyMap key = none → ∀ j proc, j ≠ i → s.procs[j]? = some proc → proc.call.key = some key →
    FreshIn proc.log key → Spent proc

def Waits (w : TaskWorld) (caller : Option String) (contextId : String) (entry : TaskEntry) : Prop :=
  w.Stored entry ∧ entry.contextId = contextId ∧ resumable caller entry = true

/-- When a call runs alone and a task of the context waits for its caller, such a task is the one that was updated last of
those that are not terminal. -/
def Foremost (s : HandlerPool) (i : Nat) (contextId : String) : Prop :=
  (∀ j proc, j ≠ i → s.procs[j]? = some proc → ¬ proc.IsActive) → ∀ proc, s.procs[i]? = some proc →
    (∃ entry, Waits s.world proc.call.caller contextId entry) →
    ∀ found, s.world.Latest contextId (some found) → resumable proc.call.caller found = true

/-- What has to hold before an operation. -/
def Careful (s : HandlerPool) (i : Nat) : TaskOp → Prop
  | .updateStatus taskId _ => Unmoved s i taskId
  | .mapGet key => Unsent s i key
  | .findByContext contextId => Foremost s i contextId
  | _ => True

/-- The call at a place has started the agent for a message as its operation with a number. -/
def StartsAgent (s : HandlerPool) (key : IdempotencyKey) (i n : Nat) : Prop :=
  ∃ proc entry, s.procs[i]? = some proc ∧ proc.call.key = some key ∧ proc.log[n]? = some entry ∧ entry.op.isStart = true

/-- A call returns a task or streams it. -/
def Shows (proc : HandlerProc) (task : Task) : Prop :=
  proc.returned = some (.ok (some task)) ∨ ∃ w, (⟨w, .emit (.ok (.task task)), ()⟩ : TaskLogEntry) ∈ proc.log

/-- **A task is one life cycle, and a message starts one run.** -/
structure OneLifeCycle (s : HandlerPool) : Prop where
  /-- The states that were stored for a task lead to the one it is in. -/
  current : ∀ taskId : String, (s.world.tasks[taskId]?.map fun entry => entry.status.state) = (s.world.states taskId).head?
  follows : ∀ taskId, (s.world.states taskId).IsChain fun later earlier => canTransitionTo earlier later = .ok ()
  startedOnce : ∀ key i n j m, StartsAgent s key i n → StartsAgent s key j m → i = j ∧ n = m
  changesOwn : ∀ proc ∈ s.procs, ∀ entry ∈ proc.log, ∀ taskId, entry.op.changes = some taskId →
    entry.world.Owns proc.call.caller taskId
  showsOwn : ∀ proc ∈ s.procs, ∀ task, Shows proc task → ∃ w, ∃ taskId : String, ∃ entry,
    (⟨w, .getTask taskId, .ok entry⟩ : TaskLogEntry) ∈ proc.log ∧ w.tasks[taskId]? = some entry ∧
    entry.owner = proc.call.caller ∧ internalTaskToWire entry = task
  refusesOthers : ∀ proc ∈ s.procs, ∀ w taskId entry, (⟨w, .getTask taskId, .ok entry⟩ : TaskLogEntry) ∈ proc.log →
    entry.owner ≠ proc.call.caller → ∀ result, proc.returned = some result → result = .error (.taskNotFound taskId)

/-- **A task that has ended stays as it ended.** -/
def KeepsEnded (s s' : HandlerPool) : Prop :=
  ∀ (taskId : String) (entry : TaskEntry), s.world.tasks[taskId]? = some entry → isTerminalState entry.status.state = true →
    ∃ entry', s'.world.tasks[taskId]? = some entry' ∧ entry'.status.state = entry.status.state

section Calls

variable [JsonText] {agent : Bool}

/-- **A message that is sent alone resumes a task that waits for it.** -/
def ResumesAlone (sys : System (fun _ : HandlerCall => Except A2aError (Option Task)) TaskOp.Ret TaskWorld) (agent : Bool)
    (s : HandlerPool) : Prop :=
  (∀ proc ∈ s.procs, ¬ proc.IsActive) → ∀ caller msg contextId, msg.contextId = some contextId →
    (∃ entry, Waits s.world caller contextId entry) →
    ∀ s', Reaches (sys.only s.procs.length) (s.start sys (.messageSend caller msg)) s' →
    ∀ proc, s'.procs[s.procs.length]? = some proc → (∀ entry ∈ proc.log, entry.op.isCreate = false) ∧
      ∀ result, proc.returned = some result → validateMessage msg = .ok () →
        s.world.idempotencyMap (caller, msg.id) = none →
        ∃ entry, Waits s.world caller contextId entry ∧ ResumedIn agent caller msg entry proc.log

structure TaskPost (agent : Bool) (call : HandlerCall) (result : Except A2aError (Option Task)) (log : List TaskLogEntry) :
    Prop where
  seen : ∀ task, result = .ok (some task) → SeenIn log task
  refused : ∀ w taskId entry, (⟨w, .getTask taskId, .ok entry⟩ : TaskLogEntry) ∈ log → entry.owner ≠ call.caller →
    result = .error (.taskNotFound taskId)
  continues : ∀ caller msg, call = .messageSend caller msg → validateMessage msg = .ok () →
    Continues agent caller msg log

theorem taskPost_of_reads {call : HandlerCall} {result : Except A2aError (Option Task)} {log : List TaskLogEntry}
    (hrd : ReadsOwn call.caller log) (hseen : ∀ task, result = .ok (some task) → SeenIn log task)
    (hconts : ∀ caller msg, call = .messageSend caller msg → validateMessage msg = .ok () →
      Continues agent caller msg log) : TaskPost agent call result log :=
  ⟨hseen, fun w taskId entry hmem hoth => (hoth (hrd w taskId entry hmem)).elim, hconts⟩

/-- **What a call ensures of its log.** -/
theorem holds_handlerProgram (call : HandlerCall) : (handlerProgram agent call).run.Holds (recording taskLaws)
    (fun op log => Denied call.caller log ∨ TaskPre call op log)
    (fun result log => Denied call.caller log ∨ TaskPost agent call result log) [] := by
  cases call with
  | messageSend caller msg =>
    have hpost : ∀ {result log}, SendPost agent (.messageSend caller msg) caller msg log →
        (∀ task, result = Except.ok (some task) → SeenIn log task) →
        TaskPost agent (.messageSend caller msg) result log := by
      intro result log h hseen
      refine taskPost_of_reads h.1 hseen fun _ _ heq hval => ?_
      obtain ⟨rfl, rfl⟩ := HandlerCall.messageSend.inj heq
      exact h.2 hval
    refine Barred.holds (Rule.bind (rule_messageSend rfl) fun task => Barred.pure (R := fun answer log =>
      SendPost agent (.messageSend caller msg) caller msg log ∧ ∃ task, answer = some task ∧ SeenIn log task)
      fun log h => ⟨h.1, task, rfl, h.2⟩) ?_ ?_
    · exact fun e log h => hpost h fun _ h => by cases h
    · rintro _ log ⟨h, task, rfl, hseen⟩
      exact hpost h fun other hoth => Option.some.inj (Except.ok.inj hoth) ▸ hseen
  | messageStream caller msg =>
    refine Barred.holds (Rule.bind (rule_messageStream rfl) fun _ => Barred.pure (R := fun answer log =>
      answer = none ∧ ReadsOwn caller log) fun log h => ⟨rfl, h⟩) ?_ ?_
    · exact fun e log h => taskPost_of_reads h (fun _ h => (by cases h)) fun _ _ h => by cases h
    · rintro _ log ⟨rfl, h⟩
      exact taskPost_of_reads h (fun _ h => by cases h) fun _ _ h => by cases h
  | tasksCancel caller taskId =>
    refine Barred.holds (Rule.bind (rule_tasksCancel rfl) fun task => Barred.pure (R := fun answer log =>
      ReadsOwn caller log ∧ ∃ task, answer = some task ∧ SeenIn log task) fun log h => ⟨h.1, task, rfl, h.2⟩) ?_ ?_
    · intro e log h
      exact ⟨fun _ h => (by cases h), fun w id entry hmem hoth => by rw [h w id entry hmem hoth], fun _ _ h => by cases h⟩
    · rintro _ log ⟨h, task, rfl, hseen⟩
      exact taskPost_of_reads h (fun other hoth => Option.some.inj (Except.ok.inj hoth) ▸ hseen) fun _ _ h => by cases h

theorem handler_keeps {acts : HandlerPool → Nat → TaskOp → Prop} (hrea : Reaches (handlerSystem agent acts) noTasks s)
    (i : Nat) (proc : HandlerProc) (hproc : s.procs[i]? = some proc) :
    Keeps taskLaws (fun call op log => Denied call.caller log ∨ TaskPre call op log)
      (fun call result log => Denied call.caller log ∨ TaskPost agent call result log) proc :=
  Reaches.local hrea rfl holds_handlerProgram i proc hproc

end Calls

variable {caller : Option String} {taskId : String} {w : TaskWorld} {op : TaskOp} {r : op.Ret} {i : Nat}
  {proc : HandlerProc}

/-- A task is the caller's after an operation that says so. -/
theorem grants_owns {w' : TaskWorld}
    (hsnd : w.Sound) (hr : taskLaws.answers op w r w') (h : Grants caller taskId ⟨w, op, r⟩) : w'.Owns caller taskId := by
  cases op with
  | mapGet key =>
    obtain ⟨rfl, hsome⟩ := h
    apply TaskWorld.Owns.answers ?_ hr
    exact hsnd.mapped key taskId (hr.1.symm.trans hsome)
  | createTask contextId owner =>
    obtain ⟨rfl, rfl⟩ := h
    obtain ⟨-, ⟨now, hent⟩, -, rfl⟩ := hr
    refine ⟨r, Std.ExtTreeMap.getElem?_insert_self, ?_⟩
    rw [hent]
    exact createTaskFor_owner _ _ _ _
  | getTask other =>
    obtain ⟨rfl, entry, rfl, howr⟩ := h
    apply TaskWorld.Owns.answers ?_ hr
    cases hent : w.tasks[other]? with
    | none =>
      have hfnd := hr.1
      rw [hent] at hfnd
      cases hfnd
    | some entry' =>
      have hfnd := hr.1
      rw [hent] at hfnd
      exact ⟨entry', hent, Except.ok.inj hfnd ▸ howr⟩
  | findByContext contextId =>
    obtain ⟨entry, rfl, rfl, howr⟩ := h
    apply TaskWorld.Owns.answers ?_ hr
    exact ⟨entry, hr.1.1, howr⟩
  | mapRemove key => exact h.elim
  | mapInsert key taskId => exact h.elim
  | updateStatus taskId status => exact h.elim
  | addArtifact taskId text => exact h.elim
  | addHistory taskId message => exact h.elim
  | startAgent caller contextId message => exact h.elim
  | emit item => exact h.elim

theorem not_denies {w' : TaskWorld}
    (hown : w.Owns caller taskId) (hr : taskLaws.answers op w r w') : ¬ Denies caller taskId ⟨w, op, r⟩ := by
  obtain ⟨entry, hent, howr⟩ := hown
  intro h
  cases op with
  | getTask other =>
    obtain ⟨rfl, hoth⟩ := h
    have hfnd := hr.1
    rw [hent] at hfnd
    exact hoth entry hfnd howr
  | updateStatus other status =>
    obtain ⟨rfl, hnot⟩ := h
    obtain ⟨now, hr⟩ := hr
    unfold TaskWorld.updateStatus at hr
    rcases w.modify_cases other now fun entry => { entry with status } with ⟨_, -, hmod⟩ | ⟨hnone, -⟩
    · rw [hmod] at hr
      exact hnot (Prod.mk.inj hr).1
    · rw [hnone] at hent
      cases hent
  | addHistory other message =>
    obtain ⟨rfl, hnot⟩ := h
    obtain ⟨now, hr⟩ := hr
    rcases w.modify_cases other now fun entry => { entry with history := entry.history ++ [message] } with
      ⟨_, -, hmod⟩ | ⟨hnone, -⟩
    · rw [hmod] at hr
      exact hnot (Prod.mk.inj hr).1
    · rw [hnone] at hent
      cases hent
  | mapGet key => exact h.elim
  | createTask contextId owner => exact h.elim
  | findByContext contextId => exact h.elim
  | mapRemove key => exact h.elim
  | mapInsert key taskId => exact h.elim
  | addArtifact taskId text => exact h.elim
  | startAgent caller contextId message => exact h.elim
  | emit item => exact h.elim

/-! ## The invariant -/

/-- **What holds of a handler in a careful run.** -/
structure Handled (s : HandlerPool) : Prop where
  sound : s.world.Sound
  own : ∀ (i : Nat) (proc : HandlerProc), s.procs[i]? = some proc → ∀ taskId, OwnIn proc.call.caller proc.log taskId →
    s.world.Owns proc.call.caller taskId
  clean : ∀ (i : Nat) (proc : HandlerProc), s.procs[i]? = some proc → ¬ Denied proc.call.caller proc.log
  /-- Of two messages with one id that were not seen before, one is over without a start of the agent. -/
  sole : ∀ (i j : Nat) (proc proc' : HandlerProc) (key : IdempotencyKey), i ≠ j → s.procs[i]? = some proc →
    s.procs[j]? = some proc' → proc.call.key = some key → proc'.call.key = some key → FreshIn proc.log key →
    FreshIn proc'.log key → Spent proc ∨ Spent proc'

theorem not_denied_nil : ¬ Denied caller [] := by
  rintro ⟨before, entry, later, taskId, hlog, -⟩
  simp at hlog

theorem freshIn_concat {log : List TaskLogEntry} {entry : TaskLogEntry} {key : IdempotencyKey}
    (h : FreshIn (log ++ [entry]) key) : FreshIn log key ∨ ∃ w, entry = ⟨w, .mapGet key, none⟩ := by
  obtain ⟨w, hmem⟩ := h
  rcases List.mem_append.mp hmem with hold | hnew
  · exact .inl ⟨w, hold⟩
  · exact .inr ⟨w, (List.mem_singleton.mp hnew).symm⟩

/-- The store before anything was sent. -/
theorem handled_noTasks : Handled noTasks :=
  ⟨sound_empty, fun _ _ h => (by simp [noTasks] at h), fun _ _ h => (by simp [noTasks] at h),
    fun _ _ _ _ _ _ h => by simp [noTasks] at h⟩

theorem Handled.start (h : Handled s) (call : HandlerCall) {rest : Prog TaskOp TaskOp.Ret (Except A2aError (Option Task))} :
    Handled { s with procs := s.procs ++ [{ call, rest }] } := by
  have hproc : ∀ {i : Nat} {proc : HandlerProc}, (s.procs ++ [({ call, rest } : HandlerProc)])[i]? = some proc →
      s.procs[i]? = some proc ∨ proc.log = [] := by
    intro i proc hproc
    by_cases hlt : i < s.procs.length
    · rw [List.getElem?_append_left hlt] at hproc
      exact .inl hproc
    · have hmem := List.mem_of_getElem? hproc
      rw [List.getElem?_append_right (by omega)] at hproc
      obtain rfl := List.mem_singleton.mp (List.mem_of_getElem? hproc)
      exact .inr rfl
  refine ⟨h.sound, fun i proc hi taskId hown => ?_, fun i proc hi => ?_, fun i j proc proc' key hij hi hj hkey hkey' hf hf' => ?_⟩
  · rcases hproc hi with hold | hlog
    · exact h.own i proc hold taskId hown
    · obtain ⟨entry, hmem, -⟩ := hown
      rw [hlog] at hmem
      cases hmem
  · rcases hproc hi with hold | hlog
    · exact h.clean i proc hold
    · rw [hlog]
      exact not_denied_nil
  · rcases hproc hi with hold | hlog
    · rcases hproc hj with hold' | hlog'
      · exact h.sole i j proc proc' key hij hold hold' hkey hkey' hf hf'
      · obtain ⟨w, hmem⟩ := hf'
        rw [hlog'] at hmem
        cases hmem
    · obtain ⟨w, hmem⟩ := hf
      rw [hlog] at hmem
      cases hmem

theorem Handled.stop (h : Handled s) (hproc : s.procs[i]? = some proc) :
    Handled { s with procs := s.procs.set i { proc with live := false } } := by
  -- the call that stops has done what it had done, and is over
  have hput : ∀ {j : Nat} {q : HandlerProc}, (s.procs.set i { proc with live := false })[j]? = some q →
      ∃ q₀, s.procs[j]? = some q₀ ∧ q₀.call = q.call ∧ q₀.log = q.log ∧ (Spent q₀ → Spent q) := by
    intro j q hq
    rcases getElem?_put hproc hq with ⟨rfl, rfl⟩ | ⟨-, hold⟩
    · exact ⟨proc, hproc, rfl, rfl, fun hspt => ⟨fun hact => Bool.false_ne_true hact.1, hspt.2⟩⟩
    · exact ⟨q, hold, rfl, rfl, id⟩
  refine ⟨h.sound, fun j q hq taskId hown => ?_, fun j q hq => ?_, fun j k q q' key hjk hq hq' hkey hkey' hf hf' => ?_⟩
  · obtain ⟨q₀, hq₀, hcall, hlog, -⟩ := hput hq
    rw [← hcall, ← hlog] at hown
    rw [← hcall]
    exact h.own j q₀ hq₀ taskId hown
  · obtain ⟨q₀, hq₀, hcall, hlog, -⟩ := hput hq
    rw [← hcall, ← hlog]
    exact h.clean j q₀ hq₀
  · obtain ⟨q₀, hq₀, hcall, hlog, hspt⟩ := hput hq
    obtain ⟨q₁, hq₁, hcall', hlog', hspt'⟩ := hput hq'
    rw [← hcall] at hkey
    rw [← hcall'] at hkey'
    rw [← hlog] at hf
    rw [← hlog'] at hf'
    exact (h.sole j k q₀ q₁ key hjk hq₀ hq₁ hkey hkey' hf hf').imp hspt hspt'

/-- **A state that is stored may follow the one before it**, where the task is still in the state that was read. -/
theorem allowed_of_unmoved (hproc : s.procs[i]? = some proc)
    {status : TaskStatus} {entry : TaskEntry} (hpre : Permits proc.call (.updateStatus taskId status) proc.log)
    (hunmoved : Unmoved s i taskId) (hent : s.world.tasks[taskId]? = some entry) :
    status.state ∈ entry.status.state.allowed := by
  obtain ⟨-, state, hread, hallow⟩ := hpre
  rw [← logOf_eq hproc] at hread
  rw [hunmoved state hread entry hent]
  exact hallow

/-- **One operation keeps the invariant.** -/
theorem Handled.act (h : Handled s) {next : op.Ret → Prog TaskOp TaskOp.Ret (Except A2aError (Option Task))}
    (hproc : s.procs[i]? = some proc) (hact : proc.IsActive) (hpre : Permits proc.call op proc.log)
    (hcare : Careful s i op) (hr : taskLaws.answers op s.world r w) :
    Handled { world := w, procs := s.procs.set i (proc.after s.world op r (next r)) } := by
  have howns : ∀ taskId, OwnIn proc.call.caller proc.log taskId → s.world.Owns proc.call.caller taskId := h.own i proc hproc
  refine ⟨h.sound.answers hr ?_ ?_, fun j q hq taskId hown => ?_, fun j q hq hdenied => ?_,
    fun j k q q' key hjk hq hq' hkey hkey' hf hf' => ?_⟩
  · rintro taskId status entry rfl hent
    exact allowed_of_unmoved hproc hpre hcare hent
  · rintro key taskId rfl
    have hclr : key.1 = proc.call.caller := hpre.1
    rw [hclr]
    exact howns taskId hpre.2
  · rcases getElem?_put hproc hq with ⟨-, rfl⟩ | ⟨-, hold⟩
    · rcases ownIn_concat_iff.mp hown with hbef | hgrs
      · exact (howns taskId hbef).answers hr
      · exact grants_owns h.sound hr hgrs
    · exact (h.own j q hold taskId hown).answers hr
  · rcases getElem?_put hproc hq with ⟨-, rfl⟩ | ⟨-, hold⟩
    · rcases hdenied.of_concat with hbef | ⟨taskId, hown, hdenies⟩
      · exact h.clean i proc hproc hbef
      · exact not_denies (howns taskId hown) hr hdenies
    · exact h.clean j q hold hdenied
  · -- another message with the id of this one is over
    have hoth : ∀ {l : Nat} {q₁ : HandlerProc}, l ≠ i → s.procs[l]? = some q₁ → proc.call.key = some key →
        q₁.call.key = some key → FreshIn (proc.log ++ [⟨s.world, op, r⟩]) key → FreshIn q₁.log key → Spent q₁ := by
      intro l q₁ hl hq₁ hkeyi hkeyl hfi hfl
      rcases freshIn_concat hfi with hold | ⟨v, hnew⟩
      · rcases h.sole l i q₁ proc key hl hq₁ hproc hkeyl hkeyi hfl hold with hspt | hspt
        · exact hspt
        · exact (hspt.1 hact).elim
      · cases hnew
        exact hcare hr.1.symm l q₁ hl hq₁ hkeyl hfl
    rcases getElem?_put hproc hq with ⟨rfl, rfl⟩ | ⟨hj, hold⟩
    · rcases getElem?_put hproc hq' with ⟨rfl, rfl⟩ | ⟨hk, hold'⟩
      · exact (hjk rfl).elim
      · exact .inr (hoth hk hold' hkey hkey' hf hf')
    · rcases getElem?_put hproc hq' with ⟨rfl, rfl⟩ | ⟨-, hold'⟩
      · exact .inl (hoth hj hold hkey' hkey hf' hf)
      · exact h.sole j k q q' key hjk hold hold' hkey hkey' hf hf'

section Calls

variable [JsonText] {agent : Bool}

variable {i n : Nat} {proc : HandlerProc} {key : IdempotencyKey}

/-- An operation of a careful run is permitted. -/
theorem handler_permits {acts : HandlerPool → Nat → TaskOp → Prop} (hrea : Reaches (handlerSystem agent acts) noTasks s)
    (hhandled : Handled s) {op : TaskOp}
    {next : op.Ret → Prog TaskOp TaskOp.Ret (Except A2aError (Option Task))} (hproc : s.procs[i]? = some proc)
    (hrest : proc.rest = .ask op next) : TaskPre proc.call op proc.log :=
  ((handler_keeps hrea i proc hproc).performs hrest).resolve_left (hhandled.clean i proc hproc)

/-- **The invariant holds in every careful run.** -/
theorem handled_reaches (hrea : Reaches (handlerSystem agent Careful) noTasks s) : Handled s := by
  induction hrea with
  | refl => exact handled_noTasks
  | tail hrea hstep ih =>
    cases hstep with
    | start _ => exact ih.start _
    | act hproc hlive hrest hacts hr =>
      exact ih.act hproc (Proc.isActive_ask hlive hrest) (handler_permits hrea ih hproc hrest).2 hacts hr
    | stop hproc => exact ih.stop hproc
    | move hmove => exact hmove.elim

/-- What held of each operation when it was performed. -/
theorem handler_entries (hrea : Reaches (handlerSystem agent Careful) noTasks s) (i : Nat) (proc : HandlerProc)
    (hproc : s.procs[i]? = some proc) (before : List TaskLogEntry) (entry : TaskLogEntry) (later : List TaskLogEntry)
    (hlog : proc.log = before ++ entry :: later) : TaskPre proc.call entry.op before ∧
      (∃ w', taskLaws.answers entry.op entry.world entry.ret w') ∧
      ∀ taskId, OwnIn proc.call.caller before taskId → entry.world.Owns proc.call.caller taskId := by
  refine Reaches.entries (P := fun call log entry => TaskPre call entry.op log ∧
    (∃ w', taskLaws.answers entry.op entry.world entry.ret w') ∧
    ∀ taskId, OwnIn call.caller log taskId → entry.world.Owns call.caller taskId) hrea rfl ?_ i proc hproc before entry later hlog
  intro s j q op next r w hrea hq hrest _ hr
  have hhandled := handled_reaches hrea
  exact ⟨handler_permits hrea hhandled hq hrest, ⟨w, hr⟩, hhandled.own j q hq⟩

theorem handler_post (hrea : Reaches (handlerSystem agent Careful) noTasks s)
    (hproc : s.procs[i]? = some proc) {result : Except A2aError (Option Task)} (h : proc.returned = some result) :
    TaskPost agent proc.call result proc.log :=
  ((handler_keeps hrea i proc hproc).returned (Proc.returned_eq h)).resolve_left ((handled_reaches hrea).clean i proc hproc)

/-- The agent is started for a message that was not seen before, by a call that has not started it. -/
theorem startsAgent_entry (hrea : Reaches (handlerSystem agent Careful) noTasks s)
    (h : StartsAgent s key i n) : FreshIn ((s.logOf i).take n) key ∧ ¬ StartedIn ((s.logOf i).take n) := by
  obtain ⟨proc, entry, hproc, hkey, hent, hsta⟩ := h
  obtain ⟨hlt, hget⟩ := List.getElem?_eq_some_iff.mp hent
  have hlog : proc.log = proc.log.take n ++ entry :: proc.log.drop (n + 1) := by
    rw [← hget, ← List.drop_eq_getElem_cons hlt, List.take_append_drop]
  obtain ⟨⟨-, hpermits⟩, -⟩ := handler_entries hrea i proc hproc _ _ _ hlog
  rw [logOf_eq hproc]
  obtain ⟨w, op, r⟩ := entry
  cases op with
  | startAgent caller contextId message =>
    obtain ⟨⟨key', hkey', hfr⟩, hnot⟩ := hpermits
    obtain rfl := Option.some.inj (hkey.symm.trans hkey')
    exact ⟨hfr, hnot⟩
  | mapGet key => cases hsta
  | mapRemove key => cases hsta
  | mapInsert key taskId => cases hsta
  | createTask contextId owner => cases hsta
  | getTask taskId => cases hsta
  | updateStatus taskId status => cases hsta
  | addArtifact taskId text => cases hsta
  | addHistory taskId message => cases hsta
  | findByContext contextId => cases hsta
  | emit item => cases hsta

omit [JsonText] in
theorem StartsAgent.startedIn {m : Nat} (h : StartsAgent s key i n) (hlt : n < m) :
    StartedIn ((s.logOf i).take m) := by
  obtain ⟨proc, entry, hproc, -, hent, hsta⟩ := h
  rw [logOf_eq hproc]
  refine ⟨entry, List.mem_of_getElem? (i := n) ?_, hsta⟩
  rw [List.getElem?_take_of_lt hlt]
  exact hent

/-- **A message starts the agent once.** -/
theorem startedOnce_reaches (hrea : Reaches (handlerSystem agent Careful) noTasks s)
    {j m : Nat} (h : StartsAgent s key i n) (h' : StartsAgent s key j m) : i = j ∧ n = m := by
  have hstd := startsAgent_entry hrea h
  have hstd' := startsAgent_entry hrea h'
  have hwh : ∀ {k l : Nat} {q : HandlerProc}, s.procs[k]? = some q → FreshIn ((s.logOf k).take l) key →
      FreshIn q.log key := by
    rintro k l q hq ⟨w, hmem⟩
    rw [logOf_eq hq] at hmem
    exact ⟨w, List.mem_of_mem_take hmem⟩
  have hij : i = j := by
    by_contra hne
    obtain ⟨proc, entry, hproc, hkey, hent, hsta⟩ := h
    obtain ⟨proc', entry', hproc', hkey', hent', hsta'⟩ := h'
    rcases (handled_reaches hrea).sole i j proc proc' key hne hproc hproc' hkey hkey' (hwh hproc hstd.1)
        (hwh hproc' hstd'.1) with hspt | hspt
    · exact hspt.2 ⟨entry, List.mem_of_getElem? hent, hsta⟩
    · exact hspt.2 ⟨entry', List.mem_of_getElem? hent', hsta'⟩
  subst hij
  refine ⟨rfl, ?_⟩
  rcases Nat.lt_trichotomy n m with hlt | heq | hgt
  · exact absurd (h.startedIn hlt) hstd'.2
  · exact heq
  · exact absurd (h'.startedIn hgt) hstd.2

omit [JsonText] in
theorem Permits.own {call : HandlerCall} {op : TaskOp} {log : List TaskLogEntry} {taskId : String}
    (h : Permits call op log) (hop : op.changes = some taskId) : OwnIn call.caller log taskId := by
  cases op with
  | updateStatus other status =>
    obtain rfl := Option.some.inj hop
    exact h.1
  | addArtifact other text =>
    obtain rfl := Option.some.inj hop
    exact h
  | addHistory other message =>
    obtain rfl := Option.some.inj hop
    exact h
  | mapGet key => cases hop
  | mapRemove key => cases hop
  | mapInsert key taskId => cases hop
  | createTask contextId owner => cases hop
  | getTask taskId => cases hop
  | findByContext contextId => cases hop
  | startAgent caller contextId message => cases hop
  | emit item => cases hop

theorem read_stored (hrea : Reaches (handlerSystem agent Careful) noTasks s)
    (hproc : s.procs[i]? = some proc) {w : TaskWorld} {taskId : String} {entry : TaskEntry}
    (hmem : (⟨w, .getTask taskId, .ok entry⟩ : TaskLogEntry) ∈ proc.log) : w.tasks[taskId]? = some entry := by
  obtain ⟨before, later, hlog⟩ := List.append_of_mem hmem
  obtain ⟨-, ⟨w', hfnd, -⟩, -⟩ := handler_entries hrea i proc hproc before _ later hlog
  cases hstrd : w.tasks[taskId]? with
  | none =>
    rw [hstrd] at hfnd
    cases hfnd
  | some stored =>
    rw [hstrd] at hfnd
    rw [Except.ok.inj hfnd]

/-- **A task that a call shows is its caller's.** -/
theorem showsOwn_reaches (hrea : Reaches (handlerSystem agent Careful) noTasks s)
    (hproc : s.procs[i]? = some proc) {task : Task} (h : Shows proc task) : ∃ w, ∃ taskId : String, ∃ entry,
      (⟨w, .getTask taskId, .ok entry⟩ : TaskLogEntry) ∈ proc.log ∧ w.tasks[taskId]? = some entry ∧
      entry.owner = proc.call.caller ∧ internalTaskToWire entry = task := by
  rcases h with hret | ⟨v, hemitted⟩
  · have hpost := handler_post hrea hproc hret
    obtain ⟨w, taskId, entry, hmem, htask⟩ := hpost.seen task rfl
    refine ⟨w, taskId, entry, hmem, read_stored hrea hproc hmem, ?_, htask⟩
    by_contra hoth
    cases hpost.refused w taskId entry hmem hoth
  · obtain ⟨before, later, hlog⟩ := List.append_of_mem hemitted
    obtain ⟨⟨hrd, w, taskId, entry, hmem, htask⟩, -⟩ := handler_entries hrea i proc hproc before _ later hlog
    have hin : (⟨w, .getTask taskId, .ok entry⟩ : TaskLogEntry) ∈ proc.log := by
      rw [hlog]
      exact List.mem_append_left _ hmem
    exact ⟨w, taskId, entry, hin, read_stored hrea hproc hin, hrd w taskId entry hmem, htask⟩

theorem oneLifeCycle_reaches (hrea : Reaches (handlerSystem agent Careful) noTasks s) : OneLifeCycle s := by
  have hhandled := handled_reaches hrea
  refine ⟨hhandled.sound.current, hhandled.sound.follows, fun key i n j m h h' => startedOnce_reaches hrea h h',
    fun proc hproc entry hent taskId hop => ?_, fun proc hproc task h => ?_,
    fun proc hproc w taskId entry hmem hoth result hret => ?_⟩
  · obtain ⟨i, hproc⟩ := List.getElem?_of_mem hproc
    obtain ⟨before, later, hlog⟩ := List.append_of_mem hent
    obtain ⟨⟨-, hpermits⟩, -, howns⟩ := handler_entries hrea i proc hproc before entry later hlog
    exact howns taskId (hpermits.own hop)
  · obtain ⟨i, hproc⟩ := List.getElem?_of_mem hproc
    exact showsOwn_reaches hrea hproc h
  · obtain ⟨i, hproc⟩ := List.getElem?_of_mem hproc
    exact (handler_post hrea hproc hret).refused w taskId entry hmem hoth

theorem keepsEnded_step (hrea : Reaches (handlerSystem agent Careful) noTasks s)
    (hstep : Step (handlerSystem agent Careful) s s') : KeepsEnded s s' := by
  intro taskId entry hent hend
  cases hstep with
  | start _ => exact ⟨entry, hent, rfl⟩
  | stop _ => exact ⟨entry, hent, rfl⟩
  | move hmove => exact hmove.elim
  | act hproc _ hrest hacts hr =>
    cases touches_answers hr taskId with
    | left htsk hstts => exact ⟨entry, htsk.trans hent, rfl⟩
    | created entry' hbef htsk hid hstts =>
      rw [hbef] at hent
      cases hent
    | changed old entry' hbef htsk hid howr hstatus hstts =>
      obtain rfl := Option.some.inj (hbef.symm.trans hent)
      exact ⟨entry', htsk, by rw [hstatus]⟩
    | moved old entry' status hop hbef htsk hid howr hstatus hstts =>
      subst hop
      have hallow := allowed_of_unmoved hproc (handler_permits hrea (handled_reaches hrea) hproc hrest).2 hacts hent
      rw [allowed_of_isTerminalState hend] at hallow
      cases hallow

theorem keepsEnded_reaches (hrea : Reaches (handlerSystem agent Careful) noTasks s)
    (hmore : Reaches (handlerSystem agent Careful) s s') : KeepsEnded s s' := by
  induction hmore with
  | refl => exact fun _ entry hent _ => ⟨entry, hent, rfl⟩
  | tail hmore hstep ih =>
    intro taskId entry hent hend
    obtain ⟨entry', hent', hst⟩ := ih taskId entry hent hend
    rw [← hst] at hend
    obtain ⟨entry'', hent'', hst'⟩ := keepsEnded_step (hrea.trans hmore) hstep taskId entry' hent' hend
    exact ⟨entry'', hent'', hst'.trans hst⟩

omit [JsonText] in
theorem Waits.isOpen {w : TaskWorld} {caller : Option String} {contextId : String} {entry : TaskEntry}
    (h : Waits w caller contextId entry) : entry.isOpen contextId = true := by
  obtain ⟨-, rfl, hresum⟩ := h
  unfold TaskEntry.isOpen
  rw [(resumable_eq hresum).1]
  simp [isTerminalState]

omit [JsonText] in
/-- **What is found by a call that runs alone** while a task waits for its caller is such a task. -/
theorem found_waits {t : HandlerPool} {contextId : String} {found : Option TaskEntry}
    (hforemost : Foremost t i contextId) (halone : ∀ j q, j ≠ i → t.procs[j]? = some q → ¬ q.IsActive)
    (hproc : t.procs[i]? = some proc) (hwaits : ∃ entry, Waits t.world proc.call.caller contextId entry)
    (hltst : t.world.Latest contextId found) : ∃ entry, found = some entry ∧ Waits t.world proc.call.caller contextId entry := by
  cases found with
  | none =>
    obtain ⟨entry, hent⟩ := hwaits
    have hopen := hltst entry hent.1
    rw [hent.isOpen] at hopen
    cases hopen
  | some entry =>
    refine ⟨entry, rfl, hltst.1, ?_, hforemost halone proc hproc hwaits entry hltst⟩
    have hopen := hltst.2.1
    unfold TaskEntry.isOpen at hopen
    rw [Bool.and_eq_true] at hopen
    exact of_decide_eq_true hopen.1

/-- **A message that is sent alone resumes a task that waits for it.** -/
theorem resumesAlone_reaches (hrea : Reaches (handlerSystem agent Careful) noTasks s) :
    ResumesAlone (handlerSystem agent Careful) agent s := by
  intro hqt caller msg contextId hctx hwaits s' hrun proc hproc
  have hfst : (s.start (handlerSystem agent Careful) (.messageSend caller msg)).procs[s.procs.length]? =
      some { call := .messageSend caller msg, rest := (handlerProgram agent (.messageSend caller msg)).run } := by
    unfold ProcPool.start
    rw [List.getElem?_append_right (Nat.le_refl _), Nat.sub_self]
    rfl
  obtain ⟨-, proc', hproc', hcall, hturn, hall⟩ := Reaches.alone hrun (fun _ _ h => h) hfst rfl
  obtain rfl := Option.some.inj (hproc.symm.trans hproc')
  have hwh : Reaches (handlerSystem agent Careful) noTasks s' := (hrea.tail (.start trivial)).trans hrun.of_only
  have hents := handler_entries hwh _ proc hproc
  -- the lookups are made in the store as it was
  have hlook : ∀ w w' found rest, proc.log = lookups w w' (caller, msg.id) contextId found ++ rest →
      w' = s.world ∧ ∃ entry, found = some entry ∧ Waits s.world caller contextId entry := by
    intro w w' found rest hlog
    have hw : w = s.world := hturn.first ⟨w, .mapGet (caller, msg.id), none⟩ (by rw [hlog]; rfl)
    have hw' : w' = w := by
      rw [hlog] at hturn
      have hnext : taskLaws.answers (.mapGet (caller, msg.id)) w none w' := InTurn.next [] hturn
      exact hnext.2
    subst hw'
    have hmem : (⟨w', .findByContext contextId, found⟩ : TaskLogEntry) ∈ proc.log := by
      rw [hlog]
      exact List.mem_append_left _ (List.mem_cons_of_mem _ List.mem_cons_self)
    obtain ⟨t, hnone, ⟨q, hq, hqcall⟩, hwld, hforemost⟩ := hall _ hmem
    obtain ⟨-, ⟨w'', hltst, -⟩, -⟩ := hents [⟨w', .mapGet (caller, msg.id), none⟩] ⟨w', .findByContext contextId, found⟩
      rest hlog
    have hclr : q.call.caller = caller := by rw [hqcall]; rfl
    have halone : ∀ j q', j ≠ s.procs.length → t.procs[j]? = some q' → ¬ q'.IsActive := by
      intro j q' hj hq' hact
      obtain ⟨q₀, hq₀, hact₀⟩ := hnone j q' hj hq' hact
      rcases getElem?_start hq₀ with hold | ⟨hlast, -⟩
      · exact hqt q₀ (List.mem_of_getElem? hold) hact₀
      · exact hj hlast
    have hthe : t.world = s.world := hwld.trans hw
    rw [hw] at hltst
    rw [← hthe, ← hclr] at hwaits
    rw [← hthe] at hltst
    obtain ⟨entry, rfl, hent⟩ := found_waits hforemost halone hq hwaits hltst
    rw [hthe, hclr] at hent
    exact ⟨hw, entry, rfl, hent⟩
  refine ⟨fun entry hent => ?_, fun result hret hval hfr => ?_⟩
  · -- a task would be created only when none was found
    obtain ⟨before, later, hlog⟩ := List.append_of_mem hent
    obtain ⟨⟨-, hpermits⟩, -⟩ := hents before entry later hlog
    obtain ⟨v, op, r⟩ := entry
    cases op with
    | createTask context owner =>
      obtain ⟨-, huntaken⟩ := hpermits
      obtain ⟨w, w', found, rfl, hnot⟩ := huntaken caller msg contextId hcall hctx
      obtain ⟨-, existing, rfl, -, -, hresum⟩ := hlook w w' found _ hlog
      rw [hnot existing rfl] at hresum
      cases hresum
    | mapGet key => rfl
    | mapRemove key => rfl
    | mapInsert key taskId => rfl
    | getTask taskId => rfl
    | updateStatus taskId status => rfl
    | addArtifact taskId text => rfl
    | addHistory taskId message => rfl
    | findByContext contextId => rfl
    | startAgent caller contextId message => rfl
    | emit item => rfl
  · rcases (handler_post hwh hproc hret).continues caller msg hcall hval contextId hctx with
      ⟨w, taskId, rest, hlog⟩ | ⟨w, w', found, ⟨rest, hlog⟩, hresumes⟩
    · -- the message was not seen before
      have hw : w = s.world := hturn.first ⟨w, .mapGet (caller, msg.id), some taskId⟩ (by rw [hlog]; rfl)
      obtain ⟨-, ⟨w', hmap, -⟩, -⟩ := hents [] ⟨w, .mapGet (caller, msg.id), some taskId⟩ rest hlog
      rw [hw] at hmap
      rw [hfr] at hmap
      cases hmap
    · obtain ⟨hwld, existing, rfl, hexist⟩ := hlook w w' found rest hlog.symm
      refine ⟨existing, hexist, ?_⟩
      rcases hresumes existing rfl hexist.2.2 with hresumed | ⟨v, entry, later, htk, hnot⟩
      · exact hresumed
      · -- nothing moved the task before it was read
        have hv : v = w' := by
          rw [htk] at hturn
          have hnext : taskLaws.answers (.findByContext contextId) w' (some existing) v :=
            InTurn.next [(⟨w, .mapGet (caller, msg.id), none⟩ : TaskLogEntry)] hturn
          exact hnext.2
        have hstrd : v.tasks[existing.id]? = some entry := by
          apply read_stored hwh hproc
          rw [htk]
          exact List.mem_append_right _ List.mem_cons_self
        rw [hv, hwld, hexist.1] at hstrd
        obtain rfl := Option.some.inj hstrd
        rw [(resumable_eq hexist.2.2).1] at hnot
        exact absurd (by simp [TaskState.allowed]) hnot

/-- **A careful run keeps the life cycle of every task**, ends no task twice, and resumes a task that waits for a message
that is sent alone. -/
theorem oneLifeCycle_careful (hreach : Reaches (handlerSystem agent Careful) noTasks s) : OneLifeCycle s ∧
    (∀ s', Reaches (handlerSystem agent Careful) s s' → KeepsEnded s s') ∧
    ResumesAlone (handlerSystem agent Careful) agent s :=
  ⟨oneLifeCycle_reaches hreach, fun _ => keepsEnded_reaches hreach, resumesAlone_reaches hreach⟩

end Calls

end Runs

/-! ## Runs that are computed -/

section Computed

local instance handlerText : JsonText := plainText

def firstOpen (w : TaskWorld) (contextId : String) : Option TaskEntry :=
  (w.tasks.toList.find? fun field => field.1 = field.2.id && field.2.isOpen contextId).map (·.2)

/-- The world answers, at the start of the epoch. The agent asks for input for one message, and completes the others. -/
def answerTask : (op : TaskOp) → TaskWorld → op.Ret × TaskWorld
  | .mapGet key, w => (w.idempotencyMap key, w)
  | .mapRemove key, w => ((), w.remember key none)
  | .mapInsert key taskId, w => ((), w.remember key (some taskId))
  | .createTask contextId owner, w =>
    let id := longerThan w.tasks.keys
    let entry := createTaskFor id (contextId.getD id) owner 0
    (entry, w.create entry)
  | .getTask taskId, w => (w.tasks[taskId]?.elim (.error (.taskNotFound taskId)) .ok, w)
  | .updateStatus taskId status, w => w.updateStatus taskId status 0
  | .addArtifact taskId text, w => w.modify taskId 0 fun entry => { entry with artifacts := entry.artifacts ++ [text] }
  | .addHistory taskId message, w => w.modify taskId 0 fun entry => { entry with history := entry.history ++ [message] }
  | .findByContext contextId, w => (firstOpen w contextId, w)
  | .startAgent _ _ message, w => (.ok [.ok { id := "e", toolConfirmation := message.id = "m-1" }], w)
  | .emit _, w => ((), w)

def answerable (w : TaskWorld) : TaskOp → Bool
  | .findByContext contextId => w.tasks.toList.all fun field => !field.2.isOpen contextId ||
    (firstOpen w contextId).any fun found => field.2.updatedAt ≤ found.updatedAt
  | _ => true

theorem stored_mem {w : TaskWorld} {entry : TaskEntry} (h : w.Stored entry) : (entry.id, entry) ∈ w.tasks.toList :=
  Std.ExtTreeMap.mem_toList_iff_getElem?_eq_some.mpr h

theorem answers_answerTask {op : TaskOp} {w : TaskWorld} (h : answerable w op = true) :
    taskLaws.answers op w (answerTask op w).1 (answerTask op w).2 := by
  cases op with
  | mapGet key => exact ⟨rfl, rfl⟩
  | mapRemove key => rfl
  | mapInsert key taskId => rfl
  | createTask contextId owner =>
    refine ⟨?_, ⟨0, rfl⟩, fun given hgiv => ?_, rfl⟩
    · have hfr := longerThan_notMem w.tasks.keys
      rw [Std.ExtTreeMap.mem_keys] at hfr
      exact Std.ExtTreeMap.getElem?_eq_none hfr
    · rw [hgiv]
      rfl
  | getTask taskId => exact ⟨rfl, rfl⟩
  | updateStatus taskId status => exact ⟨0, rfl⟩
  | addArtifact taskId text => exact ⟨0, rfl⟩
  | addHistory taskId message => exact ⟨0, rfl⟩
  | startAgent caller contextId message => rfl
  | emit item => rfl
  | findByContext contextId =>
    refine ⟨?_, rfl⟩
    have hall : ∀ other, w.Stored other → other.isOpen contextId = true →
        ∃ found, firstOpen w contextId = some found ∧ other.updatedAt ≤ found.updatedAt := by
      intro other hoth hopen
      have hfld := List.all_eq_true.mp h _ (stored_mem hoth)
      rw [hopen, Bool.not_true, Bool.false_or] at hfld
      obtain ⟨found, hfnd, hle⟩ := (Option.any_eq_true _ _).mp hfld
      exact ⟨found, hfnd, of_decide_eq_true hle⟩
    have hans : (answerTask (.findByContext contextId) w).1 = firstOpen w contextId := rfl
    rw [hans]
    cases hfst : firstOpen w contextId with
    | none =>
      intro other hoth
      by_contra hopen
      obtain ⟨found, hfnd, -⟩ := hall other hoth (Bool.eq_true_of_not_eq_false hopen)
      rw [hfst] at hfnd
      cases hfnd
    | some found =>
      obtain ⟨⟨key, entry⟩, hfind, rfl⟩ := Option.map_eq_some_iff.mp hfst
      have hgood := List.find?_some hfind
      rw [Bool.and_eq_true] at hgood
      have hkey : key = entry.id := of_decide_eq_true hgood.1
      have hmem := List.mem_of_find?_eq_some hfind
      rw [Std.ExtTreeMap.mem_toList_iff_getElem?_eq_some, hkey] at hmem
      refine ⟨hmem, hgood.2, fun other hoth hopen => ?_⟩
      obtain ⟨found, hfnd, hle⟩ := hall other hoth hopen
      rw [hfst] at hfnd
      obtain rfl := Option.some.inj hfnd
      exact hle

/-- A check that is enough for an operation to be careful. -/
def carefully (s : HandlerPool) (i : Nat) (op : TaskOp) : Bool :=
  answerable s.world op && match op with
    | .updateStatus taskId _ => lastRead (s.logOf i) taskId = s.world.tasks[taskId]?.map fun entry => entry.status.state
    | .mapGet key => (List.range s.procs.length).all fun j => j = i || s.procs[j]?.all fun proc => proc.call.key ≠ some key
    | .findByContext contextId => s.world.tasks.toList.all fun field => !field.2.isOpen contextId ||
      s.procs[i]?.all fun proc => resumable proc.call.caller field.2
    | _ => true

theorem careful_of_carefully {s : HandlerPool} {i : Nat} {op : TaskOp} (h : carefully s i op = true) : Careful s i op := by
  unfold carefully at h
  rw [Bool.and_eq_true] at h
  have hcheck := h.2
  cases op with
  | updateStatus taskId status =>
    intro state hread entry hent
    have hsame := of_decide_eq_true hcheck
    rw [hread, hent, Option.map_some] at hsame
    exact (Option.some.inj hsame).symm
  | mapGet key =>
    intro _ j proc hj hproc hkey _
    have hlt := (List.getElem?_eq_some_iff.mp hproc).1
    have hoth := List.all_eq_true.mp hcheck j (List.mem_range.mpr hlt)
    rw [hproc] at hoth
    simp [hj, hkey] at hoth
  | findByContext contextId =>
    intro _ proc hproc _ found hfnd
    have hfld := List.all_eq_true.mp hcheck _ (stored_mem hfnd.1)
    rw [hfnd.2.1, hproc] at hfld
    exact hfld
  | mapRemove key => trivial
  | mapInsert key taskId => trivial
  | createTask contextId owner => trivial
  | getTask taskId => trivial
  | addArtifact taskId text => trivial
  | addHistory taskId message => trivial
  | startAgent caller contextId message => trivial
  | emit item => trivial

def carefulHandler (agent : Bool) : System (fun _ : HandlerCall => Except A2aError (Option Task)) TaskOp.Ret TaskWorld :=
  handlerSystem agent fun s i op => carefully s i op = true

def anyHandler (agent : Bool) : System (fun _ : HandlerCall => Except A2aError (Option Task)) TaskOp.Ret TaskWorld :=
  handlerSystem agent fun s _ op => answerable s.world op = true

instance (agent : Bool) (s : HandlerPool) (call : HandlerCall) : Decidable ((carefulHandler agent).starts s call) :=
  inferInstanceAs (Decidable True)

instance (agent : Bool) (s : HandlerPool) (i : Nat) (op : TaskOp) : Decidable ((carefulHandler agent).acts s i op) :=
  inferInstanceAs (Decidable (carefully s i op = true))

instance (agent : Bool) (s : HandlerPool) (call : HandlerCall) : Decidable ((anyHandler agent).starts s call) :=
  inferInstanceAs (Decidable True)

instance (agent : Bool) (s : HandlerPool) (i : Nat) (op : TaskOp) : Decidable ((anyHandler agent).acts s i op) :=
  inferInstanceAs (Decidable (answerable s.world op = true))

def stepsOf (i n : Nat) : List (ProcPool.Event HandlerCall) := List.replicate n (.act i)

def message (id : String) (contextId : Option String := none) : Message := { id, contextId, parts := [.null] }

/-- A message that leaves its task waiting for input, and one that resumes it. -/
def resumedRun : HandlerPool :=
  (.start (.messageSend (some "alice") (message "m-1" (some "c"))) :: stepsOf 0 11 ++
    .start (.messageSend (some "alice") (message "m-2" (some "c"))) :: stepsOf 1 10).foldl
    (next (carefulHandler true) answerTask) noTasks

theorem reaches_resumedRun : Reaches (handlerSystem true Careful) noTasks resumedRun := by
  have hrun : Reaches (carefulHandler true) noTasks resumedRun :=
    reaches_foldl_acts (fun _ _ _ h => answers_answerTask ((Bool.and_eq_true _ _).mp h).1) noTasks _
  exact hrun.weaken fun _ _ _ => careful_of_carefully

theorem oneLifeCycle_careful_resumed : (OneLifeCycle resumedRun ∧
    (∀ s', Reaches (handlerSystem true Careful) resumedRun s' → KeepsEnded resumedRun s') ∧
    ResumesAlone (handlerSystem true Careful) true resumedRun) ∧
    resumedRun.world.states "r" = [.completed, .working, .inputRequired, .working, .submitted] ∧
    resumedRun.procs.map (fun proc => proc.returned.isSome) = [true, true] :=
  ⟨oneLifeCycle_careful reaches_resumedRun, by decide +kernel, by decide +kernel⟩

/-- What follows when calls are made in any way. -/
def runOf (agent : Bool) (events : List (ProcPool.Event HandlerCall)) : HandlerPool :=
  events.foldl (next (anyHandler agent) answerTask) noTasks

theorem reaches_runOf (agent : Bool) (events : List (ProcPool.Event HandlerCall)) :
    Reaches (handlerSystem agent fun _ _ _ => True) noTasks (runOf agent events) := by
  have hrun : Reaches (anyHandler agent) noTasks (runOf agent events) :=
    reaches_foldl_acts (fun _ _ _ h => answers_answerTask h) noTasks _
  exact hrun.weaken fun _ _ _ _ => trivial

/-- A cancellation reads the task before it is completed, and stores its state after. -/
def lateCancel : List (ProcPool.Event HandlerCall) :=
  .start (.messageSend none (message "m-2")) :: stepsOf 0 6 ++
    .start (.tasksCancel none "r") :: stepsOf 1 2 ++ stepsOf 0 1 ++ stepsOf 1 1

/-- **Not in every run**: a task that was completed is cancelled. -/
theorem not_oneLifeCycle : ¬ ∀ (_ : JsonText) (agent : Bool) (s : HandlerPool),
    Reaches (handlerSystem agent fun _ _ _ => True) noTasks s → OneLifeCycle s ∧
      (∀ s', Reaches (handlerSystem agent fun _ _ _ => True) s s' → KeepsEnded s s') ∧
      ResumesAlone (handlerSystem agent fun _ _ _ => True) agent s := by
  intro h
  have hstates : (runOf false lateCancel).world.states "r" = [.canceled, .completed, .working, .submitted] := by
    decide +kernel
  have hfollows := (h handlerText false _ (reaches_runOf false lateCancel)).1.follows "r"
  rw [hstates] at hfollows
  have hended := (List.isChain_cons_cons.mp hfollows).1
  rw [canTransitionTo_eq_ok] at hended
  cases hended

-- a message that is sent again while it is served starts the agent again
example : let sent := HandlerCall.messageSend none (message "m-2")
    ((runOf true ([.start sent, .start sent] ++ stepsOf 0 1 ++ stepsOf 1 1 ++ stepsOf 0 5 ++ stepsOf 1 5)).procs.map fun proc =>
      proc.log.any fun entry => entry.op.isStart) = [true, true] := by
  decide +kernel

-- a message does not resume its caller's task while another caller's is found in the context
example : (runOf true (.start (.messageSend (some "bob") (message "m-1" (some "c"))) :: stepsOf 0 11 ++
    .start (.messageSend (some "alice") (message "m-1" (some "c"))) :: stepsOf 1 11 ++
    .start (.messageSend (some "alice") (message "m-2" (some "c"))) :: stepsOf 2 11)).world.tasks.toList.map
      (fun field => (field.2.owner, field.2.status.state)) =
    [(some "bob", .inputRequired), (some "alice", .inputRequired), (some "alice", .completed)] := by
  decide +kernel

end Computed

end A2a

end Adk
