import AdkRust.Wakeups.Webhook

/-!
# Deliveries wake runs once

Any requests reach an ingress over one store of runs, interleaved in any way, and stop anywhere. A request lists the
unfinished runs of its hook, where the hook bounds them, and enqueues a run once at most (`PreparedHook`); its answer
comes from one of the two (`HookAnswered`).

* `WebhookExact`: what holds of the answers and the unfinished runs.
* `webhookExact_unmixed`: **it holds in every run** in which no two messages share a key, a full hook still has the run of
  a message open in its own queue, and the runs of a hook in other queues do not matter.
* `not_webhookExact`: it does not hold in every run.
-/

namespace Adk

open ProcPool Wakeups

/-! ## What a request does -/

def WebhookIngress.verified (ingress : WebhookIngress) (request : HookRequest) :
    Option (WebhookHook × VerifiedWebhook) := do
  let hook ← ingress.hooks[request.name]?
  let webhook ← hook.verify request
  some (hook, webhook)

/-- The message that a delivery of a hook is of. -/
def WebhookHook.ref (hook : WebhookHook) (webhook : VerifiedWebhook) : HookRef := ⟨hook.name, webhook.id⟩

/-- The message that a request delivers. -/
def WebhookIngress.refOf (ingress : WebhookIngress) (request : HookRequest) : Option HookRef :=
  (ingress.verified request).map fun (hook, webhook) => hook.ref webhook

/-- The run that an answer accepts a delivery with. -/
def HookResponse.runId (response : HookResponse) : Option String :=
  match response.body with
  | .accepted runId _ _ => some runId
  | .error .. | .conflict _ => none

def WebhookHook.pending (hook : WebhookHook) (table : RunTable) : List RunRecord :=
  (table.list (unfinishedFilter (some hook.queue))).filter hook.ownKey

def WebhookHook.listing (hook : WebhookHook) (w : HookWorld) : HookEntry :=
  ⟨w, .list (unfinishedFilter (some hook.queue)), .ok (w.runs.list (unfinishedFilter (some hook.queue)))⟩

def isWake (entry : HookEntry) : Bool :=
  match entry.op with
  | .enqueue .. => true
  | _ => false

theorem WebhookIngress.verified_eq {ingress : WebhookIngress} {request : HookRequest} {hook : WebhookHook}
    {webhook : VerifiedWebhook} (h : ingress.verified request = some (hook, webhook)) :
    ingress.hooks[request.name]? = some hook ∧ hook.name = request.name := by
  unfold verified at h
  obtain ⟨hook', hget, hrest⟩ := Option.bind_eq_some_iff.mp h
  obtain ⟨webhook', -, heq⟩ := Option.bind_eq_some_iff.mp hrest
  obtain ⟨rfl, -⟩ := Prod.mk.inj (Option.some.inj heq)
  exact ⟨hget, ingress.named _ _ hget⟩

section Requests

variable [JsonText] [JsonRead] {ingress : WebhookIngress} {request : HookRequest} {log : List HookEntry}

/-- What a request has done before a call. -/
def PreparedHook (ingress : WebhookIngress) (request : HookRequest) : HookOp → List HookEntry → Prop
  | .check, _ => True
  | .list filter, _ => ∃ hook webhook, ingress.verified request = some (hook, webhook) ∧
      filter = unfinishedFilter (some hook.queue)
  | .enqueue ref run, log => ∃ hook webhook, ingress.verified request = some (hook, webhook) ∧
      ref = hook.ref webhook ∧ WebhookIngress.runOf hook webhook request.body = .ok run ∧
      (∀ maxPending, hook.maxPending = some maxPending →
        ∃ w, hook.listing w ∈ log ∧ (hook.pending w.runs).length < maxPending) ∧
      log.countP isWake = 0

inductive HookAnswered (ingress : WebhookIngress) (request : HookRequest) (response : HookResponse)
    (log : List HookEntry) : Prop where
  | refused (hnone : response.runId = none) (hwhy : ∀ hook webhook run,
      ingress.verified request = some (hook, webhook) → WebhookIngress.runOf hook webhook request.body = .ok run →
      ∃ w error, (⟨w, .check, .error error⟩ : HookEntry) ∈ log)
  /-- The hook has as many unfinished runs as it may. -/
  | full {hook : WebhookHook} {webhook : VerifiedWebhook} {maxPending : Nat} {w : HookWorld}
      (hverified : ingress.verified request = some (hook, webhook)) (hmax : hook.maxPending = some maxPending)
      (hlisted : hook.listing w ∈ log)
      (hfull : ingress.full hook webhook.id maxPending (hook.pending w.runs) = some response)
  /-- The store answered. -/
  | woken {hook : WebhookHook} {webhook : VerifiedWebhook} {run : NewRun} {w : HookWorld}
      {result : Except AdkError Enqueued} (hverified : ingress.verified request = some (hook, webhook))
      (hrun : WebhookIngress.runOf hook webhook request.body = .ok run)
      (henqueued : (⟨w, .enqueue (hook.ref webhook) run, result⟩ : HookEntry) ∈ log)
      (hanswer : response = ingress.answer result)

/-- A part of a request prepares each of its calls, and its answer comes from somewhere. -/
abbrev PreparesHook (ingress : WebhookIngress) (request : HookRequest) (p : HookProg HookResponse)
    (log : List HookEntry) : Prop :=
  p.Holds (recording HookWorld.laws) (PreparedHook ingress request) (HookAnswered ingress request) log

/-- The rule for asking governance. -/
theorem hookCheck_local {f : Except AdkError Unit → HookProg HookResponse}
    (h : ∀ r log, log.countP isWake = 0 → (∀ error, r = .error error →
      ∃ w, (⟨w, .check, .error error⟩ : HookEntry) ∈ log) → PreparesHook ingress request (f r) log) :
    PreparesHook ingress request (ingress.check.bind f) [] := by
  unfold WebhookIngress.check
  split
  · refine holds_ask.mpr ⟨trivial, fun w r w' _ => ?_⟩
    apply h
    · rfl
    · rintro error rfl
      exact ⟨w, List.mem_singleton_self _⟩
  · exact h _ _ rfl fun error herr => by cases herr

/-- A request that has found room enqueues its run. -/
theorem wake_local {hook : WebhookHook} {webhook : VerifiedWebhook}
    (hver : ingress.verified request = some (hook, webhook)) (hroom : ∀ maxPending,
      hook.maxPending = some maxPending → ∃ w, hook.listing w ∈ log ∧ (hook.pending w.runs).length < maxPending)
    (hlog : log.countP isWake = 0) : PreparesHook ingress request (ingress.wake hook webhook request.body) log := by
  unfold WebhookIngress.wake
  cases hrun : WebhookIngress.runOf hook webhook request.body with
  | error response =>
    refine holds_pure.mpr (.refused ?_ fun hook' webhook' run hver' hrun' => ?_)
    · unfold WebhookIngress.runOf at hrun
      split at hrun
      · obtain rfl := Except.error.inj hrun
        rfl
      · split at hrun
        · obtain rfl := Except.error.inj hrun
          rfl
        · cases hrun
    · rw [hver] at hver'
      obtain ⟨rfl, rfl⟩ := Prod.mk.inj (Option.some.inj hver')
      rw [hrun] at hrun'
      cases hrun'
  | ok run =>
    refine holds_ask.mpr ⟨⟨hook, webhook, hver, rfl, hrun, hroom, hlog⟩, fun w result w' _ => ?_⟩
    exact holds_pure.mpr (.woken hver hrun (List.mem_append_right _ (List.mem_singleton_self _)) rfl)

/-- **A request prepares each of its calls.** -/
theorem receive_local (ingress : WebhookIngress) (request : HookRequest) :
    PreparesHook ingress request (ingress.receive request) [] := by
  unfold WebhookIngress.receive
  have hunverified : ingress.verified request = none → ∀ response : HookResponse, response.runId = none →
      PreparesHook ingress request (.pure response) [] := by
    intro hnone response hresp
    refine holds_pure.mpr (.refused hresp fun hook webhook run hver => ?_)
    rw [hnone] at hver
    cases hver
  cases hhook : ingress.hooks[request.name]? with
  | none =>
    apply hunverified
    · unfold WebhookIngress.verified
      rw [hhook]
      rfl
    · rfl
  | some hook =>
    dsimp only
    cases hverify : hook.verify request with
    | none =>
      apply hunverified
      · unfold WebhookIngress.verified
        rw [hhook]
        simp [hverify]
      · rfl
    | some webhook =>
      have hver : ingress.verified request = some (hook, webhook) := by
        unfold WebhookIngress.verified
        rw [hhook]
        simp [hverify]
      dsimp only
      refine hookCheck_local fun r log hlog herr => ?_
      cases r with
      | error error =>
        obtain ⟨w, hw⟩ := herr error rfl
        exact holds_pure.mpr (.refused rfl fun _ _ _ _ _ => ⟨w, error, hw⟩)
      | ok u =>
        dsimp only
        unfold WebhookIngress.throttle
        cases hmax : hook.maxPending with
        | none =>
          refine wake_local hver (fun maxPending h => ?_) hlog
          rw [hmax] at h
          cases h
        | some maxPending =>
          refine holds_ask.mpr ⟨⟨hook, webhook, hver, rfl⟩, fun w runs w' hr => ?_⟩
          obtain ⟨rfl, rfl⟩ := hr
          have hlst : hook.listing w' ∈ log ++ [hook.listing w'] :=
            List.mem_append_right _ (List.mem_singleton_self _)
          show PreparesHook ingress request ((Prog.pure (ingress.full hook webhook.id maxPending
            (hook.pending w'.runs))).bind _) (log ++ [hook.listing w'])
          rw [Prog.pure_bind]
          cases hfull : ingress.full hook webhook.id maxPending (hook.pending w'.runs) with
          | some response => exact holds_pure.mpr (.full hver hmax hlst hfull)
          | none =>
            refine wake_local hver (fun maxPending' h => ⟨w', hlst, ?_⟩) ?_
            · rw [hmax] at h
              obtain rfl := Option.some.inj h
              unfold WebhookIngress.full at hfull
              split at hfull
              · cases hfull
              · omega
            · rw [List.countP_append, hlog]
              rfl

theorem runOf_run {hook : WebhookHook} {webhook : VerifiedWebhook} {body : List UInt8} {run : NewRun}
    (h : WebhookIngress.runOf hook webhook body = .ok run) :
    run.idempotencyKey = some (hook.ref webhook).key ∧ run.validate = .ok () := by
  unfold WebhookIngress.runOf at h
  split at h
  · cases h
  next payload _ =>
    split at h
    · cases h
    next mapped hmap =>
      obtain rfl := Except.ok.inj h
      unfold WebhookHook.map at hmap
      cases hraw : hook.mapped ⟨hook.name, webhook, payload⟩ with
      | error message =>
        rw [hraw] at hmap
        cases hmap
      | ok raw =>
        rw [hraw] at hmap
        simp only [bind, Except.bind] at hmap
        split at hmap
        · cases hmap
        next hval =>
          obtain rfl := Except.ok.inj hmap
          -- who acts is not among what is checked
          exact ⟨rfl, hval⟩

/-! ## The property -/

/-- **A webhook wakes one run**, and its redeliveries are told so. -/
structure WebhookExact (ingress : WebhookIngress) (sole : String → Bool) (s : HookPool) : Prop where
  /-- No run answers two messages. -/
  oneRef : ∀ proc ∈ s.procs, ∀ proc' ∈ s.procs, ∀ runId, proc.returned.bind (·.runId) = some runId →
    proc'.returned.bind (·.runId) = some runId →
      ∃ ref, ingress.refOf proc.call = some ref ∧ ingress.refOf proc'.call = some ref
  /-- A delivery of a message that had a run in the same queue is answered with it, unless governance refused. -/
  redelivered : ∀ proc ∈ s.procs, ∀ response, proc.returned = some response →
    (∀ w error, (⟨w, .check, .error error⟩ : HookEntry) ∉ proc.log) →
    ∀ hook webhook run, ingress.verified proc.call = some (hook, webhook) →
      WebhookIngress.runOf hook webhook proc.call.body = .ok run →
      ∀ a : Answered HookRef, a.created = true → a.ref = hook.ref webhook → a.queue = run.queue →
        (∀ entry ∈ proc.log, a ∈ entry.world.answered) →
          response.status = 200 ∧ ∃ state, response.body = .accepted a.runId state true
  /-- A hook whose deliveries are handled one at a time has no more unfinished runs than it may. -/
  bounded : ∀ name hook maxPending, sole name = true → ingress.hooks[name]? = some hook →
    hook.maxPending = some maxPending → s.world.openRuns name ≤ maxPending

/-- What a full hook may be asked: no run of another message is open in its queue under the message's key, and a run
that the message has is open and in its queue. -/
def Answerable (w : HookWorld) (hook : WebhookHook) (webhook : VerifiedWebhook) (body : List UInt8) : Prop :=
  (∀ a ∈ w.answered, a.created = true → a.queue = hook.queue → isOpen w.runs a.runId = true →
    a.ref.key = (hook.ref webhook).key → a.ref = hook.ref webhook) ∧
  ∀ run, WebhookIngress.runOf hook webhook body = .ok run → ∀ a ∈ w.answered, a.created = true →
    a.ref = hook.ref webhook → a.queue = run.queue → a.queue = hook.queue ∧ isOpen w.runs a.runId = true

/-- No other message has a run under the key of a message that is enqueued. When a bounded hook lists its runs, one
with as many unfinished runs as it may has as many in its queue, and one that finds as many is asked what it can
answer. -/
def Unmixed (ingress : WebhookIngress) (sole : String → Bool) (s : HookPool) (i : Nat) : HookOp → Prop
  | .check => True
  | .enqueue ref run => Wakeups.Clear HookRef.key s.world.answered ref run.queue
  | .list _ => ∀ proc ∈ s.procs[i]?, ∀ hook webhook, ingress.verified proc.call = some (hook, webhook) →
      ∀ maxPending, hook.maxPending = some maxPending →
        (sole hook.name = true → maxPending ≤ s.world.openRuns hook.name →
          maxPending ≤ (hook.pending s.world.runs).length) ∧
        (maxPending ≤ (hook.pending s.world.runs).length → Answerable s.world hook webhook proc.call.body)

/-! ## Over time -/

namespace HookWorld

omit [JsonText] [JsonRead]

def Later (w w' : HookWorld) : Prop := ∀ a ∈ w.answered, a ∈ w'.answered

theorem answers_later {op : HookOp} {w w' : HookWorld} {r : op.Ret} (h : laws.answers op w r w') : w.Later w' := by
  cases op with
  | check =>
    obtain rfl : w' = w := h
    exact fun _ h => h
  | list filter =>
    obtain ⟨-, rfl⟩ := h
    exact fun _ h => h
  | enqueue ref run =>
    obtain ⟨now, runId, table, -, -, rfl⟩ := h
    exact fun a ha => List.mem_append_left _ ha

theorem moves_later {w w' : HookWorld} (h : laws.moves w w') : w.Later w' := by
  obtain ⟨now, call, answer, table, -, -, rfl⟩ := h
  exact fun _ h => h

end HookWorld

/-- A store without runs. -/
def noDeliveries : HookPool := { world := {} }

section Runs

variable {sole : String → Bool} {s : HookPool}

variable {proc : HookProc} {hook : WebhookHook} {w w' : HookWorld}

theorem request_keeps (hrea : Reaches (hookSystem ingress sole (Unmixed ingress sole)) noDeliveries s) {i : Nat}
    (hproc : s.procs[i]? = some proc) :
    Keeps HookWorld.laws (PreparedHook ingress) (HookAnswered ingress) proc :=
  hrea.local rfl (receive_local ingress) i proc hproc

/-- **The account of the store stays exact.** -/
theorem hookAccount_reaches (hrea : Reaches (hookSystem ingress sole (Unmixed ingress sole)) noDeliveries s) :
    Account HookRef.key s.world.runs s.world.answered := by
  induction hrea with
  | refl => exact .empty _
  | @tail s s' hrea hstep ih =>
    cases hstep with
    | start _ => exact ih
    | stop _ => exact ih
    | move hmove =>
      obtain ⟨now, call, answer, table, hfor, hcall, rfl⟩ := hmove
      exact ih.foreign hfor hcall
    | @act i proc op rest r w hproc hlive hrest hacts hr =>
      cases op with
      | check =>
        obtain rfl : w = s.world := hr
        exact ih
      | list filter =>
        obtain ⟨-, rfl⟩ := hr
        exact ih
      | enqueue ref run =>
        obtain ⟨now, runId, table, hfr, hcall, rfl⟩ := hr
        obtain ⟨hook, webhook, -, rfl, hrun, -⟩ := (request_keeps hrea hproc).performs hrest
        exact ih.enqueue (runOf_run hrun).1 hfr hacts hcall

/-- What was so when a request called the store. -/
def SoundEntry (ingress : WebhookIngress) (request : HookRequest) (entry : HookEntry) : Prop :=
  Account HookRef.key entry.world.runs entry.world.answered ∧
  (∃ w, HookWorld.laws.answers entry.op entry.world entry.ret w) ∧
  ∀ hook webhook maxPending, ingress.verified request = some (hook, webhook) → hook.maxPending = some maxPending →
    entry = hook.listing entry.world → maxPending ≤ (hook.pending entry.world.runs).length →
      Answerable entry.world hook webhook request.body

theorem soundEntry_reaches (hrea : Reaches (hookSystem ingress sole (Unmixed ingress sole)) noDeliveries s)
    {i : Nat} (hproc : s.procs[i]? = some proc) {entry : HookEntry} (hent : entry ∈ proc.log) :
    SoundEntry ingress proc.call entry := by
  obtain ⟨before, later, hlog⟩ := List.append_of_mem hent
  refine hrea.entries (P := fun request _ entry => SoundEntry ingress request entry) rfl ?_ i proc hproc before
    entry later hlog
  intro s' j proc' op next r w hrea' hproc' hrest hacts hr
  refine ⟨hookAccount_reaches hrea', ⟨w, hr⟩, fun hook webhook maxPending hver hmax heq hfull => ?_⟩
  obtain ⟨-, hop⟩ := Entry.mk.inj heq
  obtain ⟨rfl, -⟩ := hop
  exact (hacts proc' (Option.mem_def.mpr hproc') hook webhook hver maxPending hmax).2 hfull

/-! ### Answers -/

omit [JsonText] [JsonRead] in
theorem full_cases {id : String} {maxPending : Nat} {pending : List RunRecord}
    {response : HookResponse} (h : ingress.full hook id maxPending pending = some response) :
    maxPending ≤ pending.length ∧
      ((∃ run ∈ pending, run.idempotencyKey = some (hookIdempotencyKey hook.name id) ∧
        response = .accepted 200 run true) ∨
      response.runId = none ∧ ∀ run ∈ pending, run.idempotencyKey ≠ some (hookIdempotencyKey hook.name id)) := by
  unfold WebhookIngress.full at h
  split at h
  next hfull =>
    refine ⟨hfull, ?_⟩
    cases hfind : pending.find? fun run => run.idempotencyKey = some (hookIdempotencyKey hook.name id) with
    | some run =>
      rw [hfind] at h
      obtain rfl := Option.some.inj h
      have hkey := List.find?_some hfind
      exact .inl ⟨run, List.mem_of_find?_eq_some hfind, by simpa using hkey, rfl⟩
    | none =>
      rw [hfind] at h
      obtain rfl := Option.some.inj h
      refine .inr ⟨rfl, fun run hrun => ?_⟩
      simpa using List.find?_eq_none.mp hfind run hrun
  next => cases h

omit [JsonText] [JsonRead] in
theorem mem_pending {table : RunTable} {record : RunRecord} (hkd : table.Keyed) :
    record ∈ hook.pending table ↔ ∃ entry : RunEntry, table.runs[record.runId]? = some entry ∧
      entry.record = record ∧ record.queue = hook.queue ∧ isOpen table record.runId = true ∧
      hook.ownKey record = true := by
  unfold WebhookHook.pending isOpen
  rw [List.mem_filter, mem_list]
  constructor
  · rintro ⟨⟨entry, hent, rfl, hmat⟩, hown⟩
    obtain ⟨hque, hopen⟩ := isMatch_unfinished.mp hmat
    have hget := hkd.get hent
    exact ⟨entry, hget, rfl, hque _ rfl, by simp [hget, hopen], hown⟩
  · rintro ⟨entry, hget, rfl, hque, hopen, hown⟩
    refine ⟨⟨entry, Dict.mem_vals.mpr ⟨_, hget⟩, rfl, isMatch_unfinished.mpr ⟨fun q hq => ?_, ?_⟩⟩, hown⟩
    · rw [hque, Option.some.inj hq]
    · simpa [hget] using hopen

omit [JsonText] [JsonRead] in
theorem ownKey_of_key {record : RunRecord} {ref : HookRef} (href : ref.hook = hook.name)
    (hkey : record.idempotencyKey = some ref.key) : hook.ownKey record = true := by
  unfold WebhookHook.ownKey
  rw [hkey, Option.any_some, startsWith_iff]
  refine ⟨ref.id, ?_⟩
  unfold HookRef.key hookIdempotencyKey WebhookHook.keyPrefix
  rw [href]
  rfl

/-- **A run that a delivery is answered with is accounted for** under its message. -/
theorem answered_of_returned (hrea : Reaches (hookSystem ingress sole (Unmixed ingress sole)) noDeliveries s)
    (hproc : proc ∈ s.procs) {runId : String} (hret : proc.returned.bind (·.runId) = some runId) :
    ∃ a ∈ s.world.answered, ingress.refOf proc.call = some a.ref ∧ a.runId = runId := by
  obtain ⟨i, hi⟩ := List.mem_iff_getElem?.mp hproc
  obtain ⟨response, hresp, hrun⟩ := Option.bind_eq_some_iff.mp hret
  have hpast := Reaches.past hrea rfl (fun _ _ h => h) (fun _ _ _ h h' a ha => h' a (h a ha))
    (fun _ _ _ _ => HookWorld.answers_later) (fun _ _ => HookWorld.moves_later) i proc hi
  cases (request_keeps hrea hi).returned (Proc.returned_eq hresp) with
  | refused hnone _ =>
    rw [hnone] at hrun
    cases hrun
  | @full hook webhook maxPending w hver hmax hlst hfull =>
    obtain ⟨hacc, -, hanswerable⟩ := soundEntry_reaches hrea hi hlst
    obtain ⟨hle, ⟨run, hpend, hkey, rfl⟩ | ⟨hnone, -⟩⟩ := full_cases hfull
    · obtain ⟨entry, hget, rfl, hque, hopen, -⟩ := (mem_pending hacc.indexed.keyed).mp hpend
      obtain rfl := Option.some.inj hrun
      -- the run was created for the message, since it is open under its key
      obtain ⟨a, ha, hcr, harun⟩ := hacc.runs _ entry (hook.ref webhook) hget hkey
      obtain ⟨entry', hget', haqueue, hakey⟩ := hacc.hasRun a ha
      rw [harun] at hget'
      obtain rfl := Option.some.inj (hget.symm.trans hget')
      have href := (hanswerable hook webhook maxPending hver hmax rfl hle).1 a ha hcr
        (haqueue.symm.trans hque) (by rw [harun]; exact hopen) (Option.some.inj (hakey.symm.trans hkey))
      obtain ⟨w', hr, hlat⟩ := hpast.here _ hlst
      refine ⟨a, hlat a (HookWorld.answers_later hr a ha), ?_, harun⟩
      unfold WebhookIngress.refOf
      rw [hver, href]
      rfl
    · rw [hnone] at hrun
      cases hrun
  | @woken hook webhook run w result hver _ henq hans =>
    obtain ⟨w', ⟨now, id, table, -, -, rfl⟩, hlat⟩ := hpast.here _ henq
    have href : ingress.refOf proc.call = some (hook.ref webhook) := by
      unfold WebhookIngress.refOf
      rw [hver]
      rfl
    rw [hans] at hrun
    rcases result with error | ⟨record⟩ | ⟨record⟩ | blockingRunId
    · cases hrun
    · exact ⟨_, hlat _ (List.mem_append_right _ (List.mem_singleton_self _)), href, Option.some.inj hrun⟩
    · exact ⟨_, hlat _ (List.mem_append_right _ (List.mem_singleton_self _)), href, Option.some.inj hrun⟩
    · cases hrun

/-- **A redelivery is answered with the run of its message.** -/
theorem redelivered_of_returned (hrea : Reaches (hookSystem ingress sole (Unmixed ingress sole)) noDeliveries s)
    (hproc : proc ∈ s.procs) {response : HookResponse} (hret : proc.returned = some response)
    (hgoverned : ∀ w error, (⟨w, .check, .error error⟩ : HookEntry) ∉ proc.log)
    {webhook : VerifiedWebhook} {run : NewRun} (hver : ingress.verified proc.call = some (hook, webhook))
    (hrun : WebhookIngress.runOf hook webhook proc.call.body = .ok run) {a : Answered HookRef}
    (hcr : a.created = true) (href : a.ref = hook.ref webhook) (hque : a.queue = run.queue)
    (hbef : ∀ entry ∈ proc.log, a ∈ entry.world.answered) :
    response.status = 200 ∧ ∃ state, response.body = .accepted a.runId state true := by
  obtain ⟨i, hi⟩ := List.mem_iff_getElem?.mp hproc
  cases (request_keeps hrea hi).returned (Proc.returned_eq hret) with
  | refused _ hwhy =>
    obtain ⟨w, error, hent⟩ := hwhy hook webhook run hver hrun
    exact absurd hent (hgoverned w error)
  | @full hook' webhook' maxPending w hver' hmax hlst hfull =>
    rw [hver] at hver'
    obtain ⟨rfl, rfl⟩ := Prod.mk.inj (Option.some.inj hver')
    obtain ⟨hacc, -, hanswerable⟩ := soundEntry_reaches hrea hi hlst
    have ha := hbef _ hlst
    obtain ⟨hle, hcases⟩ := full_cases hfull
    obtain ⟨hown, hopen⟩ := (hanswerable hook webhook maxPending hver hmax rfl hle).2 run hrun a ha hcr
      href hque
    have hhas := hacc.hasRun a ha
    obtain ⟨entry, hget, hent, hkey⟩ := hhas
    rw [href] at hkey
    rcases hcases with ⟨found, hpend, hfnd, rfl⟩ | ⟨-, hnone⟩
    · -- the run that is found is the one under the message's key
      obtain ⟨entry', hget', rfl, hque', -, -⟩ := (mem_pending hacc.indexed.keyed).mp hpend
      have hsame : a.runId = entry'.record.runId := by
        refine hacc.indexed.once (hacc.hasRun a ha) ⟨entry', hget', ?_, ?_⟩
        · rw [hque', hown]
        · rw [hfnd, href]
          rfl
      rw [hsame]
      exact ⟨rfl, _, rfl⟩
    · have hid := hacc.indexed.keyed _ _ hget
      refine absurd hkey (hnone entry.record ?_)
      refine (mem_pending hacc.indexed.keyed).mpr ⟨entry, ?_, rfl, hent.trans hown, ?_, ownKey_of_key ?_ hkey⟩
      · rw [hid]
        exact hget
      · rw [hid]
        exact hopen
      · rfl
  | @woken hook' webhook' run' w result hver' hrun' henq hans =>
    rw [hver] at hver'
    obtain ⟨rfl, rfl⟩ := Prod.mk.inj (Option.some.inj hver')
    obtain rfl := Except.ok.inj (hrun.symm.trans hrun')
    obtain ⟨hacc, ⟨w', now, id, table, -, hcall, -⟩, -⟩ := soundEntry_reaches hrea hi henq
    obtain ⟨hkey, hval⟩ := runOf_run hrun
    have hhas := hacc.hasRun a (hbef _ henq)
    rw [href, hque] at hhas
    obtain ⟨record, rfl, hrcd⟩ := RunTable.enqueue_existing hcall hacc.indexed hval hkey hhas
    rw [hans, ← hrcd]
    exact ⟨rfl, _, rfl⟩

/-! ### Bounds -/

omit [JsonText] [JsonRead] in
theorem HookWorld.openRuns_answers {op : HookOp} {r : op.Ret}
    (h : Account HookRef.key w.runs w.answered) (hr : HookWorld.laws.answers op w r w') (name : String) :
    w'.openRuns name ≤ w.openRuns name + if isWake ⟨w, op, r⟩ then 1 else 0 := by
  cases op with
  | check =>
    obtain rfl : w' = w := hr
    exact Nat.le_refl _
  | list filter =>
    obtain ⟨-, rfl⟩ := hr
    exact Nat.le_refl _
  | enqueue ref run =>
    obtain ⟨now, runId, table, hfr, hcall, rfl⟩ := hr
    refine Nat.le_trans (h.unfinished_enqueue ref (p := fun ref => decide (ref.hook = name)) hfr hcall) ?_
    apply Nat.add_le_add_left
    have hwake : isWake ⟨w, .enqueue ref run, r⟩ = true := rfl
    rw [if_pos hwake]
    split <;> omega

omit [JsonText] [JsonRead] in
theorem HookWorld.openRuns_others {op : HookOp} {r : op.Ret} {name : String}
    (h : Account HookRef.key w.runs w.answered) (hr : HookWorld.laws.answers op w r w')
    (hoth : ∀ ref run, op = .enqueue ref run → ref.hook ≠ name) : w'.openRuns name ≤ w.openRuns name := by
  cases op with
  | check =>
    obtain rfl : w' = w := hr
    exact Nat.le_refl _
  | list filter =>
    obtain ⟨-, rfl⟩ := hr
    exact Nat.le_refl _
  | enqueue ref run =>
    obtain ⟨now, runId, table, hfr, hcall, rfl⟩ := hr
    refine Nat.le_trans (h.unfinished_enqueue ref (p := fun ref => decide (ref.hook = name)) hfr hcall) ?_
    rw [if_neg (by simpa using hoth ref run rfl)]
    exact Nat.le_refl _

omit [JsonText] [JsonRead] in
theorem HookWorld.openRuns_moves (h : Account HookRef.key w.runs w.answered)
    (hmove : HookWorld.laws.moves w w') (name : String) : w'.openRuns name ≤ w.openRuns name := by
  obtain ⟨now, call, answer, table, hfor, hcall, rfl⟩ := hmove
  exact h.unfinished_foreign hfor hcall

/-- What holds of the hooks whose deliveries are handled one at a time. -/
structure SoleHooks (ingress : WebhookIngress) (sole : String → Bool) (s : HookPool) : Prop where
  bounded : ∀ name hook maxPending, sole name = true → ingress.hooks[name]? = some hook →
    hook.maxPending = some maxPending → s.world.openRuns name ≤ maxPending
  /-- Since a request found room, it alone may have opened a run. -/
  room : ∀ (i : Nat) (proc : HookProc), s.procs[i]? = some proc → proc.IsActive → sole proc.call.name = true →
    ∀ hook maxPending, ingress.hooks[proc.call.name]? = some hook → hook.maxPending = some maxPending →
      ∀ w, hook.listing w ∈ proc.log → (hook.pending w.runs).length < maxPending →
        s.world.openRuns proc.call.name < maxPending + proc.log.countP isWake

/-- **The bound of a sole hook holds in every run.** -/
theorem soleHooks_reaches (hrea : Reaches (hookSystem ingress sole (Unmixed ingress sole)) noDeliveries s) :
    SoleHooks ingress sole s := by
  induction hrea with
  | refl =>
    refine ⟨fun name hook maxPending _ _ _ => Nat.zero_le _, fun i proc hproc => ?_⟩
    cases hproc
  | @tail s s' hrea hstep ih =>
    have hacc := hookAccount_reaches hrea
    cases hstep with
    | @start request hstarts =>
      refine ⟨ih.bounded, fun i proc hproc hact hsole hook maxPending hhook hmax w hlst => ?_⟩
      rcases getElem?_start hproc with hold | ⟨-, rfl⟩
      · exact ih.room i proc hold hact hsole hook maxPending hhook hmax w hlst
      · cases hlst
    | @stop i proc hproc =>
      refine ⟨ih.bounded, fun j q hq hact => ?_⟩
      rcases getElem?_put hproc hq with ⟨-, rfl⟩ | ⟨-, hold⟩
      · cases hact.1
      · exact ih.room j q hold hact
    | @move w hmove =>
      have hless := HookWorld.openRuns_moves hacc hmove
      refine ⟨fun name hook maxPending hsole hhook hmax => ?_,
        fun i proc hproc hact hsole hook maxPending hhook hmax w' hlst hroom => ?_⟩
      · exact Nat.le_trans (hless name) (ih.bounded name hook maxPending hsole hhook hmax)
      · exact Nat.lt_of_le_of_lt (hless _)
          (ih.room i proc hproc hact hsole hook maxPending hhook hmax w' hlst hroom)
    | @act i proc op rest r w hproc hlive hrest hacts hr =>
      have hact := Proc.isActive_ask hlive hrest
      have hprep := (request_keeps hrea hproc).performs hrest
      have hmore := HookWorld.openRuns_answers hacc hr proc.call.name
      -- a request opens runs of its own hook only
      have hoths : ∀ name, name ≠ proc.call.name → w.openRuns name ≤ s.world.openRuns name := by
        intro name hname
        apply HookWorld.openRuns_others hacc hr
        rintro ref run rfl
        obtain ⟨hook, webhook, hver, rfl, -⟩ := hprep
        intro heq
        exact hname (heq.symm.trans (WebhookIngress.verified_eq hver).2)
      refine ⟨fun name hook maxPending hsole hhook hmax => ?bounded,
        fun j q hq hact' hsole hook maxPending hhook hmax w₀ hlst hroom => ?room⟩
      case bounded =>
        show w.openRuns name ≤ maxPending
        have hbounded := ih.bounded name hook maxPending hsole hhook hmax
        by_cases hname : name = proc.call.name
        · subst hname
          cases op with
          | enqueue ref run =>
            obtain ⟨hook', webhook, hver, -, -, hlistedRoom, hnone⟩ := hprep
            obtain ⟨hhook', -⟩ := WebhookIngress.verified_eq hver
            obtain rfl := Option.some.inj (hhook.symm.trans hhook')
            obtain ⟨w₀, hlst, hroom⟩ := hlistedRoom maxPending hmax
            have hlt := ih.room i proc hproc hact hsole hook maxPending hhook hmax w₀ hlst hroom
            have hwake : isWake ⟨s.world, .enqueue ref run, r⟩ = true := rfl
            rw [if_pos hwake] at hmore
            omega
          | check => exact Nat.le_trans hmore hbounded
          | list filter => exact Nat.le_trans hmore hbounded
        · exact Nat.le_trans (hoths name hname) hbounded
      case room =>
        rcases getElem?_put hproc hq with ⟨rfl, rfl⟩ | ⟨hj, hold⟩
        · rw [Proc.after_call] at hsole hhook ⊢
          rw [Proc.after_log] at hlst ⊢
          show w.openRuns proc.call.name < _
          rw [List.countP_append, List.countP_singleton]
          rcases List.mem_append.mp hlst with hearl | hnow
          · have hlt := ih.room j proc hproc hact hsole hook maxPending hhook hmax w₀ hearl hroom
            omega
          · -- the request lists now: the hook has no more runs elsewhere than matter
            obtain ⟨rfl, hop⟩ := Entry.mk.inj (List.mem_singleton.mp hnow)
            obtain ⟨rfl, -⟩ := hop
            obtain ⟨hook', webhook, hver, -⟩ := hprep
            obtain ⟨hhook', hname⟩ := WebhookIngress.verified_eq hver
            obtain rfl := Option.some.inj (hhook.symm.trans hhook')
            have hcntd := (hacts proc (Option.mem_def.mpr hproc) hook webhook hver maxPending hmax).1
            rw [hname] at hcntd
            have hlt : ¬ maxPending ≤ s.world.openRuns proc.call.name := fun hle => by
              have := hcntd hsole hle
              omega
            omega
        · have hne : q.call.name ≠ proc.call.name := by
            intro heq
            exact hj (Reaches.oneActive HookRequest.name (fun name => sole name = true) hrea rfl (fun _ _ h => h)
              hold hproc hact' hact heq hsole)
          exact Nat.lt_of_le_of_lt (hoths _ hne)
            (ih.room j q hold hact' hsole hook maxPending hhook hmax w₀ hlst hroom)

/-- **In every run** in which no two messages of a queue share a key and full hooks are asked what they can answer, a
webhook wakes one run, and its redeliveries are told so. -/
theorem webhookExact_unmixed (hreach : Reaches (hookSystem ingress sole (Unmixed ingress sole)) noDeliveries s) :
    WebhookExact ingress sole s := by
  constructor
  case oneRef =>
    intro proc hproc proc' hproc' runId hreturned hreturned'
    obtain ⟨a, ha, href, hrun⟩ := answered_of_returned hreach hproc hreturned
    obtain ⟨b, hb, href', hrun'⟩ := answered_of_returned hreach hproc' hreturned'
    refine ⟨a.ref, href, ?_⟩
    rw [href', (hookAccount_reaches hreach).oneRef ha hb (hrun.trans hrun'.symm)]
  case redelivered =>
    intro proc hproc response hreturned hgoverned hook webhook run hverified hrun a hcreated href hqueue hbefore
    exact redelivered_of_returned hreach hproc hreturned hgoverned hverified hrun hcreated href hqueue hbefore
  case bounded => exact (soleHooks_reaches hreach).bounded

end Runs

end Requests

/-! ## Runs that are computed -/

section Computed

/-- A store that answers at time 0 and never fails. -/
def hookRun : (op : HookOp) → HookWorld → op.Ret × HookWorld
  | .check, w => (.ok (), w)
  | .list filter, w => (.ok (w.runs.list filter), w)
  | .enqueue ref run, w =>
    let (result, table) := w.runs.enqueue 0 w.runs.freshId run
    (result, { w with runs := table, answered := w.answered ++ answersOf ref run.queue result })

theorem answers_hookRun (op : HookOp) (w : HookWorld) : HookWorld.laws.answers op w (hookRun op w).1 (hookRun op w).2 := by
  cases op with
  | check => rfl
  | list filter => exact ⟨rfl, rfl⟩
  | enqueue ref run => exact ⟨0, _, _, RunTable.runs_freshId _, rfl, rfl⟩

def cancelled (s : HookPool) (runId : String) : HookPool :=
  { s with world := { s.world with runs := (s.world.runs.requestCancel 0 runId).2 } }

/-- Reads a body without fields. -/
@[reducible] def emptyObject : JsonRead where
  fromSlice body := if body = "\x7b\x7d".toUTF8.data.toList then .ok (.object []) else .error "expected value"

local instance : JsonText := plainText

local instance : JsonRead := emptyObject

variable {ingress : WebhookIngress} {sole : String → Bool}

theorem step_cancelled {acts : HookPool → Nat → HookOp → Prop} (s : HookPool) (runId : String) :
    Step (hookSystem ingress sole acts) s (cancelled s runId) :=
  .move ⟨0, .requestCancel runId, _, _, trivial, rfl, rfl⟩

instance {acts : HookPool → Nat → HookOp → Prop} :
    ∀ s request, Decidable ((hookSystem ingress sole acts).starts s request) := fun s request =>
  decidable_of_iff (sole request.name = true → ∀ proc ∈ s.procs, proc.call.name = request.name →
    proc.live = false ∨ proc.returned.isSome = true) Iff.rfl

instance (w : HookWorld) (hook : WebhookHook) (webhook : VerifiedWebhook) (body : List UInt8) :
    Decidable (Answerable w hook webhook body) :=
  decidable_of_iff ((∀ a ∈ w.answered, a.created = true → a.queue = hook.queue → isOpen w.runs a.runId = true →
      a.ref.key = (hook.ref webhook).key → a.ref = hook.ref webhook) ∧
    ∀ run ∈ (WebhookIngress.runOf hook webhook body).toOption, ∀ a ∈ w.answered, a.created = true →
      a.ref = hook.ref webhook → a.queue = run.queue → a.queue = hook.queue ∧ isOpen w.runs a.runId = true) <| by
    unfold Answerable
    cases WebhookIngress.runOf hook webhook body <;> simp [Except.toOption]

instance : ∀ s i op, Decidable ((hookSystem ingress sole (Unmixed ingress sole)).acts s i op) := fun s i op =>
  match op with
  | .check => .isTrue trivial
  | .enqueue ref run => decidable_of_iff (∀ a ∈ s.world.answered, a.created = true → a.queue = run.queue →
      a.ref.key = ref.key → a.ref = ref) Iff.rfl
  | .list _ => decidable_of_iff (∀ proc ∈ s.procs[i]?, ∀ verified ∈ ingress.verified proc.call,
      ∀ maxPending ∈ verified.1.maxPending, (sole verified.1.name = true →
        maxPending ≤ s.world.openRuns verified.1.name → maxPending ≤ (verified.1.pending s.world.runs).length) ∧
      (maxPending ≤ (verified.1.pending s.world.runs).length →
        Answerable s.world verified.1 verified.2 proc.call.body)) <| by
    constructor
    · exact fun h proc hproc hook webhook hverified => h proc hproc (hook, webhook) hverified
    · exact fun h proc hproc verified hverified => h proc hproc verified.1 verified.2 hverified

instance : ∀ s i op, Decidable ((hookSystem ingress sole fun _ _ _ => True).acts s i op) := fun _ _ _ => .isTrue trivial

/-- A hook with one unfinished run at most, whose verifier takes every signature. -/
def githubHook : WebhookHook where
  name := "github"
  verifier headers _ now := some { id := headers.id, timestamp := now }
  appName := "triage"
  target := "triage_agent"
  maxPending := some 1

def githubIngress : WebhookIngress := WebhookIngress.new.withHook githubHook

def deliveryOf (id : String) : HookRequest where
  name := "github"
  headers name := if name = "webhook-id" then some id else some "0"
  body := "\x7b\x7d".toUTF8.data.toList
  receivedAt := 0

/-- A delivery that is handled from its start to its end. -/
def handled (i : Nat) (id : String) : List (ProcPool.Event HookRequest) := [.start (deliveryOf id), .act i, .act i]

/-- A message, its redelivery, and another message. -/
def redelivery : HookPool :=
  (handled 0 "m-1" ++ handled 1 "m-1" ++ handled 2 "m-2").foldl
    (ProcPool.next (hookSystem githubIngress (fun _ => true) (Unmixed githubIngress fun _ => true)) hookRun) noDeliveries

/-- The redelivery is answered with the run of the message, and the other message has no room. -/
theorem webhookExact_unmixed_redelivery : WebhookExact githubIngress (fun _ => true) redelivery ∧
    redelivery.procs.map (fun proc => proc.returned.map (·.status)) = [some 202, some 200, some 429] ∧
    redelivery.procs.map (fun proc => proc.returned.bind (·.runId)) = [some "r", some "r", none] :=
  ⟨webhookExact_unmixed (reaches_foldl answers_hookRun _ _), by decide +kernel, by decide +kernel⟩

/-- A message whose run was cancelled before that of another one was created. -/
def lateRedelivery : HookPool :=
  (handled 1 "m-2" ++ handled 2 "m-1").foldl
    (ProcPool.next (hookSystem githubIngress (fun _ => true) fun _ _ _ => True) hookRun)
    (cancelled ((handled 0 "m-1").foldl
      (ProcPool.next (hookSystem githubIngress (fun _ => true) fun _ _ _ => True) hookRun) noDeliveries) "r")

def firstAnswer : Answered HookRef := ⟨⟨"github", "m-1"⟩, "default", "r", true⟩

theorem lateRedelivery_answered :
    ∃ proc ∈ lateRedelivery.procs, proc.returned.map (·.status) = some 429 ∧
      (∀ entry ∈ proc.log, firstAnswer ∈ entry.world.answered) ∧
      (githubIngress.verified proc.call).any (fun verified => decide (verified.1.ref verified.2 = firstAnswer.ref) &&
        (WebhookIngress.runOf verified.1 verified.2 proc.call.body).toOption.any
          fun run => decide (run.queue = firstAnswer.queue)) = true ∧
      ∀ entry ∈ proc.log, (match entry with
        | ⟨_, .check, _⟩ => false
        | _ => true) = true := by
  decide +kernel

/-- **Not in every run**: a redelivery whose run has finished is told to try again while another run is open. -/
theorem not_webhookExact : ¬ ∀ (_ : JsonText) (_ : JsonRead) (ingress : WebhookIngress) (sole : String → Bool)
    (s : HookPool), Reaches (hookSystem ingress sole fun _ _ _ => True) noDeliveries s →
      WebhookExact ingress sole s := by
  intro h
  have hexact := h plainText emptyObject githubIngress (fun _ => true) lateRedelivery
    (((reaches_foldl answers_hookRun _ _).tail (step_cancelled _ _)).trans (reaches_foldl answers_hookRun _ _))
  obtain ⟨proc, hproc, hstatus, hlog, hmapped, hcheck⟩ := lateRedelivery_answered
  obtain ⟨response, hreturned, hstatus⟩ := Option.map_eq_some_iff.mp hstatus
  obtain ⟨⟨hook, webhook⟩, hverified, hmapped⟩ := (Option.any_eq_true _ _).mp hmapped
  rw [Bool.and_eq_true] at hmapped
  obtain ⟨run, hrun, hqueue⟩ := (Option.any_eq_true _ _).mp hmapped.2
  have hok : WebhookIngress.runOf hook webhook proc.call.body = .ok run := by
    cases hresult : WebhookIngress.runOf hook webhook proc.call.body with
    | error response =>
      rw [hresult] at hrun
      cases hrun
    | ok run' =>
      rw [hresult] at hrun
      rw [Option.some.inj hrun]
  obtain ⟨hok200, -⟩ := hexact.redelivered proc hproc response hreturned
    (fun w error hentry => Bool.false_ne_true (hcheck _ hentry)) hook webhook run hverified hok firstAnswer rfl
    (of_decide_eq_true hmapped.1).symm (of_decide_eq_true hqueue).symm hlog
  rw [hstatus] at hok200
  cases hok200

end Computed

end Adk
