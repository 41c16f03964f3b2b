import AdkRust.Wakeups.Queue

/-!
# Messages become runs once

Any number of ingresses poll any sources over one store of runs, interleaved in any way, and stop anywhere. A source
loses no message and hands a receipt out once (`SourceState.Sound`), and an ingress acks a message only after the store
answered it with a run (`PreparedPoll`).

* `QueueExact`: what holds of the sources, the runs and the polls.
* `queueExact_distinct`: **it holds in every run** in which no two messages of a queue share a key, and none of another
  source begins like those of a source that is counted.
* `not_queueExact`: it does not hold in every run.
-/

namespace Adk

open ProcPool Wakeups

/-! ## The source -/

variable {now leaseUntil : Utc} {message : QueueMessage}

theorem takeFrom_length (maxMessages : Nat) (receipts : Nat → String)
    (stored : List StoredMessage) : (takeFrom now leaseUntil maxMessages receipts stored).1.length ≤ maxMessages := by
  induction stored generalizing maxMessages receipts with
  | nil => exact Nat.zero_le _
  | cons message rest ih =>
    cases maxMessages with
    | zero => exact Nat.le_refl _
    | succ n =>
      unfold takeFrom
      split
      · have hrest := ih n fun i => receipts (i + 1)
        simp only [List.length_cons]
        omega
      · exact ih (n + 1) receipts

theorem takeFrom_ids (maxMessages : Nat) (receipts : Nat → String) (stored : List StoredMessage) :
    (takeFrom now leaseUntil maxMessages receipts stored).2.map (·.id) = stored.map (·.id) := by
  induction stored generalizing maxMessages receipts with
  | nil => rfl
  | cons message rest ih =>
    cases maxMessages with
    | zero => rfl
    | succ n =>
      unfold takeFrom
      split
      · simp only [List.map_cons, ih]
        rfl
      · simp only [List.map_cons, ih]

theorem takeFrom_leased (maxMessages : Nat) (receipts : Nat → String) (stored : List StoredMessage) :
    ∀ message ∈ (takeFrom now leaseUntil maxMessages receipts stored).2, message ∈ stored ∨
      ∃ delivery ∈ (takeFrom now leaseUntil maxMessages receipts stored).1,
        message.receipt = some delivery.receipt ∧ delivery.id = message.id := by
  induction stored generalizing maxMessages receipts with
  | nil => simp [takeFrom]
  | cons first rest ih =>
    cases maxMessages with
    | zero => exact fun message h => .inl h
    | succ n =>
      unfold takeFrom
      split
      · intro message hmsg
        rcases List.mem_cons.mp hmsg with rfl | hmsg
        · exact .inr ⟨_, List.mem_cons_self, rfl, rfl⟩
        · rcases ih n _ message hmsg with hold | ⟨delivery, hdelivery, hrest⟩
          · exact .inl (List.mem_cons_of_mem _ hold)
          · exact .inr ⟨delivery, List.mem_cons_of_mem _ hdelivery, hrest⟩
      · intro message hmsg
        rcases List.mem_cons.mp hmsg with rfl | hmsg
        · exact .inl List.mem_cons_self
        · rcases ih (n + 1) receipts message hmsg with hold | hnew
          · exact .inl (List.mem_cons_of_mem _ hold)
          · exact .inr hnew

/-- Each delivery has the next receipt. -/
theorem takeFrom_receipts (maxMessages : Nat) (receipts : Nat → String) (stored : List StoredMessage) :
    (takeFrom now leaseUntil maxMessages receipts stored).1.map (·.receipt) =
      (List.range (takeFrom now leaseUntil maxMessages receipts stored).1.length).map receipts := by
  induction stored generalizing maxMessages receipts with
  | nil => rfl
  | cons first rest ih =>
    cases maxMessages with
    | zero => rfl
    | succ n =>
      unfold takeFrom
      split
      · simp only [List.map_cons, List.length_cons, List.range_succ_eq_map, List.map_map, ih]
        rfl
      · exact ih (n + 1) receipts

theorem splitLeased_eq {receipt : String} {messages before after : List StoredMessage}
    {stored : StoredMessage} (h : QueueTable.splitLeased receipt now messages = some (before, stored, after)) :
    messages = before ++ stored :: after ∧ stored.receipt = some receipt := by
  induction messages generalizing before with
  | nil => cases h
  | cons first rest ih =>
    unfold QueueTable.splitLeased at h
    split at h
    next hleased =>
      obtain ⟨rfl, hrest⟩ := Prod.mk.inj (Option.some.inj h)
      obtain ⟨rfl, rfl⟩ := Prod.mk.inj hrest
      unfold QueueTable.isLeased at hleased
      exact ⟨rfl, (of_decide_eq_true hleased).1⟩
    next =>
      obtain ⟨⟨before', stored', after'⟩, hsp, heq⟩ := Option.map_eq_some_iff.mp h
      obtain ⟨rfl, hrest⟩ := Prod.mk.inj heq
      obtain ⟨rfl, rfl⟩ := Prod.mk.inj hrest
      obtain ⟨rfl, hrec⟩ := ih hsp
      exact ⟨rfl, hrec⟩

/-- **A source loses no message**, and hands a receipt out for one message. -/
structure SourceState.Sound (state : SourceState) : Prop where
  kept : (state.table.messages.map (·.id) ++ state.table.acked).Perm state.published
  leased : ∀ message ∈ state.table.messages, ∀ receipt, message.receipt = some receipt →
    (receipt, message.id) ∈ state.leases
  once : (state.leases.map Prod.fst).Nodup

namespace SourceState.Sound

variable {state : SourceState}

theorem empty : SourceState.Sound {} where
  kept := .refl _
  leased message h := by cases h
  once := .nil

variable {receipt : String} {now : Utc} {table : QueueTable}

theorem message_eq (h : state.Sound) {id id' : String} (hid : (receipt, id) ∈ state.leases)
    (hid' : (receipt, id') ∈ state.leases) : id = id' := by
  have heq := List.inj_on_of_nodup_map h.once hid hid' rfl
  exact (Prod.mk.inj heq).2

theorem publish (h : state.Sound) (now : Utc) (id : String) (body : List UInt8) (attributes : Dict String) :
    SourceState.Sound { state with
      table := state.table.publish now id body attributes, published := state.published ++ [id] } where
  kept := by
    unfold QueueTable.publish
    simp only [List.map_append, List.map_cons, List.map_nil, List.append_assoc]
    refine (List.Perm.append_left _ List.perm_append_comm).trans ?_
    rw [← List.append_assoc]
    exact h.kept.append_right _
  leased message hmsg receipt hrec := by
    rcases List.mem_append.mp hmsg with hold | hnew
    · exact h.leased message hold receipt hrec
    · obtain rfl := List.mem_singleton.mp hnew
      cases hrec
  once := h.once

theorem take (h : state.Sound) {visibilityTimeout : Duration} {maxMessages : Nat}
    {receipts : Nat → String} {batch : List QueueMessage}
    (hinjective : Function.Injective receipts) (hnew : ∀ n, receipts n ∉ state.leases.map Prod.fst)
    (htake : state.table.takeVisible now visibilityTimeout maxMessages receipts = (batch, table)) :
    SourceState.Sound { state with
      table, leases := batch.map (fun message => (message.receipt, message.id)) ++ state.leases } := by
  unfold QueueTable.takeVisible at htake
  obtain ⟨rfl, rfl⟩ := Prod.mk.inj htake
  have hperm := List.perm_insertionSort (fun a b : StoredMessage => a.seq ≤ b.seq) state.table.messages
  refine ⟨?_, fun message hmsg receipt hrec => ?_, ?_⟩
  · rw [takeFrom_ids]
    exact ((hperm.map _).append_right _).trans h.kept
  · rcases takeFrom_leased _ _ _ message hmsg with hold | ⟨delivery, hdelivery, hsame, hid⟩
    · exact List.mem_append_right _ (h.leased message (hperm.mem_iff.mp hold) receipt hrec)
    · rw [hsame] at hrec
      obtain rfl := Option.some.inj hrec
      rw [← hid]
      exact List.mem_append_left _ (List.mem_map_of_mem (f := fun message => (message.receipt, message.id)) hdelivery)
  · rw [List.map_append, List.map_map]
    have hfst : (Prod.fst ∘ fun message : QueueMessage => (message.receipt, message.id)) = (·.receipt) := by
      funext message
      rfl
    rw [hfst, takeFrom_receipts, List.nodup_append]
    refine ⟨List.Nodup.map hinjective List.nodup_range, h.once, ?_⟩
    rintro _ hrec other hoth rfl
    obtain ⟨n, -, rfl⟩ := List.mem_map.mp hrec
    exact hnew n hoth

theorem ack (h : state.Sound) {result : Except AdkError Unit} (hack : state.table.ack now receipt = (result, table)) :
    SourceState.Sound { state with table } ∧ (table.acked = state.table.acked ∨
      ∃ id, (receipt, id) ∈ state.leases ∧ table.acked = state.table.acked ++ [id]) := by
  unfold QueueTable.ack at hack
  cases hsp : QueueTable.splitLeased receipt now state.table.messages with
  | none =>
    rw [hsp] at hack
    obtain ⟨-, rfl⟩ := Prod.mk.inj hack
    exact ⟨h, .inl rfl⟩
  | some found =>
    obtain ⟨before, stored, after⟩ := found
    simp only [hsp] at hack
    obtain ⟨-, rfl⟩ := Prod.mk.inj hack
    obtain ⟨hmsgs, hrec⟩ := splitLeased_eq hsp
    have hstd : stored ∈ state.table.messages := by
      rw [hmsgs]
      exact List.mem_append_right _ List.mem_cons_self
    refine ⟨⟨?_, fun message hmsg => h.leased message ?_, h.once⟩, .inr ⟨stored.id, ?_, rfl⟩⟩
    · refine List.Perm.trans ?_ h.kept
      rw [hmsgs]
      simp only [List.map_append, List.map_cons, List.append_assoc, List.cons_append]
      refine List.Perm.append_left _ ?_
      rw [← List.append_assoc]
      refine List.perm_append_comm.trans ?_
      exact .refl _
    · rw [hmsgs]
      rcases List.mem_append.mp hmsg with hbef | haft
      · exact List.mem_append_left _ hbef
      · exact List.mem_append_right _ (List.mem_cons_of_mem _ haft)
    · exact h.leased stored hstd receipt hrec

theorem nack (h : state.Sound) {redeliverAfter : Duration} {result : Except AdkError Unit}
    (hnack : state.table.nack now receipt redeliverAfter = (result, table)) :
    SourceState.Sound { state with table } ∧ table.acked = state.table.acked := by
  unfold QueueTable.nack at hnack
  cases hsp : QueueTable.splitLeased receipt now state.table.messages with
  | none =>
    rw [hsp] at hnack
    obtain ⟨-, rfl⟩ := Prod.mk.inj hnack
    exact ⟨h, rfl⟩
  | some found =>
    obtain ⟨before, stored, after⟩ := found
    simp only [hsp] at hnack
    obtain ⟨-, rfl⟩ := Prod.mk.inj hnack
    obtain ⟨hmsgs, -⟩ := splitLeased_eq hsp
    refine ⟨⟨?_, fun message hmsg receipt' hrec' => ?_, h.once⟩, rfl⟩
    · refine List.Perm.trans ?_ h.kept
      rw [hmsgs]
      simp
    · rcases List.mem_append.mp hmsg with hbef | haft
      · exact h.leased message (by rw [hmsgs]; exact List.mem_append_left _ hbef) receipt' hrec'
      · rcases List.mem_cons.mp haft with rfl | haft
        · cases hrec'
        · refine h.leased message ?_ receipt' hrec'
          rw [hmsgs]
          exact List.mem_append_right _ (List.mem_cons_of_mem _ haft)

end SourceState.Sound

/-! ## What a poll does -/

variable {sources : QueueSources} {ingress : QueueIngress sources} {log : List QueueEntry}

def isEnqueue (entry : QueueEntry) : Bool :=
  match entry.op with
  | .enqueue .. => true
  | _ => false

/-- How often a poll has enqueued. -/
def enqueues (log : List QueueEntry) : Nat := log.countP isEnqueue

def counted (ingress : QueueIngress sources) (table : RunTable) : Nat :=
  ((table.list (unfinishedFilter none)).filter ingress.ownKey).length

/-- A bounded ingress has room for some more runs than it has enqueued. -/
def Room (ingress : QueueIngress sources) (more : Nat) (log : List QueueEntry) : Prop :=
  ∀ maxPending, ingress.maxPending = some maxPending → ∃ w, (⟨w, .list (unfinishedFilter none),
    .ok (w.runs.list (unfinishedFilter none))⟩ : QueueEntry) ∈ log ∧
      counted ingress w.runs + enqueues log + more ≤ maxPending

def Pulled (ingress : QueueIngress sources) (message : QueueMessage) (log : List QueueEntry) : Prop :=
  ∃ w maxMessages wait batch, (⟨w, .pull ingress.source maxMessages wait, .ok batch⟩ : QueueEntry) ∈ log ∧
    message ∈ batch

/-- The store answered a message with a run. -/
def Woken (ingress : QueueIngress sources) (message : QueueMessage) (log : List QueueEntry) : Prop :=
  ∃ w run enqueued, (⟨w, .enqueue ⟨ingress.source, message.id⟩ run, .ok enqueued⟩ : QueueEntry) ∈ log ∧
    ∀ id, enqueued ≠ .rejected id

/-- What a poll has done before a call. -/
def PreparedPoll (ingress : QueueIngress sources) : QueueOp → List QueueEntry → Prop
  | .enqueue ref run, log => ref.source = ingress.source ∧ run.idempotencyKey = some (sources.key ref) ∧
      run.queue = sources.queue ref.source ∧ Room ingress 1 log
  | .ack i receipt, log => i = ingress.source ∧
      ∃ message, Pulled ingress message log ∧ message.receipt = receipt ∧ Woken ingress message log
  | .list filter, _ => filter = unfinishedFilter none
  | _, _ => True

/-- A poll that is held has counted as many runs as it may have. -/
def HeldFull (ingress : QueueIngress sources) (result : Except AdkError IngressReport) (log : List QueueEntry) :
    Prop :=
  ∀ report, result = .ok report → report.held.isSome = true → ∀ w filter runs,
    (⟨w, .list filter, runs⟩ : QueueEntry) ∈ log →
      ∃ maxPending, ingress.maxPending = some maxPending ∧ maxPending ≤ counted ingress w.runs

theorem Room.mono {log' : List QueueEntry} {more more' : Nat} (h : Room ingress more log)
    (hlog : ∀ entry ∈ log, entry ∈ log') (hcnt : enqueues log' + more' ≤ enqueues log + more) :
    Room ingress more' log' := by
  intro maxPending hmax
  obtain ⟨w, hw, hroom⟩ := h maxPending hmax
  exact ⟨w, hlog _ hw, by omega⟩

theorem Pulled.mono {log' : List QueueEntry} (h : Pulled ingress message log)
    (hlog : ∀ entry ∈ log, entry ∈ log') : Pulled ingress message log' := by
  obtain ⟨w, maxMessages, wait, batch, hw, hmem⟩ := h
  exact ⟨w, maxMessages, wait, batch, hlog _ hw, hmem⟩

theorem enqueues_concat (log : List QueueEntry) (entry : QueueEntry) :
    enqueues (log ++ [entry]) = enqueues log + if isEnqueue entry then 1 else 0 := by
  unfold enqueues
  rw [List.countP_append, List.countP_singleton]

/-- A part of a poll prepares each of its calls, and returns with what `post` says. -/
abbrev PreparesPoll {α : Type} (ingress : QueueIngress sources) (p : PollProg α)
    (post : α → List QueueEntry → Prop) (log : List QueueEntry) : Prop :=
  p.Holds (recording (QueueWorld.laws sources)) (PreparedPoll ingress)
    (fun a log' => (∀ entry ∈ log, entry ∈ log') ∧ post a log') log

theorem mem_concat {log : List QueueEntry} {last : QueueEntry} : ∀ entry ∈ log, entry ∈ log ++ [last] :=
  fun _ h => List.mem_append_left _ h

/-- The rule for asking governance. -/
theorem pollCheck_local {α : Type} {post : α → List QueueEntry → Prop} {f : Except AdkError Unit → PollProg α}
    (h : ∀ r log', (∀ entry ∈ log, entry ∈ log') → enqueues log' = enqueues log →
      (∀ entry ∈ log', entry ∈ log ∨ entry.op = .check) → PreparesPoll ingress (f r) post log') :
    PreparesPoll ingress (ingress.check.bind f) post log := by
  unfold QueueIngress.check
  split
  · refine holds_ask.mpr ⟨trivial, fun w r w' _ => ?_⟩
    have hmore := h r (log ++ [(⟨w, .check, r⟩ : QueueEntry)]) mem_concat ?_ ?_
    · exact Prog.Holds.mono hmore fun a log' ⟨hlog, hpost⟩ => ⟨fun entry hent => hlog entry (mem_concat entry hent), hpost⟩
    · rw [enqueues_concat]
      rfl
    · intro entry hent
      rcases List.mem_append.mp hent with hent | hent
      · exact .inl hent
      · obtain rfl := List.mem_singleton.mp hent
        exact .inr rfl
  · exact h _ _ (fun _ h => h) rfl fun entry hent => .inl hent

/-- **A message is enqueued once**, under its own key. -/
theorem enqueue_local {more : Nat} (hroom : Room ingress (more + 1) log) :
    PreparesPoll ingress (ingress.enqueue message) (fun r log' => Room ingress more log' ∧
      ∀ enqueued, r = .ok enqueued → (∀ id, enqueued ≠ .rejected id) → Woken ingress message log') log := by
  unfold QueueIngress.enqueue
  cases hmap : ingress.mapper message with
  | error error =>
    refine holds_pure.mpr ⟨fun _ h => h, hroom.mono (fun _ h => h) (by omega), fun _ h => by cases h⟩
  | ok run =>
    dsimp only
    refine pollCheck_local fun r log' hlog hcnt _ => ?_
    cases r with
    | error error =>
      exact holds_pure.mpr ⟨fun _ h => h, hroom.mono hlog (by omega), fun _ h => by cases h⟩
    | ok u =>
      refine holds_ask.mpr ⟨⟨rfl, rfl, ?_, hroom.mono hlog (by omega)⟩, fun w r w' _ => ?_⟩
      · exact ingress.maps message run hmap
      · refine holds_pure.mpr ⟨mem_concat, hroom.mono (fun entry h => mem_concat _ (hlog _ h)) ?_, ?_⟩
        · rw [enqueues_concat]
          have : isEnqueue ⟨w, .enqueue ⟨ingress.source, message.id⟩ { run.withServiceSubject with
            idempotencyKey := some (sources.key ⟨ingress.source, message.id⟩) }, r⟩ = true := rfl
          rw [if_pos this]
          omega
        · rintro enqueued rfl hrej
          exact ⟨w, _, enqueued, List.mem_append_right _ (List.mem_singleton_self _), hrej⟩

theorem settle_local (batch : List QueueMessage) (report : IngressReport)
    (hpulled : ∀ message ∈ batch, Pulled ingress message log) (hroom : Room ingress batch.length log) :
    PreparesPoll ingress (ingress.settle batch report) (fun r _ => r.held = report.held) log := by
  induction batch generalizing report log with
  | nil => exact holds_pure.mpr ⟨fun _ h => h, rfl⟩
  | cons message batch ih =>
    refine Prog.holds_bind (Prog.Holds.mono (enqueue_local hroom) ?_)
    rintro result log' ⟨hlog, hroom, hwok⟩
    have hnext : ∀ (entry : QueueEntry) report', isEnqueue entry = false → report'.held = report.held →
        PreparesPoll ingress (ingress.settle batch report') (fun r _ => r.held = report.held) (log' ++ [entry]) := by
      intro entry report' hent hheld
      have hpulled' : ∀ m ∈ batch, Pulled ingress m (log' ++ [entry]) := fun m hm =>
        (hpulled m (List.mem_cons_of_mem _ hm)).mono fun e he => mem_concat e (hlog e he)
      have hroom' : Room ingress batch.length (log' ++ [entry]) := by
        apply hroom.mono mem_concat
        rw [enqueues_concat, hent]
        exact Nat.le_refl _
      have hmore := ih report' hpulled' hroom'
      exact Prog.Holds.mono hmore fun r log'' ⟨hlog'', hr⟩ => ⟨hlog'', hr.trans hheld⟩
    have haft : ∀ {entry : QueueEntry} {r : IngressReport} {log'' : List QueueEntry},
        (∀ e ∈ log' ++ [entry], e ∈ log'') ∧ r.held = report.held →
        (∀ e ∈ log, e ∈ log'') ∧ r.held = report.held :=
      fun ⟨hmore, hr⟩ => ⟨fun e he => hmore e (mem_concat e (hlog e he)), hr⟩
    have hack : Pulled ingress message log' := (hpulled message List.mem_cons_self).mono hlog
    rcases result with error | ⟨record⟩ | ⟨record⟩ | blockingRunId
    · refine holds_ask.mpr ⟨trivial, fun w r w' _ => ?_⟩
      exact Prog.Holds.mono (hnext ⟨w, _, r⟩ _ rfl rfl) fun _ _ => haft
    · refine holds_ask.mpr ⟨⟨rfl, message, hack, rfl, hwok _ rfl fun _ h => by cases h⟩, fun w r w' _ => ?_⟩
      exact Prog.Holds.mono (hnext ⟨w, _, r⟩ _ rfl rfl) fun _ _ => haft
    · refine holds_ask.mpr ⟨⟨rfl, message, hack, rfl, hwok _ rfl fun _ h => by cases h⟩, fun w r w' _ => ?_⟩
      exact Prog.Holds.mono (hnext ⟨w, _, r⟩ _ rfl rfl) fun _ _ => haft
    · refine holds_ask.mpr ⟨trivial, fun w r w' _ => ?_⟩
      exact Prog.Holds.mono (hnext ⟨w, _, r⟩ _ rfl rfl) fun _ _ => haft

theorem pull_length {w w' : QueueWorld} {i maxMessages : Nat} {wait : Duration} {batch : List QueueMessage}
    (h : (QueueWorld.laws sources).answers (.pull i maxMessages wait) w (.ok batch) w') :
    batch.length ≤ maxMessages := by
  rcases h with ⟨-, hbat, -⟩ | ⟨now, timeout, receipts, messages, table, -, -, htake, hbat, -⟩
  · obtain rfl := Except.ok.inj hbat
    exact Nat.zero_le _
  · obtain rfl := Except.ok.inj hbat
    unfold QueueTable.takeVisible at htake
    obtain ⟨rfl, -⟩ := Prod.mk.inj htake
    exact takeFrom_length _ _ _

theorem pullBatch_local {batchSize : Nat} (hroom : Room ingress batchSize log) :
    PreparesPoll ingress (ingress.pullBatch batchSize)
      (fun r _ => ∀ report, r = .ok report → report.held = none) log := by
  unfold QueueIngress.pullBatch
  refine holds_ask.mpr ⟨trivial, fun w r w' hr => ?_⟩
  cases r with
  | error error => exact holds_pure.mpr ⟨mem_concat, fun _ h => by cases h⟩
  | ok batch =>
    have hlen := pull_length hr
    refine Prog.holds_bind (Prog.Holds.mono (settle_local batch _ (fun message hmsg => ?_) ?_) ?_)
    · exact ⟨w, _, _, batch, List.mem_append_right _ (List.mem_singleton_self _), hmsg⟩
    · refine hroom.mono mem_concat ?_
      rw [enqueues_concat]
      have : isEnqueue ⟨w, .pull ingress.source batchSize ingress.wait, .ok batch⟩ = false := rfl
      rw [this]
      simp only [Bool.false_eq_true, if_false]
      omega
    · rintro report log' ⟨hlog, hheld⟩
      refine holds_pure.mpr ⟨fun e he => hlog e (mem_concat e he), fun report' h => ?_⟩
      obtain rfl := Except.ok.inj h
      exact hheld

/-- **A poll prepares each of its calls**, and is held by a full count only. -/
theorem poll_local (ingress : QueueIngress sources) : ingress.pollOnce.Holds (recording (QueueWorld.laws sources))
    (PreparedPoll ingress) (HeldFull ingress) [] := by
  have hpoll : PreparesPoll ingress ingress.pollOnce (HeldFull ingress) [] := by
    unfold QueueIngress.pollOnce
    refine pollCheck_local fun r log hlog hcnt hcheck => ?_
    have hunlisted : ∀ w filter runs, (⟨w, .list filter, runs⟩ : QueueEntry) ∉ log := by
      intro w filter runs hmem
      rcases hcheck _ hmem with h | h
      · cases h
      · cases h
    cases r with
    | error error =>
      refine holds_pure.mpr ⟨fun _ h => h, fun _ _ _ w filter runs hmem => ?_⟩
      exact absurd hmem (hunlisted w filter runs)
    | ok u =>
      cases hmax : ingress.maxPending with
      | none =>
        have hroom : Room ingress ingress.batchSize log := fun maxPending h => by
          rw [hmax] at h
          cases h
        refine Prog.Holds.mono (pullBatch_local hroom) ?_
        rintro r log' ⟨hmore, hheld⟩
        refine ⟨hmore, fun report hreport hsome => ?_⟩
        rw [hheld report hreport] at hsome
        cases hsome
      | some maxPending =>
        refine holds_ask.mpr ⟨rfl, fun w runs w' hr => ?_⟩
        obtain ⟨rfl, rfl⟩ := hr
        have hlst : (⟨w', .list (unfinishedFilter none), .ok (w'.runs.list (unfinishedFilter none))⟩ :
            QueueEntry) ∈ log ++ [⟨w', .list (unfinishedFilter none), .ok (w'.runs.list (unfinishedFilter none))⟩] :=
          List.mem_append_right _ (List.mem_singleton_self _)
        have hnone : enqueues log = 0 := hcnt
        have hrest : PreparesPoll ingress (if maxPending - counted ingress w'.runs = 0 then
              .pure (.ok { held := some "queue.max_pending" })
            else ingress.pullBatch (min ingress.batchSize (maxPending - counted ingress w'.runs))) (HeldFull ingress)
            (log ++ [⟨w', .list (unfinishedFilter none), .ok (w'.runs.list (unfinishedFilter none))⟩]) := by
          split
          next hfull =>
            refine holds_pure.mpr ⟨fun _ h => h, fun _ _ _ w filter runs hmem => ⟨maxPending, hmax, ?_⟩⟩
            rcases List.mem_append.mp hmem with hmem | hmem
            · exact absurd hmem (hunlisted w filter runs)
            · obtain ⟨rfl, -⟩ := Entry.mk.inj (List.mem_singleton.mp hmem)
              omega
          next hfree =>
            refine Prog.Holds.mono (pullBatch_local fun maxPending' h => ?_) ?_
            · rw [hmax] at h
              obtain rfl := Option.some.inj h
              refine ⟨w', hlst, ?_⟩
              rw [enqueues_concat]
              have : isEnqueue ⟨w', .list (unfinishedFilter none), .ok (w'.runs.list (unfinishedFilter none))⟩ =
                  false := rfl
              rw [this]
              simp only [Bool.false_eq_true, if_false]
              omega
            · rintro r log' ⟨hmore, hheld⟩
              refine ⟨hmore, fun report hreport hsome => ?_⟩
              rw [hheld report hreport] at hsome
              cases hsome
        exact Prog.Holds.mono hrest fun r log' ⟨hmore, hheld⟩ => ⟨fun e he => hmore e (mem_concat e he), hheld⟩
  refine Prog.Holds.mono hpoll ?_
  rintro r log' ⟨-, h⟩
  exact h

/-! ## The property -/

namespace QueueWorld

/-- The unfinished runs of a source. -/
def openRuns (w : QueueWorld) (i : Nat) : Nat := unfinished w.runs w.answered fun ref => decide (ref.source = i)

end QueueWorld

/-- **Every message becomes one run**, and is acked only then. -/
structure QueueExact (sole : Nat → Option Nat) (s : QueuePool sources) : Prop where
  /-- A message is acked only if a run was created for it. -/
  acked : ∀ i, ∀ id ∈ (s.world.source i).table.acked, ∃ a ∈ s.world.answered, a.created = true ∧ a.ref = ⟨i, id⟩ ∧
    (s.world.runs.runs[a.runId]?).isSome = true
  oneRef : ∀ a ∈ s.world.answered, ∀ b ∈ s.world.answered, a.runId = b.runId → a.ref = b.ref
  oneRun : ∀ a ∈ s.world.answered, ∀ b ∈ s.world.answered, a.ref = b.ref → a.runId = b.runId
  /-- What was published is in its source or was acked. -/
  kept : ∀ i, ((s.world.source i).table.messages.map (·.id) ++ (s.world.source i).table.acked).Perm
    (s.world.source i).published
  /-- An ingress that is its source's only one has no more unfinished runs than it may. -/
  bounded : ∀ i maxPending, sole i = some maxPending → s.world.openRuns i ≤ maxPending
  notHeld : ∀ (j : Nat) (proc : QueueProc sources), s.procs[j]? = some proc → ∀ report,
    proc.returned = some (.ok report) → report.held.isSome = true → ∀ w filter runs,
      (⟨w, .list filter, runs⟩ : QueueEntry) ∈ proc.log →
        ∃ maxPending, proc.call.maxPending = some maxPending ∧ maxPending ≤ w.openRuns proc.call.source

/-- No other message has a run under the key of a message that is enqueued, and no run of another source that has not
finished has a key like those of a source that is counted. -/
def Distinct (s : QueuePool sources) (i : Nat) : QueueOp → Prop
  | .enqueue ref run => Wakeups.Clear sources.key s.world.answered ref run.queue
  | .list filter => ∀ proc ∈ s.procs[i]?, ∀ record ∈ s.world.runs.list filter, proc.call.ownKey record = true →
      ∃ a ∈ s.world.answered, a.created = true ∧ a.runId = record.runId ∧ a.ref.source = proc.call.source
  | _ => True

/-! ## Over time -/

namespace QueueWorld

structure Later (w w' : QueueWorld) : Prop where
  answered : ∀ a ∈ w.answered, a ∈ w'.answered
  leases : ∀ i, ∀ lease ∈ (w.source i).leases, lease ∈ (w'.source i).leases

theorem Later.refl (w : QueueWorld) : w.Later w := ⟨fun _ h => h, fun _ _ h => h⟩

theorem Later.trans (w₁ w₂ w₃ : QueueWorld) (h : w₁.Later w₂) (h' : w₂.Later w₃) : w₁.Later w₃ :=
  ⟨fun a ha => h'.answered a (h.answered a ha), fun i lease hl => h'.leases i lease (h.leases i lease hl)⟩

theorem later_setSource {w : QueueWorld} {i : Nat} {state : SourceState}
    (h : ∀ lease ∈ (w.source i).leases, lease ∈ state.leases) : w.Later (w.setSource i state) := by
  refine ⟨fun a ha => ha, fun j lease hl => ?_⟩
  by_cases hj : j = i
  · subst hj
    rw [setSource_self]
    exact h lease hl
  · rw [setSource_other hj]
    exact hl

theorem answers_later {op : QueueOp} {w w' : QueueWorld} {r : op.Ret} (h : (laws sources).answers op w r w') :
    w.Later w' := by
  cases op with
  | check =>
    obtain rfl : w' = w := h
    exact .refl _
  | list filter =>
    obtain ⟨-, rfl⟩ := h
    exact .refl _
  | pull i maxMessages wait =>
    rcases h with ⟨-, -, rfl⟩ | ⟨now, timeout, receipts, messages, table, -, -, -, -, rfl⟩
    · exact .refl _
    · exact later_setSource fun lease hl => List.mem_append_right _ hl
  | enqueue ref run =>
    obtain ⟨now, runId, table, -, -, rfl⟩ := h
    exact ⟨fun a ha => List.mem_append_left _ ha, fun _ _ h => h⟩
  | ack i receipt =>
    rcases h with ⟨-, rfl⟩ | ⟨now, table, -, rfl⟩
    · exact .refl _
    · exact later_setSource fun _ hl => hl
  | nack i receipt redeliverAfter =>
    rcases h with ⟨-, rfl⟩ | ⟨now, table, -, rfl⟩
    · exact .refl _
    · exact later_setSource fun _ hl => hl

theorem moves_later {w w' : QueueWorld} (h : (laws sources).moves w w') : w.Later w' := by
  rcases h with ⟨now, call, answer, table, -, -, rfl⟩ | ⟨i, now, id, body, attributes, rfl⟩
  · exact ⟨fun _ h => h, fun _ _ h => h⟩
  · exact later_setSource fun _ hl => hl

end QueueWorld

theorem leased_of_pulled {now : QueueWorld}
    (hpast : Past (QueueWorld.laws sources) QueueWorld.Later log now) (h : Pulled ingress message log) :
    (message.receipt, message.id) ∈ (now.source ingress.source).leases := by
  obtain ⟨w, maxMessages, wait, batch, hw, hmem⟩ := h
  obtain ⟨w', hr, hlat⟩ := hpast.here _ hw
  apply hlat.leases
  rcases hr with ⟨-, hbat, -⟩ | ⟨now, timeout, receipts, messages, table, -, -, -, hbat, rfl⟩
  · obtain rfl := Except.ok.inj hbat
    cases hmem
  · obtain rfl := Except.ok.inj hbat
    rw [QueueWorld.setSource_self]
    exact List.mem_append_left _ (List.mem_map_of_mem (f := fun message : QueueMessage =>
      (message.receipt, message.id)) hmem)

theorem answered_of_woken {now : QueueWorld}
    (hpast : Past (QueueWorld.laws sources) QueueWorld.Later log now) (h : Woken ingress message log) :
    ∃ a ∈ now.answered, a.ref = ⟨ingress.source, message.id⟩ := by
  obtain ⟨w, run, enqueued, hw, hrej⟩ := h
  obtain ⟨w', ⟨now, runId, table, -, -, rfl⟩, hlat⟩ := hpast.here _ hw
  cases enqueued with
  | created record =>
    exact ⟨_, hlat.answered _ (List.mem_append_right _ (List.mem_singleton_self _)), rfl⟩
  | existing record =>
    exact ⟨_, hlat.answered _ (List.mem_append_right _ (List.mem_singleton_self _)), rfl⟩
  | rejected id => exact absurd rfl (hrej id)

/-! ## What every step keeps -/

/-- What holds of the sources and the runs. -/
structure QueueSound (sources : QueueSources) (w : QueueWorld) : Prop where
  account : Account sources.key w.runs w.answered
  source : ∀ i, (w.source i).Sound
  acked : ∀ i, ∀ id ∈ (w.source i).table.acked, ∃ a ∈ w.answered, a.ref = ⟨i, id⟩
  queue : ∀ a ∈ w.answered, a.queue = sources.queue a.ref.source

theorem queueSound_empty : QueueSound sources {} where
  account := .empty _
  source _ := .empty
  acked _ _ h := by cases h
  queue a h := by cases h

namespace QueueSound

variable {w : QueueWorld}

theorem setSource (h : QueueSound sources w) {i : Nat} {state : SourceState} (hst : state.Sound)
    (hacked : ∀ id ∈ state.table.acked, id ∈ (w.source i).table.acked ∨ ∃ a ∈ w.answered, a.ref = ⟨i, id⟩) :
    QueueSound sources (w.setSource i state) := by
  refine ⟨h.account, fun j => ?_, fun j id hid => ?_, h.queue⟩
  · by_cases hj : j = i
    · subst hj
      rw [QueueWorld.setSource_self]
      exact hst
    · rw [QueueWorld.setSource_other hj]
      exact h.source j
  · by_cases hj : j = i
    · subst hj
      rw [QueueWorld.setSource_self] at hid
      rcases hacked id hid with hold | hnew
      · exact h.acked j id hold
      · exact hnew
    · rw [QueueWorld.setSource_other hj] at hid
      exact h.acked j id hid

theorem move {w' : QueueWorld} (h : QueueSound sources w) (hmove : (QueueWorld.laws sources).moves w w') :
    QueueSound sources w' := by
  rcases hmove with ⟨now, call, answer, table, hfor, hcall, rfl⟩ | ⟨i, now, id, body, attributes, rfl⟩
  · exact ⟨h.account.foreign hfor hcall, h.source, h.acked, h.queue⟩
  · exact h.setSource ((h.source i).publish now id body attributes) fun id hid => .inl hid

/-- **What a call of a poll keeps**, when it was prepared. -/
theorem answer {w' : QueueWorld} {op : QueueOp} {r : op.Ret} (h : QueueSound sources w)
    (hr : (QueueWorld.laws sources).answers op w r w') (hprep : PreparedPoll ingress op log)
    (hpast : Past (QueueWorld.laws sources) QueueWorld.Later log w)
    (hclr : ∀ ref run, op = .enqueue ref run → Wakeups.Clear sources.key w.answered ref run.queue) :
    QueueSound sources w' := by
  cases op with
  | check =>
    obtain rfl : w' = w := hr
    exact h
  | list filter =>
    obtain ⟨-, rfl⟩ := hr
    exact h
  | pull i maxMessages wait =>
    rcases hr with ⟨-, -, rfl⟩ | ⟨now, timeout, receipts, messages, table, hinjective, hnew, htake, -, rfl⟩
    · exact h
    · refine h.setSource ((h.source i).take hinjective hnew htake) fun id hid => .inl ?_
      unfold QueueTable.takeVisible at htake
      obtain ⟨-, rfl⟩ := Prod.mk.inj htake
      exact hid
  | enqueue ref run =>
    obtain ⟨now, runId, table, hfr, hcall, rfl⟩ := hr
    obtain ⟨-, hkey, hque, -⟩ := hprep
    refine ⟨h.account.enqueue hkey hfr (hclr ref run rfl) hcall, h.source, fun i id hid => ?_, fun a ha => ?_⟩
    · obtain ⟨a, ha, href⟩ := h.acked i id hid
      exact ⟨a, List.mem_append_left _ ha, href⟩
    · rcases List.mem_append.mp ha with hold | hnew
      · exact h.queue a hold
      · rcases r with error | ⟨record⟩ | ⟨record⟩ | blockingRunId
        · cases hnew
        · obtain rfl := List.mem_singleton.mp hnew
          exact hque
        · obtain rfl := List.mem_singleton.mp hnew
          exact hque
        · cases hnew
  | ack i receipt =>
    rcases hr with ⟨-, rfl⟩ | ⟨now, table, hack, rfl⟩
    · exact h
    · obtain ⟨rfl, message, hpulled, rfl, hwok⟩ := hprep
      obtain ⟨hsnd, hacked⟩ := (h.source ingress.source).ack hack
      refine h.setSource hsnd fun id hid => ?_
      rcases hacked with hsame | ⟨id', hlease, hmore⟩
      · rw [hsame] at hid
        exact .inl hid
      · rw [hmore] at hid
        rcases List.mem_append.mp hid with hold | hnew
        · exact .inl hold
        · -- the message that is removed is the one that was pulled
          obtain rfl := List.mem_singleton.mp hnew
          have hsame := (h.source ingress.source).message_eq hlease (leased_of_pulled hpast hpulled)
          rw [hsame]
          exact .inr (answered_of_woken hpast hwok)
  | nack i receipt redeliverAfter =>
    rcases hr with ⟨-, rfl⟩ | ⟨now, table, hnack, rfl⟩
    · exact h
    · obtain ⟨hsnd, hacked⟩ := (h.source i).nack hnack
      refine h.setSource hsnd fun id hid => ?_
      rw [hacked] at hid
      exact .inl hid

end QueueSound

/-- Sources without messages and a store without runs. -/
def noMessages : QueuePool sources := { world := {} }

section Runs

variable {sole : Nat → Option Nat} {s s' : QueuePool sources}

theorem poll_keeps (hrea : Reaches (queueSystem sources sole Distinct) noMessages s) {i : Nat}
    {proc : QueueProc sources} (hproc : s.procs[i]? = some proc) :
    Keeps (QueueWorld.laws sources) PreparedPoll HeldFull proc :=
  hrea.local rfl poll_local i proc hproc

theorem queueSound_reaches (hrea : Reaches (queueSystem sources sole Distinct) noMessages s) :
    QueueSound sources s.world := by
  induction hrea with
  | refl => exact queueSound_empty
  | @tail s s' hrea hstep ih =>
    cases hstep with
    | start _ => exact ih
    | stop _ => exact ih
    | move hmove => exact ih.move hmove
    | @act i proc op rest r w hproc hlive hrest hacts hr =>
      have hpast := Reaches.past hrea rfl QueueWorld.Later.refl QueueWorld.Later.trans
        (fun _ _ _ _ => QueueWorld.answers_later) (fun _ _ => QueueWorld.moves_later) i proc hproc
      refine ih.answer hr ((poll_keeps hrea hproc).performs hrest) hpast fun ref run heq => ?_
      subst heq
      exact hacts

/-! ### Bounds -/

def IsPolling (proc : QueueProc sources) : Prop := proc.live = true ∧ proc.returned = none

/-- How many runs of a source a call may open. -/
def opens (i : Nat) : QueueOp → Nat
  | .enqueue ref _ => if ref.source = i then 1 else 0
  | _ => 0

/-- A call of a poll opens at most the run of its message. -/
theorem openRuns_answer {w w' : QueueWorld} {op : QueueOp} {r : op.Ret} (h : QueueSound sources w)
    (hr : (QueueWorld.laws sources).answers op w r w') (i : Nat) : w'.openRuns i ≤ w.openRuns i + opens i op := by
  cases op with
  | check =>
    obtain rfl : w' = w := hr
    exact Nat.le_refl _
  | list filter =>
    obtain ⟨-, rfl⟩ := hr
    exact Nat.le_refl _
  | pull j maxMessages wait =>
    rcases hr with ⟨-, -, rfl⟩ | ⟨now, timeout, receipts, messages, table, -, -, -, -, rfl⟩ <;> exact Nat.le_refl _
  | enqueue ref run =>
    obtain ⟨now, runId, table, hfr, hcall, rfl⟩ := hr
    have hmore := h.account.unfinished_enqueue ref (p := fun ref => decide (ref.source = i)) hfr hcall
    simp only [decide_eq_true_eq] at hmore
    exact hmore
  | ack j receipt =>
    rcases hr with ⟨-, rfl⟩ | ⟨now, table, -, rfl⟩ <;> exact Nat.le_refl _
  | nack j receipt redeliverAfter =>
    rcases hr with ⟨-, rfl⟩ | ⟨now, table, -, rfl⟩ <;> exact Nat.le_refl _

theorem openRuns_move {w w' : QueueWorld} (h : QueueSound sources w) (hmove : (QueueWorld.laws sources).moves w w')
    (i : Nat) : w'.openRuns i ≤ w.openRuns i := by
  rcases hmove with ⟨now, call, answer, table, hfor, hcall, rfl⟩ | ⟨j, now, id, body, attributes, rfl⟩
  · exact h.account.unfinished_foreign hfor hcall
  · exact Nat.le_refl _

theorem openRuns_le_counted {w : QueueWorld} (h : QueueSound sources w) (ingress : QueueIngress sources) :
    w.openRuns ingress.source ≤ counted ingress w.runs := by
  refine h.account.unfinished_le fun a ha hcr hsrc entry hget => ⟨fun q hq => (by cases hq), ?_⟩
  obtain ⟨entry', hget', -, hkey⟩ := h.account.hasRun a ha
  rw [hget] at hget'
  obtain rfl := Option.some.inj hget'
  unfold QueueIngress.ownKey
  rw [hkey, Option.any_some, startsWith_iff]
  refine ⟨a.ref.id, ?_⟩
  unfold QueueSources.key queueIdempotencyKey
  rw [of_decide_eq_true hsrc]
  rfl

/-- What holds of the polls of sources whose ingress is the only one. -/
structure SolePolls (sole : Nat → Option Nat) (s : QueuePool sources) : Prop where
  bounded : ∀ i maxPending, sole i = some maxPending → s.world.openRuns i ≤ maxPending
  /-- Since a poll has counted, the runs of its source are those it counted and those it has enqueued. -/
  counted : ∀ (j : Nat) (proc : QueueProc sources), s.procs[j]? = some proc → IsPolling proc →
    ∀ maxPending, sole proc.call.source = some maxPending → proc.call.maxPending = some maxPending ∧
      ∀ w runs, (⟨w, .list (unfinishedFilter none), runs⟩ : QueueEntry) ∈ proc.log →
        s.world.openRuns proc.call.source ≤ counted proc.call w.runs + enqueues proc.log
  single : ∀ (j k : Nat) (proc proc' : QueueProc sources), s.procs[j]? = some proc → s.procs[k]? = some proc' →
    IsPolling proc → IsPolling proc' → proc.call.source = proc'.call.source →
      (sole proc.call.source).isSome = true → j = k

theorem isPolling_ask {proc : QueueProc sources} {op : QueueOp}
    {rest : op.Ret → Prog QueueOp QueueOp.Ret (Except AdkError IngressReport)} (hlive : proc.live = true)
    (hrest : proc.rest = .ask op rest) : IsPolling proc := by
  refine ⟨hlive, ?_⟩
  unfold Proc.returned
  rw [hrest]

/-- **The bound of a sole ingress holds in every run.** -/
theorem solePolls_reaches (hrea : Reaches (queueSystem sources sole Distinct) noMessages s) : SolePolls sole s := by
  induction hrea with
  | refl =>
    refine ⟨fun i maxPending _ => Nat.zero_le _, fun j proc hproc => ?_, fun j k proc proc' hproc => ?_⟩
    · cases hproc
    · cases hproc
  | @tail s s' hrea hstep ih =>
    have hsnd := queueSound_reaches hrea
    cases hstep with
    | @start ingress hstarts =>
      refine ⟨ih.bounded, fun j proc hproc hpolling maxPending hsole => ?_,
        fun j k proc proc' hproc hproc' hpolling hpolling' hsame hsole => ?_⟩
      · rcases getElem?_start hproc with hold | ⟨-, rfl⟩
        · exact ih.counted j proc hold hpolling maxPending hsole
        · exact ⟨(hstarts maxPending hsole).1, fun w runs h => (by cases h)⟩
      · have hidle : ∀ {j : Nat} {proc : QueueProc sources}, s.procs[j]? = some proc → IsPolling proc →
            proc.call.source = ingress.source → (sole ingress.source).isSome = true → False := by
          intro j proc hold hpolling hsrc hsome
          obtain ⟨maxPending, hsome⟩ := Option.isSome_iff_exists.mp hsome
          rcases (hstarts maxPending hsome).2 proc (List.mem_of_getElem? hold) hsrc with hdead | hret
          · rw [hpolling.1] at hdead
            cases hdead
          · rw [hpolling.2] at hret
            cases hret
        rcases getElem?_start hproc with hold | ⟨hj, rfl⟩
        · rcases getElem?_start hproc' with hold' | ⟨-, rfl⟩
          · exact ih.single j k proc proc' hold hold' hpolling hpolling' hsame hsole
          · rw [hsame] at hsole
            exact (hidle hold hpolling hsame hsole).elim
        · rcases getElem?_start hproc' with hold' | ⟨hk, -⟩
          · exact (hidle hold' hpolling' hsame.symm hsole).elim
          · rw [hj, hk]
    | @stop i proc hproc =>
      have hback : ∀ {j : Nat} {q : QueueProc sources},
          (s.procs.set i { proc with live := false })[j]? = some q → IsPolling q → s.procs[j]? = some q := by
        intro j q hq hpolling
        rcases getElem?_put hproc hq with ⟨-, rfl⟩ | ⟨-, hold⟩
        · cases hpolling.1
        · exact hold
      refine ⟨ih.bounded, fun j q hq hpolling => ih.counted j q (hback hq hpolling) hpolling,
        fun j k q q' hq hq' hpolling hpolling' => ?_⟩
      exact ih.single j k q q' (hback hq hpolling) (hback hq' hpolling') hpolling hpolling'
    | @move w hmove =>
      refine ⟨fun i maxPending hsole => ?_, fun j proc hproc hpolling maxPending hsole => ?_, ih.single⟩
      · exact Nat.le_trans (openRuns_move hsnd hmove i) (ih.bounded i maxPending hsole)
      · obtain ⟨hmax, hcntd⟩ := ih.counted j proc hproc hpolling maxPending hsole
        refine ⟨hmax, fun w' runs hlst => ?_⟩
        exact Nat.le_trans (openRuns_move hsnd hmove _) (hcntd w' runs hlst)
    | @act i proc op rest r w hproc hlive hrest hacts hr =>
      have hpolling := isPolling_ask hlive hrest
      have hprep := (poll_keeps hrea hproc).performs hrest
      have hmore := openRuns_answer hsnd hr
      -- only the poll that acts adds a run of its source
      have hoth : ∀ j, j ≠ proc.call.source → w.openRuns j ≤ s.world.openRuns j := by
        intro j hj
        have hle := hmore j
        cases op with
        | enqueue ref run =>
          obtain ⟨hsrc, -⟩ := hprep
          simp only [opens, hsrc, if_neg (Ne.symm hj)] at hle
          exact hle
        | _ => exact hle
      have hback : ∀ {j : Nat} {q : QueueProc sources},
          (s.procs.set i (proc.after s.world op r (rest r)))[j]? = some q → IsPolling q →
          ∃ q₀ : QueueProc sources, s.procs[j]? = some q₀ ∧ IsPolling q₀ ∧ q.call = q₀.call := by
        intro j q hq hpolling'
        rcases getElem?_put hproc hq with ⟨rfl, rfl⟩ | ⟨-, hold⟩
        · exact ⟨proc, hproc, hpolling, rfl⟩
        · exact ⟨q, hold, hpolling', rfl⟩
      refine ⟨fun j maxPending hsole => ?_, fun j q hq hpolling' maxPending hsole => ?_,
        fun j k q q' hq hq' hp hp' hsame hsome => ?_⟩
      · by_cases hj : j = proc.call.source
        · subst hj
          obtain ⟨hmax, hcntd⟩ := ih.counted i proc hproc hpolling maxPending hsole
          have hbounded := ih.bounded _ maxPending hsole
          have hle := hmore proc.call.source
          show w.openRuns proc.call.source ≤ maxPending
          cases op with
          | enqueue ref run =>
            obtain ⟨hsrc, -, -, hroom⟩ := hprep
            obtain ⟨w₀, hlst, hroom⟩ := hroom maxPending hmax
            have hsofar := hcntd w₀ _ hlst
            simp only [opens, hsrc, if_pos] at hle
            omega
          | _ => exact Nat.le_trans hle hbounded
        · exact Nat.le_trans (hoth j hj) (ih.bounded j maxPending hsole)
      · rcases getElem?_put hproc hq with ⟨rfl, rfl⟩ | ⟨hj, hold⟩
        · rw [Proc.after_call] at hsole ⊢
          obtain ⟨hmax, hcntd⟩ := ih.counted j proc hproc hpolling maxPending hsole
          refine ⟨hmax, fun w₀ runs hlst => ?_⟩
          rw [Proc.after_log] at hlst ⊢
          rw [enqueues_concat]
          have hle := hmore proc.call.source
          show w.openRuns proc.call.source ≤ _
          rcases List.mem_append.mp hlst with hearl | hnow
          · have hsofar := hcntd w₀ runs hearl
            cases op with
            | enqueue ref run =>
              obtain ⟨hsrc, -⟩ := hprep
              simp only [opens, hsrc, if_pos] at hle
              have hone : isEnqueue ⟨s.world, .enqueue ref run, r⟩ = true := rfl
              rw [if_pos hone]
              omega
            | _ => exact Nat.le_trans (Nat.le_trans hle hsofar) (by omega)
          · -- the poll counts now
            obtain ⟨rfl, hop⟩ := Entry.mk.inj (List.mem_singleton.mp hnow)
            obtain ⟨rfl, -⟩ := hop
            have hcnt := openRuns_le_counted hsnd proc.call
            have hsame : w.openRuns proc.call.source ≤ s.world.openRuns proc.call.source := hle
            omega
        · obtain ⟨hmax, hcntd⟩ := ih.counted j q hold hpolling' maxPending hsole
          refine ⟨hmax, fun w₀ runs hlst => ?_⟩
          have hne : q.call.source ≠ proc.call.source := by
            intro heq
            refine hj (ih.single j i q proc hold hproc hpolling' hpolling heq ?_)
            rw [hsole]
            rfl
          exact Nat.le_trans (hoth _ hne) (hcntd w₀ runs hlst)
      · obtain ⟨q₀, hq₀, hp₀, hcall⟩ := hback hq hp
        obtain ⟨q₁, hq₁, hp₁, hcall'⟩ := hback hq' hp'
        rw [hcall] at hsame hsome
        rw [hcall'] at hsame
        exact ih.single j k q₀ q₁ hq₀ hq₁ hp₀ hp₁ hsame hsome

/-- **In every run** in which no two messages of a queue share a key, and no run of another source is counted, every
message becomes one run. -/
theorem queueExact_distinct (hreach : Reaches (queueSystem sources sole Distinct) noMessages s) :
    QueueExact sole s := by
  have hsound := queueSound_reaches hreach
  constructor
  case acked =>
    intro i id hid
    obtain ⟨a, ha, href⟩ := hsound.acked i id hid
    obtain ⟨b, hb, hcreated, hrefb, -, -⟩ := hsound.account.created a ha
    exact ⟨b, hb, hcreated, hrefb.trans href, hsound.account.there hb⟩
  case oneRef => exact fun a ha b hb hrun => hsound.account.oneRef ha hb hrun
  case oneRun =>
    intro a ha b hb href
    refine hsound.account.oneRun ha hb href ?_
    rw [hsound.queue a ha, hsound.queue b hb, href]
  case kept => exact fun i => (hsound.source i).kept
  case bounded => exact (solePolls_reaches hreach).bounded
  case notHeld =>
    intro j proc hproc report hreturned hheld w filter runs hlisted
    have hrest := Proc.returned_eq hreturned
    obtain ⟨maxPending, hmax, hfull⟩ := (poll_keeps hreach hproc).returned hrest report rfl hheld w filter runs hlisted
    refine ⟨maxPending, hmax, Nat.le_trans hfull ?_⟩
    have hentries := hreach.entries (P := fun ingress _ entry => ∀ filter, entry.op = .list filter →
      counted ingress entry.world.runs ≤ entry.world.openRuns ingress.source) rfl ?_ j proc hproc
    · obtain ⟨before, later, hlog⟩ := List.append_of_mem hlisted
      exact hentries before _ later hlog filter rfl
    intro s' i proc op next r w hreach' hproc hrest hacts hr filter hop
    obtain rfl : op = .list filter := hop
    have hfilter : filter = unfinishedFilter none := (poll_keeps hreach' hproc).performs hrest
    subst hfilter
    refine (queueSound_reaches hreach').account.le_unfinished fun record hrecord hown => ?_
    obtain ⟨a, ha, hcreated, hrun, hsource⟩ := hacts proc (Option.mem_def.mpr hproc) record hrecord hown
    exact ⟨a, ha, hcreated, hrun, decide_eq_true hsource⟩

end Runs

/-! ## Runs that are computed -/

section Computed

variable {sole : Nat → Option Nat}

def receiptsAfter (leases : List (String × String)) (n : Nat) : String :=
  String.ofList (List.replicate (((leases.map Prod.fst).map String.length).sum + 1 + n) 'r')

theorem receiptsAfter_injective (leases : List (String × String)) : Function.Injective (receiptsAfter leases) := by
  intro m n h
  have hlen := congrArg String.length h
  unfold receiptsAfter at hlen
  rw [String.length_ofList, String.length_ofList, List.length_replicate, List.length_replicate] at hlen
  omega

theorem receiptsAfter_notMem (leases : List (String × String)) (n : Nat) :
    receiptsAfter leases n ∉ leases.map Prod.fst := by
  intro hmem
  have hle := List.single_le_sum (fun _ _ => Nat.zero_le _) _ (List.mem_map_of_mem (f := String.length) hmem)
  unfold receiptsAfter at hle
  rw [String.length_ofList, List.length_replicate] at hle
  omega

/-- Sources and a store that answer at time 0 and never fail. -/
def queueRun : (op : QueueOp) → QueueWorld → op.Ret × QueueWorld
  | .check, w => (.ok (), w)
  | .list filter, w => (.ok (w.runs.list filter), w)
  | .pull i maxMessages _, w =>
    let leases := (w.source i).leases
    let (messages, table) := (w.source i).table.takeVisible 0 30000000000 maxMessages (receiptsAfter leases)
    (.ok messages, w.setSource i { w.source i with
      table, leases := messages.map (fun message => (message.receipt, message.id)) ++ leases })
  | .enqueue ref run, w =>
    let (result, table) := w.runs.enqueue 0 w.runs.freshId run
    (result, { w with runs := table, answered := w.answered ++ answersOf ref run.queue result })
  | .ack i receipt, w =>
    let (result, table) := (w.source i).table.ack 0 receipt
    (result, w.setSource i { w.source i with table })
  | .nack i receipt redeliverAfter, w =>
    let (result, table) := (w.source i).table.nack 0 receipt redeliverAfter
    (result, w.setSource i { w.source i with table })

theorem answers_queueRun (op : QueueOp) (w : QueueWorld) :
    (QueueWorld.laws sources).answers op w (queueRun op w).1 (queueRun op w).2 := by
  cases op with
  | check => rfl
  | list filter => exact ⟨rfl, rfl⟩
  | pull i maxMessages wait =>
    exact .inr ⟨0, 30000000000, receiptsAfter _, _, _, receiptsAfter_injective _, receiptsAfter_notMem _, rfl, rfl, rfl⟩
  | enqueue ref run => exact ⟨0, _, _, RunTable.runs_freshId _, rfl, rfl⟩
  | ack i receipt => exact .inr ⟨0, _, rfl, rfl⟩
  | nack i receipt redeliverAfter => exact .inr ⟨0, _, rfl, rfl⟩

def published (s : QueuePool sources) (i : Nat) (id : String) : QueuePool sources :=
  { s with world := s.world.setSource i { s.world.source i with
      table := (s.world.source i).table.publish 0 id [] ∅, published := (s.world.source i).published ++ [id] } }

theorem step_published {acts : QueuePool sources → Nat → QueueOp → Prop} (s : QueuePool sources) (i : Nat)
    (id : String) : Step (queueSystem sources sole acts) s (published s i id) :=
  .move (.inr ⟨i, 0, id, [], ∅, rfl⟩)

instance : ∀ s ingress, Decidable ((queueSystem sources sole Distinct).starts s ingress) := fun s ingress =>
  decidable_of_iff (∀ maxPending ∈ sole ingress.source, ingress.maxPending = some maxPending ∧
    ∀ proc ∈ s.procs, proc.call.source = ingress.source → proc.live = false ∨ proc.returned.isSome = true) Iff.rfl

instance : ∀ s ingress, Decidable ((queueSystem sources sole fun _ _ _ => True).starts s ingress) := fun s ingress =>
  decidable_of_iff (∀ maxPending ∈ sole ingress.source, ingress.maxPending = some maxPending ∧
    ∀ proc ∈ s.procs, proc.call.source = ingress.source → proc.live = false ∨ proc.returned.isSome = true) Iff.rfl

instance : ∀ s i op, Decidable ((queueSystem sources sole Distinct).acts s i op) := fun s i op =>
  match op with
  | .enqueue ref run => decidable_of_iff (∀ a ∈ s.world.answered, a.created = true → a.queue = run.queue →
      sources.key a.ref = sources.key ref → a.ref = ref) Iff.rfl
  | .list filter => decidable_of_iff (∀ proc ∈ s.procs[i]?, ∀ record ∈ s.world.runs.list filter,
      proc.call.ownKey record = true → ∃ a ∈ s.world.answered, a.created = true ∧ a.runId = record.runId ∧
        a.ref.source = proc.call.source) Iff.rfl
  | .check | .pull .. | .ack .. | .nack .. => .isTrue trivial

instance : ∀ s i op, Decidable ((queueSystem sources sole fun _ _ _ => True).acts s i op) := fun _ _ _ => .isTrue trivial

/-- Two sources, of which the name of the second begins like a key of the first. -/
def joinedSources : QueueSources where
  name i := if i = 0 then "a" else "a:b"
  queue _ := "default"

/-- An ingress that maps every message to the same run. -/
def ingressOf (source : Nat) (maxPending : Option Nat) : QueueIngress joinedSources where
  source
  mapper _ := .ok { queue := "default", appName := "app", userId := "user", target := "agent", input := .null }
  maps message run h := by
    obtain rfl := Except.ok.inj h
    rfl
  maxPending

/-- So many calls of a poll. -/
def pollAll (i : Nat) (ingress : QueueIngress joinedSources) (n : Nat) : List (ProcPool.Event (QueueIngress joinedSources)) :=
  .start ingress :: List.replicate n (.act i)

/-- The first source has one bounded ingress, and a message is published twice. -/
def boundedPolls : QueuePool joinedSources :=
  (pollAll 0 (ingressOf 0 (some 1)) 4 ++ pollAll 1 (ingressOf 0 (some 1)) 1).foldl
    (ProcPool.next (queueSystem joinedSources (fun i => if i = 0 then some 1 else none) Distinct) queueRun)
    (published (published noMessages 0 "m-1") 0 "m-1")

/-- One message is acked, its run is open, and the next poll is held. -/
theorem queueExact_distinct_bounded : QueueExact (fun i => if i = 0 then some 1 else none) boundedPolls ∧
    (boundedPolls.world.source 0).table.acked = ["m-1"] ∧ boundedPolls.world.openRuns 0 = 1 ∧
    (boundedPolls.procs[1]?.any fun proc => proc.returned.any fun result =>
      result.toOption.any fun report => decide (report.held = some "queue.max_pending")) = true := by
  refine ⟨queueExact_distinct ?_, by decide +kernel, by decide +kernel, by decide +kernel⟩
  exact .head (step_published _ _ _) (.head (step_published _ _ _) (reaches_foldl answers_queueRun _ _))

/-- A message of each source, under one key. -/
def joinedPolls : QueuePool joinedSources :=
  (pollAll 0 (ingressOf 0 none) 3 ++ pollAll 1 (ingressOf 1 none) 3).foldl
    (ProcPool.next (queueSystem joinedSources (fun _ => none) fun _ _ _ => True) queueRun)
    (published (published noMessages 0 "b:c") 1 "c")

/-- **Not in every run**: a message whose key is that of a message of another source is acked without a run. -/
theorem not_queueExact : ¬ ∀ (sources : QueueSources) (sole : Nat → Option Nat) (s : QueuePool sources),
    Reaches (queueSystem sources sole fun _ _ _ => True) noMessages s → QueueExact sole s := by
  intro h
  have hexact := h joinedSources (fun _ => none) joinedPolls
    (.head (step_published _ _ _) (.head (step_published _ _ _) (reaches_foldl answers_queueRun _ _)))
  have hacked : "c" ∈ (joinedPolls.world.source 1).table.acked := by decide +kernel
  obtain ⟨a, ha, hcreated, href, -⟩ := hexact.acked 1 "c" hacked
  have hnone : ∀ a ∈ joinedPolls.world.answered, a.created = true → a.ref ≠ ⟨1, "c"⟩ := by decide +kernel
  exact hnone a ha hcreated href

end Computed

end Adk
