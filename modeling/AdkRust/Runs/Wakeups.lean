import AdkRust.Runs.Index

/-!
# Runs that messages wake

A message wakes a run under an idempotency key that is made from the message. An account of what the store answered
says which message each run was created for. Where a message is only enqueued while no other message has a run under
its key, the account is exact (`Account`): each message has one run, and no run answers two messages.

* `Answered`, `answersOf`: what the store answered to a message.
* `Account`: the account is exact; `Account.enqueue`, `Account.foreign` keep it.
* `unfinished`: the runs that some messages woke and that have not finished.
-/

namespace Adk

namespace Wakeups

open RunTable

/-- What the store answered to a message. -/
structure Answered (Ref : Type) where
  ref : Ref
  queue : String
  runId : String
  /-- Whether the run was created for the message. -/
  created : Bool
deriving DecidableEq

variable {Ref : Type} {key : Ref → String} {table table' : RunTable} {answered : List (Answered Ref)}

/-- What an answer says of a message. -/
def answersOf (ref : Ref) (queue : String) : Except AdkError Enqueued → List (Answered Ref)
  | .ok (.created record) => [⟨ref, queue, record.runId, true⟩]
  | .ok (.existing record) => [⟨ref, queue, record.runId, false⟩]
  | .ok (.rejected _) | .error _ => []

/-- A call that wakes no run for a message, and prunes nothing. -/
def Foreign (key : Ref → String) (table : RunTable) : RunCall → Prop
  | .enqueue runId run => table.runs[runId]? = none ∧ ∀ ref, run.idempotencyKey ≠ some (key ref)
  | .prune _ => False
  | _ => True

/-- No other message has a run under the key of a message. -/
def Clear (key : Ref → String) (answered : List (Answered Ref)) (ref : Ref) (queue : String) : Prop :=
  ∀ a ∈ answered, a.created = true → a.queue = queue → key a.ref = key ref → a.ref = ref

/-- **The account is exact**: every answer is of a run that was created for the message, and every run under the key of
a message is accounted for. -/
structure Account (key : Ref → String) (table : RunTable) (answered : List (Answered Ref)) : Prop where
  indexed : table.Indexed
  hasRun : ∀ a ∈ answered, table.HasRun a.queue (key a.ref) a.runId
  created : ∀ a ∈ answered, ∃ b ∈ answered, b.created = true ∧ b.ref = a.ref ∧ b.queue = a.queue ∧ b.runId = a.runId
  fresh : ((answered.filter (·.created)).map (·.runId)).Nodup
  runs : ∀ (id : String) (entry : RunEntry) (ref : Ref), table.runs[id]? = some entry →
    entry.record.idempotencyKey = some (key ref) → ∃ a ∈ answered, a.created = true ∧ a.runId = id

namespace Account

theorem empty (key : Ref → String) : Account key {} ([] : List (Answered Ref)) where
  indexed := indexed_empty
  hasRun a ha := by cases ha
  created a ha := by cases ha
  fresh := List.nodup_nil
  runs id entry ref hget := by simp at hget

theorem created_eq (h : Account key table answered) {a b : Answered Ref} (ha : a ∈ answered) (hb : b ∈ answered)
    (hca : a.created = true) (hcb : b.created = true) (hrun : a.runId = b.runId) : a = b := by
  have hma : a ∈ answered.filter (·.created) := List.mem_filter.mpr ⟨ha, hca⟩
  have hmb : b ∈ answered.filter (·.created) := List.mem_filter.mpr ⟨hb, hcb⟩
  exact List.inj_on_of_nodup_map h.fresh hma hmb hrun

/-- **No run answers two messages.** -/
theorem oneRef (h : Account key table answered) {a b : Answered Ref} (ha : a ∈ answered) (hb : b ∈ answered)
    (hrun : a.runId = b.runId) : a.ref = b.ref := by
  obtain ⟨a', ha', hca, hrefa, -, hruna⟩ := h.created a ha
  obtain ⟨b', hb', hcb, hrefb, -, hrunb⟩ := h.created b hb
  have heq := h.created_eq ha' hb' hca hcb (hruna.trans (hrun.trans hrunb.symm))
  rw [← hrefa, ← hrefb, heq]

/-- **No message has two runs** in a queue. -/
theorem oneRun (h : Account key table answered) {a b : Answered Ref} (ha : a ∈ answered) (hb : b ∈ answered)
    (href : a.ref = b.ref) (hq : a.queue = b.queue) : a.runId = b.runId := by
  have hrun := h.hasRun a ha
  rw [href, hq] at hrun
  exact h.indexed.once hrun (h.hasRun b hb)

/-- The account after a call that keeps the runs and adds none under the key of a message. -/
theorem kept (h : Account key table answered) (hidx : table'.Indexed) (hkept : table.Kept table')
    (hback : ∀ (id : String) (entry' : RunEntry) (ref : Ref), table'.runs[id]? = some entry' →
      entry'.record.idempotencyKey = some (key ref) →
      ∃ entry : RunEntry, table.runs[id]? = some entry ∧ entry.record.SameRun entry'.record) :
    Account key table' answered where
  indexed := hidx
  hasRun a ha := (h.hasRun a ha).kept hkept
  created := h.created
  fresh := h.fresh
  runs id entry' ref hget hkey := by
    obtain ⟨entry, hold, hsame⟩ := hback id entry' ref hget hkey
    exact h.runs id entry ref hold (hsame.idempotencyKey.symm.trans hkey)

theorem foreign (h : Account key table answered) {now : Utc} {call : RunCall} {answer : RunAnswer}
    (hfor : Foreign key table call) (hcall : table.call now call = (answer, table')) :
    Account key table' answered := by
  obtain ⟨hidx, hkept, hback⟩ := (RunTable.call_effect h.indexed.keyed hcall).indexed h.indexed
    (fun before heq => by subst heq; exact hfor) fun runId run heq => by subst heq; exact hfor.1
  refine h.kept hidx hkept fun id entry' ref hget hkey => ?_
  rcases hback id entry' hget with hold | ⟨run, rfl, -, hrcd⟩
  · exact hold
  · rw [hrcd] at hkey
    exact absurd hkey (hfor.2 ref)

/-- **The account after a message was enqueued** whose key no other message has. -/
theorem enqueue (h : Account key table answered) {now : Utc} {runId : String} {run : NewRun} {ref : Ref}
    {result : Except AdkError Enqueued} (hkey : run.idempotencyKey = some (key ref))
    (hfr : table.runs[runId]? = none) (hclr : Clear key answered ref run.queue)
    (hcall : table.enqueue now runId run = (result, table')) :
    Account key table' (answered ++ answersOf ref run.queue result) := by
  have heff := RunTable.enqueue_effect h.indexed.keyed hcall
  obtain ⟨hidx, hkept, hback⟩ := heff.indexed h.indexed (fun _ heq => by cases heq) fun id run' heq => by
    cases heq
    exact hfr
  -- the table has no new run, or the one that was created
  have hoth : (∀ record, result ≠ .ok (.created record)) → Account key table' answered := by
    intro hnot
    refine h.kept hidx hkept fun id entry' ref' hget _ => ?_
    rcases hback id entry' hget with hold | ⟨run', -, hans, -⟩
    · exact hold
    · exact absurd (RunAnswer.enqueued.inj hans) (hnot _)
  cases result with
  | error error =>
    rw [answersOf, List.append_nil]
    exact hoth fun _ h => by cases h
  | ok enqueued =>
    cases enqueued with
    | rejected blockingRunId =>
      rw [answersOf, List.append_nil]
      exact hoth fun _ h => by cases h
    | existing record =>
      have hold := hoth fun _ h => by cases h
      obtain ⟨entry, hget, hrcd, hq⟩ := RunTable.existing_run hcall hkey h.indexed
      obtain ⟨a, ha, hca, hrun⟩ := h.runs record.runId entry ref hget hrcd
      obtain ⟨entry', hget', hq', hkey'⟩ := h.hasRun a ha
      rw [hrun, hget] at hget'
      obtain rfl := Option.some.inj hget'
      rw [hrcd] at hkey'
      have href : a.ref = ref := hclr a ha hca (hq'.symm.trans hq) (Option.some.inj hkey').symm
      refine ⟨hold.indexed, fun b hb => ?_, fun b hb => ?_, ?_, fun id entry ref hget hkey => ?_⟩
      · rcases List.mem_append.mp hb with hb | hb
        · exact hold.hasRun b hb
        · obtain rfl := List.mem_singleton.mp hb
          have ha' := hold.hasRun a ha
          rw [href, hrun, ← hq', hq] at ha'
          exact ha'
      · rcases List.mem_append.mp hb with hb | hb
        · obtain ⟨c, hc, hrest⟩ := hold.created b hb
          exact ⟨c, List.mem_append_left _ hc, hrest⟩
        · obtain rfl := List.mem_singleton.mp hb
          exact ⟨a, List.mem_append_left _ ha, hca, href, hq'.symm.trans hq, hrun⟩
      · rw [List.filter_append]
        simpa [answersOf] using hold.fresh
      · obtain ⟨b, hb, hrest⟩ := hold.runs id entry ref hget hkey
        exact ⟨b, List.mem_append_left _ hb, hrest⟩
    | created record =>
      obtain ⟨hrunId, hhas⟩ := RunTable.created_run hcall hkey
      have hnew : ∀ a ∈ answered, a.runId ≠ record.runId := by
        intro a ha heq
        obtain ⟨entry, hget, -⟩ := h.hasRun a ha
        rw [heq, hrunId, hfr] at hget
        cases hget
      refine ⟨hidx, fun b hb => ?_, fun b hb => ?_, ?_, fun id entry' ref' hget hkey' => ?_⟩
      · rcases List.mem_append.mp hb with hb | hb
        · exact (h.hasRun b hb).kept hkept
        · obtain rfl := List.mem_singleton.mp hb
          exact hhas
      · rcases List.mem_append.mp hb with hb | hb
        · obtain ⟨c, hc, hrest⟩ := h.created b hb
          exact ⟨c, List.mem_append_left _ hc, hrest⟩
        · obtain rfl := List.mem_singleton.mp hb
          exact ⟨_, List.mem_append_right _ (List.mem_singleton_self _), rfl, rfl, rfl, rfl⟩
      · rw [List.filter_append, List.map_append, List.nodup_append]
        refine ⟨h.fresh, by simp [answersOf], ?_⟩
        intro id hid id' hid'
        obtain ⟨a, ha, rfl⟩ := List.mem_map.mp hid
        simp only [answersOf, List.filter_cons_of_pos, List.filter_nil, List.map_cons, List.map_nil,
          List.mem_singleton] at hid'
        rw [hid']
        exact hnew a (List.mem_filter.mp ha).1
      · rcases hback id entry' hget with ⟨entry, hget', hsame⟩ | ⟨run', hrun', -, -⟩
        · obtain ⟨b, hb, hrest⟩ := h.runs id entry ref' hget' (hsame.idempotencyKey.symm.trans hkey')
          exact ⟨b, List.mem_append_left _ hb, hrest⟩
        · refine ⟨_, List.mem_append_right _ (List.mem_singleton_self _), rfl, ?_⟩
          cases hrun'
          exact hrunId

end Account

/-! ## Unfinished runs -/

def isOpen (table : RunTable) (id : String) : Bool :=
  table.runs[id]?.any fun entry => !entry.record.state.isTerminal

/-- How many runs were created for some messages and have not finished. -/
def unfinished (table : RunTable) (answered : List (Answered Ref)) (p : Ref → Bool) : Nat :=
  answered.countP fun a => a.created && p a.ref && isOpen table a.runId

def unfinishedFilter (queue : Option String) : RunFilter := { queue, states := [.queued, .running, .waiting] }

theorem isMatch_unfinished {queue : Option String} {record : RunRecord} :
    (unfinishedFilter queue).isMatch record = true ↔
      (∀ q, queue = some q → record.queue = q) ∧ record.state.isTerminal = false := by
  have hq : RunFilter.field queue (some record.queue) = true ↔ ∀ q, queue = some q → record.queue = q := by
    cases queue with
    | none => simp [RunFilter.field]
    | some q => simp [RunFilter.field]
  have hst : decide (record.state ∈ [RunState.queued, .running, .waiting]) = true ↔
      record.state.isTerminal = false := by
    cases record.state <;> decide
  unfold RunFilter.isMatch unfinishedFilter
  simp only [List.isEmpty_cons, Bool.false_or, Bool.and_eq_true, hq, hst]
  simp [RunFilter.field]

theorem mem_list {queue : Option String} {record : RunRecord} : record ∈ table.list (unfinishedFilter queue) ↔
    ∃ entry ∈ table.runs.vals, entry.record = record ∧ (unfinishedFilter queue).isMatch record = true := by
  unfold RunTable.list
  simp only [unfinishedFilter, Option.elim_none, List.mem_map, List.mem_insertionSort, List.mem_filter]
  constructor
  · rintro ⟨entry, ⟨hent, hmat⟩, rfl⟩
    exact ⟨entry, hent, rfl, hmat⟩
  · rintro ⟨entry, hent, rfl, hmat⟩
    exact ⟨entry, ⟨hent, hmat⟩, rfl⟩

theorem nodup_list (hkd : table.Keyed) (queue : Option String) :
    ((table.list (unfinishedFilter queue)).map (·.runId)).Nodup := by
  unfold RunTable.list
  simp only [unfinishedFilter, Option.elim_none, List.map_map]
  have hperm := (List.perm_insertionSort (fun a b : RunEntry => ¬RunOrder.before b.order a.order)
    (table.runs.vals.filter fun entry => (unfinishedFilter queue).isMatch entry.record)).map
      ((·.runId) ∘ (·.record))
  exact hperm.nodup_iff.mpr ((List.filter_sublist.map _).nodup hkd.nodup)

theorem isOpen_back {now : Utc} {call : RunCall} {answer : RunAnswer} {id : String} (hkd : table.Keyed)
    (hfr : ∀ runId run, call = .enqueue runId run → table.runs[runId]? = none)
    (hcall : table.call now call = (answer, table')) (hthe : table.runs[id]?.isSome = true)
    (hopen : isOpen table' id = true) : isOpen table id = true := by
  unfold isOpen at hopen ⊢
  cases (RunTable.call_effect hkd hcall).run hfr id with
  | same h =>
    rw [h] at hopen
    exact hopen
  | wrote hb hw ha =>
    rw [hb]
    simp [hw.unfinished]
  | claimed hb hopen' ha =>
    rw [hb]
    simp [hopen']
  | created hb _ =>
    rw [hb] at hthe
    cases hthe
  | removed hb hterm ha =>
    rw [ha] at hopen
    cases hopen

namespace Account

variable {p : Ref → Bool}

theorem there (h : Account key table answered) {a : Answered Ref} (ha : a ∈ answered) :
    table.runs[a.runId]?.isSome = true := by
  obtain ⟨entry, hget, -⟩ := h.hasRun a ha
  rw [hget]
  rfl

/-- Others finish runs, and add none. -/
theorem unfinished_foreign (h : Account key table answered) {now : Utc} {call : RunCall} {answer : RunAnswer}
    (hfor : Foreign key table call) (hcall : table.call now call = (answer, table')) :
    unfinished table' answered p ≤ unfinished table answered p := by
  unfold unfinished
  apply List.countP_mono_left
  intro a ha hcnt
  rw [Bool.and_eq_true] at hcnt ⊢
  refine ⟨hcnt.1, isOpen_back h.indexed.keyed (fun runId run heq => ?_) hcall (h.there ha) hcnt.2⟩
  subst heq
  exact hfor.1

/-- A message that is enqueued adds at most one run, of its own. -/
theorem unfinished_enqueue (h : Account key table answered) {now : Utc} {runId : String} {run : NewRun} (ref : Ref)
    {result : Except AdkError Enqueued} (hfr : table.runs[runId]? = none)
    (hcall : table.enqueue now runId run = (result, table')) :
    unfinished table' (answered ++ answersOf ref run.queue result) p ≤
      unfinished table answered p + if p ref then 1 else 0 := by
  have hold : answered.countP (fun a => a.created && p a.ref && isOpen table' a.runId) ≤
      unfinished table answered p := by
    apply List.countP_mono_left
    intro a ha hcnt
    rw [Bool.and_eq_true] at hcnt ⊢
    have hcall' : table.call now (.enqueue runId run) = (.enqueued result, table') := by
      show Prod.map RunAnswer.enqueued id (table.enqueue now runId run) = _
      rw [hcall]
      rfl
    refine ⟨hcnt.1, isOpen_back h.indexed.keyed (fun id run' heq => ?_) hcall' (h.there ha) hcnt.2⟩
    cases heq
    exact hfr
  unfold unfinished at hold ⊢
  rw [List.countP_append]
  have hnew : (answersOf ref run.queue result).countP (fun a => a.created && p a.ref && isOpen table' a.runId) ≤
      if p ref then 1 else 0 := by
    rcases result with error | ⟨record⟩ | ⟨record⟩ | blockingRunId
    · exact Nat.zero_le _
    · rw [answersOf, List.countP_singleton]
      cases p ref with
      | false => simp
      | true => simp only [if_true]; split <;> omega
    · rw [answersOf, List.countP_singleton]
      simp
    · exact Nat.zero_le _
  omega

theorem unfinished_le (h : Account key table answered) {queue : Option String} {mark : RunRecord → Bool}
    (hmark : ∀ a ∈ answered, a.created = true → p a.ref = true → ∀ entry : RunEntry,
      table.runs[a.runId]? = some entry → (∀ q, queue = some q → entry.record.queue = q) ∧ mark entry.record = true) :
    unfinished table answered p ≤ ((table.list (unfinishedFilter queue)).filter mark).length := by
  unfold unfinished
  rw [List.countP_eq_length_filter, ← List.length_map (f := fun a : Answered Ref => a.runId),
    ← @List.length_map _ _ ((table.list (unfinishedFilter queue)).filter mark) fun record : RunRecord => record.runId]
  apply List.Subperm.length_le
  have hnd : ((answered.filter fun a => a.created && p a.ref && isOpen table a.runId).map (·.runId)).Nodup := by
    refine List.Nodup.sublist (List.Sublist.map _ ?_) h.fresh
    have hsub : (answered.filter fun a => a.created && p a.ref && isOpen table a.runId) =
        (answered.filter (·.created)).filter fun a => p a.ref && isOpen table a.runId := by
      rw [List.filter_filter]
      apply List.filter_congr
      intro a _
      rw [Bool.and_comm (p a.ref && isOpen table a.runId), Bool.and_assoc]
    rw [hsub]
    exact List.filter_sublist
  apply List.subperm_of_subset hnd
  intro id hid
  obtain ⟨a, ha, rfl⟩ := List.mem_map.mp hid
  obtain ⟨hmem, hcnt⟩ := List.mem_filter.mp ha
  simp only [Bool.and_eq_true] at hcnt
  obtain ⟨⟨hcr, hp⟩, hopen⟩ := hcnt
  unfold isOpen at hopen
  obtain ⟨entry, hget, hst⟩ := (Option.any_eq_true _ _).mp hopen
  obtain ⟨hq, hmarked⟩ := hmark a hmem hcr hp entry hget
  refine List.mem_map.mpr ⟨entry.record, List.mem_filter.mpr ⟨?_, hmarked⟩, h.indexed.keyed _ _ hget⟩
  refine mem_list.mpr ⟨entry, Dict.mem_vals.mpr ⟨_, hget⟩, rfl, isMatch_unfinished.mpr ⟨hq, ?_⟩⟩
  simpa using hst

/-- The runs that are listed and have a mark are of some messages, when each run with the mark is of one. -/
theorem le_unfinished (h : Account key table answered) {queue : Option String} {mark : RunRecord → Bool}
    (hmark : ∀ record ∈ table.list (unfinishedFilter queue), mark record = true →
      ∃ a ∈ answered, a.created = true ∧ a.runId = record.runId ∧ p a.ref = true) :
    ((table.list (unfinishedFilter queue)).filter mark).length ≤ unfinished table answered p := by
  unfold unfinished
  rw [List.countP_eq_length_filter, ← List.length_map (f := fun a : Answered Ref => a.runId),
    ← @List.length_map _ _ ((table.list (unfinishedFilter queue)).filter mark) fun record : RunRecord => record.runId]
  apply List.Subperm.length_le
  have hnd : (((table.list (unfinishedFilter queue)).filter mark).map (·.runId)).Nodup :=
    (List.filter_sublist.map _).nodup (nodup_list h.indexed.keyed queue)
  apply List.subperm_of_subset hnd
  intro id hid
  obtain ⟨record, hrcd, rfl⟩ := List.mem_map.mp hid
  obtain ⟨hlst, hmarked⟩ := List.mem_filter.mp hrcd
  obtain ⟨a, ha, hcr, hrun, hp⟩ := hmark record hlst hmarked
  obtain ⟨entry, hent, rfl, hmat⟩ := mem_list.mp hlst
  refine List.mem_map.mpr ⟨a, List.mem_filter.mpr ⟨ha, ?_⟩, hrun⟩
  have hget := h.indexed.keyed.get hent
  have hopen : isOpen table a.runId = true := by
    unfold isOpen
    rw [hrun, hget]
    simp [(isMatch_unfinished.mp hmat).2]
  rw [hcr, hp, hopen]
  rfl

end Account

end Wakeups

end Adk
