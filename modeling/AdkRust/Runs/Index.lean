import AdkRust.Lib.Text
import AdkRust.Runs.Moves
import Mathlib.Algebra.Order.Ring.Nat

/-!
# The index of idempotency keys

While nothing is pruned, the runs stay (`RunTable.Kept`) and the index has exactly their keys
(`RunTable.Indexed`), so that no two runs of a queue share a key (`Indexed.once`).
-/

namespace Adk

namespace RunTable

variable {now : Utc} {table table' mid : RunTable}

/-- The index has the keys of the runs, and no others. -/
structure Indexed (table : RunTable) : Prop where
  keyed : table.Keyed
  index : ∀ (id : String) (entry : RunEntry) (key : String), table.runs[id]? = some entry →
    entry.record.idempotencyKey = some key → table.byIdempotencyKey entry.record.queue key = some id
  runs : ∀ queue key id, table.byIdempotencyKey queue key = some id → ∃ entry : RunEntry,
    table.runs[id]? = some entry ∧ entry.record.queue = queue ∧ entry.record.idempotencyKey = some key

def Kept (table table' : RunTable) : Prop :=
  ∀ (id : String) (entry : RunEntry), table.runs[id]? = some entry → ∃ entry' : RunEntry,
    table'.runs[id]? = some entry' ∧ entry.record.SameRun entry'.record

def HasRun (table : RunTable) (queue key id : String) : Prop :=
  ∃ entry : RunEntry, table.runs[id]? = some entry ∧ entry.record.queue = queue ∧
    entry.record.idempotencyKey = some key

theorem indexed_empty : Indexed {} where
  keyed id entry hget := by simp at hget
  index id entry key hget := by simp at hget
  runs queue key id hget := by cases hget

theorem Kept.refl (table : RunTable) : table.Kept table := fun _ entry hget => ⟨entry, hget, RunRecord.SameRun.refl _⟩

theorem Kept.trans (h : table.Kept mid) (h' : mid.Kept table') : table.Kept table' := by
  intro id entry hget
  obtain ⟨entry₁, hget₁, hsame⟩ := h id entry hget
  obtain ⟨entry₂, hget₂, hsame'⟩ := h' id entry₁ hget₁
  exact ⟨entry₂, hget₂, hsame.trans hsame'⟩

variable {key id runId : String} {ids : List String} {run : NewRun} {record : RunRecord}

/-- **No two runs of a queue share a key.** -/
theorem Indexed.once {queue a b : String} (h : table.Indexed) (ha : table.HasRun queue key a)
    (hb : table.HasRun queue key b) : a = b := by
  obtain ⟨entry, hget, rfl, hkey⟩ := ha
  obtain ⟨entry', hget', hq, hkey'⟩ := hb
  have hind' := h.index b entry' key hget' hkey'
  rw [hq, h.index a entry key hget hkey] at hind'
  exact Option.some.inj hind'

theorem HasRun.kept {queue : String} (h : table.HasRun queue key id) (hkept : table.Kept table') :
    table'.HasRun queue key id := by
  obtain ⟨entry, hget, rfl, hkey⟩ := h
  obtain ⟨entry', hget', hsame⟩ := hkept id entry hget
  exact ⟨entry', hget', hsame.queue, hsame.idempotencyKey.trans hkey⟩

/-! ## What a call does -/

theorem Writes.kept (h : Writes now table ids table') (hids : ids.Nodup) : table.Kept table' := by
  intro id entry hget
  by_cases hid : id ∈ ids
  · obtain ⟨entry', record, hget', hwrtn, haft⟩ := h.once hids hid
    obtain rfl := Option.some.inj (hget.symm.trans hget')
    exact ⟨_, haft, hwrtn.wrote.toSameRun⟩
  · exact ⟨entry, (h.others hid).trans hget, RunRecord.SameRun.refl _⟩

theorem Indexed.same (h : table.Indexed) (hkept : table.Kept table')
    (hkeys : table'.byIdempotencyKey = table.byIdempotencyKey) (hback : table'.Kept table) : table'.Indexed where
  keyed id entry hget := by
    obtain ⟨entry', hget', hsame⟩ := hback id entry hget
    exact hsame.runId.symm.trans (h.keyed id entry' hget')
  index id entry key hget hkey := by
    obtain ⟨entry', hget', hsame⟩ := hback id entry hget
    rw [hkeys, ← hsame.queue]
    exact h.index id entry' key hget' (hsame.idempotencyKey.trans hkey)
  runs queue key id hget := by
    rw [hkeys] at hget
    obtain ⟨entry, hrun, rfl, hkey⟩ := h.runs queue key id hget
    obtain ⟨entry', hrun', hsame⟩ := hkept id entry hrun
    exact ⟨entry', hrun', hsame.queue, hsame.idempotencyKey.trans hkey⟩

theorem Writes.backKept (h : Writes now table ids table') : table'.Kept table := by
  intro id entry' hget
  obtain ⟨entry, hget', -, hsame, -⟩ := h.back hget
  exact ⟨entry, hget', hsame.symm⟩

theorem Indexed.writes (h : table.Indexed) (hw : Writes now table ids table') (hids : ids.Nodup) :
    table'.Indexed :=
  h.same (hw.kept hids) hw.byIdempotencyKey hw.backKept

theorem insert_runs (table : RunTable) (now : Utc) (runId : String) (run : NewRun) (id : String) :
    (table.insert now runId run).runs[id]? =
      if runId = id then some { record := .queued runId run now, seq := table.nextSeq } else table.runs[id]? := by
  unfold insert
  rw [Std.ExtTreeMap.getElem?_insert]
  by_cases hid : runId = id
  · simp [hid]
  · simp [hid]

theorem kept_insert (hfr : table.runs[runId]? = none) :
    table.Kept (table.insert now runId run) := by
  intro id entry hget
  have hid : runId ≠ id := by
    rintro rfl
    rw [hfr] at hget
    cases hget
  exact ⟨entry, by rw [insert_runs, if_neg hid, hget], RunRecord.SameRun.refl _⟩

theorem Indexed.free (h : table.Indexed) (hnew : table.existing run = none)
    (hkey : run.idempotencyKey = some key) : table.byIdempotencyKey run.queue key = none := by
  cases hind : table.byIdempotencyKey run.queue key with
  | none => rfl
  | some id =>
    obtain ⟨entry, hget, -⟩ := h.runs _ _ _ hind
    simp [existing, hkey, hind, hget] at hnew

theorem Indexed.insert (h : table.Indexed) (hfr : table.runs[runId]? = none)
    (hfree : ∀ key, run.idempotencyKey = some key → table.byIdempotencyKey run.queue key = none) :
    (table.insert now runId run).Indexed := by
  have hind : ∀ queue key, (table.insert now runId run).byIdempotencyKey queue key =
      if queue = run.queue ∧ run.idempotencyKey = some key then some runId else table.byIdempotencyKey queue key := by
    intro queue key
    unfold RunTable.insert
    cases hkey : run.idempotencyKey with
    | none => simp
    | some key' => simp only [Option.some.injEq, eq_comm]
  refine ⟨fun id entry hget => ?keyed, fun id entry key hget hkey => ?index, fun queue key id hget => ?runs⟩
  case keyed =>
    rw [insert_runs] at hget
    split at hget
    next hid =>
      obtain rfl := Option.some.inj hget
      exact hid
    next => exact h.keyed id entry hget
  case index =>
    rw [insert_runs] at hget
    rw [hind]
    split at hget
    next hid =>
      obtain rfl := Option.some.inj hget
      rw [if_pos ⟨rfl, hkey⟩, hid]
    next hid =>
      have hold := h.index id entry key hget hkey
      refine (if_neg ?_).trans hold
      rintro ⟨hq, hsame⟩
      rw [hq, hfree key hsame] at hold
      cases hold
  case runs =>
    rw [hind] at hget
    split at hget
    next hnew =>
      obtain rfl := Option.some.inj hget
      exact ⟨_, by rw [insert_runs, if_pos rfl], hnew.1.symm, hnew.2⟩
    next =>
      obtain ⟨entry, hrun, hq, hkey⟩ := h.runs queue key id hget
      have hid : runId ≠ id := by
        rintro rfl
        rw [hfr] at hrun
        cases hrun
      exact ⟨entry, by rw [insert_runs, if_neg hid, hrun], hq, hkey⟩

theorem kept_set {entry : RunEntry} (hget : table.runs[id]? = some entry) (hsame : entry.record.SameRun record) :
    table.Kept (table.set id entry record) ∧ (table.set id entry record).Kept table := by
  constructor <;> intro k old hold
  · by_cases hk : id = k
    · subst hk
      obtain rfl := Option.some.inj (hget.symm.trans hold)
      exact ⟨_, by rw [set_runs, if_pos rfl], hsame⟩
    · exact ⟨old, by rw [set_runs, if_neg hk, hold], RunRecord.SameRun.refl _⟩
  · rw [set_runs] at hold
    split at hold
    next hk =>
      subst hk
      obtain rfl := Option.some.inj hold
      exact ⟨entry, hget, hsame.symm⟩
    next => exact ⟨old, hold, RunRecord.SameRun.refl _⟩

/-- **What a call does to the runs** when it prunes nothing: they stay in an index, and only a run that is enqueued
is new. -/
theorem Effect.indexed {call : RunCall} {answer : RunAnswer} (h : Effect now table call answer table')
    (hidx : table.Indexed) (hprune : ∀ before, call ≠ .prune before)
    (hfr : ∀ runId run, call = .enqueue runId run → table.runs[runId]? = none) :
    table'.Indexed ∧ table.Kept table' ∧ ∀ (id : String) (entry' : RunEntry), table'.runs[id]? = some entry' →
      (∃ entry : RunEntry, table.runs[id]? = some entry ∧ entry.record.SameRun entry'.record) ∨
      ∃ run, call = .enqueue id run ∧ answer = .enqueued (.ok (.created (.queued id run now))) ∧
        entry'.record = .queued id run now := by
  cases h with
  | wrote hids hw _ =>
    refine ⟨hidx.writes hw hids, hw.kept hids, fun id entry' hget => ?_⟩
    obtain ⟨entry, hget', -, hsame, -⟩ := hw.back hget
    exact .inl ⟨entry, hget', hsame⟩
  | @created runId run ids mid _ hnew _ hids hw =>
    have hmid := hidx.writes hw hids
    have hfreshMid : mid.runs[runId]? = none := by
      cases hget : mid.runs[runId]? with
      | none => rfl
      | some entry =>
        obtain ⟨entry', hget', -⟩ := hw.back hget
        rw [hfr runId run rfl] at hget'
        cases hget'
    refine ⟨hmid.insert hfreshMid fun key hkey => ?_, (hw.kept hids).trans (kept_insert hfreshMid), ?_⟩
    · rw [hw.byIdempotencyKey]
      exact hidx.free hnew hkey
    · intro id entry' hget
      rw [insert_runs] at hget
      split at hget
      next hid =>
        subst hid
        obtain rfl := Option.some.inj hget
        exact .inr ⟨run, rfl, rfl, rfl⟩
      next =>
        obtain ⟨entry, hget', -, hsame, -⟩ := hw.back hget
        exact .inl ⟨entry, hget', hsame⟩
  | @claimed queue worker ttl expiresAt ids mid id' entry started hids hw _ hget _ _ _ =>
    have hmid := hidx.writes hw hids
    have hsame : entry.record.SameRun (entry.record.claimed worker expiresAt now started) :=
      ⟨rfl, rfl, rfl, rfl, rfl, rfl⟩
    obtain ⟨hkept, hback⟩ := kept_set hget hsame
    refine ⟨hmid.same hkept rfl hback, (hw.kept hids).trans hkept, fun id entry' hget' => ?_⟩
    obtain ⟨entry₁, hget₁, hsame₁⟩ := hback id entry' hget'
    obtain ⟨entry₂, hget₂, hsame₂⟩ := hw.backKept id entry₁ hget₁
    exact .inl ⟨entry₂, hget₂, (hsame₁.trans hsame₂).symm⟩
  | pruned _ => exact absurd rfl (hprune _)

/-- **A key that was enqueued has a run**, unless the run was refused. -/
theorem enqueue_hasRun {enqueued : Enqueued} (hidx : table.Indexed)
    (hkey : run.idempotencyKey = some key) (hrej : ∀ id, enqueued ≠ .rejected id)
    (h : table.enqueue now runId run = (.ok enqueued, table')) : ∃ id, table'.HasRun run.queue key id := by
  cases enqueue_cases h with
  | existing _ hexist =>
    simp only [existing, hkey, Option.bind_eq_bind, Option.bind_some] at hexist
    obtain ⟨id, hind, -⟩ := Option.bind_eq_some_iff.mp hexist
    exact ⟨id, hidx.runs _ _ _ hind⟩
  | rejected _ _ _ => exact absurd rfl (hrej _)
  | created _ _ _ => exact ⟨runId, _, by rw [insert_runs, if_pos rfl], rfl, hkey⟩

theorem created_run
    (h : table.enqueue now runId run = (.ok (.created record), table')) (hkey : run.idempotencyKey = some key) :
    record.runId = runId ∧ table'.HasRun run.queue key record.runId := by
  cases enqueue_cases h with
  | created _ _ _ => exact ⟨rfl, _, (insert_runs ..).trans (if_pos rfl), rfl, hkey⟩

theorem existing_run
    (h : table.enqueue now runId run = (.ok (.existing record), table')) (hkey : run.idempotencyKey = some key)
    (hidx : table.Indexed) : ∃ entry : RunEntry, table.runs[record.runId]? = some entry ∧
      entry.record.idempotencyKey = some key ∧ entry.record.queue = run.queue := by
  cases enqueue_cases h with
  | @existing entry _ hexist =>
    simp only [existing, hkey, Option.bind_eq_bind, Option.bind_some] at hexist
    obtain ⟨id, hind, hget⟩ := Option.bind_eq_some_iff.mp hexist
    obtain ⟨entry', hget', hq, hkey'⟩ := hidx.runs _ _ _ hind
    obtain rfl := Option.some.inj (hget.symm.trans hget')
    rw [hidx.keyed id entry hget]
    exact ⟨entry, hget, hkey', hq⟩

/-- **A key that has a run is answered with it.** -/
theorem enqueue_existing {result : Except AdkError Enqueued}
    (h : table.enqueue now runId run = (result, table')) (hidx : table.Indexed) (hval : run.validate = .ok ())
    (hkey : run.idempotencyKey = some key) (hrun : table.HasRun run.queue key id) :
    ∃ record, result = .ok (.existing record) ∧ record.runId = id := by
  obtain ⟨entry, hget, hq, hent⟩ := hrun
  have hind := hidx.index id entry key hget hent
  rw [hq] at hind
  have hexist : table.existing run = some entry := by
    simp [existing, hkey, hind, hget]
  unfold enqueue at h
  simp only [hval, hexist] at h
  obtain ⟨rfl, -⟩ := Prod.mk.inj h
  exact ⟨entry.record, rfl, hidx.keyed id entry hget⟩

/-- An identifier that no run has: it is longer than all of them. -/
def freshId (table : RunTable) : String :=
  String.ofList (List.replicate ((table.runs.keys.map String.length).sum + 1) 'r')

theorem runs_freshId (table : RunTable) : table.runs[table.freshId]? = none := by
  cases hget : table.runs[table.freshId]? with
  | none => rfl
  | some entry =>
    have hkey : table.freshId ∈ table.runs.keys := by
      rw [Std.ExtTreeMap.mem_keys, Std.ExtTreeMap.mem_iff_isSome_getElem?, hget]
      rfl
    exact absurd hkey (longerThan_notMem table.runs.keys)

end RunTable

end Adk
