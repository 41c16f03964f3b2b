import AdkRust.Lib.Path
import AdkRust.Runs.Store

/-!
# What a call does to the table of runs

A call of the store writes some runs, each once (`Writes`), and may then insert, claim or remove runs
(`RunTable.Effect`, `call_effect`). What a write can do to a record is said once, in `Written.wrote`.
-/

namespace Adk

/-! ## One run -/

/-- What a call other than a claim writes to a run. -/
inductive Written (now : Utc) (record : RunRecord) : RunRecord → Prop where
  | exhausted (h : record.state = .running) : Written now record (record.exhausted now)
  | beaten (expiresAt : Utc) (h : record.state = .running) : Written now record (record.beaten expiresAt now)
  | checkpointed (checkpoint : RunCheckpointRef) (h : record.state = .running) :
    Written now record (record.checkpointed checkpoint now)
  | parked (wakeAt : Option Utc) (h : record.state = .running) : Written now record (record.parked wakeAt now)
  | finished (outcome : RunOutcome) (h : record.state = .running) :
    Written now record (record.finished outcome now)
  | woken (h : record.state.isTerminal = false) : Written now record (record.woken now)
  | interrupted (h : record.state.isTerminal = false) : Written now record (record.interrupted now)

/-- What a run keeps for good. -/
structure RunRecord.SameRun (record record' : RunRecord) : Prop where
  runId : record'.runId = record.runId
  queue : record'.queue = record.queue
  idempotencyKey : record'.idempotencyKey = record.idempotencyKey
  concurrencyKey : record'.concurrencyKey = record.concurrencyKey
  maxAttempts : record'.maxAttempts = record.maxAttempts
  createdAt : record'.createdAt = record.createdAt

theorem RunRecord.SameRun.refl (record : RunRecord) : record.SameRun record := ⟨rfl, rfl, rfl, rfl, rfl, rfl⟩

theorem RunRecord.SameRun.symm {a b : RunRecord} (h : a.SameRun b) : b.SameRun a :=
  ⟨h.runId.symm, h.queue.symm, h.idempotencyKey.symm, h.concurrencyKey.symm, h.maxAttempts.symm, h.createdAt.symm⟩

theorem RunRecord.SameRun.trans {a b c : RunRecord} (h : a.SameRun b) (h' : b.SameRun c) : a.SameRun c :=
  ⟨h'.runId.trans h.runId, h'.queue.trans h.queue, h'.idempotencyKey.trans h.idempotencyKey,
    h'.concurrencyKey.trans h.concurrencyKey, h'.maxAttempts.trans h.maxAttempts, h'.createdAt.trans h.createdAt⟩

/-- What every write to a run does. -/
structure RunRecord.Wrote (record record' : RunRecord) : Prop extends RunRecord.SameRun record record' where
  unfinished : record.state.isTerminal = false
  attempt : record'.attempt = record.attempt
  leaseEpoch : record'.leaseEpoch = record.leaseEpoch
  revision : record'.revision = record.revision + 1
  state : record'.state = record.state ∨ record'.state.isTerminal = true ∨
    record.state = .running ∧
      (record'.state = .waiting ∨ record'.state = .queued ∧ record.attempt < record.maxAttempts)

variable {now : Utc} {record record' : RunRecord} {table table' mid : RunTable}

theorem isTerminal_of_running (h : record.state = .running) : record.state.isTerminal = false := by
  rw [h]
  rfl

/-- **What a write can do to a run.** -/
theorem Written.wrote (h : Written now record record') : record.Wrote record' := by
  cases h with
  | exhausted h =>
    exact ⟨⟨rfl, rfl, rfl, rfl, rfl, rfl⟩, isTerminal_of_running h, rfl, rfl, rfl, .inr (.inl rfl)⟩
  | beaten expiresAt h | checkpointed checkpoint h =>
    exact ⟨⟨rfl, rfl, rfl, rfl, rfl, rfl⟩, isTerminal_of_running h, rfl, rfl, rfl, .inl rfl⟩
  | parked wakeAt h =>
    exact ⟨⟨rfl, rfl, rfl, rfl, rfl, rfl⟩, isTerminal_of_running h, rfl, rfl, rfl, .inr (.inr ⟨h, .inl rfl⟩)⟩
  | finished outcome h =>
    have hst : (record.finished outcome now).state.isTerminal = true ∨
        (record.finished outcome now).state = .queued ∧ record.attempt < record.maxAttempts := by
      cases outcome with
      | completed result => exact .inl rfl
      | cancelled => exact .inl rfl
      | failed error retryable =>
        by_cases hretry : (retryable && decide (record.attempt < record.maxAttempts) &&
            !record.cancelRequested) = true
        · refine .inr ⟨?_, ?_⟩
          · show (if _ then RunState.queued else .failed) = _
            rw [if_pos hretry]
          · simp only [Bool.and_eq_true, decide_eq_true_eq] at hretry
            exact hretry.1.2
        · refine .inl ?_
          show (if _ then RunState.queued else .failed).isTerminal = true
          rw [if_neg hretry]
          rfl
    have hterm := isTerminal_of_running h
    cases outcome <;>
      exact ⟨⟨rfl, rfl, rfl, rfl, rfl, rfl⟩, hterm, rfl, rfl, rfl, .inr (hst.imp_right fun hq => ⟨h, .inr hq⟩)⟩
  | woken h =>
    unfold RunRecord.woken
    by_cases hw : record.state = .waiting
    · rw [if_pos hw]
      exact ⟨⟨rfl, rfl, rfl, rfl, rfl, rfl⟩, h, rfl, rfl, rfl, .inl rfl⟩
    · rw [if_neg hw]
      exact ⟨⟨rfl, rfl, rfl, rfl, rfl, rfl⟩, h, rfl, rfl, rfl, .inl rfl⟩
  | interrupted h =>
    unfold RunRecord.interrupted
    by_cases hr : record.state = .running
    · rw [if_pos hr]
      exact ⟨⟨rfl, rfl, rfl, rfl, rfl, rfl⟩, h, rfl, rfl, rfl, .inl rfl⟩
    · rw [if_neg hr]
      exact ⟨⟨rfl, rfl, rfl, rfl, rfl, rfl⟩, h, rfl, rfl, rfl, .inr (.inl rfl)⟩

def RunAnswer.idle : RunAnswer → Bool
  | .claimed (.ok (some _)) | .enqueued (.ok (.created _)) => false
  | _ => true

/-! ## Writes to the table -/

namespace RunTable

@[simp] theorem set_runs (table : RunTable) (runId : String) (entry : RunEntry) (record : RunRecord)
    (k : String) : (table.set runId entry record).runs[k]? =
      if runId = k then some { entry with record } else table.runs[k]? := by
  unfold set
  rw [Std.ExtTreeMap.getElem?_insert]
  by_cases hk : runId = k
  · simp [hk]
  · simp [hk]

def WriteStep (now : Utc) (table : RunTable) (runId : String) (table' : RunTable) : Prop :=
  ∃ entry record, table.runs[runId]? = some entry ∧ Written now entry.record record ∧
    table' = table.set runId entry record

/-- Writes one after another. -/
abbrev Writes (now : Utc) : RunTable → List String → RunTable → Prop := Path (WriteStep now)

variable {ids : List String} {k runId queue : String} {entry : RunEntry} {call : RunCall} {answer : RunAnswer}

theorem Writes.nextSeq (h : Writes now table ids table') :
    table'.nextSeq = table.nextSeq := by
  refine h.inv (P := fun t => t.nextSeq = table.nextSeq) ?_ rfl
  rintro s id t hs ⟨entry, record, -, -, rfl⟩
  exact hs

theorem Writes.byIdempotencyKey (h : Writes now table ids table') :
    table'.byIdempotencyKey = table.byIdempotencyKey := by
  refine h.inv (P := fun t => t.byIdempotencyKey = table.byIdempotencyKey) ?_ rfl
  rintro s id t hs ⟨entry, record, -, -, rfl⟩
  exact hs

theorem Writes.others (h : Writes now table ids table') (hk : k ∉ ids) :
    table'.runs[k]? = table.runs[k]? := by
  induction h with
  | nil => rfl
  | cons hs _ ih =>
    obtain ⟨entry, record, -, -, rfl⟩ := hs
    rw [List.mem_cons, not_or] at hk
    rw [ih hk.2, set_runs, if_neg (Ne.symm hk.1)]

theorem Writes.once (h : Writes now table ids table') (hnd : ids.Nodup)
    (hk : k ∈ ids) : ∃ entry record, table.runs[k]? = some entry ∧ Written now entry.record record ∧
      table'.runs[k]? = some { entry with record } := by
  induction h with
  | nil => cases hk
  | @cons s t u id ids hs rest ih =>
    obtain ⟨entry, record, hget, hwrtn, rfl⟩ := hs
    rw [List.nodup_cons] at hnd
    rcases List.mem_cons.mp hk with rfl | hk
    · refine ⟨entry, record, hget, hwrtn, ?_⟩
      rw [Writes.others rest hnd.1, set_runs, if_pos rfl]
    · obtain ⟨entry', record', hget', hwrtn', hres⟩ := ih hnd.2 hk
      have hne : id ≠ k := fun heq => hnd.1 (heq ▸ hk)
      rw [set_runs, if_neg hne] at hget'
      exact ⟨entry', record', hget', hwrtn', hres⟩

theorem Writes.back (h : Writes now table ids table') {entry' : RunEntry}
    (hk : table'.runs[k]? = some entry') : ∃ entry, table.runs[k]? = some entry ∧ entry'.seq = entry.seq ∧
      entry.record.SameRun entry'.record ∧ entry'.record.attempt = entry.record.attempt ∧
      entry'.record.leaseEpoch = entry.record.leaseEpoch := by
  induction h with
  | nil => exact ⟨entry', hk, rfl, .refl _, rfl, rfl⟩
  | @cons s t u id ids hs rest ih =>
    obtain ⟨entry, record, hget, hwrtn, rfl⟩ := hs
    obtain ⟨entry₂, hget₂, hseq, hsame, hatt, hep⟩ := ih hk
    rw [set_runs] at hget₂
    by_cases hid : id = k
    · subst hid
      rw [if_pos rfl] at hget₂
      obtain rfl := Option.some.inj hget₂
      have hw := hwrtn.wrote
      exact ⟨entry, hget, hseq, hw.toSameRun.trans hsame, hatt.trans hw.attempt, hep.trans hw.leaseEpoch⟩
    · rw [if_neg hid] at hget₂
      exact ⟨entry₂, hget₂, hseq, hsame, hatt, hep⟩

/-! ## Tables whose runs are kept under their identifiers -/

/-- Every run is under its identifier. -/
def Keyed (table : RunTable) : Prop :=
  ∀ (id : String) (entry : RunEntry), table.runs[id]? = some entry → entry.record.runId = id

theorem Keyed.vals (h : table.Keyed) : table.runs.vals.map (fun entry => entry.record.runId) = table.runs.keys := by
  unfold Dict.vals
  rw [List.map_map, Std.ExtTreeMap.map_fst_toList_eq_keys.symm]
  refine List.map_congr_left fun pair hp => ?_
  exact h pair.1 pair.2 (Std.ExtTreeMap.mem_toList_iff_getElem?_eq_some.mp hp)

theorem Keyed.nodup (h : table.Keyed) : (table.runs.vals.map fun entry => entry.record.runId).Nodup := by
  rw [h.vals, ← Std.ExtTreeMap.map_fst_toList_eq_keys]
  exact Dict.nodup_keys _

theorem Keyed.get (h : table.Keyed) (he : entry ∈ table.runs.vals) :
    table.runs[entry.record.runId]? = some entry := by
  obtain ⟨k, hk⟩ := Dict.mem_vals.mp he
  rwa [h k entry hk]

/-! ## What a call does -/

theorem write_spec {α : Type} (table : RunTable) (runId : String) (epoch : Nat) (f : RunRecord → RunRecord)
    (answer : RunRecord → α) :
    (∃ error, table.write runId epoch f answer = (.error error, table)) ∨
    ∃ entry, table.runs[runId]? = some entry ∧ entry.record.state = .running ∧
      entry.record.leaseEpoch = epoch ∧
      table.write runId epoch f answer = (.ok (answer (f entry.record)), table.set runId entry (f entry.record)) := by
  unfold write fenced
  cases hget : table.runs[runId]? with
  | none => exact .inl ⟨_, rfl⟩
  | some entry =>
    by_cases hstale : entry.record.state ≠ .running ∨ entry.record.leaseEpoch ≠ epoch
    · refine .inl ⟨runStaleEpochError runId epoch, ?_⟩
      simp only [if_pos hstale]
    · refine .inr ⟨entry, rfl, ?_, ?_, ?_⟩
      · exact Decidable.not_not.mp fun h => hstale (.inl h)
      · exact Decidable.not_not.mp fun h => hstale (.inr h)
      · simp only [if_neg hstale]

theorem write_writes {α : Type} {epoch : Nat} {f : RunRecord → RunRecord}
    {answer : RunRecord → α} {result : Except AdkError α}
    (hf : ∀ record, record.state = .running → Written now record (f record))
    (h : table.write runId epoch f answer = (result, table')) :
    ∃ ids, ids.Nodup ∧ Writes now table ids table' := by
  rcases write_spec table runId epoch f answer with ⟨error, he⟩ | ⟨entry, hget, hrun, -, hw⟩
  · rw [he] at h
    obtain ⟨-, rfl⟩ := Prod.mk.inj h
    exact ⟨[], .nil, .nil _⟩
  · rw [hw] at h
    obtain ⟨-, rfl⟩ := Prod.mk.inj h
    exact ⟨[runId], by simp, .single ⟨entry, _, hget, hf _ hrun, rfl⟩⟩

theorem interrupt_writes (holders : List (String × RunOrder))
    (hnd : (holders.map Prod.fst).Nodup)
    (hopen : ∀ id ∈ holders.map Prod.fst, ∀ entry : RunEntry, table.runs[id]? = some entry →
      entry.record.state.isTerminal = false) :
    ∃ ids, ids.Nodup ∧ (∀ id ∈ ids, id ∈ holders.map Prod.fst) ∧
      Writes now table ids (holders.foldl (interrupt now) table) := by
  induction holders generalizing table with
  | nil => exact ⟨[], .nil, by simp, .nil _⟩
  | cons holder holders ih =>
    rw [List.map_cons, List.nodup_cons] at hnd
    cases hget : table.runs[holder.1]? with
    | none =>
      have hskip : interrupt now table holder = table := by
        unfold interrupt
        rw [hget]
      obtain ⟨ids, hids, hsub, hw⟩ := ih hnd.2 (fun id hid => hopen id (by simp [hid]))
      rw [List.foldl_cons, hskip]
      exact ⟨ids, hids, fun id hid => List.mem_cons_of_mem _ (hsub id hid), hw⟩
    | some entry =>
      have hset : interrupt now table holder = table.set holder.1 entry (entry.record.interrupted now) := by
        unfold interrupt
        rw [hget]
      have hterm := hopen holder.1 (by simp) entry hget
      have hopen' : ∀ id ∈ holders.map Prod.fst, ∀ entry' : RunEntry,
          (table.set holder.1 entry (entry.record.interrupted now)).runs[id]? = some entry' →
            entry'.record.state.isTerminal = false := by
        intro id hid entry' hget'
        have hne : holder.1 ≠ id := fun heq => hnd.1 (heq ▸ hid)
        rw [set_runs, if_neg hne] at hget'
        exact hopen id (List.mem_cons_of_mem _ hid) entry' hget'
      obtain ⟨ids, hids, hsub, hw⟩ := ih hnd.2 hopen'
      rw [List.foldl_cons, hset]
      refine ⟨holder.1 :: ids, List.nodup_cons.mpr ⟨fun hid => hnd.1 (hsub _ hid), hids⟩, ?_,
        .cons ⟨entry, _, hget, .interrupted hterm, rfl⟩ hw⟩
      intro id hid
      rcases List.mem_cons.mp hid with rfl | hid
      · simp
      · exact List.mem_cons_of_mem _ (hsub id hid)

theorem Keyed.chosen (h : table.Keyed) (p : RunEntry → Bool) :
    ((table.runs.vals.filter p).map fun entry => entry.record.runId).Nodup ∧
    ∀ id ∈ (table.runs.vals.filter p).map (fun entry => entry.record.runId), ∀ entry : RunEntry,
      table.runs[id]? = some entry → p entry = true := by
  refine ⟨(List.filter_sublist.map _).nodup h.nodup, fun id hid entry hget => ?_⟩
  obtain ⟨entry', hmem, rfl⟩ := List.mem_map.mp hid
  obtain ⟨hvals, hp⟩ := List.mem_filter.mp hmem
  obtain rfl := Option.some.inj ((h.get hvals).symm.trans hget)
  exact hp

theorem holders_perm (table : RunTable) (queue key : String) :
    ((table.holders queue key).map Prod.fst).Perm
      ((table.runs.vals.filter (holds queue key)).map fun entry => entry.record.runId) := by
  refine ((List.perm_insertionSort _ _).map Prod.fst).trans ?_
  rw [List.map_map]
  exact .refl _

theorem candidates_perm (table : RunTable) (queue : String) :
    ((table.candidates queue).map Prod.snd).Perm ((table.runs.vals.filter fun entry =>
      entry.record.queue = queue && !entry.record.state.isTerminal).map fun entry => entry.record.runId) := by
  refine ((List.perm_insertionSort _ _).map Prod.snd).trans ?_
  rw [List.map_map]
  exact .refl _

/-- What enqueueing does to the holders of a key. -/
theorem conflict_writes {run : NewRun} (hkd : table.Keyed) (h : table.conflict now run = .ok table') :
    ∃ ids, ids.Nodup ∧ Writes now table ids table' := by
  unfold conflict at h
  cases hkey : run.concurrencyKey with
  | none =>
    simp only [hkey, Except.ok.injEq] at h
    subst h
    exact ⟨[], .nil, .nil _⟩
  | some key =>
    simp only [hkey] at h
    cases hconf : run.onConflict with
    | enqueue =>
      simp only [hconf, Except.ok.injEq] at h
      subst h
      exact ⟨[], .nil, .nil _⟩
    | reject =>
      simp only [hconf] at h
      cases hhead : (table.holders run.queue key).head? with
      | some holder =>
        simp only [hhead] at h
        cases h
      | none =>
        simp only [hhead, Except.ok.injEq] at h
        subst h
        exact ⟨[], .nil, .nil _⟩
    | interrupt =>
      simp only [hconf, Except.ok.injEq] at h
      subst h
      have hperm := table.holders_perm run.queue key
      obtain ⟨hnd, hhol⟩ := hkd.chosen (holds run.queue key)
      have hopen : ∀ id ∈ (table.holders run.queue key).map Prod.fst, ∀ entry : RunEntry,
          table.runs[id]? = some entry → entry.record.state.isTerminal = false := by
        intro id hid entry hget
        have := hhol id (hperm.mem_iff.mp hid) entry hget
        simp only [holds, Bool.and_eq_true, Bool.not_eq_true'] at this
        exact this.2
      obtain ⟨ids, hids, -, hw⟩ := interrupt_writes _ (hperm.nodup_iff.mpr hnd) hopen
      exact ⟨ids, hids, hw⟩

/-- Going through candidates fails some runs, and claims at most one other. -/
theorem claimFrom_spec {worker : String} {expiresAt : Utc} {result : Option ClaimedRun}
    (candidates : List (RunOrder × String)) (hnd : (candidates.map Prod.snd).Nodup)
    (hque : ∀ id ∈ candidates.map Prod.snd, ∀ entry : RunEntry, table.runs[id]? = some entry →
      entry.record.queue = queue) (h : claimFrom now queue worker expiresAt candidates table = (result, table')) :
    ∃ ids mid, ids.Nodup ∧ (∀ id ∈ ids, id ∈ candidates.map Prod.snd) ∧ Writes now table ids mid ∧
      ((result = none ∧ table' = mid) ∨
        ∃ id entry started, id ∈ candidates.map Prod.snd ∧ id ∉ ids ∧ mid.runs[id]? = some entry ∧
          entry.record.queue = queue ∧ mid.started now queue entry = some started ∧
          ¬(entry.record.state = .running ∧ entry.record.maxAttempts ≤ entry.record.attempt) ∧
          result = some { record := entry.record.claimed worker expiresAt now started
                          epoch := entry.record.leaseEpoch + 1 } ∧
          table' = mid.set id entry (entry.record.claimed worker expiresAt now started)) := by
  induction candidates generalizing table with
  | nil =>
    simp only [claimFrom] at h
    obtain ⟨rfl, rfl⟩ := Prod.mk.inj h
    exact ⟨[], table, .nil, by simp, .nil _, .inl ⟨rfl, rfl⟩⟩
  | cons candidate rest ih =>
    obtain ⟨order, runId⟩ := candidate
    rw [List.map_cons, List.nodup_cons] at hnd
    have hskip : claimFrom now queue worker expiresAt rest table = (result, table') →
        ∃ ids mid, ids.Nodup ∧ (∀ id ∈ ids, id ∈ runId :: rest.map Prod.snd) ∧ Writes now table ids mid ∧
          ((result = none ∧ table' = mid) ∨
            ∃ id entry started, id ∈ runId :: rest.map Prod.snd ∧ id ∉ ids ∧ mid.runs[id]? = some entry ∧
              entry.record.queue = queue ∧ mid.started now queue entry = some started ∧
              ¬(entry.record.state = .running ∧ entry.record.maxAttempts ≤ entry.record.attempt) ∧
              result = some { record := entry.record.claimed worker expiresAt now started
                              epoch := entry.record.leaseEpoch + 1 } ∧
              table' = mid.set id entry (entry.record.claimed worker expiresAt now started)) := by
      intro h
      obtain ⟨ids, mid, hids, hsub, hw, hres⟩ :=
        ih hnd.2 (fun id hid => hque id (List.mem_cons_of_mem _ hid)) h
      refine ⟨ids, mid, hids, fun id hid => List.mem_cons_of_mem _ (hsub id hid), hw, ?_⟩
      refine hres.imp_right ?_
      rintro ⟨id, entry, started, hid, hrest⟩
      exact ⟨id, entry, started, List.mem_cons_of_mem _ hid, hrest⟩
    simp only [claimFrom] at h
    cases hget : table.runs[runId]? with
    | none =>
      rw [hget] at h
      exact hskip h
    | some entry =>
      rw [hget] at h
      cases hstd : table.started now queue entry with
      | none =>
        simp only [hstd] at h
        exact hskip h
      | some started =>
        simp only [hstd] at h
        by_cases hout : entry.record.state = .running ∧ entry.record.maxAttempts ≤ entry.record.attempt
        · -- The lease of the last attempt expired: the run fails, and the next candidate is tried.
          rw [if_pos hout] at h
          have hque' : ∀ id ∈ rest.map Prod.snd, ∀ entry' : RunEntry,
              (table.set runId entry (entry.record.exhausted now)).runs[id]? = some entry' →
                entry'.record.queue = queue := by
            intro id hid entry' hget'
            have hne : runId ≠ id := fun heq => hnd.1 (heq ▸ hid)
            rw [set_runs, if_neg hne] at hget'
            exact hque id (List.mem_cons_of_mem _ hid) entry' hget'
          obtain ⟨ids, mid, hids, hsub, hw, hres⟩ := ih hnd.2 hque' h
          have hnew : runId ∉ ids := fun hid => hnd.1 (hsub _ hid)
          refine ⟨runId :: ids, mid, List.nodup_cons.mpr ⟨hnew, hids⟩, ?_,
            .cons ⟨entry, _, hget, .exhausted hout.1, rfl⟩ hw, ?_⟩
          · intro id hid
            rcases List.mem_cons.mp hid with rfl | hid
            · simp
            · exact List.mem_cons_of_mem _ (hsub id hid)
          · refine hres.imp_right ?_
            rintro ⟨id, entry', started', hid, hfree, hrest⟩
            refine ⟨id, entry', started', List.mem_cons_of_mem _ hid, ?_, hrest⟩
            rw [List.mem_cons, not_or]
            exact ⟨fun heq => hnd.1 (heq ▸ hid), hfree⟩
        · rw [if_neg hout] at h
          obtain ⟨rfl, rfl⟩ := Prod.mk.inj h
          exact ⟨[], table, .nil, by simp, .nil _, .inr ⟨runId, entry, started, by simp, by simp, hget,
            hque runId (by simp) entry hget, hstd, hout, rfl, rfl⟩⟩

def RemoveStep (table : RunTable) (runId : String) (table' : RunTable) : Prop :=
  (∀ entry, table.runs[runId]? = some entry → entry.record.state.isTerminal = true) ∧
    table' = table.remove runId

theorem remove_runs (table : RunTable) (runId k : String) :
    (table.remove runId).runs[k]? = if runId = k then none else table.runs[k]? := by
  unfold remove
  cases hget : table.runs[runId]? with
  | none =>
    by_cases hk : runId = k
    · subst hk
      simp [hget]
    · simp [hk]
  | some entry =>
    simp only [Std.ExtTreeMap.getElem?_erase]
    by_cases hk : runId = k
    · simp [hk]
    · simp [hk]

theorem remove_path (ids : List String)
    (h : ∀ id ∈ ids, ∀ entry : RunEntry, table.runs[id]? = some entry → entry.record.state.isTerminal = true) :
    Path RemoveStep table ids (ids.foldl remove table) := by
  induction ids generalizing table with
  | nil => exact .nil _
  | cons id ids ih =>
    refine .cons ⟨h id (by simp), rfl⟩ (ih fun id' hid entry hget => ?_)
    rw [remove_runs] at hget
    by_cases heq : id = id'
    · rw [if_pos heq] at hget
      cases hget
    · rw [if_neg heq] at hget
      exact h id' (List.mem_cons_of_mem _ hid) entry hget

/-- **What a call does to a table.** -/
inductive Effect (now : Utc) (table : RunTable) : RunCall → RunAnswer → RunTable → Prop where
  /-- Some runs are written. -/
  | wrote {call : RunCall} {answer : RunAnswer} {ids : List String} {table' : RunTable} (hids : ids.Nodup)
      (hw : Writes now table ids table') (hidle : answer.idle = true) :
    Effect now table call answer table'
  | created {runId : String} {run : NewRun} {ids : List String} {mid : RunTable} (hvalid : run.validate = .ok ())
      (hnew : table.existing run = none) (hconflict : table.conflict now run = .ok mid) (hids : ids.Nodup)
      (hw : Writes now table ids mid) :
    Effect now table (.enqueue runId run) (.enqueued (.ok (.created (.queued runId run now))))
      (mid.insert now runId run)
  | claimed {queue worker : String} {ttl : Duration} {expiresAt : Utc} {ids : List String} {mid : RunTable}
      {id : String} {entry : RunEntry} {started : Nat} (hids : ids.Nodup) (hw : Writes now table ids mid)
      (hfree : id ∉ ids) (hget : mid.runs[id]? = some entry) (hqueue : entry.record.queue = queue)
      (hstarted : mid.started now queue entry = some started)
      (hleft : ¬(entry.record.state = .running ∧ entry.record.maxAttempts ≤ entry.record.attempt)) :
    Effect now table (.claim queue worker ttl)
      (.claimed (.ok (some { record := entry.record.claimed worker expiresAt now started
                             epoch := entry.record.leaseEpoch + 1 })))
      (mid.set id entry (entry.record.claimed worker expiresAt now started))
  | pruned {finishedBefore : Utc} {ids : List String} {count : Nat} {table' : RunTable}
      (hr : Path RemoveStep table ids table') : Effect now table (.prune finishedBefore) (.pruned count) table'

/-- A call that writes nothing. -/
theorem Effect.idle (hidle : answer.idle = true) : Effect now table call answer table :=
  .wrote .nil (.nil _) hidle

inductive Enqueueing (now : Utc) (table : RunTable) (runId : String) (run : NewRun) :
    Except AdkError Enqueued → RunTable → Prop where
  | invalid {error : AdkError} (hvalid : run.validate = .error error) : Enqueueing now table runId run (.error error) table
  | existing {entry : RunEntry} (hvalid : run.validate = .ok ()) (hexisting : table.existing run = some entry) :
    Enqueueing now table runId run (.ok (.existing entry.record)) table
  | rejected {blockingRunId : String} (hvalid : run.validate = .ok ()) (hexisting : table.existing run = none)
      (hconflict : table.conflict now run = .error blockingRunId) :
    Enqueueing now table runId run (.ok (.rejected blockingRunId)) table
  | created {mid : RunTable} (hvalid : run.validate = .ok ()) (hexisting : table.existing run = none)
      (hconflict : table.conflict now run = .ok mid) :
    Enqueueing now table runId run (.ok (.created (.queued runId run now))) (mid.insert now runId run)

theorem enqueue_cases {run : NewRun} {result : Except AdkError Enqueued}
    (h : table.enqueue now runId run = (result, table')) : Enqueueing now table runId run result table' := by
  unfold enqueue at h
  cases hval : run.validate with
  | error error =>
    rw [hval] at h
    obtain ⟨rfl, rfl⟩ := Prod.mk.inj h
    exact .invalid hval
  | ok u =>
    cases hexist : table.existing run with
    | some entry =>
      simp only [hval, hexist] at h
      obtain ⟨rfl, rfl⟩ := Prod.mk.inj h
      exact .existing hval hexist
    | none =>
      cases hconf : table.conflict now run with
      | error blockingRunId =>
        simp only [hval, hexist, hconf] at h
        obtain ⟨rfl, rfl⟩ := Prod.mk.inj h
        exact .rejected hval hexist hconf
      | ok mid =>
        simp only [hval, hexist, hconf] at h
        obtain ⟨rfl, rfl⟩ := Prod.mk.inj h
        exact .created hval hexist hconf

theorem enqueue_effect {run : NewRun} {result : Except AdkError Enqueued}
    (hkd : table.Keyed) (h : table.enqueue now runId run = (result, table')) :
    Effect now table (.enqueue runId run) (.enqueued result) table' := by
  cases enqueue_cases h with
  | invalid _ => exact .idle rfl
  | existing _ _ => exact .idle rfl
  | rejected _ _ _ => exact .idle rfl
  | created hval hexist hconf =>
    obtain ⟨ids, hids, hw⟩ := conflict_writes hkd hconf
    exact .created hval hexist hconf hids hw

theorem claim_effect {worker : String} {ttl : Duration} {result : Except AdkError (Option ClaimedRun)}
    (hkd : table.Keyed) (h : table.claim now queue worker ttl = (result, table')) :
    Effect now table (.claim queue worker ttl) (.claimed result) table' := by
  unfold claim at h
  cases hdeadline : deadline now ttl runInvalidTtlCode with
  | error error =>
    rw [hdeadline] at h
    obtain ⟨rfl, rfl⟩ := Prod.mk.inj h
    exact .idle rfl
  | ok expiresAt =>
    simp only [hdeadline] at h
    obtain ⟨rfl, rfl⟩ := Prod.mk.inj h
    have hperm := table.candidates_perm queue
    obtain ⟨hnd, hchosen⟩ := hkd.chosen fun entry =>
      entry.record.queue = queue && !entry.record.state.isTerminal
    have hque : ∀ id ∈ (table.candidates queue).map Prod.snd, ∀ entry : RunEntry,
        table.runs[id]? = some entry → entry.record.queue = queue := by
      intro id hid entry hget
      have := hchosen id (hperm.mem_iff.mp hid) entry hget
      simp only [Bool.and_eq_true, decide_eq_true_eq] at this
      exact this.1
    obtain ⟨ids, mid, hids, -, hw, hres⟩ :=
      claimFrom_spec (table.candidates queue) (hperm.nodup_iff.mpr hnd) hque (Prod.mk.eta.symm)
    rcases hres with ⟨hnone, htable⟩ | ⟨id, entry, started, -, hfree, hget, hq, hstd, hleft, hsome, htable⟩
    · rw [hnone, htable]
      exact .wrote hids hw rfl
    · rw [hsome, htable]
      exact .claimed hids hw hfree hget hq hstd hleft

theorem heartbeat_effect {epoch : Nat} {ttl : Duration} {result : Except AdkError Bool}
    (h : table.heartbeat now runId epoch ttl = (result, table')) :
    Effect now table (.heartbeat runId epoch ttl) (.beaten result) table' := by
  unfold heartbeat at h
  cases hdeadline : deadline now ttl runInvalidTtlCode with
  | error error =>
    rw [hdeadline] at h
    obtain ⟨-, rfl⟩ := Prod.mk.inj h
    exact .idle rfl
  | ok expiresAt =>
    simp only [hdeadline] at h
    obtain ⟨ids, hids, hw⟩ := write_writes (fun record hr => .beaten expiresAt hr) h
    exact .wrote hids hw rfl

theorem wake_effect {result : Except AdkError Unit}
    (h : table.wake now runId = (result, table')) : Effect now table (.wake runId) (.done result) table' := by
  unfold wake at h
  cases hget : table.runs[runId]? with
  | none =>
    rw [hget] at h
    obtain ⟨-, rfl⟩ := Prod.mk.inj h
    exact .idle rfl
  | some entry =>
    cases hst : entry.record.state with
    | queued | completed | failed | cancelled =>
      simp only [hget, hst] at h
      obtain ⟨-, rfl⟩ := Prod.mk.inj h
      exact .idle rfl
    | waiting | running =>
      simp only [hget, hst] at h
      obtain ⟨-, rfl⟩ := Prod.mk.inj h
      have hopen : entry.record.state.isTerminal = false := by
        rw [hst]
        rfl
      exact .wrote (List.nodup_singleton runId) (.single ⟨entry, _, hget, .woken hopen, rfl⟩) rfl

theorem requestCancel_effect {result : Except AdkError Unit} (h : table.requestCancel now runId = (result, table')) :
    Effect now table (.requestCancel runId) (.done result) table' := by
  unfold requestCancel at h
  cases hget : table.runs[runId]? with
  | none =>
    rw [hget] at h
    obtain ⟨-, rfl⟩ := Prod.mk.inj h
    exact .idle rfl
  | some entry =>
    simp only [hget] at h
    cases hopen : entry.record.state.isTerminal with
    | true =>
      rw [if_pos hopen] at h
      obtain ⟨-, rfl⟩ := Prod.mk.inj h
      exact .idle rfl
    | false =>
      rw [if_neg (by simp [hopen])] at h
      obtain ⟨-, rfl⟩ := Prod.mk.inj h
      exact .wrote (List.nodup_singleton runId) (.single ⟨entry, _, hget, .interrupted hopen, rfl⟩) rfl

/-- **Every call has an effect.** -/
theorem call_effect (hkd : table.Keyed)
    (h : table.call now call = (answer, table')) : Effect now table call answer table' := by
  cases call with
  | enqueue runId run =>
    obtain ⟨rfl, rfl⟩ := Prod.mk.inj h
    exact enqueue_effect hkd rfl
  | claim queue worker ttl =>
    obtain ⟨rfl, rfl⟩ := Prod.mk.inj h
    exact claim_effect hkd rfl
  | heartbeat runId epoch ttl =>
    obtain ⟨rfl, rfl⟩ := Prod.mk.inj h
    exact heartbeat_effect rfl
  | setCheckpoint runId epoch checkpoint =>
    obtain ⟨rfl, rfl⟩ := Prod.mk.inj h
    obtain ⟨ids, hids, hw⟩ := write_writes (fun record hr => .checkpointed checkpoint hr)
      (Prod.mk.eta.symm : table.setCheckpoint now runId epoch checkpoint = _)
    exact .wrote hids hw rfl
  | wait runId epoch wakeAt =>
    obtain ⟨rfl, rfl⟩ := Prod.mk.inj h
    obtain ⟨ids, hids, hw⟩ := write_writes (fun record hr => .parked wakeAt hr)
      (Prod.mk.eta.symm : table.wait now runId epoch wakeAt = _)
    exact .wrote hids hw rfl
  | finish runId epoch outcome =>
    obtain ⟨rfl, rfl⟩ := Prod.mk.inj h
    obtain ⟨ids, hids, hw⟩ := write_writes (fun record hr => .finished outcome hr)
      (Prod.mk.eta.symm : table.finish now runId epoch outcome = _)
    exact .wrote hids hw rfl
  | wake runId =>
    obtain ⟨rfl, rfl⟩ := Prod.mk.inj h
    exact wake_effect rfl
  | requestCancel runId =>
    obtain ⟨rfl, rfl⟩ := Prod.mk.inj h
    exact requestCancel_effect rfl
  | prune finishedBefore =>
    obtain ⟨rfl, rfl⟩ := Prod.mk.inj h
    refine .pruned (remove_path _ fun id hid entry hget => ?_)
    have := (hkd.chosen _).2 id hid entry hget
    simp only [Bool.and_eq_true] at this
    exact this.1

/-! ## What a call does to one run -/

/-- What a call can do to one place of the table; it adds a run only where `fresh` holds. -/
inductive RunStep (fresh : Prop) (before after : Option RunEntry) : Prop where
  | same (h : after = before)
  | wrote {entry : RunEntry} {record : RunRecord} (hb : before = some entry) (hw : entry.record.Wrote record)
      (ha : after = some { entry with record })
  | claimed {entry : RunEntry} {worker : String} {expiresAt now : Utc} {started : Nat} (hb : before = some entry)
      (hopen : entry.record.state.isTerminal = false)
      (ha : after = some { entry with record := entry.record.claimed worker expiresAt now started })
  | created (hb : before = none) (hfresh : fresh)
  | removed {entry : RunEntry} (hb : before = some entry) (hterminal : entry.record.state.isTerminal = true)
      (ha : after = none)

/-- **Which runs are claimed**: a queued one that nothing blocks, one that waited long enough, and one whose
lease expired. -/
theorem started_cases {started : Nat} (h : table.started now queue entry = some started) :
    (started = 1 ∧ entry.record.state = .queued ∧ table.blocked queue entry = false) ∨
      (started = 0 ∧ entry.record.state = .waiting) ∨
      (started = 1 ∧ entry.record.state = .running ∧
        ∀ at_, entry.record.leaseExpiresAt = some at_ → at_ ≤ now) := by
  unfold RunTable.started at h
  cases hst : entry.record.state with
  | queued =>
    simp only [hst] at h
    by_cases hhold : ((entry.record.notBefore.any fun at_ => now < at_) || table.blocked queue entry) = true
    · rw [if_pos hhold] at h
      cases h
    · rw [if_neg hhold] at h
      simp only [Bool.or_eq_true, not_or, Bool.not_eq_true] at hhold
      exact .inl ⟨(Option.some.inj h).symm, rfl, hhold.2⟩
  | waiting =>
    simp only [hst] at h
    by_cases hhold : (entry.record.notBefore.all fun at_ => now < at_) = true
    · rw [if_pos hhold] at h
      cases h
    · rw [if_neg hhold] at h
      exact .inr (.inl ⟨(Option.some.inj h).symm, rfl⟩)
  | running =>
    simp only [hst] at h
    by_cases hhold : (entry.record.leaseExpiresAt.any fun at_ => now < at_) = true
    · rw [if_pos hhold] at h
      cases h
    · rw [if_neg hhold] at h
      refine .inr (.inr ⟨(Option.some.inj h).symm, rfl, fun at_ hat => ?_⟩)
      rw [hat] at hhold
      exact Int.not_lt.mp (by simpa using hhold)
  | completed | failed | cancelled =>
    simp only [hst] at h
    cases h

theorem unfinished_of_started {started : Nat}
    (h : table.started now queue entry = some started) : entry.record.state.isTerminal = false := by
  rcases started_cases h with ⟨-, hst, -⟩ | ⟨-, hst⟩ | ⟨-, hst, -⟩ <;> rw [hst] <;> rfl

theorem Writes.run (h : Writes now table ids table') (hids : ids.Nodup) (fresh : Prop)
    (id : String) : RunStep fresh table.runs[id]? table'.runs[id]? := by
  by_cases hid : id ∈ ids
  · obtain ⟨entry, record, hget, hwrtn, hget'⟩ := h.once hids hid
    exact .wrote hget hwrtn.wrote hget'
  · exact .same (h.others hid)

theorem remove_path_runs (h : Path RemoveStep table ids table') (id : String) :
    table'.runs[id]? = (if id ∈ ids then none else table.runs[id]?) ∧
      (id ∈ ids → ∀ entry, table.runs[id]? = some entry → entry.record.state.isTerminal = true) := by
  induction h with
  | nil => simp
  | @cons s t u id' ids hs rest ih =>
    obtain ⟨hterm, rfl⟩ := hs
    obtain ⟨hruns, hfin⟩ := ih
    rw [remove_runs] at hruns hfin
    by_cases hid : id' = id
    · subst hid
      exact ⟨by simpa using hruns, fun _ entry hget => hterm entry hget⟩
    · rw [if_neg hid] at hruns hfin
      simpa [Ne.symm hid] using ⟨hruns, hfin⟩

/-- **What a call does to one run.** -/
theorem Effect.run (h : Effect now table call answer table')
    (hfr : ∀ runId run, call = .enqueue runId run → table.runs[runId]? = none) (id : String) :
    RunStep (∃ run, call = .enqueue id run) table.runs[id]? table'.runs[id]? := by
  cases h with
  | wrote hids hw _ => exact hw.run hids _ id
  | @created runId run ids mid _ _ _ hids hw =>
    by_cases hid : runId = id
    · subst hid
      exact .created (hfr runId run rfl) ⟨run, rfl⟩
    · have hoth : (mid.insert now runId run).runs[id]? = mid.runs[id]? := by
        unfold insert
        rw [Std.ExtTreeMap.getElem?_insert]
        simp [hid]
      rw [hoth]
      exact hw.run hids _ id
  | @claimed queue worker ttl expiresAt ids mid id' entry started hids hw hfree hget _ hstd _ =>
    by_cases hid : id' = id
    · subst hid
      have hset := mid.set_runs id' entry (entry.record.claimed worker expiresAt now started) id'
      rw [if_pos rfl] at hset
      exact .claimed ((hw.others hfree).symm.trans hget) (unfinished_of_started hstd) hset
    · rw [set_runs, if_neg hid]
      exact hw.run hids _ id
  | @pruned _ ids _ _ hr =>
    obtain ⟨hruns, hfin⟩ := remove_path_runs hr id
    by_cases hid : id ∈ ids
    · rw [if_pos hid] at hruns
      cases hget : table.runs[id]? with
      | none => exact .same hruns
      | some entry => exact .removed rfl (hfin hid entry hget) hruns
    · rw [if_neg hid] at hruns
      exact .same hruns

end RunTable

end Adk
