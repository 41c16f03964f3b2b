import AdkRust.Runs.Moves

/-!
# A fenced worker cannot write

A run of the store is any sequence of its calls, at any readings of the clock, in which the identifier of a
new run is new (`QueueRun.Step`). Beside the table it keeps which identifiers were generated and what was
claimed. The invariant (`Sound`) says of every run of the table what its counters count; `workers_fenced`
follows from it and from what one call does to one run (`RunTable.RunStep`).
-/

namespace Adk

structure RunClaim where
  /-- The run as it was before the claim. -/
  before : RunRecord
  /-- The reading of the clock. -/
  now : Utc
  epoch : Nat

structure QueueRun where
  table : RunTable := {}
  /-- The identifiers generated so far. -/
  issued : List String := []
  claims : List RunClaim := []

/-- The identifiers that a call generates. -/
def RunCall.issues : RunCall → List String
  | .enqueue runId _ => [runId]
  | _ => []

def RunCall.writes : RunCall → Option (String × Nat)
  | .heartbeat runId epoch _ | .setCheckpoint runId epoch _ | .wait runId epoch _ | .finish runId epoch _ =>
    some (runId, epoch)
  | _ => none

def RunAnswer.failed : RunAnswer → Bool
  | .enqueued (.error _) | .claimed (.error _) | .beaten (.error _) | .done (.error _)
  | .finished (.error _) => true
  | _ => false

namespace QueueRun

/-- The claim that a call granted. -/
def claimOf (table : RunTable) (now : Utc) : RunAnswer → Option RunClaim
  | .claimed (.ok (some claimed)) =>
    table.runs[claimed.record.runId]?.map fun entry => { before := entry.record, now, epoch := claimed.epoch }
  | _ => none

inductive Step (r : QueueRun) : QueueRun → Prop where
  | call {now : Utc} {call : RunCall} {answer : RunAnswer} {table : RunTable}
      (hfresh : ∀ runId ∈ call.issues, runId ∉ r.issued) (h : r.table.call now call = (answer, table)) :
    Step r {
      table
      issued := call.issues ++ r.issued
      claims := r.claims ++ (claimOf r.table now answer).toList }

abbrev Reaches (r : QueueRun) : Prop := Relation.ReflTransGen Step {} r

def claimsOf (r : QueueRun) (runId : String) : List RunClaim := r.claims.filter fun c => c.before.runId = runId

def attemptsOf (r : QueueRun) (runId : String) : List RunClaim :=
  (r.claimsOf runId).filter fun c => c.before.state ≠ .waiting

/-! ## The invariant -/

/-- What the table says of a run. -/
structure Good (r : QueueRun) (id : String) (entry : RunEntry) : Prop where
  runId : entry.record.runId = id
  issued : id ∈ r.issued
  bounded : entry.record.attempt ≤ entry.record.maxAttempts
  queued : entry.record.state = .queued → entry.record.attempt < entry.record.maxAttempts
  epochs : (r.claimsOf id).map RunClaim.epoch = List.range' 1 entry.record.leaseEpoch
  counted : entry.record.attempt = (r.attemptsOf id).length
  key : ∀ key, entry.record.idempotencyKey = some key →
    r.table.byIdempotencyKey entry.record.queue key = some id

/-- What every call keeps. -/
structure Sound (r : QueueRun) : Prop where
  good : ∀ (id : String) (entry : RunEntry), r.table.runs[id]? = some entry → Good r id entry
  issued : ∀ c ∈ r.claims, c.before.runId ∈ r.issued
  rising : ∀ id, ((r.claimsOf id).map RunClaim.epoch).Pairwise (· < ·)
  from_ : ∀ c ∈ r.claims, c.before.state = .queued ∨ c.before.state = .waiting ∨
    c.before.state = .running ∧ ∀ at_, c.before.leaseExpiresAt = some at_ → at_ ≤ c.now

variable {r r' : QueueRun} {now : Utc} {table mid : RunTable}

theorem Sound.keyed (h : Sound r) : r.table.Keyed := fun id entry hget => (h.good id entry hget).runId

variable {id : String} {entry : RunEntry} {ids : List String}

theorem Good.write {record : RunRecord} (h : Good r id entry)
    (hw : entry.record.Wrote record) : Good r id { entry with record } where
  runId := hw.runId.trans h.runId
  issued := h.issued
  bounded := by
    show record.attempt ≤ record.maxAttempts
    rw [hw.attempt, hw.maxAttempts]
    exact h.bounded
  queued := by
    intro hqd
    show record.attempt < record.maxAttempts
    rw [hw.attempt, hw.maxAttempts]
    rcases hw.state with hsame | hterm | ⟨-, hwait | ⟨-, hlt⟩⟩
    · exact h.queued (hsame.symm.trans hqd)
    · rw [show record.state = .queued from hqd] at hterm
      cases hterm
    · rw [show record.state = .queued from hqd] at hwait
      cases hwait
    · exact hlt
  epochs := by
    show _ = List.range' 1 record.leaseEpoch
    rw [hw.leaseEpoch]
    exact h.epochs
  counted := hw.attempt.trans h.counted
  key := by
    intro key hkey
    show r.table.byIdempotencyKey record.queue key = some id
    rw [hw.queue]
    exact h.key key (hw.idempotencyKey.symm.trans hkey)

/-- A table whose keys are the same says the same of a run. -/
theorem Good.rekey (h : Good r id entry)
    (hkey : table.byIdempotencyKey = r.table.byIdempotencyKey) : Good { r with table } id entry :=
  { h with
    key := by
      intro key hk
      show table.byIdempotencyKey _ _ = _
      rw [hkey]
      exact h.key key hk }

theorem Sound.writes (h : Sound r) (hids : ids.Nodup)
    (hw : RunTable.Writes now r.table ids table) : Sound { r with table } := by
  refine { h with good := fun id entry hget => ?_ }
  have hkey := hw.byIdempotencyKey
  by_cases hid : id ∈ ids
  · obtain ⟨entry', record, hget', hwrtn, hres⟩ := hw.once hids hid
    obtain rfl := Option.some.inj (hres.symm.trans hget)
    exact ((h.good id entry' hget').write hwrtn.wrote).rekey hkey
  · have hget' : r.table.runs[id]? = some entry := (hw.others hid).symm.trans hget
    exact (h.good id entry hget').rekey hkey

/-- Generating identifiers changes nothing. -/
theorem Sound.issue (h : Sound r) (ids : List String) : Sound { r with issued := ids ++ r.issued } :=
  { h with
    good := fun id entry hget =>
      { h.good id entry hget with issued := List.mem_append_right _ (h.good id entry hget).issued }
    issued := fun c hc => List.mem_append_right _ (h.issued c hc) }

theorem validate_maxAttempts {run : NewRun} (h : run.validate = .ok ()) : run.maxAttempts ≠ 0 := by
  intro hzero
  unfold NewRun.validate at h
  dsimp only at h
  split at h
  · cases h
  · rw [if_pos hzero] at h
    cases h

theorem claimsOf_nil (h : Sound r) (hfr : id ∉ r.issued) : r.claimsOf id = [] := by
  refine List.filter_eq_nil_iff.mpr fun c hc => ?_
  have hne : c.before.runId ≠ id := fun heq => hfr (heq ▸ h.issued c hc)
  simp [hne]

theorem Sound.created (h : Sound r) {runId : String} {run : NewRun} (hfr : runId ∉ r.issued)
    (hval : run.validate = .ok ()) (hnew : r.table.existing run = none) :
    Sound { r with table := r.table.insert now runId run, issued := runId :: r.issued } := by
  have hclaims := claimsOf_nil h hfr
  refine { h.issue [runId] with good := fun id entry hget => ?_ }
  have hget' : (r.table.runs.insert runId { record := .queued runId run now, seq := r.table.nextSeq })[id]? =
      some entry := hget
  rw [Std.ExtTreeMap.getElem?_insert] at hget'
  by_cases hid : runId = id
  · subst hid
    rw [if_pos (by simp)] at hget'
    obtain rfl := Option.some.inj hget'
    have hpos : 0 < run.maxAttempts := Nat.pos_of_ne_zero (validate_maxAttempts hval)
    refine ⟨rfl, by simp, Nat.zero_le _, fun _ => hpos, ?_, ?_, fun key hk => ?_⟩
    · show (r.claimsOf runId).map _ = _
      rw [hclaims]
      rfl
    · show 0 = ((r.claimsOf runId).filter _).length
      rw [hclaims]
      rfl
    · have hk' : run.idempotencyKey = some key := hk
      show (r.table.insert now runId run).byIdempotencyKey run.queue key = _
      unfold RunTable.insert
      rw [hk']
      simp
  · rw [if_neg (by simpa using hid)] at hget'
    have hgood := (h.issue [runId]).good id entry hget'
    refine { hgood with key := fun key hk => ?_ }
    have hkey := hgood.key key hk
    show (r.table.insert now runId run).byIdempotencyKey _ _ = _
    unfold RunTable.insert
    cases hrun : run.idempotencyKey with
    | none => exact hkey
    | some key' =>
      dsimp only
      by_cases hsame : entry.record.queue = run.queue ∧ key = key'
      · -- The key would have been found.
        obtain ⟨hque, rfl⟩ := hsame
        have hfnd : r.table.existing run = some entry := by
          unfold RunTable.existing
          have hkey' : r.table.byIdempotencyKey run.queue key = some id := hque ▸ hkey
          simp only [hrun, Option.bind_eq_bind, Option.bind_some, hkey']
          exact hget'
        rw [hnew] at hfnd
        cases hfnd
      · rw [if_neg hsame]
        exact hkey

def grant (r : QueueRun) (id : String) (entry : RunEntry) (worker : String) (expiresAt now : Utc)
    (started : Nat) : QueueRun :=
  { r with
    table := r.table.set id entry (entry.record.claimed worker expiresAt now started)
    claims := r.claims ++ [{ before := entry.record, now, epoch := entry.record.leaseEpoch + 1 }] }

section

variable {id id' : String} {entry : RunEntry} {queue worker : String} {expiresAt : Utc} {started : Nat}

theorem grant_claimsOf (hid : entry.record.runId = id) (id' : String) :
    (r.grant id entry worker expiresAt now started).claimsOf id' = r.claimsOf id' ++
      if id = id' then [{ before := entry.record, now, epoch := entry.record.leaseEpoch + 1 }] else [] := by
  unfold claimsOf grant
  rw [List.filter_append]
  by_cases heq : id = id'
  · simp [heq, hid]
  · simp [heq, hid]

theorem grant_attemptsOf (hid : entry.record.runId = id) :
    ((r.grant id entry worker expiresAt now started).attemptsOf id).length =
      (r.attemptsOf id).length + if entry.record.state = .waiting then 0 else 1 := by
  unfold attemptsOf
  rw [grant_claimsOf hid, if_pos rfl, List.filter_append, List.length_append]
  by_cases hw : entry.record.state = .waiting
  · simp [hw]
  · simp [hw]

theorem Good.attempt_le (h : Good r id entry) (hstd : r.table.started now queue entry = some started)
    (hleft : ¬(entry.record.state = .running ∧ entry.record.maxAttempts ≤ entry.record.attempt)) :
    started = (if entry.record.state = .waiting then 0 else 1) ∧
      entry.record.attempt + started ≤ entry.record.maxAttempts := by
  have hbounded := h.bounded
  rcases RunTable.started_cases hstd with ⟨rfl, hst, -⟩ | ⟨rfl, hst⟩ | ⟨rfl, hst, -⟩
  · have := h.queued hst
    exact ⟨by simp [hst], by omega⟩
  · exact ⟨by simp [hst], by omega⟩
  · have : ¬entry.record.maxAttempts ≤ entry.record.attempt := fun hle => hleft ⟨hst, hle⟩
    exact ⟨by simp [hst], by omega⟩

theorem Sound.claimed (h : Sound r) (hget : r.table.runs[id]? = some entry)
    (hstd : r.table.started now queue entry = some started)
    (hleft : ¬(entry.record.state = .running ∧ entry.record.maxAttempts ≤ entry.record.attempt)) :
    Sound (r.grant id entry worker expiresAt now started) := by
  have hgood := h.good id entry hget
  obtain ⟨hsta, hle⟩ := hgood.attempt_le hstd hleft
  -- The epochs of the run that is claimed go on by one.
  have hepochs : ((r.grant id entry worker expiresAt now started).claimsOf id).map RunClaim.epoch =
      List.range' 1 (entry.record.leaseEpoch + 1) := by
    rw [grant_claimsOf hgood.runId, if_pos rfl, List.map_append, hgood.epochs, List.range'_1_concat,
      Nat.add_comm 1]
    rfl
  constructor
  case good =>
    intro id' entry' hget'
    have hruns : (r.table.set id entry (entry.record.claimed worker expiresAt now started)).runs[id']? =
        some entry' := hget'
    rw [RunTable.set_runs] at hruns
    by_cases hid : id = id'
    · subst hid
      rw [if_pos rfl] at hruns
      obtain rfl := Option.some.inj hruns
      refine ⟨hgood.runId, hgood.issued, hle, fun hq => RunState.noConfusion hq, hepochs, ?_, hgood.key⟩
      rw [grant_attemptsOf hgood.runId, ← hgood.counted, ← hsta]
      rfl
    · rw [if_neg hid] at hruns
      have hgood' := h.good id' entry' hruns
      have hsame : (r.grant id entry worker expiresAt now started).claimsOf id' = r.claimsOf id' := by
        rw [grant_claimsOf hgood.runId, if_neg hid, List.append_nil]
      refine { hgood' with epochs := ?_, counted := ?_, key := hgood'.key }
      · rw [hsame]
        exact hgood'.epochs
      · unfold attemptsOf
        rw [hsame]
        exact hgood'.counted
  case issued =>
    intro c hc
    rcases List.mem_append.mp hc with hc | hc
    · exact h.issued c hc
    · rw [List.mem_singleton.mp hc]
      show entry.record.runId ∈ r.issued
      rw [hgood.runId]
      exact hgood.issued
  case rising =>
    intro id'
    by_cases hid : id = id'
    · subst hid
      rw [hepochs]
      exact List.pairwise_lt_range'
    · rw [grant_claimsOf hgood.runId, if_neg hid, List.append_nil]
      exact h.rising id'
  case from_ =>
    intro c hc
    rcases List.mem_append.mp hc with hc | hc
    · exact h.from_ c hc
    · rw [List.mem_singleton.mp hc]
      rcases RunTable.started_cases hstd with ⟨-, hst, -⟩ | ⟨-, hst⟩ | ⟨-, hst, hexpired⟩
      · exact .inl hst
      · exact .inr (.inl hst)
      · exact .inr (.inr ⟨hst, hexpired⟩)

end

/-- A call that claims nothing and adds no run. -/
theorem Sound.removed (h : Sound r)
    (hr : Path RunTable.RemoveStep r.table ids table) : Sound { r with table } := by
  refine hr.inv (P := fun table => Sound { r with table }) ?_ h
  rintro t id t' hs ⟨-, rfl⟩
  refine { hs with good := fun id' entry hget => ?_ }
  have hget' : (t.remove id).runs[id']? = some entry := hget
  rw [RunTable.remove_runs] at hget'
  by_cases hid : id = id'
  · rw [if_pos hid] at hget'
    cases hget'
  · rw [if_neg hid] at hget'
    have hgood := hs.good id' entry hget'
    refine { hgood with key := fun key hk => ?_ }
    have hkey : t.byIdempotencyKey entry.record.queue key = some id' := hgood.key key hk
    show (t.remove id).byIdempotencyKey entry.record.queue key = some id'
    unfold RunTable.remove
    cases hgone : t.runs[id]? with
    | none => exact hkey
    | some gone =>
      dsimp only
      cases hgkey : gone.record.idempotencyKey with
      | none => exact hkey
      | some key' =>
        dsimp only
        by_cases hsame : entry.record.queue = gone.record.queue ∧ key = key'
        · -- Two runs of one key would be the same run.
          obtain ⟨hque, rfl⟩ := hsame
          have hgone' : t.byIdempotencyKey gone.record.queue key = some id := (hs.good id gone hgone).key key hgkey
          rw [hque, hgone'] at hkey
          exact absurd (Option.some.inj hkey) hid
        · rw [if_neg hsame]
          exact hkey

theorem existing_writes {run : NewRun} (hw : RunTable.Writes now table ids mid)
    (h : table.existing run = none) : mid.existing run = none := by
  unfold RunTable.existing at h ⊢
  rw [hw.byIdempotencyKey]
  cases hkey : run.idempotencyKey with
  | none => rfl
  | some key =>
    cases hid : table.byIdempotencyKey run.queue key with
    | none => simp [hid]
    | some id =>
      simp only [hkey, hid, Option.bind_eq_bind, Option.bind_some] at h ⊢
      cases hget : mid.runs[id]? with
      | none => rfl
      | some entry =>
        obtain ⟨entry', hget', -⟩ := hw.back hget
        rw [hget'] at h
        cases h

theorem claimOf_idle {answer : RunAnswer} (h : answer.idle = true) : claimOf table now answer = none := by
  cases answer with
  | claimed result =>
    cases result with
    | error error => rfl
    | ok claimed =>
      cases claimed with
      | none => rfl
      | some claimed => cases h
  | enqueued | beaten | done | finished | pruned => rfl

theorem Sound.step (h : Sound r) (hs : Step r r') : Sound r' := by
  obtain ⟨hfr, hcall⟩ := hs
  rename_i now call answer table
  cases RunTable.call_effect h.keyed hcall with
  | wrote hids hw hidle =>
    rw [claimOf_idle hidle, Option.toList_none, List.append_nil]
    exact (h.writes hids hw).issue call.issues
  | @created runId run ids mid hval hnew hconf hids hw =>
    have hfree : runId ∉ r.issued := hfr runId (by simp [RunCall.issues])
    show Sound { table := mid.insert now runId run, issued := runId :: r.issued, claims := r.claims ++ [] }
    rw [List.append_nil]
    exact (h.writes hids hw).created hfree hval (existing_writes hw hnew)
  | @claimed queue worker ttl expiresAt ids mid id entry started hids hw hfree hget hque hstd hleft =>
    have hmid := h.writes hids hw
    have hbef : r.table.runs[entry.record.runId]? = some entry := by
      rw [(hmid.good id entry hget).runId, ← hget]
      exact (hw.others hfree).symm
    have hclaim : claimOf r.table now (.claimed (.ok (some {
        record := entry.record.claimed worker expiresAt now started
        epoch := entry.record.leaseEpoch + 1 }))) =
        some { before := entry.record, now, epoch := entry.record.leaseEpoch + 1 } := by
      show (r.table.runs[entry.record.runId]?.map _) = _
      rw [hbef]
      rfl
    rw [hclaim]
    exact hmid.claimed hget hstd hleft
  | pruned hr =>
    show Sound { table := table, issued := r.issued, claims := r.claims ++ [] }
    rw [List.append_nil]
    exact h.removed hr

theorem Reaches.sound (h : Reaches r) : Sound r := by
  induction h with
  | refl =>
    constructor
    case good =>
      intro id entry hget
      simp at hget
    all_goals simp [claimsOf]
  | tail _ hs ih => exact ih.step hs

/-! ## Workers are fenced -/

theorem Sound.run (h : Sound r) (hs : Step r r') (id : String) :
    RunTable.RunStep (id ∉ r.issued) r.table.runs[id]? r'.table.runs[id]? := by
  obtain ⟨hfr, hcall⟩ := hs
  have hrun := (RunTable.call_effect h.keyed hcall).run (fun runId run heq => ?_) id
  · cases hrun with
    | same h => exact .same h
    | wrote hb hw ha => exact .wrote hb hw ha
    | claimed hb hopen ha => exact .claimed hb hopen ha
    | removed hb hterm ha => exact .removed hb hterm ha
    | created hb hnew =>
      obtain ⟨run, rfl⟩ := hnew
      exact .created hb (hfr id (by simp [RunCall.issues]))
  cases hget : r.table.runs[runId]? with
  | none => rfl
  | some entry => exact absurd (h.good runId entry hget).issued (hfr runId (by simp [heq, RunCall.issues]))

theorem write_refused {call : RunCall} {epoch : Nat} (hwrs : call.writes = some (id, epoch))
    (h : ∀ entry, table.runs[id]? = some entry → entry.record.state = .running → entry.record.leaseEpoch ≠ epoch) :
    (table.call now call).1.failed = true ∧ (table.call now call).2 = table := by
  have hwrite : ∀ {α : Type} (f : RunRecord → RunRecord) (answer : RunRecord → α), ∃ error,
      table.write id epoch f answer = (.error error, table) := by
    intro α f answer
    rcases table.write_spec id epoch f answer with herr | ⟨entry, hget, hrun, hep, -⟩
    · exact herr
    · exact absurd hep (h entry hget hrun)
  cases call with
  | heartbeat runId epoch' ttl =>
    obtain ⟨rfl, rfl⟩ := Prod.mk.inj (Option.some.inj hwrs)
    show RunAnswer.failed (.beaten (table.heartbeat now runId epoch' ttl).1) = true ∧
      (table.heartbeat now runId epoch' ttl).2 = table
    unfold RunTable.heartbeat
    cases deadline now ttl runInvalidTtlCode with
    | error error => exact ⟨rfl, rfl⟩
    | ok expiresAt =>
      obtain ⟨error, he⟩ := hwrite (·.beaten expiresAt now) (·.cancelRequested)
      simp only [he]
      exact ⟨rfl, trivial⟩
  | setCheckpoint runId epoch' checkpoint =>
    obtain ⟨rfl, rfl⟩ := Prod.mk.inj (Option.some.inj hwrs)
    obtain ⟨error, he⟩ := hwrite (·.checkpointed checkpoint now) fun _ => ()
    simp only [RunTable.call, RunTable.setCheckpoint, he]
    exact ⟨rfl, rfl⟩
  | wait runId epoch' wakeAt =>
    obtain ⟨rfl, rfl⟩ := Prod.mk.inj (Option.some.inj hwrs)
    obtain ⟨error, he⟩ := hwrite (·.parked wakeAt now) fun _ => ()
    simp only [RunTable.call, RunTable.wait, he]
    exact ⟨rfl, rfl⟩
  | finish runId epoch' outcome =>
    obtain ⟨rfl, rfl⟩ := Prod.mk.inj (Option.some.inj hwrs)
    obtain ⟨error, he⟩ := hwrite (·.finished outcome now) id
    simp only [RunTable.call, RunTable.finish, he]
    exact ⟨rfl, rfl⟩
  | enqueue | claim | wake | requestCancel | prune => cases hwrs

/-- What is kept of a run, or it was removed for good. -/
structure Kept (r r' : QueueRun) (id : String) (entry : RunEntry) : Prop where
  issued : id ∈ r'.issued
  run : ∀ entry', r'.table.runs[id]? = some entry' →
    entry.record.SameRun entry'.record ∧ entry.record.leaseEpoch ≤ entry'.record.leaseEpoch ∧
      (entry.record.state.isTerminal = true → entry'.record = entry.record) ∧
      (entry.record.state ≠ .running → entry'.record.state = .running →
        entry.record.leaseEpoch < entry'.record.leaseEpoch)

theorem Kept.step {r₀ : QueueRun} (hsnd : Sound r)
    (h : Kept r₀ r id entry) (hs : Step r r') : Kept r₀ r' id entry where
  issued := by
    obtain ⟨-, -⟩ := hs
    exact List.mem_append_right _ h.issued
  run := by
    intro entry' hget'
    cases hsnd.run hs id with
    | same heq =>
      rw [heq] at hget'
      exact h.run entry' hget'
    | @wrote e record hb hw ha =>
      obtain rfl := Option.some.inj (ha.symm.trans hget')
      obtain ⟨hsame, hle, hterm, hleft⟩ := h.run e hb
      refine ⟨⟨hw.runId.trans hsame.runId, hw.queue.trans hsame.queue,
        hw.idempotencyKey.trans hsame.idempotencyKey, hw.concurrencyKey.trans hsame.concurrencyKey,
        hw.maxAttempts.trans hsame.maxAttempts, hw.createdAt.trans hsame.createdAt⟩, ?_, fun ht => ?_, ?_⟩
      · show entry.record.leaseEpoch ≤ record.leaseEpoch
        rw [hw.leaseEpoch]
        exact hle
      · have hopen := hw.unfinished
        rw [hterm ht, ht] at hopen
        cases hopen
      · intro hnot hrun
        have hrun' : record.state = .running := hrun
        show entry.record.leaseEpoch < record.leaseEpoch
        rw [hw.leaseEpoch]
        rcases hw.state with hst | hfinal | ⟨-, hwait | ⟨hqd, -⟩⟩
        · exact hleft hnot (hst.symm.trans hrun')
        · rw [hrun'] at hfinal
          cases hfinal
        · rw [hrun'] at hwait
          cases hwait
        · rw [hrun'] at hqd
          cases hqd
    | @claimed e worker expiresAt now started hb hopen ha =>
      obtain rfl := Option.some.inj (ha.symm.trans hget')
      obtain ⟨hsame, hle, hterm, -⟩ := h.run e hb
      refine ⟨⟨hsame.runId, hsame.queue, hsame.idempotencyKey, hsame.concurrencyKey, hsame.maxAttempts,
        hsame.createdAt⟩, Nat.le_succ_of_le hle, fun ht => ?_, fun _ _ => Nat.lt_succ_of_le hle⟩
      rw [hterm ht, ht] at hopen
      cases hopen
    | created hb hfree => exact absurd h.issued hfree
    | removed hb hterm ha =>
      rw [ha] at hget'
      cases hget'

theorem Sound.kept (h : Sound r) (hrea : Relation.ReflTransGen Step r r')
    (hget : r.table.runs[id]? = some entry) : Sound r' ∧ Kept r r' id entry := by
  induction hrea with
  | refl =>
    refine ⟨h, (h.good id entry hget).issued, fun entry' hget' => ?_⟩
    obtain rfl := Option.some.inj (hget.symm.trans hget')
    exact ⟨⟨rfl, rfl, rfl, rfl, rfl, rfl⟩, Nat.le_refl _, fun _ => rfl, fun hnot hrun => absurd hrun hnot⟩
  | tail _ hs ih => exact ⟨ih.1.step hs, ih.2.step ih.1 hs⟩

/-- What a store promises at any moment. -/
structure Fenced (r : QueueRun) : Prop where
  /-- Every claim of a run returns a larger epoch than the claims before it. -/
  rising : ∀ id, ((r.claimsOf id).map RunClaim.epoch).Pairwise (· < ·)
  /-- The epoch of a run is that of its latest claim. -/
  latest : ∀ (id : String) (entry : RunEntry), r.table.runs[id]? = some entry →
    entry.record.leaseEpoch = ((r.claimsOf id).map RunClaim.epoch).getLast?.getD 0
  refused : ∀ (now : Utc) (call : RunCall) (id : String) (epoch : Nat), call.writes = some (id, epoch) →
    (∀ entry, r.table.runs[id]? = some entry → entry.record.state = .running →
      entry.record.leaseEpoch ≠ epoch) →
    (r.table.call now call).1.failed = true ∧ (r.table.call now call).2 = r.table
  bounded : ∀ (id : String) (entry : RunEntry), r.table.runs[id]? = some entry →
    entry.record.attempt ≤ entry.record.maxAttempts
  counted : ∀ (id : String) (entry : RunEntry), r.table.runs[id]? = some entry →
    entry.record.attempt = (r.attemptsOf id).length
  from_ : ∀ c ∈ r.claims, c.before.state = .queued ∨ c.before.state = .waiting ∨
    c.before.state = .running ∧ ∀ at_, c.before.leaseExpiresAt = some at_ → at_ ≤ c.now
  unique : ∀ (id id' : String) (entry entry' : RunEntry) (key : String), r.table.runs[id]? = some entry →
    r.table.runs[id']? = some entry' → entry.record.queue = entry'.record.queue →
    entry.record.idempotencyKey = some key → entry'.record.idempotencyKey = some key → id = id'
  existing : ∀ (id : String) (entry : RunEntry) (now : Utc) (runId : String) (run : NewRun) (key : String),
    r.table.runs[id]? = some entry → entry.record.queue = run.queue →
    entry.record.idempotencyKey = some key → run.idempotencyKey = some key →
    (r.table.enqueue now runId run).2 = r.table ∧
      ∀ enqueued, (r.table.enqueue now runId run).1 = .ok enqueued → enqueued = .existing entry.record
  created : ∀ (now : Utc) (runId : String) (run : NewRun) (record : RunRecord) (table : RunTable),
    r.table.enqueue now runId run = (.ok (.created record), table) →
    record.queue = run.queue ∧ record.idempotencyKey = run.idempotencyKey ∧
      ∃ seq, table.runs[runId]? = some { record, seq }

structure OneCall (r r' : QueueRun) : Prop where
  revision : ∀ (id : String) (entry entry' : RunEntry), r.table.runs[id]? = some entry →
    r'.table.runs[id]? = some entry' →
    entry'.record = entry.record ∨ entry'.record.revision = entry.record.revision + 1

structure Later (r r' : QueueRun) : Prop where
  same : ∀ (id : String) (entry entry' : RunEntry), r.table.runs[id]? = some entry →
    r'.table.runs[id]? = some entry' → entry.record.SameRun entry'.record
  epoch : ∀ (id : String) (entry entry' : RunEntry), r.table.runs[id]? = some entry →
    r'.table.runs[id]? = some entry' → entry.record.leaseEpoch ≤ entry'.record.leaseEpoch
  terminal : ∀ (id : String) (entry entry' : RunEntry), r.table.runs[id]? = some entry →
    r'.table.runs[id]? = some entry' → entry.record.state.isTerminal = true → entry'.record = entry.record
  left : ∀ (id : String) (entry : RunEntry) (now : Utc) (call : RunCall) (epoch : Nat),
    r.table.runs[id]? = some entry → call.writes = some (id, epoch) →
    epoch < entry.record.leaseEpoch ∨ epoch = entry.record.leaseEpoch ∧ entry.record.state ≠ .running →
    (r'.table.call now call).1.failed = true ∧ (r'.table.call now call).2 = r'.table

theorem existing_of_key (h : Sound r) {run : NewRun} {key : String}
    (hget : r.table.runs[id]? = some entry) (hque : entry.record.queue = run.queue)
    (hkey : entry.record.idempotencyKey = some key) (hrun : run.idempotencyKey = some key) :
    r.table.existing run = some entry := by
  have hid := (h.good id entry hget).key key hkey
  rw [hque] at hid
  unfold RunTable.existing
  simp only [hrun, Option.bind_eq_bind, Option.bind_some, hid]
  exact hget

theorem Sound.fenced (h : Sound r) : Fenced r where
  rising := h.rising
  latest := by
    intro id entry hget
    rw [(h.good id entry hget).epochs]
    cases hn : entry.record.leaseEpoch with
    | zero => rfl
    | succ n =>
      rw [List.range'_1_concat, List.getLast?_append]
      simp [Nat.add_comm]
  refused := fun _ _ _ _ hwrs hno => write_refused hwrs hno
  bounded := fun id entry hget => (h.good id entry hget).bounded
  counted := fun id entry hget => (h.good id entry hget).counted
  from_ := h.from_
  unique := by
    intro id id' entry entry' key hget hget' hque hkey hkey'
    have hid := (h.good id entry hget).key key hkey
    have hid' := (h.good id' entry' hget').key key hkey'
    rw [hque, hid'] at hid
    exact (Option.some.inj hid).symm
  existing := by
    intro id entry now runId run key hget hque hkey hrun
    have hexist := existing_of_key h hget hque hkey hrun
    unfold RunTable.enqueue
    cases hval : run.validate with
    | error error => exact ⟨rfl, fun enqueued he => by cases he⟩
    | ok u =>
      simp only [hexist]
      exact ⟨trivial, fun enqueued he => (Except.ok.inj he).symm⟩
  created := by
    intro now runId run record table hcr
    cases RunTable.enqueue_cases hcr with
    | @created mid _ _ _ =>
      refine ⟨rfl, rfl, mid.nextSeq, ?_⟩
      unfold RunTable.insert
      simp

/-- **A fenced worker cannot write**, whatever the calls, the workers and the readings of the clock. -/
theorem workers_fenced (h : Reaches r) : Fenced r ∧ (∀ r', Step r r' → OneCall r r') ∧
    ∀ r', Relation.ReflTransGen Step r r' → Later r r' := by
  have hsound := h.sound
  refine ⟨hsound.fenced, fun r' hs => ⟨fun id entry entry' hget hget' => ?_⟩, fun r' hreach => ?_⟩
  · have hrun := hsound.run hs id
    rw [hget, hget'] at hrun
    cases hrun with
    | same heq =>
      obtain rfl := Option.some.inj heq
      exact .inl rfl
    | wrote hb hw ha =>
      obtain rfl := Option.some.inj hb
      obtain rfl := Option.some.inj ha
      exact .inr hw.revision
    | claimed hb hopen ha =>
      obtain rfl := Option.some.inj hb
      obtain rfl := Option.some.inj ha
      exact .inr rfl
    | created hb => cases hb
    | removed hb hterminal ha => cases ha
  · have hkept : ∀ (id : String) (entry : RunEntry), r.table.runs[id]? = some entry →
        Kept r r' id entry := fun id entry hget => (hsound.kept hreach hget).2
    constructor
    case same => exact fun id entry entry' hget hget' => ((hkept id entry hget).run entry' hget').1
    case epoch => exact fun id entry entry' hget hget' => ((hkept id entry hget).run entry' hget').2.1
    case terminal => exact fun id entry entry' hget hget' => ((hkept id entry hget).run entry' hget').2.2.1
    case left =>
      intro id entry now call epoch hget hwrites hleft
      refine write_refused hwrites fun entry' hget' hrun heq => ?_
      obtain ⟨-, hle, -, hlt⟩ := (hkept id entry hget).run entry' hget'
      rcases hleft with hold | ⟨hsame, hnot⟩
      · omega
      · have := hlt hnot hrun
        omega

/-- **Revisions tell the versions of a run apart**, between any two moments: they do not go down, they are equal only where
nothing changed, and each claim took one. -/
theorem revisions_tell (h : Reaches r) (hreach : Relation.ReflTransGen Step r r') (hget : r.table.runs[id]? = some entry) :
    ∀ entry', r'.table.runs[id]? = some entry' →
      (entry'.record = entry.record ∨ entry.record.revision < entry'.record.revision) ∧
        entry'.record.leaseEpoch + entry.record.revision ≤ entry.record.leaseEpoch + entry'.record.revision := by
  induction hreach with
  | refl =>
    intro entry' hget'
    obtain rfl := Option.some.inj (hget.symm.trans hget')
    exact ⟨.inl rfl, Nat.le_refl _⟩
  | @tail mid r' hmid hs ih =>
    obtain ⟨hsound, hkept⟩ := h.sound.kept hmid hget
    have hlater : ∀ e, mid.table.runs[id]? = some e → ∀ record : RunRecord, record.revision = e.record.revision + 1 →
        record.leaseEpoch ≤ e.record.leaseEpoch + 1 →
        (record = entry.record ∨ entry.record.revision < record.revision) ∧
          record.leaseEpoch + entry.record.revision ≤ entry.record.leaseEpoch + record.revision := by
      intro e hb record hrevision hle
      obtain ⟨hversion, hepoch⟩ := ih e hb
      have hrev : entry.record.revision ≤ e.record.revision := hversion.elim (fun heq => by rw [heq]) Nat.le_of_lt
      exact ⟨.inr (by omega), by omega⟩
    intro entry' hget'
    cases hsound.run hs id with
    | same heq => exact ih entry' (heq ▸ hget')
    | @wrote e record hb hw ha =>
      obtain rfl := Option.some.inj (ha.symm.trans hget')
      exact hlater e hb record hw.revision (by rw [hw.leaseEpoch]; exact Nat.le_succ _)
    | @claimed e _ _ _ _ hb hopen ha =>
      obtain rfl := Option.some.inj (ha.symm.trans hget')
      exact hlater e hb _ rfl (Nat.le_refl _)
    | created hb hfree => exact absurd hkept.issued hfree
    | removed hb hterm ha => cases ha.symm.trans hget'

def next (r : QueueRun) (now : Utc) (call : RunCall) : QueueRun where
  table := (r.table.call now call).2
  issued := call.issues ++ r.issued
  claims := r.claims ++ (claimOf r.table now (r.table.call now call).1).toList

theorem step_next {call : RunCall} (hfr : ∀ runId ∈ call.issues, runId ∉ r.issued) :
    Step r (r.next now call) := .call hfr Prod.mk.eta.symm

/-- A run of the queue `"q"`. -/
def sample : NewRun := { queue := "q", appName := "app", userId := "u", target := "agent", input := .null }

/-- A run that two workers claim, one after the lease of the other expired. -/
def recovered : QueueRun :=
  ((next {} 0 (.enqueue "r1" sample)).next 1 (.claim "q" "w1" 10)).next 20 (.claim "q" "w2" 10)

theorem recovered_reaches : Reaches recovered := by
  have henqueue : Step {} (next {} 0 (.enqueue "r1" sample)) := step_next (by simp)
  exact ((Relation.ReflTransGen.single henqueue).tail (step_next (by simp [RunCall.issues]))).tail
    (step_next (by simp [RunCall.issues]))

theorem workers_fenced_recovered : (recovered.claimsOf "r1").map RunClaim.epoch = [1, 2] ∧
    Fenced recovered ∧ (∀ r', Step recovered r' → OneCall recovered r') ∧
    ∀ r', Relation.ReflTransGen Step recovered r' → Later recovered r' :=
  ⟨by decide +kernel, workers_fenced recovered_reaches⟩

/-- Two claims took the run two revisions on. -/
theorem revisions_tell_recovered : ∃ entry : RunEntry, ∀ entry', recovered.table.runs["r1"]? = some entry' →
    entry'.record = entry.record ∨ entry.record.revision < entry'.record.revision := by
  let queued := next {} 0 (.enqueue "r1" sample)
  have hqueued : Step {} queued := step_next (by simp)
  have hclaimed : Relation.ReflTransGen Step queued recovered :=
    (Relation.ReflTransGen.single (step_next (by simp [RunCall.issues]))).tail (step_next (by simp [RunCall.issues]))
  obtain ⟨entry, hget⟩ := Option.isSome_iff_exists.mp (show queued.table.runs["r1"]?.isSome = true by decide +kernel)
  exact ⟨entry, fun entry' hget' => (revisions_tell (.single hqueued) hclaimed hget entry' hget').1⟩

end QueueRun

end Adk
