import AdkRust.Runs.Fence

/-!
# One run per concurrency key

Calls read a clock that does not go back, and enter the table later, in any order (`KeyRun.Step`). Runs of a
key are in the order of their readings, so a run whose call read the clock early and entered late is put
ahead of runs that are there already, and runs beside them (`oneAtATime_fails`).

When no enqueue is put ahead of a run that is held or was never claimed (`InTime`), the held run of a key
comes before the others that hold it, and the runs that were never claimed are in the order in which they
entered (`KeySound`). From it, `inTime_oneAtATime`: one run of a key is held at a time, and runs are first
claimed in the order in which they entered.
-/

namespace Adk

/-- A run of the store whose calls read the clock before they enter the table. -/
structure KeyRun where
  table : RunTable := {}
  /-- The last reading of the clock. -/
  clock : Utc
  /-- The readings of the calls that have not entered yet. -/
  pending : List Utc := []
  /-- The runs in the order in which they were created. -/
  created : List String := []
  /-- The runs as they were when they were first claimed, in this order. -/
  firsts : List RunRecord := []

def RunAnswer.creates : RunAnswer → List String
  | .enqueued (.ok (.created record)) => [record.runId]
  | _ => []

namespace KeyRun

def firstIds (r : KeyRun) : List String := r.firsts.map RunRecord.runId

def firstOf (r : KeyRun) : RunAnswer → List RunRecord
  | .claimed (.ok (some claimed)) => if claimed.record.runId ∈ r.firstIds then [] else [claimed.record]
  | _ => []

def firstClaims (r : KeyRun) (queue key : String) : List String :=
  (r.firsts.filter fun record => record.queue = queue && record.concurrencyKey = some key).map
    RunRecord.runId

/-- A call reads the clock, or enters the table when `enters` lets it. -/
inductive Step (enters : RunTable → Utc → RunCall → Prop) (r : KeyRun) : KeyRun → Prop where
  | read {now : Utc} (h : r.clock ≤ now) : Step enters r { r with clock := now, pending := now :: r.pending }
  | call {now : Utc} {call : RunCall} {answer : RunAnswer} {table : RunTable} (hread : now ∈ r.pending)
      (hfresh : ∀ runId ∈ call.issues, runId ∉ r.created) (henters : enters r.table now call)
      (h : r.table.call now call = (answer, table)) :
    Step enters r { r with
      table
      pending := r.pending.erase now
      created := r.created ++ answer.creates
      firsts := r.firsts ++ r.firstOf answer }

abbrev Reaches (enters : RunTable → Utc → RunCall → Prop) (r : KeyRun) : Prop :=
  ∃ begun : Utc, Relation.ReflTransGen (Step enters) { clock := begun } r

def Held (entry : RunEntry) : Prop := entry.record.state = .running ∨ entry.record.state = .waiting

/-- **One run per concurrency key.** -/
structure OneAtATime (r : KeyRun) : Prop where
  /-- While a run of a key is running, no other is running or waiting. -/
  alone : ∀ (id id' : String) (entry entry' : RunEntry) (key : String), r.table.runs[id]? = some entry →
    r.table.runs[id']? = some entry' → entry.record.queue = entry'.record.queue →
    entry.record.concurrencyKey = some key → entry'.record.concurrencyKey = some key →
    entry.record.state = .running → Held entry' → id = id'
  ordered : ∀ queue key, (r.firstClaims queue key).Sublist r.created

/-- An enqueue that creates a run is not put ahead of a run of its key that is held or was never claimed.
An interrupting one cancels those that are not running. -/
def InTime (table : RunTable) (now : Utc) : RunCall → Prop
  | .enqueue _ run => run.validate = .ok () → table.existing run = none → run.onConflict ≠ .reject →
    ∀ (key id : String) (entry : RunEntry), run.concurrencyKey = some key → table.runs[id]? = some entry →
      RunTable.holds run.queue key entry = true →
      (entry.record.state = .running ∨
        run.onConflict ≠ .interrupt ∧ (entry.record.state = .waiting ∨ entry.record.attempt = 0)) →
      entry.record.createdAt ≤ now
  | _ => True

/-! ## The order of runs -/

theorem before_iff (a b : Int × Nat) :
    RunOrder.before a b ↔ a.1 < b.1 ∨ a.1 = b.1 ∧ a.2 < b.2 := Iff.rfl

variable {a b : RunOrder} {record : RunRecord}

theorem before_asymm (h : a.before b) : ¬b.before a := by
  rw [before_iff] at h ⊢
  omega

theorem before_trans {c : RunOrder} (h : ¬a.before b) (h' : ¬b.before c) : ¬a.before c := by
  rw [before_iff] at h h' ⊢
  omega

theorem before_of_le (a b : Int × Nat) (h : a.1 ≤ b.1) (hlt : a.2 < b.2) : RunOrder.before a b := by
  rw [before_iff]
  omega

/-- Runs that were created at different places are ordered. -/
theorem before_of_not (h : ¬b.before a) (hne : a.2 ≠ b.2) : a.before b := by
  rw [before_iff] at h ⊢
  omega

instance : Std.Total fun a b : String × RunOrder => ¬RunOrder.before b.2 a.2 where
  total := by
    intro a b
    by_cases h : RunOrder.before b.2 a.2
    · exact .inr (before_asymm h)
    · exact .inl h

instance : IsTrans (String × RunOrder) fun a b => ¬RunOrder.before b.2 a.2 where
  trans _ _ _ h h' := before_trans h' h

variable {r r' : KeyRun} {now : Utc} {table mid : RunTable} {id id' : String} {entry entry' : RunEntry}
  {queue key : String} {run : NewRun}

theorem mem_holders (hkd : table.Keyed) (hget : table.runs[id]? = some entry)
    (hhol : RunTable.holds queue key entry = true) : (id, entry.order) ∈ table.holders queue key := by
  unfold RunTable.holders
  rw [List.mem_insertionSort]
  refine List.mem_map.mpr ⟨entry, List.mem_filter.mpr ⟨Dict.mem_vals.mpr ⟨id, hget⟩, hhol⟩, ?_⟩
  rw [hkd id entry hget]

theorem first_of_unblocked (hkd : table.Keyed) (hblk : table.blocked queue entry = false)
    (hkey : entry.record.concurrencyKey = some key) (hget : table.runs[id']? = some entry')
    (hhol : RunTable.holds queue key entry' = true) : ¬entry'.order.before entry.order := by
  have hmem := mem_holders hkd hget hhol
  have hsrt : (table.holders queue key).Pairwise fun a b => ¬RunOrder.before b.2 a.2 :=
    List.pairwise_insertionSort _ _
  unfold RunTable.blocked at hblk
  rw [hkey] at hblk
  cases hlist : table.holders queue key with
  | nil =>
    rw [hlist] at hmem
    cases hmem
  | cons first rest =>
    rw [hlist] at hmem hsrt
    simp only [Option.any_some, hlist, List.head?_cons, decide_eq_false_iff_not] at hblk
    rcases List.mem_cons.mp hmem with rfl | hmem
    · exact hblk
    · exact before_trans ((List.pairwise_cons.mp hsrt).1 _ hmem) hblk

/-! ## What an enqueue finds -/

theorem interrupt_runs (holders : List (String × RunOrder)) (hnd : (holders.map Prod.fst).Nodup)
    (id : String) : (holders.foldl (RunTable.interrupt now) table).runs[id]? =
      if id ∈ holders.map Prod.fst then
        table.runs[id]?.map fun entry => { entry with record := entry.record.interrupted now }
      else table.runs[id]? := by
  induction holders generalizing table with
  | nil => simp
  | cons holder holders ih =>
    rw [List.map_cons, List.nodup_cons] at hnd
    have hone : (RunTable.interrupt now table holder).runs[id]? = if holder.1 = id then
        table.runs[id]?.map fun entry => { entry with record := entry.record.interrupted now }
        else table.runs[id]? := by
      unfold RunTable.interrupt
      cases hget : table.runs[holder.1]? with
      | none =>
        by_cases hid : holder.1 = id
        · subst hid
          simp [hget]
        · simp [hid]
      | some entry =>
        rw [RunTable.set_runs]
        by_cases hid : holder.1 = id
        · subst hid
          simp [hget]
        · simp [hid]
    rw [List.foldl_cons, ih hnd.2, hone]
    by_cases hid : holder.1 = id
    · subst hid
      simp [hnd.1]
    · have hne : ¬id = holder.1 := Ne.symm hid
      simp only [List.map_cons, List.mem_cons, hne, hid, false_or, if_false]

theorem created_le (hkd : table.Keyed) {runId : String} (htime : InTime table now (.enqueue runId run))
    (hval : run.validate = .ok ()) (hnew : table.existing run = none)
    (hconf : table.conflict now run = .ok mid) (hkey : run.concurrencyKey = some key)
    (hget : mid.runs[id]? = some entry) (hhol : RunTable.holds run.queue key entry = true)
    (hcounts : Held entry ∨ entry.record.attempt = 0) : entry.record.createdAt ≤ now := by
  unfold RunTable.conflict at hconf
  simp only [hkey] at hconf
  cases honConflict : run.onConflict with
  | enqueue =>
    simp only [honConflict, Except.ok.injEq] at hconf
    subst hconf
    refine htime hval hnew (by simp [honConflict]) key id entry hkey hget hhol ?_
    rcases hcounts with (hrun | hwait) | hzero
    · exact .inl hrun
    · exact .inr ⟨by simp [honConflict], .inl hwait⟩
    · exact .inr ⟨by simp [honConflict], .inr hzero⟩
  | reject =>
    simp only [honConflict] at hconf
    cases hlist : table.holders run.queue key with
    | nil =>
      simp only [hlist, List.head?_nil, Except.ok.injEq] at hconf
      subst hconf
      have hmem := mem_holders hkd hget hhol
      rw [hlist] at hmem
      cases hmem
    | cons first rest =>
      simp only [hlist, List.head?_cons] at hconf
      cases hconf
  | interrupt =>
    simp only [honConflict, Except.ok.injEq] at hconf
    subst hconf
    have hnd : ((table.holders run.queue key).map Prod.fst).Nodup :=
      (table.holders_perm run.queue key).nodup_iff.mpr (hkd.chosen _).1
    rw [interrupt_runs _ hnd] at hget
    by_cases hid : id ∈ (table.holders run.queue key).map Prod.fst
    · rw [if_pos hid] at hget
      obtain ⟨entry₀, hget₀, rfl⟩ := Option.map_eq_some_iff.mp hget
      have hhol₀ := (hkd.chosen _).2 id ((table.holders_perm run.queue key).mem_iff.mp hid) entry₀ hget₀
      -- What is left of the holders is running.
      by_cases hrun : entry₀.record.state = .running
      · have hle := htime hval hnew (by simp [honConflict]) key id entry₀ hkey hget₀ hhol₀ (.inl hrun)
        have hsame : (entry₀.record.interrupted now).createdAt = entry₀.record.createdAt := by
          unfold RunRecord.interrupted
          rw [if_pos hrun]
          rfl
        exact hsame ▸ hle
      · have hcancelled : (entry₀.record.interrupted now).state = .cancelled := by
          unfold RunRecord.interrupted
          rw [if_neg hrun]
          rfl
        simp [RunTable.holds, hcancelled, RunState.isTerminal] at hhol
    · rw [if_neg hid] at hget
      exact absurd (List.mem_map.mpr ⟨_, mem_holders hkd hget hhol, rfl⟩) hid

/-! ## The invariant -/

/-- What every call keeps, as long as no enqueue is put ahead. -/
structure KeySound (r : KeyRun) : Prop where
  keyed : r.table.Keyed
  /-- A run is at its place among those created. -/
  placed : ∀ (id : String) (entry : RunEntry), r.table.runs[id]? = some entry →
    r.created[entry.seq]? = some id
  nextSeq : r.table.nextSeq = r.created.length
  claimed : ∀ id ∈ r.firstIds, id ∈ r.created
  unclaimed : ∀ (id : String) (entry : RunEntry), r.table.runs[id]? = some entry → id ∉ r.firstIds →
    entry.record.attempt = 0 ∧ (entry.record.state = .queued ∨ entry.record.state.isTerminal = true)
  /-- A run that is held comes before the others that hold its key. -/
  first : ∀ (id id' : String) (entry entry' : RunEntry) (queue key : String), r.table.runs[id]? = some entry →
    r.table.runs[id']? = some entry' → RunTable.holds queue key entry = true →
    RunTable.holds queue key entry' = true → Held entry → id ≠ id' → entry.order.before entry'.order
  inOrder : ∀ (id id' : String) (entry entry' : RunEntry) (queue key : String),
    r.table.runs[id]? = some entry → r.table.runs[id']? = some entry' →
    RunTable.holds queue key entry = true → RunTable.holds queue key entry' = true → id ∉ r.firstIds →
    id' ∉ r.firstIds → entry.seq < entry'.seq → entry.record.createdAt ≤ entry'.record.createdAt
  ahead : ∀ (id : String) (entry : RunEntry) (queue key : String), r.table.runs[id]? = some entry →
    RunTable.holds queue key entry = true → id ∉ r.firstIds →
    (r.firstClaims queue key).Sublist (r.created.take entry.seq)
  ordered : ∀ queue key, (r.firstClaims queue key).Sublist r.created

theorem holds_iff : RunTable.holds queue key entry = true ↔ entry.record.queue = queue ∧
    entry.record.concurrencyKey = some key ∧ entry.record.state.isTerminal = false := by
  unfold RunTable.holds
  simp [and_assoc]

theorem not_held (h : entry.record.state = .queued ∨ entry.record.state.isTerminal = true) : ¬Held entry := by
  rintro (hs | hs) <;> rcases h with hq | ht
  · rw [hq] at hs
    cases hs
  · rw [hs] at ht
    cases ht
  · rw [hq] at hs
    cases hs
  · rw [hs] at ht
    cases ht

/-- What a call leaves of a run that it does not claim. -/
structure Follows (entry entry' : RunEntry) : Prop where
  runId : entry'.record.runId = entry.record.runId
  createdAt : entry'.record.createdAt = entry.record.createdAt
  seq : entry'.seq = entry.seq
  attempt : entry'.record.attempt = entry.record.attempt
  held : Held entry' → Held entry
  holds : ∀ queue key, RunTable.holds queue key entry' = true → RunTable.holds queue key entry = true

theorem Follows.order (h : Follows entry entry') : entry'.order = entry.order :=
  Prod.ext h.createdAt h.seq

theorem Follows.refl (entry : RunEntry) : Follows entry entry :=
  ⟨rfl, rfl, rfl, rfl, id, fun _ _ h => h⟩

theorem Follows.wrote (hw : entry.record.Wrote record) :
    Follows entry { entry with record } where
  runId := hw.runId
  createdAt := hw.createdAt
  seq := rfl
  attempt := hw.attempt
  held := by
    intro h
    have hst : record.state = .running ∨ record.state = .waiting := h
    rcases hw.state with hsame | hterm | ⟨hrun, -⟩
    · rw [hsame] at hst
      exact hst
    · exact absurd h (not_held (.inr hterm))
    · exact .inl hrun
  holds := by
    intro queue key h
    obtain ⟨hque, hkey, -⟩ := holds_iff.mp h
    exact holds_iff.mpr ⟨hw.queue.symm.trans hque, hw.concurrencyKey.symm.trans hkey, hw.unfinished⟩

theorem KeySound.follow (h : KeySound r) (hnext : table.nextSeq = r.table.nextSeq)
    (hback : ∀ (id : String) (entry' : RunEntry), table.runs[id]? = some entry' →
      ∃ entry, r.table.runs[id]? = some entry ∧ Follows entry entry') : KeySound { r with table } where
  keyed := by
    intro id entry' hget'
    obtain ⟨entry, hget, hfol⟩ := hback id entry' hget'
    exact hfol.runId.trans (h.keyed id entry hget)
  placed := by
    intro id entry' hget'
    obtain ⟨entry, hget, hfol⟩ := hback id entry' hget'
    rw [hfol.seq]
    exact h.placed id entry hget
  nextSeq := hnext.trans h.nextSeq
  claimed := h.claimed
  unclaimed := by
    intro id entry' hget' hfst
    obtain ⟨entry, hget, hfol⟩ := hback id entry' hget'
    obtain ⟨hzero, hst⟩ := h.unclaimed id entry hget hfst
    refine ⟨hfol.attempt.trans hzero, ?_⟩
    have hnot : ¬Held entry' := fun hheld => not_held hst (hfol.held hheld)
    cases hst' : entry'.record.state with
    | queued => exact .inl rfl
    | running => exact absurd (.inl hst') hnot
    | waiting => exact absurd (.inr hst') hnot
    | completed | failed | cancelled => exact .inr rfl
  first := by
    intro id₁ id₂ entry₁' entry₂' queue key hget₁' hget₂' hhol₁ hhol₂ hheld hne
    obtain ⟨entry₁, hget₁, hfol₁⟩ := hback id₁ entry₁' hget₁'
    obtain ⟨entry₂, hget₂, hfol₂⟩ := hback id₂ entry₂' hget₂'
    rw [hfol₁.order, hfol₂.order]
    exact h.first id₁ id₂ entry₁ entry₂ queue key hget₁ hget₂ (hfol₁.holds _ _ hhol₁)
      (hfol₂.holds _ _ hhol₂) (hfol₁.held hheld) hne
  inOrder := by
    intro id₁ id₂ entry₁' entry₂' queue key hget₁' hget₂' hhol₁ hhol₂ hfst₁ hfst₂ hlt
    obtain ⟨entry₁, hget₁, hfol₁⟩ := hback id₁ entry₁' hget₁'
    obtain ⟨entry₂, hget₂, hfol₂⟩ := hback id₂ entry₂' hget₂'
    rw [hfol₁.createdAt, hfol₂.createdAt]
    rw [hfol₁.seq, hfol₂.seq] at hlt
    exact h.inOrder id₁ id₂ entry₁ entry₂ queue key hget₁ hget₂ (hfol₁.holds _ _ hhol₁)
      (hfol₂.holds _ _ hhol₂) hfst₁ hfst₂ hlt
  ahead := by
    intro id entry' queue key hget' hhol hfst
    obtain ⟨entry, hget, hfol⟩ := hback id entry' hget'
    rw [hfol.seq]
    exact h.ahead id entry queue key hget (hfol.holds _ _ hhol) hfst
  ordered := h.ordered

theorem KeySound.writes {ids : List String} (h : KeySound r) (hids : ids.Nodup)
    (hw : RunTable.Writes now r.table ids table) : KeySound { r with table } := by
  refine h.follow hw.nextSeq fun id entry' hget' => ?_
  by_cases hid : id ∈ ids
  · obtain ⟨entry, record, hget, hwrtn, hres⟩ := hw.once hids hid
    obtain rfl := Option.some.inj (hres.symm.trans hget')
    exact ⟨entry, hget, .wrote hwrtn.wrote⟩
  · exact ⟨entry', (hw.others hid).symm.trans hget', .refl entry'⟩

theorem KeySound.removed {ids : List String} (h : KeySound r)
    (hr : Path RunTable.RemoveStep r.table ids table) : KeySound { r with table } := by
  have hnext : table.nextSeq = r.table.nextSeq := by
    refine hr.inv (P := fun table => table.nextSeq = r.table.nextSeq) ?_ rfl
    rintro t id t' hs ⟨-, rfl⟩
    rw [← hs]
    unfold RunTable.remove
    cases t.runs[id]? with
    | none => rfl
    | some entry => rfl
  refine h.follow hnext fun id entry' hget' => ?_
  have hruns := (RunTable.remove_path_runs hr id).1
  by_cases hid : id ∈ ids
  · rw [if_pos hid, hget'] at hruns
    cases hruns
  · rw [if_neg hid] at hruns
    exact ⟨entry', hruns.symm.trans hget', .refl entry'⟩

/-- Two runs of the table were created at different places. -/
theorem KeySound.seq_ne (h : KeySound r) (hget : r.table.runs[id]? = some entry)
    (hget' : r.table.runs[id']? = some entry') (hne : id ≠ id') : entry.seq ≠ entry'.seq := by
  intro heq
  have hplcd := h.placed id entry hget
  rw [heq, h.placed id' entry' hget'] at hplcd
  exact hne (Option.some.inj hplcd).symm

theorem KeySound.created (h : KeySound r) {runId : String} (hfr : runId ∉ r.created)
    (hle : ∀ (key id : String) (entry : RunEntry), run.concurrencyKey = some key → r.table.runs[id]? = some entry →
      RunTable.holds run.queue key entry = true → Held entry ∨ entry.record.attempt = 0 →
      entry.record.createdAt ≤ now) :
    KeySound { r with table := r.table.insert now runId run, created := r.created ++ [runId] } := by
  have hfst : runId ∉ r.firstIds := fun hid => hfr (h.claimed runId hid)
  have hruns : ∀ id, (r.table.insert now runId run).runs[id]? =
      if runId = id then some { record := .queued runId run now, seq := r.table.nextSeq }
      else r.table.runs[id]? := by
    intro id
    unfold RunTable.insert
    rw [Std.ExtTreeMap.getElem?_insert]
    by_cases hid : runId = id
    · simp [hid]
    · simp [hid]
  have hlt : ∀ {id : String} {entry : RunEntry}, r.table.runs[id]? = some entry →
      entry.seq < r.created.length := by
    intro id entry hget
    exact (List.getElem?_eq_some_iff.mp (h.placed id entry hget)).1
  constructor
  case keyed =>
    intro id entry hget
    rw [hruns] at hget
    by_cases hid : runId = id
    · rw [if_pos hid] at hget
      obtain rfl := Option.some.inj hget
      exact hid
    · rw [if_neg hid] at hget
      exact h.keyed id entry hget
  case placed =>
    intro id entry hget
    rw [hruns] at hget
    by_cases hid : runId = id
    · rw [if_pos hid] at hget
      obtain rfl := Option.some.inj hget
      show (r.created ++ [runId])[r.table.nextSeq]? = some id
      rw [h.nextSeq, hid]
      simp
    · rw [if_neg hid] at hget
      show (r.created ++ [runId])[entry.seq]? = some id
      rw [List.getElem?_append_left (hlt hget)]
      exact h.placed id entry hget
  case nextSeq =>
    show r.table.nextSeq + 1 = (r.created ++ [runId]).length
    rw [h.nextSeq, List.length_append]
    rfl
  case claimed => exact fun id hid => List.mem_append_left _ (h.claimed id hid)
  case unclaimed =>
    intro id entry hget hid'
    rw [hruns] at hget
    by_cases hid : runId = id
    · rw [if_pos hid] at hget
      obtain rfl := Option.some.inj hget
      exact ⟨rfl, .inl rfl⟩
    · rw [if_neg hid] at hget
      exact h.unclaimed id entry hget hid'
  case first =>
    intro id₁ id₂ entry₁ entry₂ queue key hget₁ hget₂ hhol₁ hhol₂ hheld hne
    rw [hruns] at hget₁ hget₂
    by_cases hid₁ : runId = id₁
    · -- The new run is queued.
      rw [if_pos hid₁] at hget₁
      obtain rfl := Option.some.inj hget₁
      exact absurd hheld (not_held (.inl rfl))
    · rw [if_neg hid₁] at hget₁
      by_cases hid₂ : runId = id₂
      · rw [if_pos hid₂] at hget₂
        obtain rfl := Option.some.inj hget₂
        obtain ⟨hque, hkey, -⟩ := holds_iff.mp hhol₂
        have hcr := hle key id₁ entry₁ hkey hget₁ ((show run.queue = queue from hque) ▸ hhol₁) (.inl hheld)
        have hseq := hlt hget₁
        rw [← h.nextSeq] at hseq
        exact before_of_le _ _ hcr hseq
      · rw [if_neg hid₂] at hget₂
        exact h.first id₁ id₂ entry₁ entry₂ queue key hget₁ hget₂ hhol₁ hhol₂ hheld hne
  case inOrder =>
    intro id₁ id₂ entry₁ entry₂ queue key hget₁ hget₂ hhol₁ hhol₂ hfst₁ hfst₂ hseq
    rw [hruns] at hget₁ hget₂
    by_cases hid₁ : runId = id₁
    · rw [if_pos hid₁] at hget₁
      obtain rfl := Option.some.inj hget₁
      have hseq' : r.created.length < entry₂.seq := h.nextSeq ▸ hseq
      by_cases hid₂ : runId = id₂
      · rw [if_pos hid₂] at hget₂
        obtain rfl := Option.some.inj hget₂
        exact absurd hseq (Nat.lt_irrefl _)
      · rw [if_neg hid₂] at hget₂
        have := hlt hget₂
        omega
    · rw [if_neg hid₁] at hget₁
      by_cases hid₂ : runId = id₂
      · rw [if_pos hid₂] at hget₂
        obtain rfl := Option.some.inj hget₂
        obtain ⟨hque, hkey, -⟩ := holds_iff.mp hhol₂
        have hzero := (h.unclaimed id₁ entry₁ hget₁ hfst₁).1
        exact hle key id₁ entry₁ hkey hget₁ ((show run.queue = queue from hque) ▸ hhol₁) (.inr hzero)
      · rw [if_neg hid₂] at hget₂
        exact h.inOrder id₁ id₂ entry₁ entry₂ queue key hget₁ hget₂ hhol₁ hhol₂ hfst₁ hfst₂ hseq
  case ahead =>
    intro id entry queue key hget hhol hid'
    rw [hruns] at hget
    show (r.firstClaims queue key).Sublist ((r.created ++ [runId]).take entry.seq)
    by_cases hid : runId = id
    · rw [if_pos hid] at hget
      obtain rfl := Option.some.inj hget
      show (r.firstClaims queue key).Sublist ((r.created ++ [runId]).take r.table.nextSeq)
      rw [h.nextSeq, List.take_left]
      exact h.ordered queue key
    · rw [if_neg hid] at hget
      rw [List.take_append_of_le_length (Nat.le_of_lt (hlt hget))]
      exact h.ahead id entry queue key hget hhol hid'
  case ordered =>
    exact fun queue key => (h.ordered queue key).trans (List.sublist_append_left _ _)

/-- The runs of a key that were claimed, and one that is claimed now for the first time, were created in this
order. -/
theorem KeySound.ahead_concat (h : KeySound r) (hget : r.table.runs[id]? = some entry)
    (hhol : RunTable.holds queue key entry = true) (hfst : id ∉ r.firstIds) :
    (r.firstClaims queue key ++ [id]).Sublist (r.created.take (entry.seq + 1)) := by
  rw [List.take_add_one, h.placed id entry hget]
  exact (h.ahead id entry queue key hget hhol hfst).append (.refl _)

theorem KeySound.claimed_first (h : KeySound r) {started : Nat} (hget : r.table.runs[id]? = some entry)
    (hstd : r.table.started now entry.record.queue entry = some started)
    (hhol : RunTable.holds queue key entry = true) (hget' : r.table.runs[id']? = some entry')
    (hhol' : RunTable.holds queue key entry' = true) (hne : id ≠ id') : entry.order.before entry'.order := by
  obtain ⟨rfl, hkey, -⟩ := holds_iff.mp hhol
  rcases RunTable.started_cases hstd with ⟨-, -, hblk⟩ | ⟨-, hwtg⟩ | ⟨-, hrunn, -⟩
  · exact before_of_not (first_of_unblocked h.keyed hblk hkey hget' hhol') (h.seq_ne hget hget' hne)
  · exact h.first id id' entry entry' _ key hget hget' hhol hhol' (.inr hwtg) hne
  · exact h.first id id' entry entry' _ key hget hget' hhol hhol' (.inl hrunn) hne

def claim (r : KeyRun) (id : String) (entry : RunEntry) (record : RunRecord) : KeyRun :=
  { r with
    table := r.table.set id entry record
    firsts := r.firsts ++ r.firstOf (.claimed (.ok (some { record, epoch := record.leaseEpoch }))) }

theorem claim_firsts (hid : record.runId = id) :
    (r.claim id entry record).firsts = if id ∈ r.firstIds then r.firsts else r.firsts ++ [record] := by
  show r.firsts ++ (if record.runId ∈ r.firstIds then [] else [record]) = _
  rw [hid]
  by_cases hfst : id ∈ r.firstIds
  · rw [if_pos hfst, if_pos hfst, List.append_nil]
  · rw [if_neg hfst, if_neg hfst]

theorem claim_firstIds (hid : record.runId = id) :
    (r.claim id entry record).firstIds = if id ∈ r.firstIds then r.firstIds else r.firstIds ++ [id] := by
  show (r.claim id entry record).firsts.map RunRecord.runId = _
  rw [claim_firsts hid]
  by_cases hfst : id ∈ r.firstIds
  · rw [if_pos hfst, if_pos hfst]
    rfl
  · rw [if_neg hfst, if_neg hfst, List.map_append, List.map_singleton, hid]
    rfl

theorem claim_firstClaims (hid : record.runId = id) (queue key : String) :
    (r.claim id entry record).firstClaims queue key =
      if id ∉ r.firstIds ∧ record.queue = queue ∧ record.concurrencyKey = some key then
        r.firstClaims queue key ++ [id]
      else r.firstClaims queue key := by
  unfold firstClaims
  rw [claim_firsts hid]
  by_cases hfst : id ∈ r.firstIds
  · simp [hfst]
  · rw [if_neg hfst, List.filter_append, List.map_append]
    by_cases hmat : record.queue = queue ∧ record.concurrencyKey = some key
    · simp [hfst, hmat.1, hmat.2, hid]
    · have hno : (decide (record.queue = queue) && decide (record.concurrencyKey = some key)) = false := by
        simpa using hmat
      rw [if_neg fun hall => hmat hall.2]
      simp [hno]

theorem KeySound.claim {worker : String} {expiresAt : Utc} {started : Nat} (h : KeySound r)
    (hget : r.table.runs[id]? = some entry)
    (hstd : r.table.started now entry.record.queue entry = some started) :
    KeySound (r.claim id entry (entry.record.claimed worker expiresAt now started)) := by
  have hid := h.keyed id entry hget
  have hopen := RunTable.unfinished_of_started hstd
  have hruns : ∀ id', (r.claim id entry (entry.record.claimed worker expiresAt now started)).table.runs[id']? =
      if id = id' then some { entry with record := entry.record.claimed worker expiresAt now started }
      else r.table.runs[id']? := fun id' => RunTable.set_runs _ _ _ _ _
  have hhol : ∀ {queue key}, RunTable.holds queue key
      { entry with record := entry.record.claimed worker expiresAt now started } = true →
      RunTable.holds queue key entry = true := by
    intro queue key hclaimed
    obtain ⟨hque, hkey, -⟩ := holds_iff.mp hclaimed
    exact holds_iff.mpr ⟨hque, hkey, hopen⟩
  have hrcd : (entry.record.claimed worker expiresAt now started).runId = id := hid
  have hfirstIds : (r.claim id entry (entry.record.claimed worker expiresAt now started)).firstIds =
      if id ∈ r.firstIds then r.firstIds else r.firstIds ++ [id] := claim_firstIds hrcd
  have hfirstClaims : ∀ queue key,
      (r.claim id entry (entry.record.claimed worker expiresAt now started)).firstClaims queue key =
        if id ∉ r.firstIds ∧ entry.record.queue = queue ∧ entry.record.concurrencyKey = some key then
          r.firstClaims queue key ++ [id]
        else r.firstClaims queue key := claim_firstClaims hrcd
  -- A run that is still unclaimed is another one.
  have hoth : ∀ {id'}, id' ∉ (r.claim id entry (entry.record.claimed worker expiresAt now started)).firstIds →
      id ≠ id' ∧ id' ∉ r.firstIds := by
    intro id' hnot
    rw [hfirstIds] at hnot
    by_cases hfst : id ∈ r.firstIds
    · rw [if_pos hfst] at hnot
      exact ⟨fun heq => hnot (heq ▸ hfst), hnot⟩
    · rw [if_neg hfst, List.mem_append, not_or] at hnot
      exact ⟨fun heq => hnot.2 (by simp [heq]), hnot.1⟩
  constructor
  case keyed =>
    intro id' entry' hget'
    rw [hruns] at hget'
    by_cases heq : id = id'
    · rw [if_pos heq] at hget'
      obtain rfl := Option.some.inj hget'
      exact hid.trans heq
    · rw [if_neg heq] at hget'
      exact h.keyed id' entry' hget'
  case placed =>
    intro id' entry' hget'
    rw [hruns] at hget'
    by_cases heq : id = id'
    · rw [if_pos heq] at hget'
      obtain rfl := Option.some.inj hget'
      exact heq ▸ h.placed id entry hget
    · rw [if_neg heq] at hget'
      exact h.placed id' entry' hget'
  case nextSeq => exact h.nextSeq
  case claimed =>
    intro id' hmem
    rw [hfirstIds] at hmem
    by_cases hfst : id ∈ r.firstIds
    · rw [if_pos hfst] at hmem
      exact h.claimed id' hmem
    · rw [if_neg hfst] at hmem
      rcases List.mem_append.mp hmem with hmem | hmem
      · exact h.claimed id' hmem
      · rw [List.mem_singleton.mp hmem]
        exact List.mem_of_getElem? (h.placed id entry hget)
  case unclaimed =>
    intro id' entry' hget' hnot
    obtain ⟨hne, hfst⟩ := hoth hnot
    rw [hruns, if_neg hne] at hget'
    exact h.unclaimed id' entry' hget' hfst
  case first =>
    intro id₁ id₂ entry₁ entry₂ queue key hget₁ hget₂ hhol₁ hhol₂ hheld hne
    rw [hruns] at hget₁ hget₂
    by_cases heq₁ : id = id₁
    · subst heq₁
      rw [if_pos rfl] at hget₁
      rw [if_neg hne] at hget₂
      obtain rfl := Option.some.inj hget₁
      have hbef : entry.order.before entry₂.order :=
        h.claimed_first hget hstd (hhol hhol₁) hget₂ hhol₂ hne
      exact hbef
    · rw [if_neg heq₁] at hget₁
      by_cases heq₂ : id = id₂
      · subst heq₂
        rw [if_pos rfl] at hget₂
        obtain rfl := Option.some.inj hget₂
        exact h.first id₁ id entry₁ entry queue key hget₁ hget hhol₁ (hhol hhol₂) hheld hne
      · rw [if_neg heq₂] at hget₂
        exact h.first id₁ id₂ entry₁ entry₂ queue key hget₁ hget₂ hhol₁ hhol₂ hheld hne
  case inOrder =>
    intro id₁ id₂ entry₁ entry₂ queue key hget₁ hget₂ hhol₁ hhol₂ hnot₁ hnot₂ hlt
    obtain ⟨hne₁, hfst₁⟩ := hoth hnot₁
    obtain ⟨hne₂, hfst₂⟩ := hoth hnot₂
    rw [hruns, if_neg hne₁] at hget₁
    rw [hruns, if_neg hne₂] at hget₂
    exact h.inOrder id₁ id₂ entry₁ entry₂ queue key hget₁ hget₂ hhol₁ hhol₂ hfst₁ hfst₂ hlt
  case ahead =>
    intro id' entry' queue key hget' hhol' hnot
    obtain ⟨hne, hfst'⟩ := hoth hnot
    rw [hruns, if_neg hne] at hget'
    rw [hfirstClaims]
    by_cases hmat : id ∉ r.firstIds ∧ entry.record.queue = queue ∧ entry.record.concurrencyKey = some key
    · obtain ⟨hfst, hque, hkey⟩ := hmat
      rw [if_pos ⟨hfst, hque, hkey⟩]
      have hheld := holds_iff.mpr ⟨hque, hkey, hopen⟩
      have hbef := h.claimed_first hget hstd hheld hget' hhol' hne
      -- Both were unclaimed, so the one that comes first was created first.
      have hlt : entry.seq < entry'.seq := by
        rcases Nat.lt_trichotomy entry.seq entry'.seq with hlt | heq | hgt
        · exact hlt
        · exact absurd heq (h.seq_ne hget hget' hne)
        · have hle := h.inOrder id' id entry' entry queue key hget' hget hhol' hheld hfst' hfst hgt
          exact absurd (before_of_le _ _ hle hgt) (before_asymm hbef)
      exact (h.ahead_concat hget hheld hfst).trans (List.take_sublist_take_left hlt)
    · rw [if_neg hmat]
      exact h.ahead id' entry' queue key hget' hhol' hfst'
  case ordered =>
    intro queue key
    rw [hfirstClaims]
    by_cases hmat : id ∉ r.firstIds ∧ entry.record.queue = queue ∧ entry.record.concurrencyKey = some key
    · obtain ⟨hfst, hque, hkey⟩ := hmat
      rw [if_pos ⟨hfst, hque, hkey⟩]
      exact (h.ahead_concat hget (holds_iff.mpr ⟨hque, hkey, hopen⟩) hfst).trans (List.take_sublist _ _)
    · rw [if_neg hmat]
      exact h.ordered queue key

theorem creates_idle {answer : RunAnswer} (h : answer.idle = true) : answer.creates = [] := by
  cases answer with
  | enqueued result =>
    cases result with
    | error error => rfl
    | ok enqueued =>
      cases enqueued with
      | created record => cases h
      | existing | rejected => rfl
  | claimed | beaten | done | finished | pruned => rfl

theorem firstOf_idle {answer : RunAnswer} (h : answer.idle = true) : r.firstOf answer = [] := by
  cases answer with
  | claimed result =>
    cases result with
    | error error => rfl
    | ok claimed =>
      cases claimed with
      | none => rfl
      | some claimed => cases h
  | enqueued | beaten | done | finished | pruned => rfl

theorem KeySound.step (h : KeySound r) (hs : Step InTime r r') : KeySound r' := by
  cases hs with
  | read hclk => exact { h with }
  | @call now call answer table hread hfr henters hcall =>
    suffices hsnd : KeySound { r with
        table, created := r.created ++ answer.creates, firsts := r.firsts ++ r.firstOf answer } from
      { hsnd with }
    cases RunTable.call_effect h.keyed hcall with
    | wrote hids hw hidle =>
      rw [creates_idle hidle, firstOf_idle hidle, List.append_nil, List.append_nil]
      exact h.writes hids hw
    | @created runId run ids mid hval hnew hconf hids hw =>
      show KeySound { r with
        table := mid.insert now runId run, created := r.created ++ [runId], firsts := r.firsts ++ [] }
      rw [List.append_nil]
      have hfree : runId ∉ r.created := hfr runId (by simp [RunCall.issues])
      refine (h.writes hids hw).created hfree fun key id entry hkey hget hhol hcounts => ?_
      exact created_le h.keyed henters hval hnew hconf hkey hget hhol hcounts
    | @claimed queue worker ttl expiresAt ids mid id entry started hids hw hfree hget hque hstd hleft =>
      subst hque
      show KeySound { r with
        table := mid.set id entry (entry.record.claimed worker expiresAt now started)
        created := r.created ++ []
        firsts := r.firsts ++ r.firstOf (.claimed (.ok (some {
          record := entry.record.claimed worker expiresAt now started
          epoch := entry.record.leaseEpoch + 1 }))) }
      rw [List.append_nil]
      exact (h.writes hids hw).claim hget hstd
    | pruned hr =>
      show KeySound { r with table, created := r.created ++ [], firsts := r.firsts ++ [] }
      rw [List.append_nil, List.append_nil]
      exact h.removed hr

theorem Reaches.sound (h : Reaches InTime r) : KeySound r := by
  obtain ⟨begun, hrea⟩ := h
  induction hrea with
  | refl =>
    have hnone : ∀ (id : String) (entry : RunEntry), ({} : RunTable).runs[id]? = some entry → False := by
      intro id entry hget
      simp at hget
    constructor
    case nextSeq => rfl
    case claimed => exact fun id hid => by cases hid
    case ordered => exact fun queue key => .refl _
    case keyed => exact fun id entry hget => (hnone id entry hget).elim
    case placed => exact fun id entry hget => (hnone id entry hget).elim
    case unclaimed => exact fun id entry hget => (hnone id entry hget).elim
    case first => exact fun id _ entry _ _ _ hget => (hnone id entry hget).elim
    case inOrder => exact fun id _ entry _ _ _ hget => (hnone id entry hget).elim
    case ahead => exact fun id entry _ _ hget => (hnone id entry hget).elim
  | tail _ hs ih => exact ih.step hs

/-- **One run per concurrency key**, when no enqueue is put ahead of a run of its key that is held or was
never claimed. -/
theorem inTime_oneAtATime (h : Reaches InTime r) : OneAtATime r where
  alone := by
    intro id id' entry entry' key hget hget' hqueue hkey hkey' hrun hheld'
    have hsound := h.sound
    have hopen : entry.record.state.isTerminal = false := isTerminal_of_running hrun
    have hopen' : entry'.record.state.isTerminal = false := by
      rcases hheld' with hstate | hstate <;> rw [hstate] <;> rfl
    have hholds := holds_iff.mpr ⟨rfl, hkey, hopen⟩
    have hholds' := holds_iff.mpr ⟨hqueue.symm, hkey', hopen'⟩
    by_cases hid : id = id'
    · exact hid
    · have hbefore := hsound.first id id' entry entry' _ key hget hget' hholds hholds' (.inl hrun) hid
      have hafter := hsound.first id' id entry' entry _ key hget' hget hholds' hholds hheld' (Ne.symm hid)
      exact absurd hafter (before_asymm hbefore)
  ordered := h.sound.ordered

/-! ## Runs -/

def reads (r : KeyRun) (now : Utc) : KeyRun := { r with clock := now, pending := now :: r.pending }

/-- The run after a call that read `now` has entered. -/
def next (r : KeyRun) (now : Utc) (call : RunCall) : KeyRun where
  table := (r.table.call now call).2
  clock := r.clock
  pending := r.pending.erase now
  created := r.created ++ (r.table.call now call).1.creates
  firsts := r.firsts ++ r.firstOf (r.table.call now call).1

theorem step_next {enters : RunTable → Utc → RunCall → Prop} {call : RunCall} (hread : now ∈ r.pending)
    (hfr : ∀ runId ∈ call.issues, runId ∉ r.created) (henters : enters r.table now call) :
    Step enters r (r.next now call) := .call hread hfr henters Prod.mk.eta.symm

/-- A run of the key `"k"`. -/
def keyed : NewRun := { QueueRun.sample with concurrencyKey := some "k" }

def twoReadings : KeyRun := (reads { clock := 0 } 0).reads 1

/-- The later one has entered, and its run is claimed. -/
def overtaken : KeyRun :=
  ((twoReadings.next 1 (.enqueue "b" keyed)).reads 2).next 2 (.claim "q" "w1" 10)

/-- Then the earlier one enters, and its run is claimed too. -/
def doubled : KeyRun := ((overtaken.next 0 (.enqueue "a" keyed)).reads 3).next 3 (.claim "q" "w2" 10)

theorem overtaken_reaches {enters : RunTable → Utc → RunCall → Prop}
    (henqueue : enters {} 1 (.enqueue "b" keyed))
    (hclaim : enters (twoReadings.next 1 (.enqueue "b" keyed)).table 2 (.claim "q" "w1" 10)) :
    Reaches enters overtaken := by
  have hread₀ : Step enters { clock := 0 } (reads { clock := 0 } 0) := .read (by decide)
  have hread₁ : Step enters (reads { clock := 0 } 0) twoReadings := .read (by decide)
  have hcreate : Step enters twoReadings (twoReadings.next 1 (.enqueue "b" keyed)) :=
    step_next (by decide) (by decide) henqueue
  have hread₂ : Step enters (twoReadings.next 1 (.enqueue "b" keyed))
      ((twoReadings.next 1 (.enqueue "b" keyed)).reads 2) := .read (by decide +kernel)
  have hclaimed : Step enters ((twoReadings.next 1 (.enqueue "b" keyed)).reads 2) overtaken :=
    step_next (by decide +kernel) (by simp [RunCall.issues]) hclaim
  exact ⟨0, ((((Relation.ReflTransGen.single hread₀).tail hread₁).tail hcreate).tail hread₂).tail hclaimed⟩

theorem inTime_oneAtATime_overtaken : OneAtATime overtaken := by
  refine inTime_oneAtATime (overtaken_reaches (fun _ _ _ key id entry _ hget => ?_) trivial)
  simp at hget

theorem doubled_reaches : Reaches (fun _ _ _ => True) doubled := by
  obtain ⟨begun, h⟩ := (overtaken_reaches trivial trivial : Reaches (fun _ _ _ => True) overtaken)
  have hcreate : Step (fun _ _ _ => True) overtaken (overtaken.next 0 (.enqueue "a" keyed)) :=
    step_next (by decide +kernel) (by decide +kernel) trivial
  have hread : Step (fun _ _ _ => True) (overtaken.next 0 (.enqueue "a" keyed))
      ((overtaken.next 0 (.enqueue "a" keyed)).reads 3) := .read (by decide +kernel)
  have hclaim : Step (fun _ _ _ => True) ((overtaken.next 0 (.enqueue "a" keyed)).reads 3) doubled :=
    step_next (by decide +kernel) (by simp [RunCall.issues]) trivial
  exact ⟨begun, ((h.tail hcreate).tail hread).tail hclaim⟩

/-- A run whose enqueue read the clock early and entered late runs beside the one it was put ahead of. -/
theorem oneAtATime_fails : ∃ r, Reaches (fun _ _ _ => True) r ∧ ¬OneAtATime r := by
  refine ⟨doubled, doubled_reaches, fun h => ?_⟩
  have hrunning : ∀ id ∈ ["a", "b"], (doubled.table.runs[id]?.map fun entry =>
      (entry.record.queue, entry.record.concurrencyKey, entry.record.state)) =
        some ("q", some "k", .running) := by decide +kernel
  obtain ⟨entry, hget, hentry⟩ := Option.map_eq_some_iff.mp (hrunning "a" (by simp))
  obtain ⟨entry', hget', hentry'⟩ := Option.map_eq_some_iff.mp (hrunning "b" (by simp))
  simp only [Prod.mk.injEq] at hentry hentry'
  obtain ⟨hqueue, hkey, hstate⟩ := hentry
  obtain ⟨hqueue', hkey', hstate'⟩ := hentry'
  have heq := h.alone "a" "b" entry entry' "k" hget hget' (hqueue.trans hqueue'.symm) hkey hkey' hstate
    (.inl hstate')
  exact absurd heq (by decide)

end KeyRun

end Adk
