import AdkRust.Runs.Fence

/-!
# Wakes and cancellations

A wake and a cancellation are flags of a run. One party sets them, and claims, waits and ends of attempts consume
or clear them. `RunTable.Moved` says what a call does to the flags of one run, and
`QueueRun.signals_kept` follows: where each step heeds the flags (`QueueRun.Heeds`), a wake makes the run claimable at
the wait it is in or at the next one, and a run whose cancellation was requested is neither parked nor requeued.

The store itself does not heed them: an attempt that fails and is retried clears a wake, and a run is parked although
its cancellation was requested (`QueueRun.signals_lost`).
-/

namespace Adk

namespace RunTable

variable {now : Utc} {call : RunCall} {table table' : RunTable} {id : String}

inductive Moved (now : Utc) (call : RunCall) (id : String) (before after : Option RunEntry) : Prop where
  | same (h : after = before)
  | created (hb : before = none) (h : ∃ run, call = .enqueue id run)
  | removed {entry : RunEntry} (hb : before = some entry) (hterminal : entry.record.state.isTerminal = true)
      (ha : after = none)
  /-- Its worker goes on with it, another worker takes it over, or it is told to stop. -/
  | runs {entry : RunEntry} {record : RunRecord} (hb : before = some entry)
      (hrunning : entry.record.state = .running) (hstate : record.state = .running)
      (hwake : record.wakePending = entry.record.wakePending)
      (hcancel : entry.record.cancelRequested = true → record.cancelRequested = true)
      (ha : after = some { entry with record })
  | parked {entry : RunEntry} {epoch : Nat} {wakeAt : Option Utc} (hcall : call = .wait id epoch wakeAt)
      (hb : before = some entry) (hrunning : entry.record.state = .running)
      (hepoch : entry.record.leaseEpoch = epoch)
      (ha : after = some { entry with record := entry.record.parked wakeAt now })
  | requeued {entry : RunEntry} {record : RunRecord} {epoch : Nat} {error : String}
      (hcall : call = .finish id epoch (.failed error true)) (hb : before = some entry)
      (hrunning : entry.record.state = .running) (hepoch : entry.record.leaseEpoch = epoch)
      (hleft : entry.record.attempt < entry.record.maxAttempts)
      (hgo : entry.record.cancelRequested = false) (ha : after = some { entry with record })
  | ended {entry : RunEntry} {record : RunRecord} (hb : before = some entry)
      (hopen : entry.record.state.isTerminal = false) (hterminal : record.state.isTerminal = true)
      (ha : after = some { entry with record })
  | woken {entry : RunEntry} (hb : before = some entry)
      (hopen : entry.record.state = .waiting ∨ entry.record.state = .running)
      (ha : after = some { entry with record := entry.record.woken now })
  /-- A worker starts it, or goes on with it after a wait. -/
  | claimed {entry : RunEntry} {record : RunRecord} (hb : before = some entry)
      (hopen : entry.record.state = .queued ∨ entry.record.state = .waiting) (hstate : record.state = .running)
      (ha : after = some { entry with record })

theorem write_moved {α : Type} {runId : String} {epoch : Nat} {f : RunRecord → RunRecord} {answer : RunRecord → α}
    (hf : ∀ entry : RunEntry, runId = id → table.runs[id]? = some entry → entry.record.state = .running →
      entry.record.leaseEpoch = epoch →
      Moved now call id (some entry) (some { entry with record := f entry.record })) :
    Moved now call id table.runs[id]? (table.write runId epoch f answer).2.runs[id]? := by
  rcases write_spec table runId epoch f answer with ⟨error, he⟩ | ⟨entry, hget, hrun, hep, hw⟩
  · rw [he]
    exact .same rfl
  · rw [hw]
    by_cases hid : runId = id
    · subst hid
      show Moved _ _ _ _ ((table.set runId entry (f entry.record)).runs[runId]?)
      rw [set_runs, if_pos rfl, hget]
      exact hf entry rfl hget hrun hep
    · show Moved _ _ _ _ ((table.set runId entry (f entry.record)).runs[id]?)
      rw [set_runs, if_neg hid]
      exact .same rfl

/-- An end of an attempt ends the run or puts it back into the queue. -/
theorem finished_moved {entry : RunEntry} {epoch : Nat} {outcome : RunOutcome}
    (hrunn : entry.record.state = .running) (hep : entry.record.leaseEpoch = epoch) :
    Moved now (.finish id epoch outcome) id (some entry)
      (some { entry with record := entry.record.finished outcome now }) := by
  have hopen := isTerminal_of_running hrunn
  cases outcome with
  | completed result => exact .ended rfl hopen rfl rfl
  | cancelled => exact .ended rfl hopen rfl rfl
  | failed error retryable =>
    by_cases hretry : (retryable && decide (entry.record.attempt < entry.record.maxAttempts) &&
        !entry.record.cancelRequested) = true
    · obtain ⟨⟨rfl, hleft⟩, hgo⟩ : (retryable = true ∧ entry.record.attempt < entry.record.maxAttempts) ∧
          entry.record.cancelRequested = false := by simpa using hretry
      exact .requeued rfl rfl hrunn hep hleft hgo rfl
    · refine .ended rfl hopen ?_ rfl
      show (if _ then RunState.queued else RunState.failed).isTerminal = true
      rw [if_neg hretry]
      rfl

/-- A run that is not to go on is told so, or is cancelled. -/
theorem interrupted_moved {entry : RunEntry} (hopen : entry.record.state.isTerminal = false) :
    Moved now call id (some entry) (some { entry with record := entry.record.interrupted now }) := by
  unfold RunRecord.interrupted
  by_cases hrunn : entry.record.state = .running
  · rw [if_pos hrunn]
    refine .runs rfl hrunn ?_ ?_ ?_ rfl
    · exact hrunn
    · rfl
    · exact fun _ => rfl
  · rw [if_neg hrunn]
    exact .ended rfl hopen rfl rfl

theorem interrupt_runs {holders : List (String × RunOrder)} (hnd : (holders.map Prod.fst).Nodup) (id : String) :
    (holders.foldl (interrupt now) table).runs[id]? = table.runs[id]? ∨
      ∃ entry, id ∈ holders.map Prod.fst ∧ table.runs[id]? = some entry ∧
        (holders.foldl (interrupt now) table).runs[id]? =
          some { entry with record := entry.record.interrupted now } := by
  induction holders generalizing table with
  | nil => exact .inl rfl
  | cons holder holders ih =>
    rw [List.map_cons, List.nodup_cons] at hnd
    rw [List.foldl_cons]
    have hhead : ∀ k, (interrupt now table holder).runs[k]? = table.runs[k]? ∨
        ∃ entry, holder.1 = k ∧ table.runs[k]? = some entry ∧ (interrupt now table holder).runs[k]? =
          some { entry with record := entry.record.interrupted now } := by
      intro k
      unfold interrupt
      cases hget : table.runs[holder.1]? with
      | none => exact .inl rfl
      | some entry =>
        show (table.set holder.1 entry _).runs[k]? = _ ∨ ∃ _, _ ∧ _ ∧ (table.set holder.1 entry _).runs[k]? = _
        rw [set_runs]
        by_cases hk : holder.1 = k
        · subst hk
          rw [if_pos rfl]
          exact .inr ⟨entry, rfl, hget, rfl⟩
        · rw [if_neg hk]
          exact .inl rfl
    rcases @ih (interrupt now table holder) hnd.2 with hsame | ⟨entry, hmem, hget, hset⟩
    · rw [hsame]
      rcases hhead id with hhead | ⟨entry, rfl, hget, hset⟩
      · exact .inl hhead
      · exact .inr ⟨entry, List.mem_cons_self, hget, hset⟩
    · right
      rcases hhead id with hhead | ⟨entry', rfl, -, -⟩
      · rw [hhead] at hget
        exact ⟨entry, List.mem_cons_of_mem _ hmem, hget, hset⟩
      · exact absurd hmem hnd.1

/-- What enqueueing does to the holders of a key. -/
theorem conflict_moved {run : NewRun} (hkd : table.Keyed) (h : table.conflict now run = .ok table')
    (id : String) : Moved now call id table.runs[id]? table'.runs[id]? := by
  unfold conflict at h
  cases hkey : run.concurrencyKey with
  | none =>
    simp only [hkey, Except.ok.injEq] at h
    exact .same (by rw [h])
  | some key =>
    simp only [hkey] at h
    cases hconf : run.onConflict with
    | enqueue =>
      simp only [hconf, Except.ok.injEq] at h
      exact .same (by rw [h])
    | reject =>
      simp only [hconf] at h
      cases hhead : (table.holders run.queue key).head? with
      | some holder =>
        simp only [hhead] at h
        cases h
      | none =>
        simp only [hhead, Except.ok.injEq] at h
        exact .same (by rw [h])
    | interrupt =>
      simp only [hconf, Except.ok.injEq] at h
      subst h
      have hperm := table.holders_perm run.queue key
      obtain ⟨hnd, hhol⟩ := hkd.chosen (holds run.queue key)
      rcases @interrupt_runs now table _ (hperm.nodup_iff.mpr hnd) id with
        hsame | ⟨entry, hmem, hget, hset⟩
      · exact .same hsame
      · have hopen := hhol id (hperm.mem_iff.mp hmem) entry hget
        simp only [holds, Bool.and_eq_true, Bool.not_eq_true'] at hopen
        rw [hget, hset]
        exact interrupted_moved hopen.2

theorem claimFrom_finished {queue worker : String} {expiresAt : Utc} {candidates : List (RunOrder × String)}
    {entry : RunEntry} (hget : table.runs[id]? = some entry) (hterm : entry.record.state.isTerminal = true) :
    (claimFrom now queue worker expiresAt candidates table).2.runs[id]? = some entry := by
  induction candidates generalizing table with
  | nil => exact hget
  | cons candidate rest ih =>
    obtain ⟨order, runId⟩ := candidate
    unfold claimFrom
    cases hget' : table.runs[runId]? with
    | none => exact ih hget
    | some entry' =>
      dsimp only
      cases hstd : table.started now queue entry' with
      | none => exact ih hget
      | some started =>
        have hne : runId ≠ id := by
          rintro rfl
          obtain rfl := Option.some.inj (hget.symm.trans hget')
          have hopen := unfinished_of_started hstd
          rw [hterm] at hopen
          cases hopen
        dsimp only
        split
        · exact ih (by rw [set_runs, if_neg hne]; exact hget)
        · rw [set_runs, if_neg hne]
          exact hget

theorem claimFrom_moved {queue worker : String} {expiresAt : Utc} (candidates : List (RunOrder × String))
    (id : String) : Moved now call id table.runs[id]?
      (claimFrom now queue worker expiresAt candidates table).2.runs[id]? := by
  induction candidates generalizing table with
  | nil => exact .same rfl
  | cons candidate rest ih =>
    obtain ⟨order, runId⟩ := candidate
    unfold claimFrom
    cases hget : table.runs[runId]? with
    | none => exact ih
    | some entry =>
      dsimp only
      cases hstd : table.started now queue entry with
      | none => exact ih
      | some started =>
        dsimp only
        by_cases hout : entry.record.state = .running ∧ entry.record.maxAttempts ≤ entry.record.attempt
        · rw [if_pos hout]
          by_cases hid : runId = id
          · subst hid
            rw [hget]
            have hleft := @claimFrom_finished now (table.set runId entry (entry.record.exhausted now)) runId queue
              worker expiresAt rest { entry with record := entry.record.exhausted now }
              (by rw [set_runs, if_pos rfl]) rfl
            rw [hleft]
            exact .ended rfl (isTerminal_of_running hout.1) rfl rfl
          · have hrest := @ih (table.set runId entry (entry.record.exhausted now))
            rw [set_runs, if_neg hid] at hrest
            exact hrest
        · rw [if_neg hout]
          dsimp only
          rw [set_runs]
          by_cases hid : runId = id
          · subst hid
            rw [if_pos rfl, hget]
            rcases started_cases hstd with ⟨-, hst, -⟩ | ⟨-, hst⟩ | ⟨-, hst, -⟩
            · exact .claimed rfl (.inl hst) rfl rfl
            · exact .claimed rfl (.inr hst) rfl rfl
            · refine .runs rfl hst ?_ ?_ ?_ rfl
              · rfl
              · rfl
              · exact fun h => h
          · rw [if_neg hid]
            exact .same rfl

/-- **What a call does to the signals of one run.** -/
theorem call_moved (hkd : table.Keyed) (hfr : ∀ runId run, call = .enqueue runId run →
    table.runs[runId]? = none) (id : String) :
    Moved now call id table.runs[id]? (table.call now call).2.runs[id]? := by
  cases call with
  | enqueue runId run =>
    show Moved _ _ _ _ ((table.enqueue now runId run).2.runs[id]?)
    generalize hcall : table.enqueue now runId run = out
    obtain ⟨result, table'⟩ := out
    cases enqueue_cases hcall with
    | invalid _ => exact .same rfl
    | existing _ _ => exact .same rfl
    | rejected _ _ _ => exact .same rfl
    | @created mid _ _ hconf =>
      show Moved _ _ _ _ ((mid.insert now runId run).runs[id]?)
      by_cases hid : runId = id
      · subst hid
        exact .created (hfr runId run rfl) ⟨run, rfl⟩
      · have hoth : (mid.insert now runId run).runs[id]? = mid.runs[id]? := by
          unfold insert
          rw [Std.ExtTreeMap.getElem?_insert]
          simp [hid]
        rw [hoth]
        exact conflict_moved hkd hconf id
  | claim queue worker ttl =>
    show Moved _ _ _ _ ((table.claim now queue worker ttl).2.runs[id]?)
    unfold claim
    cases deadline now ttl runInvalidTtlCode with
    | error error => exact .same rfl
    | ok expiresAt => exact claimFrom_moved _ id
  | heartbeat runId epoch ttl =>
    show Moved _ _ _ _ ((table.heartbeat now runId epoch ttl).2.runs[id]?)
    unfold heartbeat
    cases deadline now ttl runInvalidTtlCode with
    | error error => exact .same rfl
    | ok expiresAt =>
      refine write_moved fun entry _ _ hrunn _ => ?_
      refine .runs rfl hrunn ?_ ?_ ?_ rfl
      · exact hrunn
      · rfl
      · exact fun h => h
  | setCheckpoint runId epoch checkpoint =>
    show Moved _ _ _ _ ((table.setCheckpoint now runId epoch checkpoint).2.runs[id]?)
    unfold setCheckpoint
    refine write_moved fun entry _ _ hrunn _ => ?_
    refine .runs rfl hrunn ?_ ?_ ?_ rfl
    · exact hrunn
    · rfl
    · exact fun h => h
  | wait runId epoch wakeAt =>
    show Moved _ _ _ _ ((table.wait now runId epoch wakeAt).2.runs[id]?)
    unfold wait
    refine write_moved fun entry hid _ hrunn hep => ?_
    subst hid
    exact .parked rfl rfl hrunn hep rfl
  | wake runId =>
    show Moved _ _ _ _ ((table.wake now runId).2.runs[id]?)
    unfold wake
    cases hget : table.runs[runId]? with
    | none => exact .same rfl
    | some entry =>
      have hwok : entry.record.state = .waiting ∨ entry.record.state = .running →
          Moved now (.wake runId) id table.runs[id]?
            (table.set runId entry (entry.record.woken now)).runs[id]? := by
        intro hopen
        rw [set_runs]
        by_cases hid : runId = id
        · subst hid
          rw [if_pos rfl, hget]
          exact .woken rfl hopen rfl
        · rw [if_neg hid]
          exact .same rfl
      cases hst : entry.record.state with
      | waiting =>
        simp only [hst]
        exact hwok (.inl hst)
      | running =>
        simp only [hst]
        exact hwok (.inr hst)
      | queued | completed | failed | cancelled =>
        simp only [hst]
        exact .same rfl
  | finish runId epoch outcome =>
    show Moved _ _ _ _ ((table.finish now runId epoch outcome).2.runs[id]?)
    unfold finish
    refine write_moved fun entry hid _ hrunn hep => ?_
    subst hid
    exact finished_moved hrunn hep
  | requestCancel runId =>
    show Moved _ _ _ _ ((table.requestCancel now runId).2.runs[id]?)
    unfold requestCancel
    cases hget : table.runs[runId]? with
    | none => exact .same rfl
    | some entry =>
      dsimp only
      by_cases hterm : entry.record.state.isTerminal = true
      · rw [if_pos hterm]
        exact .same rfl
      · rw [if_neg hterm]
        show Moved _ _ _ _ ((table.set runId entry _).runs[id]?)
        rw [set_runs]
        by_cases hid : runId = id
        · subst hid
          rw [if_pos rfl, hget]
          exact interrupted_moved (Bool.eq_false_iff.mpr hterm)
        · rw [if_neg hid]
          exact .same rfl
  | prune finishedBefore =>
    have hpath := @remove_path table ((table.runs.vals.filter fun entry =>
        entry.record.state.isTerminal && decide (entry.record.updatedAt < finishedBefore)).map fun entry =>
          entry.record.runId) fun id hid entry hget => by
      have := (hkd.chosen _).2 id hid entry hget
      rw [Bool.and_eq_true] at this
      exact this.1
    obtain ⟨hruns, hfin⟩ := remove_path_runs hpath id
    show Moved _ _ _ _ ((table.prune finishedBefore).2.runs[id]?)
    unfold prune
    rw [hruns]
    split
    next hid =>
      cases hget : table.runs[id]? with
      | none => exact .same rfl
      | some entry => exact .removed rfl (hfin hid entry hget) rfl
    · exact .same rfl

end RunTable

namespace QueueRun

variable {r r' : QueueRun} {now last : Utc} {call : RunCall} {id : String}

def Calls (r : QueueRun) (now : Utc) (call : RunCall) (r' : QueueRun) : Prop :=
  (∀ runId ∈ call.issues, runId ∉ r.issued) ∧ r' = r.next now call

/-- A call heeds the flags of its run: it parks none whose cancellation was requested, and requeues none with a
wake pending. -/
def Heeds (r : QueueRun) : RunCall → Prop
  | .wait runId epoch _ => ∀ entry, r.table.fenced runId epoch = .ok entry → entry.record.cancelRequested = false
  | .finish runId epoch (.failed _ true) => ∀ entry, r.table.fenced runId epoch = .ok entry →
    entry.record.attempt < entry.record.maxAttempts → entry.record.cancelRequested = false →
    entry.record.wakePending = false
  | _ => True

/-- The wait of a run ends: it is claimed. -/
def Resumes (id : String) (r r' : QueueRun) : Prop :=
  ∃ entry entry', r.table.runs[id]? = some entry ∧ entry.record.state = .waiting ∧
    r'.table.runs[id]? = some entry' ∧ entry'.record.state = .running

/-- **No wake is lost**: after a wake that arrives while the run is running or waiting, the run can be claimed in
the wait it is in, or in its next one, as soon as the clock has passed the readings of the calls made since. -/
def WakesKept (allowed : QueueRun → RunCall → Prop) (r : QueueRun) : Prop :=
  ∀ (now last : Utc) (id : String) (r₁ r₂ : QueueRun) (entry entry' : RunEntry),
    r.table.runs[id]? = some entry → entry.record.state = .waiting ∨ entry.record.state = .running →
    r.Calls now (.wake id) r₁ → now ≤ last →
    Relation.ReflTransGen (fun a b => (∃ now call, now ≤ last ∧ a.Calls now call b ∧ allowed a call) ∧
      ¬ Resumes id a b) r₁ r₂ →
    r₂.table.runs[id]? = some entry' → entry'.record.state = .waiting →
    ∀ queue, r₂.table.started last queue entry' = some 0

/-- **No cancellation is lost**: once the cancellation of an unfinished run was requested, the run is neither parked
nor requeued. -/
def CancelsKept (allowed : QueueRun → RunCall → Prop) (r : QueueRun) : Prop :=
  ∀ (now : Utc) (id : String) (r₁ r₂ : QueueRun) (entry entry' : RunEntry),
    r.table.runs[id]? = some entry → entry.record.state.isTerminal = false →
    r.Calls now (.requestCancel id) r₁ →
    Relation.ReflTransGen (fun a b => ∃ now call, a.Calls now call b ∧ allowed a call) r₁ r₂ →
    r₂.table.runs[id]? = some entry' → entry'.record.state ≠ .waiting ∧ entry'.record.state ≠ .queued

theorem Calls.step (h : r.Calls now call r') : Step r r' := by
  obtain ⟨hfr, rfl⟩ := h
  exact step_next hfr

theorem Calls.issued (h : r.Calls now call r') (hid : id ∈ r.issued) : id ∈ r'.issued := by
  obtain ⟨-, rfl⟩ := h
  exact List.mem_append_right _ hid

theorem Calls.moved (h : r.Calls now call r') (hsnd : Sound r) (id : String) :
    RunTable.Moved now call id r.table.runs[id]? r'.table.runs[id]? := by
  obtain ⟨hfr, rfl⟩ := h
  refine RunTable.call_moved hsnd.keyed (fun runId run heq => ?_) id
  cases hget : r.table.runs[runId]? with
  | none => rfl
  | some entry => exact absurd (hsnd.good runId entry hget).issued (hfr runId (by simp [heq, RunCall.issues]))

theorem fenced_of {entry : RunEntry} {epoch : Nat} (hget : r.table.runs[id]? = some entry)
    (hrunn : entry.record.state = .running) (hep : entry.record.leaseEpoch = epoch) :
    r.table.fenced id epoch = .ok entry := by
  unfold RunTable.fenced
  rw [hget]
  simp [hrunn, hep]

/-! ## Wakes -/

/-- A wake was not consumed yet, or the run has finished. -/
structure Pending (last : Utc) (id : String) (r : QueueRun) : Prop where
  issued : id ∈ r.issued
  flag : ∀ entry, r.table.runs[id]? = some entry → entry.record.state.isTerminal = true ∨
    entry.record.state = .running ∧ entry.record.wakePending = true ∨
    entry.record.state = .waiting ∧ ∃ at_, entry.record.notBefore = some at_ ∧ at_ ≤ last

/-- What a wake leaves behind. -/
theorem pending_woken {entry : RunEntry} (hopen : entry.record.state = .waiting ∨ entry.record.state = .running)
    (hnow : now ≤ last) : (entry.record.woken now).state.isTerminal = true ∨
      (entry.record.woken now).state = .running ∧ (entry.record.woken now).wakePending = true ∨
      (entry.record.woken now).state = .waiting ∧
        ∃ at_, (entry.record.woken now).notBefore = some at_ ∧ at_ ≤ last := by
  unfold RunRecord.woken
  rcases hopen with hwait | hrunn
  · rw [if_pos hwait]
    exact .inr (.inr ⟨hwait, now, rfl, hnow⟩)
  · rw [if_neg (by rw [hrunn]; exact RunState.noConfusion)]
    exact .inr (.inl ⟨hrunn, rfl⟩)

theorem Pending.next (h : Pending last id r) (hsnd : Sound r) (hcall : r.Calls now call r') (hnow : now ≤ last)
    (hheeds : Heeds r call) (hwaits : ¬ Resumes id r r') : Pending last id r' where
  issued := hcall.issued h.issued
  flag := by
    intro entry' hget'
    cases hcall.moved hsnd id with
    | same heq =>
      rw [heq] at hget'
      exact h.flag entry' hget'
    | created hb hnew =>
      obtain ⟨run, rfl⟩ := hnew
      exact absurd h.issued (hcall.1 id List.mem_cons_self)
    | removed hb hterm ha =>
      rw [ha] at hget'
      cases hget'
    | @runs entry record hb hrunn hst hwake hcancel ha =>
      obtain rfl := Option.some.inj (ha.symm.trans hget')
      rcases h.flag entry hb with hterm | ⟨-, hpend⟩ | ⟨hwait, -⟩
      · rw [isTerminal_of_running hrunn] at hterm
        cases hterm
      · exact .inr (.inl ⟨hst, hwake.trans hpend⟩)
      · rw [hrunn] at hwait
        cases hwait
    | @parked entry epoch wakeAt hcall' hb hrunn hep ha =>
      obtain rfl := Option.some.inj (ha.symm.trans hget')
      rcases h.flag entry hb with hterm | ⟨-, hpend⟩ | ⟨hwait, -⟩
      · rw [isTerminal_of_running hrunn] at hterm
        cases hterm
      · refine .inr (.inr ⟨rfl, now, ?_, hnow⟩)
        show (if entry.record.wakePending = true then some now else wakeAt) = some now
        rw [if_pos hpend]
      · rw [hrunn] at hwait
        cases hwait
    | @requeued entry record epoch error hcall' hb hrunn hep hleft hgo ha =>
      subst hcall'
      have hclr := hheeds entry (fenced_of hb hrunn hep) hleft hgo
      rcases h.flag entry hb with hterm | ⟨-, hpend⟩ | ⟨hwait, -⟩
      · rw [isTerminal_of_running hrunn] at hterm
        cases hterm
      · rw [hclr] at hpend
        cases hpend
      · rw [hrunn] at hwait
        cases hwait
    | ended hb hopen hterm ha =>
      obtain rfl := Option.some.inj (ha.symm.trans hget')
      exact .inl hterm
    | woken hb hopen ha =>
      obtain rfl := Option.some.inj (ha.symm.trans hget')
      exact pending_woken hopen hnow
    | @claimed entry record hb hopen hst ha =>
      obtain rfl := Option.some.inj (ha.symm.trans hget')
      rcases hopen with hqd | hwait
      · rcases h.flag entry hb with hterm | ⟨hrunn, -⟩ | ⟨hwait, -⟩
        · rw [hqd] at hterm
          cases hterm
        · rw [hqd] at hrunn
          cases hrunn
        · rw [hqd] at hwait
          cases hwait
      · exact absurd ⟨entry, _, hb, hwait, hget', hst⟩ hwaits

theorem started_due {table : RunTable} {entry : RunEntry} {queue : String} (hwait : entry.record.state = .waiting)
    {at_ : Utc} (hat : entry.record.notBefore = some at_) (hle : at_ ≤ last) :
    table.started last queue entry = some 0 := by
  have hlt : ¬ last < at_ := Int.not_lt.mpr hle
  unfold RunTable.started
  simp [hwait, hat, hlt]

theorem wakes_kept (hsnd : Sound r) : WakesKept Heeds r := by
  intro now last id r₁ r₂ entry entry' hget hopen hwake hnow hrea hget' hwait queue
  have hall : Sound r₂ ∧ Pending last id r₂ := by
    clear hget' hwait
    induction hrea with
    | refl =>
      refine ⟨hsnd.step hwake.step, hwake.issued (hsnd.good id entry hget).issued, ?_⟩
      intro entry₁ hget₁
      have hwok : r₁.table.runs[id]? = some { entry with record := entry.record.woken now } := by
        obtain ⟨-, rfl⟩ := hwake
        show (r.table.wake now id).2.runs[id]? = _
        unfold RunTable.wake
        rw [hget]
        rcases hopen with hst | hst
        · simp only [hst]
          rw [RunTable.set_runs, if_pos rfl]
        · simp only [hst]
          rw [RunTable.set_runs, if_pos rfl]
      obtain rfl := Option.some.inj (hwok.symm.trans hget₁)
      exact pending_woken hopen hnow
    | tail _ hstep ih =>
      obtain ⟨⟨now', call, hnow', hcall, hheeds⟩, hwaits⟩ := hstep
      exact ⟨ih.1.step hcall.step, ih.2.next ih.1 hcall hnow' hheeds hwaits⟩
  rcases hall.2.flag entry' hget' with hterm | ⟨hrunn, -⟩ | ⟨-, at_, hat, hle⟩
  · rw [hwait] at hterm
    cases hterm
  · rw [hwait] at hrunn
    cases hrunn
  · exact started_due hwait hat hle

/-! ## Cancellations -/

/-- A cancellation was requested and the run goes on under it, or the run has finished. -/
structure Stopping (id : String) (r : QueueRun) : Prop where
  issued : id ∈ r.issued
  flag : ∀ entry, r.table.runs[id]? = some entry → entry.record.state.isTerminal = true ∨
    entry.record.state = .running ∧ entry.record.cancelRequested = true

theorem Stopping.next (h : Stopping id r) (hsnd : Sound r) (hcall : r.Calls now call r')
    (hheeds : Heeds r call) : Stopping id r' where
  issued := hcall.issued h.issued
  flag := by
    intro entry' hget'
    cases hcall.moved hsnd id with
    | same heq =>
      rw [heq] at hget'
      exact h.flag entry' hget'
    | created hb hnew =>
      obtain ⟨run, rfl⟩ := hnew
      exact absurd h.issued (hcall.1 id List.mem_cons_self)
    | removed hb hterm ha =>
      rw [ha] at hget'
      cases hget'
    | @runs entry record hb hrunn hst hwake hcancel ha =>
      obtain rfl := Option.some.inj (ha.symm.trans hget')
      rcases h.flag entry hb with hterm | ⟨-, hflag⟩
      · rw [isTerminal_of_running hrunn] at hterm
        cases hterm
      · exact .inr ⟨hst, hcancel hflag⟩
    | @parked entry epoch wakeAt hcall' hb hrunn hep ha =>
      subst hcall'
      have hclr := hheeds entry (fenced_of hb hrunn hep)
      rcases h.flag entry hb with hterm | ⟨-, hflag⟩
      · rw [isTerminal_of_running hrunn] at hterm
        cases hterm
      · rw [hclr] at hflag
        cases hflag
    | @requeued entry record epoch error hcall' hb hrunn hep hleft hgo ha =>
      rcases h.flag entry hb with hterm | ⟨-, hflag⟩
      · rw [isTerminal_of_running hrunn] at hterm
        cases hterm
      · rw [hgo] at hflag
        cases hflag
    | ended hb hopen hterm ha =>
      obtain rfl := Option.some.inj (ha.symm.trans hget')
      exact .inl hterm
    | @woken entry hb hopen ha =>
      obtain rfl := Option.some.inj (ha.symm.trans hget')
      rcases h.flag entry hb with hterm | ⟨hrunn, hflag⟩
      · rcases hopen with hst | hst
        · rw [hst] at hterm
          cases hterm
        · rw [hst] at hterm
          cases hterm
      · right
        show (entry.record.woken now).state = .running ∧ (entry.record.woken now).cancelRequested = true
        unfold RunRecord.woken
        rw [if_neg (by rw [hrunn]; exact RunState.noConfusion)]
        exact ⟨hrunn, hflag⟩
    | @claimed entry record hb hopen hst ha =>
      rcases h.flag entry hb with hterm | ⟨hrunn, -⟩
      · rcases hopen with hopen | hopen
        · rw [hopen] at hterm
          cases hterm
        · rw [hopen] at hterm
          cases hterm
      · rcases hopen with hopen | hopen
        · rw [hopen] at hrunn
          cases hrunn
        · rw [hopen] at hrunn
          cases hrunn

theorem cancels_kept (hsnd : Sound r) : CancelsKept Heeds r := by
  intro now id r₁ r₂ entry entry' hget hopen hcancel hrea hget'
  have hall : Sound r₂ ∧ Stopping id r₂ := by
    clear hget'
    induction hrea with
    | refl =>
      refine ⟨hsnd.step hcancel.step, hcancel.issued (hsnd.good id entry hget).issued, ?_⟩
      intro entry₁ hget₁
      have hstopped : r₁.table.runs[id]? = some { entry with record := entry.record.interrupted now } := by
        obtain ⟨-, rfl⟩ := hcancel
        show (r.table.requestCancel now id).2.runs[id]? = _
        unfold RunTable.requestCancel
        rw [hget]
        dsimp only
        rw [if_neg (by rw [hopen]; exact Bool.false_ne_true), RunTable.set_runs, if_pos rfl]
      obtain rfl := Option.some.inj (hstopped.symm.trans hget₁)
      show (entry.record.interrupted now).state.isTerminal = true ∨ (entry.record.interrupted now).state = .running ∧ _
      unfold RunRecord.interrupted
      by_cases hrunn : entry.record.state = .running
      · rw [if_pos hrunn]
        exact .inr ⟨hrunn, rfl⟩
      · rw [if_neg hrunn]
        exact .inl rfl
    | tail _ hstep ih =>
      obtain ⟨now', call, hcall, hheeds⟩ := hstep
      exact ⟨ih.1.step hcall.step, ih.2.next ih.1 hcall hheeds⟩
  rcases hall.2.flag entry' hget' with hterm | ⟨hrunn, -⟩
  · refine ⟨fun hwait => ?_, fun hqd => ?_⟩
    · rw [hwait] at hterm
      cases hterm
    · rw [hqd] at hterm
      cases hterm
  · refine ⟨fun hwait => ?_, fun hqd => ?_⟩
    · rw [hrunn] at hwait
      cases hwait
    · rw [hrunn] at hqd
      cases hqd

/-- **Where every call heeds the flags, no wake and no cancellation is lost.** -/
theorem signals_kept (h : Reaches r) : WakesKept Heeds r ∧ CancelsKept Heeds r :=
  ⟨wakes_kept h.sound, cancels_kept h.sound⟩

/-- A run that a worker has claimed. -/
def held : QueueRun := (next {} 0 (.enqueue "r1" sample)).next 1 (.claim "q" "w1" 10)

theorem held_reaches : Reaches held := by
  have henqueue : Step {} (next {} 0 (.enqueue "r1" sample)) := step_next (by simp)
  exact (Relation.ReflTransGen.single henqueue).tail (step_next (by simp [RunCall.issues]))

theorem signals_kept_held : (held.table.runs["r1"]?.map (·.record.state)) = some .running ∧
    WakesKept Heeds held ∧ CancelsKept Heeds held :=
  ⟨by decide +kernel, signals_kept held_reaches⟩

/-- A call at any time, if it generates no identifier. -/
theorem calls_next (hissues : call.issues = []) : r.Calls now call (r.next now call) := by
  refine ⟨fun runId hid => ?_, rfl⟩
  rw [hissues] at hid
  cases hid

/-- The attempt fails after a wake, and the next one waits for the wake for ever. -/
def overslept : QueueRun :=
  (((held.next 2 (.wake "r1")).next 3 (.finish "r1" 1 (.failed "timeout" true))).next 4
    (.claim "q" "w1" 10)).next 5 (.wait "r1" 2 none)

/-- The run is parked after its cancellation was requested. -/
def strayed : QueueRun := (held.next 2 (.requestCancel "r1")).next 3 (.wait "r1" 1 none)

theorem not_resumes (h : r.table.runs[id]?.map (·.record.state) ≠ some .waiting) : ¬ Resumes id r r' := by
  rintro ⟨entry, entry', hget, hwait, -⟩
  rw [hget] at h
  exact h (congrArg some hwait)

/-- A wake is lost by an attempt that is retried, and a cancellation by a wait. -/
theorem signals_lost : ¬ (∀ r, Reaches r → WakesKept (fun _ _ => True) r) ∧
    ¬ ∀ r, Reaches r → CancelsKept (fun _ _ => True) r := by
  have hheld : (held.table.runs["r1"]?.map (·.record.state)) = some .running := by decide +kernel
  obtain ⟨entry, hget, hrunning⟩ := Option.map_eq_some_iff.mp hheld
  constructor
  · intro h
    have hasleep : (overslept.table.runs["r1"]?.map fun entry => (entry.record.state, entry.record.notBefore)) =
        some (.waiting, none) := by decide +kernel
    obtain ⟨entry', hget', hasleep⟩ := Option.map_eq_some_iff.mp hasleep
    obtain ⟨hwaiting, hnever⟩ := Prod.mk.inj hasleep
    have hstarted := h held held_reaches 2 10 "r1" (held.next 2 (.wake "r1")) overslept entry entry' hget
      (.inr hrunning) (calls_next rfl) (by decide)
      (((Relation.ReflTransGen.single ⟨⟨3, _, by decide, calls_next rfl, trivial⟩,
        not_resumes (by decide +kernel)⟩).tail ⟨⟨4, _, by decide, calls_next rfl, trivial⟩,
        not_resumes (by decide +kernel)⟩).tail ⟨⟨5, _, by decide, calls_next rfl, trivial⟩,
        not_resumes (by decide +kernel)⟩) hget' hwaiting "q"
    unfold RunTable.started at hstarted
    rw [hwaiting, hnever] at hstarted
    cases hstarted
  · intro h
    have hparked : (strayed.table.runs["r1"]?.map (·.record.state)) = some .waiting := by decide +kernel
    obtain ⟨entry', hget', hwaiting⟩ := Option.map_eq_some_iff.mp hparked
    have hnot := h held held_reaches 2 "r1" (held.next 2 (.requestCancel "r1")) strayed entry entry' hget
      (isTerminal_of_running hrunning) (calls_next rfl)
      (Relation.ReflTransGen.single ⟨3, _, calls_next rfl, trivial⟩) hget'
    exact hnot.1 hwaiting

end QueueRun

end Adk
