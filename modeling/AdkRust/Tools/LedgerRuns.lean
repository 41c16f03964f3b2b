import AdkRust.Tools.ActionLedger

/-!
# A ledgered call runs once

Any attempts of any calls, directly or resumed, interleave over one in-memory ledger, and end anywhere.

* `LedgerExact`: a body runs once, an outcome is that of the call, and what was recorded answers from then on.
* `ledgerExact_always`: **it holds in every run**, of the calls that share no key with another one.
* `not_startedAnswered`: a call that was begun and whose body never ran is answered with an unknown outcome.
-/

namespace Adk

open ProcPool

/-! ## What the ledger holds -/

section Ledger

variable {w w' : ActionLedger} {key : String} {record : ActionRecord} {outcome : ActionOutcome}

theorem begun_answers (h : ledgerLaws.answers (.begin_ record) w (.ok ()) w') :
    w record.key = none ∧ w' record.key = some record := by
  obtain ⟨hret, rfl⟩ := h
  unfold ActionLedger.begin_ at hret ⊢
  by_cases hheld : (w record.key).isSome
  · rw [if_pos hheld] at hret
    cases hret
  · rw [if_neg hheld]
    exact ⟨Option.not_isSome_iff_eq_none.mp hheld, if_pos rfl⟩

theorem completed_answers (h : ledgerLaws.answers (.complete key outcome) w (.ok ()) w') :
    (w' key).bind (·.outcome) = some outcome := by
  obtain ⟨now, hret, rfl⟩ := h
  unfold ActionLedger.complete at hret ⊢
  cases hrcd : w key with
  | none =>
    rw [hrcd] at hret
    cases hret
  | some record =>
    rw [hrcd] at hret
    dsimp only at hret ⊢
    by_cases hdone : record.outcome.isSome
    · rw [if_pos hdone] at hret
      cases hret
    · rw [if_neg hdone]
      dsimp only
      rw [if_pos rfl]
      rfl

/-- **What an operation makes of the record of a key**: nothing, or it begins it, or completes it. -/
theorem ledger_answers {op : LedgerOp} {r : op.Ret} (h : ledgerLaws.answers op w r w') (key : String) :
    w' key = w key ∨
    (∃ record, (⟨w, op, r⟩ : LedgerEntry) = ⟨w, .begin_ record, .ok ()⟩ ∧ record.key = key ∧ w key = none ∧
      w' key = some record) ∨
    ∃ record outcome now, (⟨w, op, r⟩ : LedgerEntry) = ⟨w, .complete key outcome, .ok ()⟩ ∧ w key = some record ∧
      record.outcome = none ∧ w' key = some { record with outcome := some outcome, completedAt := some now } := by
  cases op with
  | get other => exact .inl (congrFun h.2 key)
  | now => exact .inl (congrFun h key)
  | execute name args => exact .inl (congrFun h key)
  | audit name args cause => exact .inl (congrFun h key)
  | begin_ record =>
    obtain ⟨rfl, rfl⟩ := h
    unfold ActionLedger.begin_
    by_cases hheld : (w record.key).isSome
    · rw [if_pos hheld]
      exact .inl rfl
    · rw [if_neg hheld]
      by_cases hkey : key = record.key
      · subst hkey
        exact .inr (.inl ⟨record, rfl, rfl, Option.not_isSome_iff_eq_none.mp hheld, if_pos rfl⟩)
      · exact .inl (if_neg hkey)
  | complete other outcome =>
    obtain ⟨now, rfl, rfl⟩ := h
    unfold ActionLedger.complete
    cases hrcd : w other with
    | none => exact .inl rfl
    | some record =>
      dsimp only
      by_cases hdone : record.outcome.isSome
      · rw [if_pos hdone]
        exact .inl rfl
      · rw [if_neg hdone]
        by_cases hkey : key = other
        · subst hkey
          exact .inr (.inr ⟨record, outcome, now, rfl, hrcd, Option.not_isSome_iff_eq_none.mp hdone, if_pos rfl⟩)
        · exact .inl (if_neg hkey)

/-- A ledger that has what another one has recorded. -/
structure LedgerKeeps (w w' : ActionLedger) : Prop where
  held : ∀ key record, w key = some record → ∃ record', w' key = some record'
  outcome : ∀ key outcome, (w key).bind (·.outcome) = some outcome → (w' key).bind (·.outcome) = some outcome

theorem ledgerKeeps_refl (w : ActionLedger) : LedgerKeeps w w := ⟨fun _ record h => ⟨record, h⟩, fun _ _ h => h⟩

theorem LedgerKeeps.trans {w'' : ActionLedger} (h : LedgerKeeps w w') (h' : LedgerKeeps w' w'') : LedgerKeeps w w'' := by
  refine ⟨fun key record hw => ?_, fun key outcome hw => h'.outcome key outcome (h.outcome key outcome hw)⟩
  obtain ⟨record', hw'⟩ := h.held key record hw
  exact h'.held key record' hw'

theorem ledgerKeeps_answers {op : LedgerOp} {r : op.Ret} (h : ledgerLaws.answers op w r w') : LedgerKeeps w w' := by
  refine ⟨fun key record hw => ?_, fun key outcome hw => ?_⟩
  · rcases ledger_answers h key with hsame | ⟨record', -, -, hnone, -⟩ | ⟨record', outcome, now, -, -, -, hw'⟩
    · exact ⟨record, hsame.trans hw⟩
    · rw [hnone] at hw
      cases hw
    · exact ⟨_, hw'⟩
  · rcases ledger_answers h key with hsame | ⟨record', -, -, hnone, -⟩ | ⟨record', outcome', now, -, hold, hopen, -⟩
    · rw [hsame]
      exact hw
    · rw [hnone] at hw
      cases hw
    · rw [hold] at hw
      exact absurd (hopen.symm.trans hw) (by simp)

end Ledger

/-! ## What a log says -/

def BeganIn (log : List LedgerEntry) (key : String) : Prop :=
  ∃ w record, (⟨w, .begin_ record, .ok ()⟩ : LedgerEntry) ∈ log ∧ record.key = key

def RanIn (log : List LedgerEntry) : Prop := ∃ w name args run, (⟨w, .execute name args, run⟩ : LedgerEntry) ∈ log

def FoundIn (log : List LedgerEntry) (key : String) (record : ActionRecord) : Prop :=
  ∃ w, (⟨w, .get key, .ok (some record)⟩ : LedgerEntry) ∈ log

def LookedIn (log : List LedgerEntry) (key : String) : Prop :=
  ∃ w found, (⟨w, .get key, found⟩ : LedgerEntry) ∈ log

section Logs

variable {log : List LedgerEntry}

theorem LookedIn.append {key : String} {added : List LedgerEntry} (h : LookedIn log key) : LookedIn (log ++ added) key := by
  obtain ⟨w, found, hmem⟩ := h
  exact ⟨w, found, List.mem_append_left _ hmem⟩

theorem BeganIn.append {key : String} {added : List LedgerEntry} (h : BeganIn log key) : BeganIn (log ++ added) key := by
  obtain ⟨w, record, hmem, hkey⟩ := h
  exact ⟨w, record, List.mem_append_left _ hmem, hkey⟩

theorem foundIn_append {entry : LedgerEntry} {record : ActionRecord} {key : String}
    (hent : ∀ w record, entry ≠ ⟨w, .get key, .ok (some record)⟩) (h : FoundIn (log ++ [entry]) key record) :
    FoundIn log key record := by
  obtain ⟨w, hmem⟩ := h
  rcases List.mem_append.mp hmem with hold | hnew
  · exact ⟨w, hold⟩
  · exact (hent w record (List.mem_singleton.mp hnew).symm).elim

end Logs

section Calls

variable [JsonText]

/-! ## The property -/

/-- The attempt at a place has run the body of the call as its operation with a number. -/
def RunsBody (s : LedgerPool) (call : LedgerCall) (i n : Nat) : Prop :=
  ∃ proc w name args run, s.procs[i]? = some proc ∧ proc.call = call ∧
    proc.log[n]? = some (⟨w, .execute name args, run⟩ : LedgerEntry)

def Begun (s : LedgerPool) (call : LedgerCall) : Prop :=
  ∃ proc ∈ s.procs, proc.call = call ∧ ∃ w record, (⟨w, .begin_ record, .ok ()⟩ : LedgerEntry) ∈ proc.log

def OwnKey (s : LedgerPool) (call : LedgerCall) : Prop :=
  ∀ proc ∈ s.procs, proc.call.key = call.key → proc.call = call

/-- **A ledgered call runs once, and is answered from its own record.** -/
structure LedgerExact (s : LedgerPool) : Prop where
  atMostOnce : ∀ call i n j m, RunsBody s call i n → RunsBody s call j m → i = j ∧ n = m
  /-- A call that did not run is not answered as if it had ended. -/
  ended : ∀ proc ∈ s.procs, OwnKey s proc.call → ∀ outcome,
    proc.returned = some (.ok (recordedAnswer proc.call.name outcome)) → ∃ i n, RunsBody s proc.call i n
  unknown : ∀ proc ∈ s.procs, OwnKey s proc.call → ∀ detail,
    proc.returned = some (.ok (.outcomeUnknown detail)) → Begun s proc.call
  /-- An outcome that was recorded stays. -/
  kept : ∀ proc ∈ s.procs, ∀ w outcome,
    (⟨w, .complete proc.call.key outcome, .ok ()⟩ : LedgerEntry) ∈ proc.log →
    (s.world proc.call.key).bind (·.outcome) = some outcome

/-- **An attempt made after an outcome was recorded is answered with it.** -/
def AnsweredSince (s s' : LedgerPool) : Prop :=
  ∀ proc ∈ s.procs, ∀ w outcome, (⟨w, .complete proc.call.key outcome, .ok ()⟩ : LedgerEntry) ∈ proc.log →
  ∀ j later, s.logOf j = [] → s'.procs[j]? = some later → later.call.key = proc.call.key →
  ∀ result, later.returned = some result → result = .ok (recordedAnswer later.call.name outcome)

/-! ## What an attempt does -/

/-- What holds before an operation of an attempt. -/
def LedgerPre (call : LedgerCall) : LedgerOp → List LedgerEntry → Prop
  | .get key, log => key = call.key ∧ log = []
  | .begin_ record, _ => record.key = call.key ∧ record.outcome = none
  | .execute .., log => BeganIn log call.key ∧ ¬ RanIn log
  | .complete key _, log => key = call.key ∧ RanIn log
  | _, _ => True

/-- What holds when an attempt returns. -/
structure LedgerPost (call : LedgerCall) (result : Except AdkError CallAnswer) (log : List LedgerEntry) : Prop where
  looked : LookedIn log call.key
  ended : ∀ outcome, result = .ok (recordedAnswer call.name outcome) →
    ∃ record, FoundIn log call.key record ∧ record.outcome = some outcome
  unknown : ∀ detail, result = .ok (.outcomeUnknown detail) →
    (∃ record, FoundIn log call.key record) ∨ BeganIn log call.key
  found : ∀ record outcome, FoundIn log call.key record → record.outcome = some outcome →
    result = .ok (recordedAnswer call.name outcome)

section Attempt

variable {call : LedgerCall} {log : List LedgerEntry}

/-- An answer that says nothing of an earlier attempt, after a log in which no record was found. -/
theorem LedgerPost.plain {result : Except AdkError CallAnswer} (hlook : LookedIn log call.key)
    (hfnd : ∀ record, ¬ FoundIn log call.key record)
    (hend : ∀ outcome, result ≠ .ok (recordedAnswer call.name outcome))
    (hunk : ∀ detail, result = .ok (.outcomeUnknown detail) → BeganIn log call.key) : LedgerPost call result log :=
  ⟨hlook, fun outcome h => (hend outcome h).elim, fun detail h => .inr (hunk detail h),
    fun record _ h => (hfnd record h).elim⟩

def LedgerMid (call : LedgerCall) : Option CallAnswer → List LedgerEntry → Prop
  | some answer, log => LedgerPost call (.ok answer) log
  | none, log => LookedIn log call.key ∧ BeganIn log call.key ∧ ¬ RanIn log ∧ ∀ record, ¬ FoundIn log call.key record

theorem ensures_audit {name : String} {args : Value} {cause : String}
    {post : Unit → List LedgerEntry → Prop} {err : AdkError → List LedgerEntry → Prop}
    (hok : ∀ w r, post () (log ++ [⟨w, .audit name args cause, r⟩]))
    (herr : ∀ w error, err error (log ++ [⟨w, .audit name args cause, .error error⟩])) :
    Prog.Ensures (recording ledgerLaws) (LedgerPre call) err post (recordOutcomeUnknown name args cause) log := by
  refine Prog.Ensures.bind (M := fun r log' => ∃ w, log' = log ++ [⟨w, .audit name args cause, r⟩])
    (ensures_perform trivial fun w r _ _ => ⟨w, rfl⟩) fun r log' h => ?_
  obtain ⟨w, rfl⟩ := h
  cases r with
  | ok u => exact ensures_pure (hok w _)
  | error error => exact ensures_throw (herr w error)

theorem ensures_begin : Prog.Ensures (recording ledgerLaws) (LedgerPre call)
    (fun error log => LedgerPost call (.error error) log) (LedgerMid call)
    (beginLedgeredCall .nonIdempotent call.key call.name call.args) [] := by
  unfold beginLedgeredCall
  rw [if_neg (not_not_intro rfl)]
  refine Prog.Ensures.bind (M := fun found log => ∃ w, log = [(⟨w, .get call.key, found⟩ : LedgerEntry)])
    (ensures_perform ⟨rfl, rfl⟩ fun w r _ _ => ⟨w, rfl⟩) fun found log h => ?_
  obtain ⟨w, rfl⟩ := h
  have hoth : (∀ record, found ≠ .ok (some record)) →
      ∀ record, ¬ FoundIn [(⟨w, .get call.key, found⟩ : LedgerEntry)] call.key record := by
    rintro hfnd record ⟨w', hmem⟩
    cases List.mem_singleton.mp hmem
    exact hfnd record rfl
  cases found with
  | error error =>
    refine ensures_pure (LedgerPost.plain ⟨w, _, List.mem_singleton_self _⟩ (hoth fun _ h => by cases h) (fun outcome h => ?_) fun _ h => by cases h)
    cases outcome <;> cases h
  | ok found =>
    cases found with
    | some record =>
      -- the record that was found
      have honly : ∀ {log : List LedgerEntry} {record' : ActionRecord},
          (∀ entry ∈ log, ∀ w record, entry ≠ (⟨w, .get call.key, .ok (some record)⟩ : LedgerEntry)) →
          FoundIn (⟨w, .get call.key, .ok (some record)⟩ :: log) call.key record' → record' = record := by
        rintro log record' hlog ⟨w', hmem⟩
        rcases List.mem_cons.mp hmem with heq | hrest
        · cases heq
          rfl
        · exact (hlog _ hrest w' record' rfl).elim
      unfold beginFound
      cases hout : record.outcome with
      | some outcome =>
        refine Prog.Ensures.bind (M := fun answer log => answer = recordedAnswer call.name outcome ∧
          log = [(⟨w, .get call.key, .ok (some record)⟩ : LedgerEntry)]) ?_ fun answer log h => ?_
        · rw [hout]
          exact ensures_pure ⟨rfl, rfl⟩
        obtain ⟨rfl, rfl⟩ := h
        refine ensures_pure ⟨⟨w, _, List.mem_singleton_self _⟩, fun outcome' h => ?_, fun detail h => ?_, fun record' outcome' hfnd h => ?_⟩
        · obtain rfl := recordedAnswer_inj (Except.ok.inj h)
          exact ⟨record, ⟨w, List.mem_singleton_self _⟩, hout⟩
        · cases outcome <;> cases h
        · obtain rfl := honly (fun _ h => by cases h) hfnd
          obtain rfl := Option.some.inj (hout.symm.trans h)
          rfl
      | none =>
        refine Prog.Ensures.bind (M := fun answer log => LedgerPost call (.ok answer) log) ?_ fun answer log h =>
          ensures_pure h
        rw [hout]
        -- no outcome was found
        have hnone : ∀ w' r, ∀ record' outcome, FoundIn [(⟨w, .get call.key, .ok (some record)⟩ : LedgerEntry),
            ⟨w', .audit call.name call.args "began_without_outcome", r⟩] call.key record' →
            record'.outcome = some outcome → False := by
          intro w' r record' outcome hfnd h
          obtain rfl := honly (fun entry hent w'' record'' heq => by
            rw [List.mem_singleton.mp hent] at heq
            cases heq) hfnd
          rw [hout] at h
          cases h
        refine Prog.Ensures.bind (M := fun _ log => ∃ w' r, log = [(⟨w, .get call.key, .ok (some record)⟩ : LedgerEntry),
          ⟨w', .audit call.name call.args "began_without_outcome", r⟩]) ?_ fun _ log h => ?_
        · refine ensures_audit (fun w' r => ?_) fun w' error => ?_
          · exact ⟨w', r, rfl⟩
          exact ⟨⟨w, _, List.mem_cons_self⟩, fun _ h => (by cases h), fun _ h => (by cases h),
            fun record' outcome hfnd h => (hnone w' _ record' outcome hfnd h).elim⟩
        · obtain ⟨w', r, rfl⟩ := h
          refine ensures_pure ⟨⟨w, _, List.mem_cons_self⟩, fun outcome h => ?_, fun _ _ => .inl ⟨record, w, List.mem_cons_self⟩,
            fun record' outcome hfnd h => (hnone w' r record' outcome hfnd h).elim⟩
          cases outcome <;> cases h
    | none =>
      refine Prog.Ensures.bind (M := fun startedAt log => ∃ w', log = [(⟨w, .get call.key, .ok none⟩ : LedgerEntry),
        ⟨w', .now, startedAt⟩]) (ensures_perform trivial fun w' r _ _ => ⟨w', rfl⟩) fun startedAt log h => ?_
      obtain ⟨w', rfl⟩ := h
      refine Prog.Ensures.bind (M := fun begun log => ∃ w'' record, record.key = call.key ∧ log =
        [(⟨w, .get call.key, .ok none⟩ : LedgerEntry), ⟨w', .now, startedAt⟩, ⟨w'', .begin_ record, begun⟩])
        (ensures_perform ⟨rfl, rfl⟩ fun w'' r _ _ => ⟨w'', _, rfl, rfl⟩) fun begun log h => ?_
      obtain ⟨w'', record, hkey, rfl⟩ := h
      have hfnd : ∀ record', ¬ FoundIn [(⟨w, .get call.key, .ok none⟩ : LedgerEntry), ⟨w', .now, startedAt⟩,
          ⟨w'', .begin_ record, begun⟩] call.key record' := by
        rintro record' ⟨w₃, hmem⟩
        simp only [List.mem_cons, List.not_mem_nil, or_false] at hmem
        rcases hmem with heq | heq | heq <;> cases heq
      cases begun with
      | error error =>
        refine ensures_pure (LedgerPost.plain ⟨w, _, List.mem_cons_self⟩ hfnd (fun outcome h => ?_) fun _ h => by cases h)
        cases outcome <;> cases h
      | ok u =>
        refine ensures_pure ⟨⟨w, _, List.mem_cons_self⟩, ⟨w'', record, ?_, hkey⟩, ?_, hfnd⟩
        · exact List.mem_cons_of_mem _ (List.mem_cons_of_mem _ (List.mem_singleton_self _))
        · rintro ⟨w₃, name, args, run, hmem⟩
          simp only [List.mem_cons, List.not_mem_nil, or_false] at hmem
          rcases hmem with heq | heq | heq <;> cases heq

theorem ensures_run {begun : Option CallAnswer} (h : LedgerMid call begun log) :
    Prog.Ensures (recording ledgerLaws) (LedgerPre call) (fun error log => LedgerPost call (.error error) log)
      (fun answer log => LedgerPost call (.ok answer) log) (runBegun call.key call.name call.args begun) log := by
  cases begun with
  | some answer => exact ensures_pure h
  | none =>
    obtain ⟨hlook, hbgn, hran, hfnd⟩ := h
    refine Prog.Ensures.bind (M := fun run log' => ∃ w, log' = log ++ [⟨w, .execute call.name call.args, run⟩])
      (ensures_perform ⟨hbgn, hran⟩ fun w r _ _ => ⟨w, rfl⟩) fun run log' h => ?_
    obtain ⟨w, rfl⟩ := h
    have hranNow : RanIn (log ++ [⟨w, .execute call.name call.args, run⟩]) :=
      ⟨w, _, _, run, List.mem_append_right _ (List.mem_singleton_self _)⟩
    -- nothing is found after the lookup
    have hpln : ∀ {entry : LedgerEntry} {result : Except AdkError CallAnswer},
        (∀ w record, entry ≠ (⟨w, .get call.key, .ok (some record)⟩ : LedgerEntry)) →
        (∀ outcome, result ≠ .ok (recordedAnswer call.name outcome)) →
        LedgerPost call result ((log ++ [⟨w, .execute call.name call.args, run⟩]) ++ [entry]) := by
      intro entry result hent hend
      refine LedgerPost.plain (hlook.append.append) (fun record hmem => ?_) hend fun _ _ => hbgn.append.append
      exact hfnd record (foundIn_append (fun _ _ heq => by cases heq) (foundIn_append hent hmem))
    -- a call that is completed
    have hcomp : ∀ (outcome : ActionOutcome) (answer : CallAnswer),
        (∀ outcome', answer ≠ recordedAnswer call.name outcome') →
        Prog.Ensures (recording ledgerLaws) (LedgerPre call) (fun error log => LedgerPost call (.error error) log)
          (fun answer log => LedgerPost call (.ok answer) log)
          (do completeLedgered call.key outcome; return answer : LedgerProg CallAnswer)
          (log ++ [⟨w, .execute call.name call.args, run⟩]) := by
      intro outcome answer hans
      refine Prog.Ensures.bind (M := fun _ log' => LedgerPost call (.ok answer) log') ?_ fun _ log' h => ensures_pure h
      refine Prog.Ensures.bind (M := fun _ log' => LedgerPost call (.ok answer) log')
        (ensures_perform ⟨rfl, hranNow⟩ fun w' r _ _ => ?_) fun _ log' h => ensures_pure h
      exact hpln (fun _ _ heq => by cases heq) fun outcome' h => hans outcome' (Except.ok.inj h)
    cases run with
    | returned value => exact hcomp _ _ fun outcome h => by cases outcome <;> cases h
    | failed text => exact hcomp _ _ fun outcome h => by cases outcome <;> cases h
    | interrupted message =>
      refine Prog.Ensures.bind (M := fun _ log' => LedgerPost call (.ok (.outcomeUnknown _)) log') ?_ fun _ log' h =>
        ensures_pure h
      refine ensures_audit (fun w' r => ?_) fun w' error => ?_
      · refine hpln (fun _ _ heq => by cases heq) fun outcome h => ?_
        cases outcome <;> cases h
      · exact hpln (fun _ _ heq => by cases heq) fun outcome h => by cases h

/-- **What an attempt does.** -/
theorem holds_executeCall (call : LedgerCall) :
    (executeCall call).run.Holds (recording ledgerLaws) (LedgerPre call) (LedgerPost call) [] := by
  have hall : Prog.Ensures (recording ledgerLaws) (LedgerPre call) (fun error log => LedgerPost call (.error error) log)
      (fun answer log => LedgerPost call (.ok answer) log) (executeCall call) [] :=
    Prog.Ensures.bind ensures_begin fun _ _ h => ensures_run h
  refine Prog.Holds.mono hall fun result log h => ?_
  cases result with
  | error error => exact h
  | ok answer => exact h

end Attempt

/-! ## Where a record comes from -/

/-- An attempt began the record, and its outcome is one that an attempt completed it with. -/
structure Sourced (s : LedgerPool) (key : String) (record : ActionRecord) : Prop where
  began : ∃ i, BeganIn (s.logOf i) key
  completed : ∀ outcome, record.outcome = some outcome →
    ∃ i w, (⟨w, .complete key outcome, .ok ()⟩ : LedgerEntry) ∈ s.logOf i

/-- The ledger and the logs agree. -/
structure Ledgered (s : LedgerPool) : Prop where
  once : ∀ i j key, BeganIn (s.logOf i) key → BeganIn (s.logOf j) key → i = j
  held : ∀ i key, BeganIn (s.logOf i) key → ∃ record, s.world key = some record
  completed : ∀ i w key outcome, (⟨w, .complete key outcome, .ok ()⟩ : LedgerEntry) ∈ s.logOf i →
    (s.world key).bind (·.outcome) = some outcome
  recorded : ∀ key record, s.world key = some record → Sourced s key record
  found : ∀ i key record, FoundIn (s.logOf i) key record → Sourced s key record

section Runs

variable {s s' : LedgerPool}

variable {key : String} {i n : Nat} {call : LedgerCall}

theorem Sourced.step (hstep : Step (ledgerSystem fun _ _ => True) s s') {record : ActionRecord}
    (h : Sourced s key record) : Sourced s' key record := by
  obtain ⟨⟨i, w, begun, hmem, hkey⟩, hcompl⟩ := h
  refine ⟨⟨i, w, begun, hstep.logOf_grows hmem, hkey⟩, fun outcome hout => ?_⟩
  obtain ⟨i, w, hmem⟩ := hcompl outcome hout
  exact ⟨i, w, hstep.logOf_grows hmem⟩

omit [JsonText] in
theorem ledgered_noAttempts : Ledgered noAttempts := by
  have hemp : ∀ i, noAttempts.logOf i = [] := fun i => rfl
  refine ⟨?_, ?_, ?_, ?_, ?_⟩
  · rintro i j key ⟨w, record, hmem, -⟩
    rw [hemp] at hmem
    cases hmem
  · rintro i key ⟨w, record, hmem, -⟩
    rw [hemp] at hmem
    cases hmem
  · intro i w key outcome hmem
    rw [hemp] at hmem
    cases hmem
  · intro key record h
    cases h
  · rintro i key record ⟨w, hmem⟩
    rw [hemp] at hmem
    cases hmem

/-- **A step of one attempt keeps the ledger and the logs in agreement.** -/
theorem Ledgered.act (h : Ledgered s) (hstep : Step (ledgerSystem fun _ _ => True) s s') {op : LedgerOp}
    {r : op.Ret} (hanss : ledgerLaws.answers op s.world r s'.world)
    (hfr : ∀ record, op = .begin_ record → record.outcome = none)
    (hlog : s'.logOf i = s.logOf i ++ [⟨s.world, op, r⟩]) (hoths : ∀ j, j ≠ i → s'.logOf j = s.logOf j) :
    Ledgered s' := by
  -- an entry is the new one, or was there
  have hmem : ∀ {j : Nat} {entry : LedgerEntry}, entry ∈ s'.logOf j →
      entry ∈ s.logOf j ∨ (j = i ∧ entry = ⟨s.world, op, r⟩) := by
    intro j entry hent
    by_cases hj : j = i
    · subst hj
      rw [hlog, List.mem_append, List.mem_singleton] at hent
      exact hent.imp_right fun h => ⟨rfl, h⟩
    · rw [hoths j hj] at hent
      exact .inl hent
  have hnew : (⟨s.world, op, r⟩ : LedgerEntry) ∈ s'.logOf i := by
    rw [hlog]
    exact List.mem_append_right _ (List.mem_singleton_self _)
  -- a key that is begun now had no record, and was begun nowhere
  have hbgn : ∀ {j : Nat} {key : String}, BeganIn (s'.logOf j) key → BeganIn (s.logOf j) key ∨
      (j = i ∧ s.world key = none ∧ ∃ record, s'.world key = some record) := by
    rintro j key ⟨w, record, hent, rfl⟩
    rcases hmem hent with hold | ⟨hj, hnow⟩
    · exact .inl ⟨w, record, hold, rfl⟩
    · cases hnow
      obtain ⟨hnone, hsome⟩ := begun_answers hanss
      exact .inr ⟨hj, hnone, record, hsome⟩
  have hkeeps := ledgerKeeps_answers hanss
  refine ⟨fun a b key ha hb => ?_, fun j key hj => ?_, fun j w key outcome hent => ?_, fun key record hrcd => ?_,
    fun j key record hfnd => ?_⟩
  · rcases hbgn ha with hold | ⟨rfl, hnone, -⟩
    · rcases hbgn hb with hold' | ⟨rfl, hnone, -⟩
      · exact h.once a b key hold hold'
      · obtain ⟨record, hrcd⟩ := h.held a key hold
        rw [hnone] at hrcd
        cases hrcd
    · rcases hbgn hb with hold | ⟨rfl, -, -⟩
      · obtain ⟨record, hrcd⟩ := h.held b key hold
        rw [hnone] at hrcd
        cases hrcd
      · rfl
  · rcases hbgn hj with hold | ⟨-, -, hsome⟩
    · obtain ⟨record, hrcd⟩ := h.held j key hold
      exact hkeeps.held key record hrcd
    · exact hsome
  · rcases hmem hent with hold | ⟨-, hnow⟩
    · exact hkeeps.outcome key outcome (h.completed j w key outcome hold)
    · cases hnow
      exact completed_answers hanss
  · rcases ledger_answers hanss key with hsame | ⟨begun, hent, hkey, -, hsome⟩ |
        ⟨old, outcome, now, hent, hold, -, hsome⟩
    · exact (h.recorded key record (hsame.symm.trans hrcd)).step hstep
    · -- the record has just begun, without an outcome
      obtain rfl := Option.some.inj (hsome.symm.trans hrcd)
      rw [hent] at hnew
      refine ⟨⟨i, s.world, begun, hnew, hkey⟩, fun outcome hout => ?_⟩
      cases hent
      rw [hfr begun rfl] at hout
      cases hout
    · -- the record has just been completed
      obtain rfl := Option.some.inj (hsome.symm.trans hrcd)
      rw [hent] at hnew
      refine ⟨((h.recorded key old hold).step hstep).began, fun outcome' hout => ?_⟩
      obtain rfl := Option.some.inj hout
      exact ⟨i, s.world, hnew⟩
  · obtain ⟨w, hent⟩ := hfnd
    rcases hmem hent with hold | ⟨-, hnow⟩
    · exact (h.found j key record ⟨w, hold⟩).step hstep
    · cases hnow
      exact (h.recorded key record (Except.ok.inj hanss.1).symm).step hstep

theorem ledger_keeps (hrea : Reaches (ledgerSystem fun _ _ => True) noAttempts s) (j : Nat) (proc : LedgerProc)
    (hproc : s.procs[j]? = some proc) : Keeps ledgerLaws LedgerPre LedgerPost proc :=
  Reaches.local hrea rfl holds_executeCall j proc hproc

theorem ledgered_reaches (hrea : Reaches (ledgerSystem fun _ _ => True) noAttempts s) : Ledgered s := by
  induction hrea with
  | refl => exact ledgered_noAttempts
  | @tail s s' hrea hstep ih =>
    rcases hstep.logs with ⟨hwld | hmov, hsame⟩ | ⟨i, proc, op, next, r, hproc, hrest, -, hanss, -, hlog, hoths⟩
    · refine ⟨fun a b key ha hb => ?_, fun j key hj => ?_, fun j w key outcome hent => ?_, fun key record hrcd => ?_,
        fun j key record hfnd => ?_⟩
      · rw [hsame] at ha hb
        exact ih.once a b key ha hb
      · rw [hsame] at hj
        rw [hwld]
        exact ih.held j key hj
      · rw [hsame] at hent
        rw [hwld]
        exact ih.completed j w key outcome hent
      · rw [hwld] at hrcd
        exact (ih.recorded key record hrcd).step hstep
      · rw [hsame] at hfnd
        exact (ih.found j key record hfnd).step hstep
    · exact hmov.elim
    · refine ih.act hstep hanss (fun record hop => ?_) hlog hoths
      subst hop
      exact ((ledger_keeps hrea i proc hproc).performs hrest).2

/-- What held of each operation when it was performed. -/
theorem ledger_entries (hrea : Reaches (ledgerSystem fun _ _ => True) noAttempts s) (j : Nat) (proc : LedgerProc)
    (hproc : s.procs[j]? = some proc) (before : List LedgerEntry) (entry : LedgerEntry) (later : List LedgerEntry)
    (hlog : proc.log = before ++ entry :: later) :
    LedgerPre proc.call entry.op before ∧ ∃ w', ledgerLaws.answers entry.op entry.world entry.ret w' := by
  refine Reaches.entries (P := fun call log entry => LedgerPre call entry.op log ∧
    ∃ w', ledgerLaws.answers entry.op entry.world entry.ret w') hrea rfl ?_ j proc hproc before entry later hlog
  intro s i proc op next r w hrea hproc hrest _ hanss
  exact ⟨(ledger_keeps hrea i proc hproc).performs hrest, w, hanss⟩

/-! ## Calls -/

theorem begun_key (hrea : Reaches (ledgerSystem fun _ _ => True) noAttempts s)
    (h : BeganIn (s.logOf i) key) : ∃ proc, s.procs[i]? = some proc ∧ proc.call.key = key ∧ Begun s proc.call := by
  obtain ⟨w, record, hmem, rfl⟩ := h
  obtain ⟨proc, hproc, hent⟩ := mem_logOf hmem
  obtain ⟨before, later, hlog⟩ := List.append_of_mem hent
  have hkey := (ledger_entries hrea i proc hproc before _ later hlog).1.1
  exact ⟨proc, hproc, hkey.symm, proc, List.mem_of_getElem? hproc, rfl, w, record, hent⟩

theorem completed_ran (hrea : Reaches (ledgerSystem fun _ _ => True) noAttempts s)
    {w : ActionLedger} {outcome : ActionOutcome} (h : (⟨w, .complete key outcome, .ok ()⟩ : LedgerEntry) ∈ s.logOf i) :
    ∃ proc, s.procs[i]? = some proc ∧ proc.call.key = key ∧ ∃ n, RunsBody s proc.call i n := by
  obtain ⟨proc, hproc, hent⟩ := mem_logOf h
  obtain ⟨before, later, hlog⟩ := List.append_of_mem hent
  obtain ⟨hkey, w', name, args, run, hran⟩ := (ledger_entries hrea i proc hproc before _ later hlog).1
  have hmem : (⟨w', .execute name args, run⟩ : LedgerEntry) ∈ proc.log := by
    rw [hlog]
    exact List.mem_append_left _ hran
  obtain ⟨n, hn⟩ := List.getElem?_of_mem hmem
  exact ⟨proc, hproc, hkey.symm, n, proc, w', name, args, run, hproc, rfl, hn⟩

theorem runsBody_entry (hrea : Reaches (ledgerSystem fun _ _ => True) noAttempts s)
    (h : RunsBody s call i n) : BeganIn ((s.logOf i).take n) call.key ∧ ¬ RanIn ((s.logOf i).take n) := by
  obtain ⟨proc, w, name, args, run, hproc, rfl, hent⟩ := h
  obtain ⟨hlt, hget⟩ := List.getElem?_eq_some_iff.mp hent
  have hlog : proc.log = proc.log.take n ++ ⟨w, .execute name args, run⟩ :: proc.log.drop (n + 1) := by
    rw [← hget, ← List.drop_eq_getElem_cons hlt, List.take_append_drop]
  rw [logOf_eq hproc]
  exact (ledger_entries hrea i proc hproc _ _ _ hlog).1

omit [JsonText] in
theorem RunsBody.ranIn {m : Nat} (h : RunsBody s call i n) (hlt : n < m) :
    RanIn ((s.logOf i).take m) := by
  obtain ⟨proc, w, name, args, run, hproc, rfl, hent⟩ := h
  rw [logOf_eq hproc]
  refine ⟨w, name, args, run, List.mem_of_getElem? (i := n) ?_⟩
  rw [List.getElem?_take_of_lt hlt]
  exact hent

/-- **A body runs once.** -/
theorem runsBody_once (hrea : Reaches (ledgerSystem fun _ _ => True) noAttempts s) {j m : Nat}
    (h : RunsBody s call i n) (h' : RunsBody s call j m) : i = j ∧ n = m := by
  obtain ⟨hbgn, hran⟩ := runsBody_entry hrea h
  obtain ⟨hbgn', hran'⟩ := runsBody_entry hrea h'
  have hwh : ∀ {k l : Nat}, BeganIn ((s.logOf k).take l) call.key → BeganIn (s.logOf k) call.key := by
    rintro k l ⟨w, record, hmem, hkey⟩
    exact ⟨w, record, List.mem_of_mem_take hmem, hkey⟩
  obtain rfl := (ledgered_reaches hrea).once i j call.key (hwh hbgn) (hwh hbgn')
  refine ⟨rfl, ?_⟩
  rcases Nat.lt_trichotomy n m with hlt | heq | hgt
  · exact absurd (h.ranIn hlt) hran'
  · exact heq
  · exact absurd (h'.ranIn hgt) hran

theorem returned_post (hrea : Reaches (ledgerSystem fun _ _ => True) noAttempts s) {j : Nat} {proc : LedgerProc}
    (hproc : s.procs[j]? = some proc) {result : Except AdkError CallAnswer} (h : proc.returned = some result) :
    LedgerPost proc.call result proc.log :=
  (ledger_keeps hrea j proc hproc).returned (Proc.returned_eq h)

theorem ledgerExact_reaches (hrea : Reaches (ledgerSystem fun _ _ => True) noAttempts s) : LedgerExact s := by
  have hledgered := ledgered_reaches hrea
  refine ⟨fun call i n j m h h' => runsBody_once hrea h h', fun proc hmem hown outcome hretd => ?_,
    fun proc hmem hown detail hretd => ?_, fun proc hmem w outcome hent => ?_⟩
  · obtain ⟨j, hproc⟩ := List.getElem?_of_mem hmem
    obtain ⟨record, hfnd, hout⟩ := (returned_post hrea hproc hretd).ended outcome rfl
    rw [← logOf_eq hproc] at hfnd
    obtain ⟨i, w, hcomp⟩ := (hledgered.found j _ record hfnd).completed outcome hout
    obtain ⟨proc', hproc', hkey, n, hran⟩ := completed_ran hrea hcomp
    rw [hown proc' (List.mem_of_getElem? hproc') hkey] at hran
    exact ⟨i, n, hran⟩
  · obtain ⟨j, hproc⟩ := List.getElem?_of_mem hmem
    have hbgn : ∃ i, BeganIn (s.logOf i) proc.call.key := by
      rcases (returned_post hrea hproc hretd).unknown detail rfl with ⟨record, hfnd⟩ | hbgn
      · rw [← logOf_eq hproc] at hfnd
        exact (hledgered.found j _ record hfnd).began
      · rw [← logOf_eq hproc] at hbgn
        exact ⟨j, hbgn⟩
    obtain ⟨i, hi⟩ := hbgn
    obtain ⟨proc', hproc', hkey, hbegn⟩ := begun_key hrea hi
    rw [hown proc' (List.mem_of_getElem? hproc') hkey] at hbegn
    exact hbegn
  · obtain ⟨j, hproc⟩ := List.getElem?_of_mem hmem
    rw [← logOf_eq hproc] at hent
    exact hledgered.completed j w _ outcome hent

theorem answeredSince_reaches (hrea : Reaches (ledgerSystem fun _ _ => True) noAttempts s)
    (hmore : Reaches (ledgerSystem fun _ _ => True) s s') : AnsweredSince s s' := by
  intro proc hmem w outcome hent j later hemp hlat hkey result hretd
  have hkept := (ledgerExact_reaches hrea).kept proc hmem w outcome hent
  have hpost := returned_post (hrea.trans hmore) hlat hretd
  obtain ⟨w', found, hlook⟩ := hpost.looked
  -- the lookup was performed after the outcome was recorded
  obtain ⟨added, hlog, hadd⟩ := @Reaches.added _ _ _ _ _ _ _ _ LedgerKeeps hmore ledgerKeeps_refl (fun _ _ _ => .trans)
    (fun _ _ _ _ => ledgerKeeps_answers) (fun _ _ h => h.elim) j
  rw [hemp, List.nil_append, logOf_eq hlat] at hlog
  rw [← hkey] at hkept
  have hthen := (hadd _ (hlog ▸ hlook)).outcome _ outcome hkept
  -- and found what the ledger had
  obtain ⟨before, rest, hsp⟩ := List.append_of_mem hlook
  obtain ⟨-, w'', hanss⟩ := ledger_entries (hrea.trans hmore) j later hlat before _ rest hsp
  obtain ⟨record, hrcd, hout⟩ := Option.bind_eq_some_iff.mp hthen
  have hfnd : FoundIn later.log later.call.key record := by
    refine ⟨w', ?_⟩
    rw [← hrcd, ← hanss.1]
    exact hlook
  exact hpost.found record outcome hfnd hout

/-- **A ledgered call runs once**, an answer of an earlier end is that of a call that ran, and an outcome that was recorded
answers every later attempt, in every run. -/
theorem ledgerExact_always (hreach : Reaches (ledgerSystem fun _ _ => True) noAttempts s) :
    LedgerExact s ∧ ∀ s', Reaches (ledgerSystem fun _ _ => True) s s' → AnsweredSince s s' :=
  ⟨ledgerExact_reaches hreach, fun _ => answeredSince_reaches hreach⟩

end Runs

end Calls

/-! ## Runs -/

section Examples

local instance ledgerText : JsonText := plainText

/-- The world answers, at the start of the epoch. A body returns nothing. -/
def answerLedger : (op : LedgerOp) → ActionLedger → op.Ret × ActionLedger
  | .get key, w => (.ok (w key), w)
  | .now, w => (0, w)
  | .begin_ record, w => ((w.begin_ record).1, (w.begin_ record).2)
  | .execute .., w => (.returned .null, w)
  | .complete key outcome, w => ((w.complete key outcome 0).1, (w.complete key outcome 0).2)
  | .audit .., w => (.ok (), w)

theorem answers_answerLedger (op : LedgerOp) (w : ActionLedger) :
    ledgerLaws.answers op w (answerLedger op w).1 (answerLedger op w).2 := by
  cases op with
  | get key => exact ⟨rfl, rfl⟩
  | now => rfl
  | begin_ record => exact ⟨rfl, rfl⟩
  | execute name args => rfl
  | complete key outcome => exact ⟨0, rfl, rfl⟩
  | audit name args cause => rfl

def anyAttempts : System (fun _ : LedgerCall => Except AdkError CallAnswer) LedgerOp.Ret ActionLedger :=
  ledgerSystem fun _ _ => True

instance (s : LedgerPool) (call : LedgerCall) : Decidable (anyAttempts.starts s call) := inferInstanceAs (Decidable True)

instance (s : LedgerPool) (i : Nat) (op : LedgerOp) : Decidable (anyAttempts.acts s i op) :=
  inferInstanceAs (Decidable True)

def heldPayment : LedgerCall where
  identity := ⟨"shop", "alice", "s1"⟩
  invocationId := "i1"
  functionCallId := "c1"
  name := "pay"
  args := .null
  held := some { toolName := "pay", functionCallId := some "c1", args := .null }

/-- The payment is resumed and runs to its end, and is resumed again. -/
def resumedTwice : LedgerPool :=
  [.start heldPayment, .act 0, .act 0, .act 0, .act 0, .act 0, .start heldPayment, .act 1].foldl
    (next anyAttempts answerLedger) noAttempts

def answeredEarlier (s : LedgerPool) (i : Nat) : Option Bool :=
  (s.procs[i]?.bind Proc.returned).map fun result => match result with
    | .ok answer => answer.ofEarlier
    | .error _ => false

theorem ledgerExact_always_resumed :
    (LedgerExact resumedTwice ∧
      ∀ s', Reaches (ledgerSystem fun _ _ => True) resumedTwice s' → AnsweredSince resumedTwice s') ∧
    answeredEarlier resumedTwice 0 = some false ∧ answeredEarlier resumedTwice 1 = some true := by
  have hrun : Reaches anyAttempts noAttempts resumedTwice := reaches_foldl answers_answerLedger noAttempts _
  exact ⟨ledgerExact_always hrun, by decide +kernel, by decide +kernel⟩

/-- An answer of what an earlier attempt did, or of an attempt that ended in the middle, is that of a call whose body
was started. -/
def StartedAnswered (s : LedgerPool) : Prop :=
  ∀ proc ∈ s.procs, ∀ answer, proc.returned = some (.ok answer) → answer.ofEarlier = true →
    ∃ i n, RunsBody s proc.call i n

def stoppedPayment : LedgerPool :=
  [.start heldPayment, .act 0, .act 0, .act 0, .stop 0, .start heldPayment, .act 1, .act 1].foldl
    (next anyAttempts answerLedger) noAttempts

/-- A call that was begun and never ran is answered with an unknown outcome. -/
theorem not_startedAnswered :
    ¬ ∀ s, Reaches (ledgerSystem fun _ _ => True) noAttempts s → StartedAnswered s := by
  intro h
  have hrun : Reaches anyAttempts noAttempts stoppedPayment := reaches_foldl answers_answerLedger noAttempts _
  have hstarted := h stoppedPayment hrun
  have hran : stoppedPayment.procs.all (fun proc => proc.log.all fun entry => !entry.op.isBody) = true := by
    decide +kernel
  have hanswered : answeredEarlier stoppedPayment 1 = some true := by decide +kernel
  unfold answeredEarlier at hanswered
  obtain ⟨result, hresult, hearlier⟩ := Option.map_eq_some_iff.mp hanswered
  obtain ⟨proc, hproc, hreturned⟩ := Option.bind_eq_some_iff.mp hresult
  cases result with
  | error error => cases hearlier
  | ok answer =>
    obtain ⟨i, n, proc', w, name, args, run, hproc', -, hentry⟩ :=
      hstarted proc (List.mem_of_getElem? hproc) answer hreturned hearlier
    have hlog := List.all_eq_true.mp hran proc' (List.mem_of_getElem? hproc')
    have hbody := List.all_eq_true.mp hlog _ (List.mem_of_getElem? hentry)
    cases hbody

end Examples

end Adk
