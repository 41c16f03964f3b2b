import AdkRust.Spend.Metering
import Mathlib.Data.List.Induction

/-!
# Metered calls settle once and keep every cap

Any metered calls of one ledger interleave at the granularity of its operations.

* `MeteredExact`: a reservation is settled once, a call commits once when its stream yielded a response, and no limit is
  overspent.
* `meteredExact_careful`: **it holds where no settlement is dropped and what moves to another provider fits there.**
* `not_meteredExact`: two calls that are answered by another provider overspend that provider's limit.
-/

namespace Adk

open ProcPool

/-! ## What a log says -/

/-- Where a call is with its reservations. -/
inductive HoldPhase where
  | idle
  | held (id : ReservationId) (key : SpendKey) (amount : Nat)
  /-- A reservation of nothing waits for the commit under the reported provider. -/
  | correcting (id : ReservationId) (key : SpendKey) (amount : Nat) (corrected : ReservationId) (correctedKey : SpendKey)
  /-- The cost is committed under the reported provider, and the reservation waits for its release. -/
  | moved (id : ReservationId)
  | settled

def HoldPhase.after : HoldPhase → MeterEntry → HoldPhase
  | .idle, ⟨_, .reserve key amount, some (.ok id)⟩ => .held id key amount
  | .held id key amount, ⟨_, .correct correctedKey, some (.ok corrected)⟩ =>
    .correcting id key amount corrected correctedKey
  | .held _ _ _, ⟨_, .commit _ _, some (.ok _)⟩ => .settled
  | .held _ _ _, ⟨_, .release _, some (.ok _)⟩ => .settled
  | .correcting id _ _ _ _, ⟨_, .commit _ _, some (.ok _)⟩ => .moved id
  | .moved _, ⟨_, .release _, some (.ok _)⟩ => .settled
  | phase, _ => phase

def phaseOf (log : List MeterEntry) : HoldPhase := log.foldl HoldPhase.after .idle

def isCommitted : MeterEntry → Bool
  | ⟨_, .commit _ _, some (.ok _)⟩ => true
  | _ => false

def isResponse : MeterEntry → Bool
  | ⟨_, .next, .response _⟩ => true
  | _ => false

/-- How often a call has committed. -/
def commits (log : List MeterEntry) : Nat := log.countP isCommitted

/-- Whether the stream has yielded a response. -/
def responded (log : List MeterEntry) : Bool := log.any isResponse

def TakenIn (log : List MeterEntry) (id : ReservationId) : Prop :=
  ∃ w, (∃ key amount, (⟨w, .reserve key amount, some (.ok id)⟩ : MeterEntry) ∈ log) ∨
    ∃ key, (⟨w, .correct key, some (.ok id)⟩ : MeterEntry) ∈ log

section Logs

variable {log : List MeterEntry} {entry : MeterEntry}

theorem phaseOf_concat : phaseOf (log ++ [entry]) = (phaseOf log).after entry := List.foldl_concat ..

theorem commits_concat : commits (log ++ [entry]) = commits log + (isCommitted entry).toNat := by
  unfold commits
  rw [List.countP_append, List.countP_singleton]
  cases isCommitted entry <;> rfl

theorem responded_concat : responded (log ++ [entry]) = (responded log || isResponse entry) := by
  unfold responded
  rw [List.any_append, List.any_cons, List.any_nil, Bool.or_false]

end Logs

/-! ## The property -/

/-- **A reservation is settled once, a call commits once when its stream yielded a response, and no limit is overspent.**
A limit counts amounts of 64 bits. -/
structure MeteredExact (ledger : SpendLedger) (s : MeterPool) : Prop where
  atMostOnce : ∀ id, s.world.settled.count id ≤ 1
  settledOnce : ∀ proc ∈ s.procs, proc.returned.isSome = true → ∀ id, TakenIn proc.log id → s.world.settled.count id = 1
  noOther : ∀ proc ∈ s.procs, commits proc.log ≤ (responded proc.log).toNat
  committedOnce : ∀ proc ∈ s.procs, proc.returned.isSome = true → commits proc.log = (responded proc.log).toNat
  capped : ∀ limit ∈ ledger.limits, ∀ window, min (s.world.spentIn limit window) maxAmount ≤ limit.maxMicroUsd

/-- A call whose costs are within its bound, and whose holds and those of the other calls live until it is settled. -/
structure PricedCall (call : MeteredCall) (log : List MeterEntry) : Prop where
  unpriced : call.unpriced ≤ call.bound
  costs : ∀ w response, (⟨w, .next, .response response⟩ : MeterEntry) ∈ log → ∀ cost, response.cost = some (some cost) →
    cost ≤ call.bound
  inTime : ∀ w id amount answer, (⟨w, .commit id amount, answer⟩ : MeterEntry) ∈ log → ∀ id' : String, ∀ hold,
    w.state.holds[id']? = some hold → w.now < hold.expiresAt

/-- A call whose settlement is not dropped, and whose cost fits under the provider that was reported, within the limits
that cover it and not the reserved vendor. -/
structure CarefulCall (ledger : SpendLedger) (call : MeteredCall) (log : List MeterEntry) : Prop where
  corrected : ∀ w key answer, (⟨w, .correct key, answer⟩ : MeterEntry) ∈ log → answer ≠ none
  committed : ∀ w id amount answer, (⟨w, .commit id amount, answer⟩ : MeterEntry) ∈ log → answer ≠ none
  released : ∀ w id answer, (⟨w, .release id, answer⟩ : MeterEntry) ∈ log → answer ≠ none
  fits : ∀ w key id, (⟨w, .correct key, some (.ok id)⟩ : MeterEntry) ∈ log → ∀ w' amount answer,
    (⟨w', .commit id amount, answer⟩ : MeterEntry) ∈ log → ∀ limit ∈ ledger.limits, limit.key.covers key = true →
    limit.key.covers call.spendKey = false → SpendLedger.refusal w'.state w'.now amount limit = none

/-! ## What a call does -/

/-- What an entry is when the ledger knows what is settled, and the costs are within the bound. -/
def Cleanly (call : MeteredCall) : MeterEntry → Prop
  | ⟨_, .commit _ _, answer⟩ => answer = some (.ok ())
  | ⟨_, .release _, answer⟩ => answer = some (.ok ())
  | ⟨_, .correct _, answer⟩ => answer ≠ none
  | ⟨_, .next, .response response⟩ => ∀ cost, response.cost = some (some cost) → cost ≤ call.bound
  | _ => True

structure Clean (call : MeteredCall) (log : List MeterEntry) : Prop where
  unpriced : call.unpriced ≤ call.bound
  all : ∀ entry ∈ log, Cleanly call entry

variable {call : MeteredCall} {log : List MeterEntry}

theorem Clean.of_concat {entry : MeterEntry} (h : Clean call (log ++ [entry])) : Clean call log ∧ Cleanly call entry :=
  ⟨⟨h.unpriced, fun e he => h.all e (List.mem_append_left _ he)⟩,
    h.all entry (List.mem_append_right _ (List.mem_singleton_self _))⟩

/-- What holds before an operation of a call. -/
def MeterPre (call : MeteredCall) : MeterOp → List MeterEntry → Prop
  | .reserve key amount, log => key = call.spendKey ∧ amount = call.bound ∧ log = []
  | .correct _, log => Clean call log → ∃ id, phaseOf log = .held id call.spendKey call.bound
  | .commit id amount, log => Clean call log → amount ≤ call.bound ∧ commits log = 0 ∧ responded log = true ∧
    (phaseOf log = .held id call.spendKey call.bound ∨
      ∃ own key, phaseOf log = .correcting own call.spendKey call.bound id key)
  | .release id, log => Clean call log → phaseOf log = .held id call.spendKey call.bound ∨ phaseOf log = .moved id
  | _, _ => True

structure HeldIn (call : MeteredCall) (state : HoldState) (log : List MeterEntry) : Prop where
  phase : Clean call log → phaseOf log = .held state.reservation call.spendKey call.bound
  commits : Clean call log → commits log = 0
  responded : Clean call log → responded log = state.sawResponse
  estimate : Clean call log → state.estimate ≤ call.bound
  cost : Clean call log → ∀ cost, state.cost = some (some cost) → cost ≤ call.bound

theorem HeldIn.amount {state : HoldState} (h : HeldIn call state log)
    (hcln : Clean call log) : state.amount ≤ call.bound := by
  unfold HoldState.amount
  cases hcost : state.cost with
  | none => exact h.estimate hcln
  | some cost =>
    cases cost with
    | none => exact h.estimate hcln
    | some cost => exact h.cost hcln cost hcost

structure SettledIn (call : MeteredCall) (saw : Bool) (log : List MeterEntry) : Prop where
  phase : Clean call log → phaseOf log = .settled
  commits : Clean call log → commits log = saw.toNat
  responded : Clean call log → responded log = saw

/-- The call holds nothing. -/
structure DoneIn (call : MeteredCall) (log : List MeterEntry) : Prop where
  phase : Clean call log → phaseOf log = .idle ∨ phaseOf log = .settled
  commits : Clean call log → commits log = (responded log).toNat

theorem SettledIn.done {saw : Bool} (h : SettledIn call saw log) :
    DoneIn call log :=
  ⟨fun hcln => .inr (h.phase hcln), fun hcln => by rw [h.commits hcln, h.responded hcln]⟩

section Calls

variable {ledger : SpendLedger} {call : MeteredCall} {state : HoldState} {log : List MeterEntry}

/-- What a part of a call ensures. -/
abbrev Meters (ledger : SpendLedger) (call : MeteredCall) {α : Type} (post : α → List MeterEntry → Prop)
    (p : MeterProg α) (log : List MeterEntry) : Prop :=
  Prog.Ensures (recording (meterLaws ledger)) (MeterPre call) (fun _ => DoneIn call) post p log

theorem meters_dropped {α β : Type} {post : β → List MeterEntry → Prop} {f : α → MeterProg β} (h : DoneIn call log) :
    Meters ledger call post (waited none >>= f) log :=
  Prog.Ensures.bind (M := fun _ _ => False) (ensures_throw h) fun _ _ h => h.elim

theorem meters_answered {α β : Type} {post : β → List MeterEntry → Prop} {f : α → MeterProg β} {a : α}
    (h : Meters ledger call post (f a) log) : Meters ledger call post (waited (some a) >>= f) log := by
  refine Prog.Ensures.bind (M := fun a' log' => a' = a ∧ log' = log) (ensures_pure ⟨rfl, rfl⟩) ?_
  rintro _ _ ⟨rfl, rfl⟩
  exact h

/-- The hold is committed under the reserved vendor. -/
theorem meters_commitReserved (hresp : Clean call log → responded log = true) (hcommits : Clean call log → commits log = 0)
    (ham : Clean call log → state.amount ≤ call.bound)
    (hph : Clean call log → phaseOf log = .held state.reservation call.spendKey call.bound) :
    Meters ledger call (fun _ => SettledIn call true) (commitReserved state) log := by
  refine Prog.Ensures.bind
    (M := fun answer log' => ∃ w, log' = log ++ [⟨w, .commit state.reservation state.amount, answer⟩])
    (ensures_perform (fun hcln => ?_) fun w r _ _ => ⟨w, rfl⟩) fun answer log' hlog => ?_
  · exact ⟨ham hcln, hcommits hcln, hresp hcln, .inl (hph hcln)⟩
  · obtain ⟨w, rfl⟩ := hlog
    have hok : Clean call (log ++ [⟨w, .commit state.reservation state.amount, answer⟩]) → answer = some (.ok ()) :=
      fun hcln => hcln.of_concat.2
    cases answer with
    | none => exact meters_dropped ⟨fun hcln => (by cases hok hcln), fun hcln => (by cases hok hcln)⟩
    | some answer =>
      refine meters_answered (ensures_pure ⟨fun hcln => ?_, fun hcln => ?_, fun hcln => ?_⟩)
      · obtain rfl := Option.some.inj (hok hcln)
        rw [phaseOf_concat, hph hcln.of_concat.1]
        rfl
      · obtain rfl := Option.some.inj (hok hcln)
        rw [commits_concat, hcommits hcln.of_concat.1]
        rfl
      · rw [responded_concat, hresp hcln.of_concat.1]
        rfl

/-- The hold is dropped: of a call without a response, or after its cost was committed elsewhere. -/
theorem meters_releaseReserved {saw : Bool} (hph : Clean call log →
      phaseOf log = .held state.reservation call.spendKey call.bound ∨ phaseOf log = .moved state.reservation)
    (hcommits : Clean call log → commits log = saw.toNat) (hresp : Clean call log → responded log = saw) :
    Meters ledger call (fun _ => SettledIn call saw) (releaseReserved state) log := by
  refine Prog.Ensures.bind
    (M := fun answer log' => ∃ w, log' = log ++ [⟨w, .release state.reservation, answer⟩])
    (ensures_perform hph fun w r _ _ => ⟨w, rfl⟩) fun answer log' hlog => ?_
  obtain ⟨w, rfl⟩ := hlog
  have hok : Clean call (log ++ [⟨w, .release state.reservation, answer⟩]) → answer = some (.ok ()) :=
    fun hcln => hcln.of_concat.2
  cases answer with
  | none => exact meters_dropped ⟨fun hcln => (by cases hok hcln), fun hcln => (by cases hok hcln)⟩
  | some answer =>
    refine meters_answered (ensures_pure ⟨fun hcln => ?_, fun hcln => ?_, fun hcln => ?_⟩)
    · obtain rfl := Option.some.inj (hok hcln)
      rw [phaseOf_concat]
      rcases hph hcln.of_concat.1 with hheld | hmvd
      · rw [hheld]
        rfl
      · rw [hmvd]
        rfl
    · rw [commits_concat, hcommits hcln.of_concat.1]
      rfl
    · rw [responded_concat, hresp hcln.of_concat.1, Bool.or_eq_left_iff_imp]
      intro h
      cases h

variable {w : SpendRun} {hold : Option HoldState}

/-- The cost is committed under the provider that was reported, or under the reserved vendor. -/
theorem meters_commitCorrected {key : SpendKey} {answer : Except SpendError ReservationId}
    (hsaw : state.sawResponse = true) (h : HeldIn call state log) :
    Meters ledger call (fun _ => SettledIn call true) (commitCorrected state answer)
      (log ++ [⟨w, .correct key, some answer⟩]) := by
  have hresp : Clean call (log ++ [⟨w, .correct key, some answer⟩]) →
      responded (log ++ [⟨w, .correct key, some answer⟩]) = true := by
    intro hcln
    rw [responded_concat, h.responded hcln.of_concat.1, hsaw]
    rfl
  have hcommits : Clean call (log ++ [⟨w, .correct key, some answer⟩]) →
      commits (log ++ [⟨w, .correct key, some answer⟩]) = 0 := by
    intro hcln
    rw [commits_concat, h.commits hcln.of_concat.1]
    rfl
  have ham : Clean call (log ++ [⟨w, .correct key, some answer⟩]) → state.amount ≤ call.bound :=
    fun hcln => h.amount hcln.of_concat.1
  cases answer with
  | error error =>
    refine meters_commitReserved hresp hcommits ham fun hcln => ?_
    rw [phaseOf_concat, h.phase hcln.of_concat.1]
    rfl
  | ok corrected =>
    have hph : Clean call (log ++ [⟨w, .correct key, some (.ok corrected)⟩]) →
        phaseOf (log ++ [⟨w, .correct key, some (.ok corrected)⟩]) =
          .correcting state.reservation call.spendKey call.bound corrected key := by
      intro hcln
      rw [phaseOf_concat, h.phase hcln.of_concat.1]
      rfl
    refine Prog.Ensures.bind (M := fun answer log' => ∃ w', log' =
      (log ++ [⟨w, .correct key, some (.ok corrected)⟩]) ++ [⟨w', .commit corrected state.amount, answer⟩])
      (ensures_perform (fun hcln => ?_) fun w' r _ _ => ⟨w', rfl⟩) fun answer log' hlog => ?_
    · exact ⟨ham hcln, hcommits hcln, hresp hcln, .inr ⟨_, _, hph hcln⟩⟩
    · obtain ⟨w', rfl⟩ := hlog
      have hok : Clean call ((log ++ [⟨w, .correct key, some (.ok corrected)⟩]) ++
          [⟨w', .commit corrected state.amount, answer⟩]) → answer = some (.ok ()) := fun hcln => hcln.of_concat.2
      cases answer with
      | none => exact meters_dropped ⟨fun hcln => (by cases hok hcln), fun hcln => (by cases hok hcln)⟩
      | some answer =>
        refine meters_answered ?_
        cases answer with
        | error error =>
          have hnever : ∀ {p : Prop}, Clean call ((log ++ [⟨w, .correct key, some (.ok corrected)⟩]) ++
              [⟨w', .commit corrected state.amount, some (.error error)⟩]) → p := fun hcln => by cases hok hcln
          exact meters_commitReserved hnever hnever hnever hnever
        | ok done =>
          refine meters_releaseReserved (fun hcln => .inr ?_) (fun hcln => ?_) fun hcln => ?_
          · rw [phaseOf_concat, hph hcln.of_concat.1]
            rfl
          · rw [commits_concat, hcommits hcln.of_concat.1]
            rfl
          · rw [responded_concat, hresp hcln.of_concat.1]
            rfl

theorem meters_settle (h : HeldIn call state log) :
    Meters ledger call (fun _ => SettledIn call state.sawResponse) state.settle log := by
  unfold HoldState.settle
  by_cases hsaw : state.sawResponse = false
  · rw [if_pos hsaw, hsaw]
    refine meters_releaseReserved (fun hcln => .inl (h.phase hcln)) h.commits fun hcln => ?_
    rw [h.responded hcln, hsaw]
  · rw [if_neg hsaw]
    rw [Bool.not_eq_false] at hsaw
    rw [hsaw]
    cases state.reported with
    | none =>
      refine meters_commitReserved (fun hcln => ?_) h.commits h.amount h.phase
      rw [h.responded hcln, hsaw]
    | some provider =>
      refine Prog.Ensures.bind (M := fun answer log' => ∃ w, log' =
        log ++ [⟨w, .correct { state.key with vendor := some provider }, answer⟩])
        (ensures_perform (fun hcln => ⟨_, h.phase hcln⟩) fun w r _ _ => ⟨w, rfl⟩) fun answer log' hlog => ?_
      obtain ⟨w, rfl⟩ := hlog
      cases answer with
      | none =>
        have hnever : ∀ {p : Prop},
            Clean call (log ++ [⟨w, .correct { state.key with vendor := some provider }, none⟩]) → p :=
          fun hcln => (hcln.of_concat.2 rfl).elim
        exact meters_dropped ⟨hnever, hnever⟩
      | some answer => exact meters_answered (meters_commitCorrected hsaw h)

/-! ## Its stream -/

def OpenIn (call : MeteredCall) : Option HoldState → List MeterEntry → Prop
  | some state, log => HeldIn call state log
  | none, log => SettledIn call true log

theorem meters_settleOpen (h : OpenIn call hold log) :
    Meters ledger call (fun _ => DoneIn call) (settleOpen hold) log := by
  cases hold with
  | none => exact ensures_pure (SettledIn.done h)
  | some state => exact Prog.Ensures.mono (meters_settle h) (fun _ _ h => h.done) fun _ _ h => h

theorem OpenIn.item {item : StreamItem} (hitem : isResponse ⟨w, .next, item⟩ = false) (h : OpenIn call hold log) :
    OpenIn call hold (log ++ [⟨w, .next, item⟩]) := by
  have hph : phaseOf (log ++ [⟨w, .next, item⟩]) = phaseOf log := by
    rw [phaseOf_concat]
    cases phaseOf log <;> rfl
  have hresp : responded (log ++ [⟨w, .next, item⟩]) = responded log := by
    rw [responded_concat, hitem, Bool.or_false]
  cases hold with
  | none =>
    refine ⟨fun hcln => ?_, fun hcln => ?_, fun hcln => ?_⟩
    · rw [hph]
      exact h.phase hcln.of_concat.1
    · rw [commits_concat]
      exact h.commits hcln.of_concat.1
    · rw [hresp]
      exact h.responded hcln.of_concat.1
  | some state =>
    refine ⟨fun hcln => ?_, fun hcln => ?_, fun hcln => ?_, fun hcln => h.estimate hcln.of_concat.1,
      fun hcln => h.cost hcln.of_concat.1⟩
    · rw [hph]
      exact h.phase hcln.of_concat.1
    · rw [commits_concat]
      exact h.commits hcln.of_concat.1
    · rw [hresp]
      exact h.responded hcln.of_concat.1

theorem meters_observeItem {response : LlmResponse} (h : OpenIn call hold log) :
    Meters ledger call (OpenIn call) (observeItem response hold) (log ++ [⟨w, .next, .response response⟩]) := by
  cases hold with
  | none =>
    refine ensures_pure ⟨fun hcln => ?_, fun hcln => ?_, fun hcln => ?_⟩
    · rw [phaseOf_concat, h.phase hcln.of_concat.1]
      rfl
    · rw [commits_concat, h.commits hcln.of_concat.1]
      rfl
    · rw [responded_concat, h.responded hcln.of_concat.1]
      rfl
  | some state =>
    have hobserved : HeldIn call (state.observe response) (log ++ [⟨w, .next, .response response⟩]) := by
      refine ⟨fun hcln => ?_, fun hcln => ?_, fun hcln => ?_, fun hcln => h.estimate hcln.of_concat.1,
        fun hcln cost hcost => ?_⟩
      · rw [phaseOf_concat, h.phase hcln.of_concat.1]
        rfl
      · rw [commits_concat, h.commits hcln.of_concat.1]
        rfl
      · rw [responded_concat]
        exact Bool.or_true _
      · have hreported : response.cost.or state.cost = some (some cost) := hcost
        rcases Option.or_eq_some_iff.mp hreported with hnow | ⟨-, hbef⟩
        · exact hcln.of_concat.2 cost hnow
        · exact h.cost hcln.of_concat.1 cost hbef
    unfold observeItem
    dsimp only
    by_cases hlast : (response.turnComplete && !response.partial_) = true
    · rw [if_pos hlast]
      refine Prog.Ensures.bind (meters_settle hobserved) fun _ log' hset => ensures_pure ?_
      exact hset
    · rw [if_neg hlast]
      exact ensures_pure hobserved

/-- **A stream settles its hold**, wherever it is dropped. -/
theorem meters_commitOnCompletion (polls : Nat) {log : List MeterEntry} (h : OpenIn call hold log) :
    Meters ledger call (fun _ => DoneIn call) (commitOnCompletion polls hold) log := by
  induction polls generalizing hold log with
  | zero => exact meters_settleOpen h
  | succ polls ih =>
    refine Prog.Ensures.bind (M := fun item log' => ∃ w, log' = log ++ [⟨w, .next, item⟩])
      (ensures_perform trivial fun w r _ _ => ⟨w, rfl⟩) fun item log' hlog => ?_
    obtain ⟨w, rfl⟩ := hlog
    cases item with
    | response response => exact Prog.Ensures.bind (meters_observeItem h) fun hold log' hopen => ih hopen
    | error => exact ih (h.item rfl)
    | ended => exact meters_settleOpen (h.item rfl)

/-! ## A whole call -/

theorem HeldIn.entry {entry : MeterEntry} (h : HeldIn call state log) (hph : ∀ phase, HoldPhase.after phase entry = phase)
    (hcommitted : isCommitted entry = false) (hresp : isResponse entry = false) :
    HeldIn call state (log ++ [entry]) := by
  refine ⟨fun hcln => ?_, fun hcln => ?_, fun hcln => ?_, fun hcln => h.estimate hcln.of_concat.1,
    fun hcln => h.cost hcln.of_concat.1⟩
  · rw [phaseOf_concat, hph]
    exact h.phase hcln.of_concat.1
  · rw [commits_concat, hcommitted]
    exact h.commits hcln.of_concat.1
  · rw [responded_concat, hresp, Bool.or_false]
    exact h.responded hcln.of_concat.1

theorem meters_ended {hold : HoldState} {ended : CallEnd} (h : HeldIn call hold log) :
    Meters ledger call (fun _ => DoneIn call) (do hold.settle; return ended : MeterProg CallEnd) log :=
  Prog.Ensures.bind (meters_settle h) fun _ _ hset => ensures_pure hset.done

theorem meters_sendCall {hold : HoldState} {allowed : Bool} (h : HeldIn call hold log) :
    Meters ledger call (fun _ => DoneIn call) (sendCall call hold allowed) log := by
  cases allowed with
  | false => exact meters_ended h
  | true =>
    refine Prog.Ensures.bind (M := fun answer log' => ∃ w, log' = log ++ [⟨w, .generateContent, answer⟩])
      (ensures_perform trivial fun w r _ _ => ⟨w, rfl⟩) fun answer log' hlog => ?_
    obtain ⟨w, rfl⟩ := hlog
    have hsent : HeldIn call hold (log ++ [⟨w, .generateContent, answer⟩]) :=
      h.entry (fun phase => by cases phase <;> rfl) rfl rfl
    cases answer with
    | error => exact meters_ended hsent
    | dropped => exact meters_ended hsent
    | stream =>
      exact Prog.Ensures.bind (meters_commitOnCompletion call.polls hsent) fun _ _ hdone => ensures_pure hdone

theorem meters_budgetCall {hold : HoldState} (h : HeldIn call hold log) :
    Meters ledger call (fun _ => DoneIn call) (budgetCall call hold) log := by
  unfold budgetCall
  by_cases hbudget : call.budget = true
  · rw [if_pos hbudget]
    refine Prog.Ensures.bind (M := fun allowed log' => ∃ w, log' = log ++ [⟨w, .beginModelCall, allowed⟩])
      (ensures_perform trivial fun w r _ _ => ⟨w, rfl⟩) fun allowed log' hlog => ?_
    obtain ⟨w, rfl⟩ := hlog
    exact meters_sendCall (h.entry (fun phase => by cases phase <;> rfl) rfl rfl)
  · rw [if_neg hbudget]
    exact meters_sendCall h

/-- **What a call does.** -/
theorem holds_generate (ledger : SpendLedger) (call : MeteredCall) :
    (generate call).run.Holds (recording (meterLaws ledger)) (MeterPre call) (fun _ => DoneIn call) [] := by
  have hall : Meters ledger call (fun _ => DoneIn call) (generate call) [] := by
    refine Prog.Ensures.bind (M := fun answer log => ∃ w, log = [⟨w, .reserve call.spendKey call.bound, answer⟩])
      (ensures_perform ⟨rfl, rfl, rfl⟩ fun w r _ _ => ⟨w, rfl⟩) fun answer log hlog => ?_
    obtain ⟨w, rfl⟩ := hlog
    cases answer with
    | none => exact meters_dropped ⟨fun _ => .inl rfl, fun _ => rfl⟩
    | some answer =>
      refine meters_answered ?_
      cases answer with
      | error error => exact ensures_pure ⟨fun _ => .inl rfl, fun _ => rfl⟩
      | ok reservation =>
        exact meters_budgetCall ⟨fun _ => rfl, fun _ => rfl, fun _ => rfl, fun hcln => hcln.unpriced,
          fun _ _ hcost => by cases hcost⟩
  refine Prog.Holds.mono hall fun result log h => ?_
  cases result with
  | error dropped => exact h
  | ok ended => exact h

end Calls

/-! ## The account of the ledger -/

def HoldPhase.ids : HoldPhase → List ReservationId
  | .held id _ _ => [id]
  | .correcting id _ _ corrected _ => [id, corrected]
  | .moved id => [id]
  | .idle | .settled => []

/-- The ledger holds what a phase says. A hold whose cost was committed elsewhere does not count. -/
def HoldPhase.Backed (holds counted : Dict Hold) : HoldPhase → Prop
  | .held id key amount => ∃ hold, counted[id]? = some hold ∧ hold.key = key ∧ hold.amount = amount
  | .correcting id key amount corrected correctedKey => id ≠ corrected ∧
    (∃ hold, counted[id]? = some hold ∧ hold.key = key ∧ hold.amount = amount) ∧
    ∃ hold, counted[corrected]? = some hold ∧ hold.key = correctedKey
  | .moved id => (∃ hold, holds[id]? = some hold) ∧ counted[id]? = none
  | .idle | .settled => True

theorem HoldPhase.Backed.congr {phase : HoldPhase} {holds holds' counted counted' : Dict Hold}
    (h : phase.Backed holds counted) (hhol : ∀ id ∈ phase.ids, holds'[id]? = holds[id]?)
    (hcntd : ∀ id ∈ phase.ids, counted'[id]? = counted[id]?) : phase.Backed holds' counted' := by
  cases phase with
  | idle => trivial
  | settled => trivial
  | held id key amount =>
    unfold Backed
    dsimp only
    rw [hcntd id (List.mem_singleton_self _)]
    exact h
  | correcting id key amount corrected correctedKey =>
    unfold Backed
    dsimp only
    rw [hcntd id List.mem_cons_self, hcntd corrected (List.mem_cons_of_mem _ (List.mem_singleton_self _))]
    exact h
  | moved id =>
    unfold Backed
    dsimp only
    rw [hcntd id (List.mem_singleton_self _), hhol id (List.mem_singleton_self _)]
    exact h

/-- What the ledger keeps for calls in some phases; the holds that are counted are those that may still be committed. -/
structure HoldAccount (limits : List SpendLimit) (r : SpendRun) (phases : Nat → HoldPhase) (counted : Dict Hold) : Prop where
  balanced : Balanced limits r counted
  sub : ∀ (id : String) (hold : Hold), counted[id]? = some hold → r.state.holds[id]? = some hold
  backed : ∀ i, (phases i).Backed r.state.holds counted
  apart : ∀ i j, ∀ id ∈ (phases i).ids, id ∈ (phases j).ids → i = j
  issued : ∀ i, ∀ id ∈ (phases i).ids, id ∈ r.issued ∧ id ∉ r.settled
  held : ∀ id : String, id ∈ r.state.holds → id ∈ r.issued
  settled : ∀ id ∈ r.settled, id ∈ r.issued
  once : r.settled.Nodup

section Accounts

variable {ledger : SpendLedger} {limits : List SpendLimit} {r : SpendRun} {phases : Nat → HoldPhase} {counted : Dict Hold}
  {i : Nat}

theorem HoldAccount.later (h : HoldAccount limits r phases counted) {now : Utc} (hclk : r.now ≤ now) :
    HoldAccount limits { r with now } phases counted :=
  { h with balanced := h.balanced.later hclk }

/-- An identifier that was generated for nothing. -/
theorem HoldAccount.spare (h : HoldAccount limits r phases counted) (id : ReservationId) :
    HoldAccount limits { r with issued := id :: r.issued } phases counted where
  balanced := ⟨h.balanced.booked, h.balanced.counted, h.balanced.capped⟩
  sub := h.sub
  backed := h.backed
  apart := h.apart
  issued j id' hid := ⟨List.mem_cons_of_mem _ (h.issued j id' hid).1, (h.issued j id' hid).2⟩
  held id' hid := List.mem_cons_of_mem _ (h.held id' hid)
  settled id' hid := List.mem_cons_of_mem _ (h.settled id' hid)
  once := h.once

variable {id : ReservationId} {hold : Hold} {key : SpendKey} {w : SpendRun}

theorem HoldAccount.take (h : HoldAccount limits r phases counted) {phase : HoldPhase} (hfr : id ∉ r.issued)
    (hfits : ∀ limit ∈ limits, limit.key.covers hold.key = true →
      inSpends limit (LedgerState.inWindow (limit.key.period.since r.now)) r.spends + inHolds limit r.now counted +
        hold.amount ≤ limit.maxMicroUsd) (hids : ∀ id' ∈ phase.ids, id' = id ∨ id' ∈ (phases i).ids)
    (hbck : phase.Backed (r.state.holds.insert id hold) (counted.insert id hold)) :
    HoldAccount limits { r with state := { r.state with holds := r.state.holds.insert id hold }, issued := id :: r.issued }
      (Function.update phases i phase) (counted.insert id hold) := by
  have hnew : id ∉ counted := by
    intro hmem
    obtain ⟨old, hold⟩ := Option.isSome_iff_exists.mp (Std.ExtTreeMap.mem_iff_isSome_getElem?.mp hmem)
    exact hfr (h.held id (Std.ExtTreeMap.mem_iff_isSome_getElem?.mpr (by simp [h.sub id old hold])))
  have hne : ∀ j, ∀ id' ∈ (phases j).ids, id' ≠ id := by
    rintro j id' hid rfl
    exact hfr (h.issued j id' hid).1
  have hbalanced := h.balanced.hold hold hnew hfits
  refine ⟨⟨hbalanced.booked, hbalanced.counted, hbalanced.capped⟩, fun id' hold' hid => ?_, fun j => ?_,
    fun j k id' hj hk => ?_, fun j id' hj => ?_, fun id' hid => ?_,
    fun id' hid => List.mem_cons_of_mem _ (h.settled id' hid), h.once⟩
  · by_cases heq : id' = id
    · subst heq
      simpa using hid
    · rw [Dict.getElem?_insert_of_ne heq] at hid ⊢
      exact h.sub id' hold' hid
  · by_cases hj : j = i
    · subst hj
      rw [Function.update_self]
      exact hbck
    · rw [Function.update_of_ne hj]
      exact (h.backed j).congr (fun id' hid => Dict.getElem?_insert_of_ne (hne j id' hid) _) fun id' hid =>
        Dict.getElem?_insert_of_ne (hne j id' hid) _
  · -- the new reservation is of no other call
    have hown : ∀ k, k ≠ i → id' ∈ (phases k).ids → id' ∈ phase.ids → False := by
      intro k hki hk hph
      rcases hids id' hph with rfl | hi
      · exact hne k id' hk rfl
      · exact hki (h.apart k i id' hk hi)
    by_cases hji : j = i
    · by_cases hki : k = i
      · rw [hji, hki]
      · subst hji
        rw [Function.update_self] at hj
        rw [Function.update_of_ne hki] at hk
        exact (hown k hki hk hj).elim
    · rw [Function.update_of_ne hji] at hj
      by_cases hki : k = i
      · subst hki
        rw [Function.update_self] at hk
        exact (hown j hji hj hk).elim
      · rw [Function.update_of_ne hki] at hk
        exact h.apart j k id' hj hk
  · by_cases hji : j = i
    · subst hji
      rw [Function.update_self] at hj
      rcases hids id' hj with rfl | hold
      · exact ⟨List.mem_cons_self, fun hset => hfr (h.settled id' hset)⟩
      · exact ⟨List.mem_cons_of_mem _ (h.issued j id' hold).1, (h.issued j id' hold).2⟩
    · rw [Function.update_of_ne hji] at hj
      exact ⟨List.mem_cons_of_mem _ (h.issued j id' hj).1, (h.issued j id' hj).2⟩
  · rcases Std.ExtTreeMap.mem_insert.mp hid with heq | hold
    · obtain rfl : id = id' := by simpa using heq
      exact List.mem_cons_self
    · exact List.mem_cons_of_mem _ (h.held id' hold)

theorem HoldAccount.settle (h : HoldAccount limits r phases counted) {phase : HoldPhase}
    {committed : List Bucket} {spends : List Spend} {left : Dict Hold} (hid : id ∈ (phases i).ids)
    (hbalanced : Balanced limits { r with state := ⟨committed, r.state.holds.erase id⟩, spends } left)
    (hleft : ∀ id' : String, left[id']? = counted[id']? ∨ (left[id']? = none ∧ id' ∈ (phases i).ids))
    (hgone : left[id]? = none) (hids : ∀ id' ∈ phase.ids, id' ∈ (phases i).ids ∧ id' ≠ id)
    (hbck : phase.Backed (r.state.holds.erase id) left) :
    HoldAccount limits { r with state := ⟨committed, r.state.holds.erase id⟩, settled := r.settled ++ [id], spends }
      (Function.update phases i phase) left := by
  have hoth : ∀ j, j ≠ i → ∀ id' ∈ (phases j).ids, id' ∉ (phases i).ids :=
    fun j hj id' hid hi => hj (h.apart j i id' hid hi)
  refine ⟨⟨hbalanced.booked, hbalanced.counted, hbalanced.capped⟩, fun id' hold hhold => ?_, fun j => ?_,
    fun j k id' hj hk => ?_, fun j id' hj => ?_, fun id' hid' => ?_, fun id' hid' => ?_, ?_⟩
  · have hne : id' ≠ id := by
      rintro rfl
      rw [hgone] at hhold
      cases hhold
    dsimp only
    rw [Dict.getElem?_erase_of_ne hne]
    rcases hleft id' with hsame | ⟨hnone, -⟩
    · exact h.sub id' hold (hsame.symm.trans hhold)
    · rw [hnone] at hhold
      cases hhold
  · by_cases hj : j = i
    · subst hj
      rw [Function.update_self]
      exact hbck
    · rw [Function.update_of_ne hj]
      refine (h.backed j).congr (fun id' hid' => Dict.getElem?_erase_of_ne ?_) fun id' hid' => ?_
      · rintro rfl
        exact hoth j hj id' hid' hid
      · rcases hleft id' with hsame | ⟨-, hi⟩
        · exact hsame
        · exact (hoth j hj id' hid' hi).elim
  · have hsub : ∀ k, id' ∈ (Function.update phases i phase k).ids → id' ∈ (phases k).ids := by
      intro k hk
      by_cases hki : k = i
      · subst hki
        rw [Function.update_self] at hk
        exact (hids id' hk).1
      · rw [Function.update_of_ne hki] at hk
        exact hk
    exact h.apart j k id' (hsub j hj) (hsub k hk)
  · have hmem : id' ∈ (phases j).ids ∧ id' ≠ id := by
      by_cases hji : j = i
      · subst hji
        rw [Function.update_self] at hj
        exact hids id' hj
      · rw [Function.update_of_ne hji] at hj
        refine ⟨hj, ?_⟩
        rintro rfl
        exact hoth j hji id' hj hid
    obtain ⟨hiss, hset⟩ := h.issued j id' hmem.1
    refine ⟨hiss, fun hnow => ?_⟩
    rcases List.mem_append.mp hnow with hbef | hlast
    · exact hset hbef
    · exact hmem.2 (List.mem_singleton.mp hlast)
  · exact h.held id' (Std.ExtTreeMap.mem_of_mem_erase hid')
  · rcases List.mem_append.mp hid' with hbef | hlast
    · exact h.settled id' hbef
    · rw [List.mem_singleton.mp hlast]
      exact (h.issued i id hid).1
  · rw [List.nodup_append]
    refine ⟨h.once, List.nodup_singleton _, fun a ha b hb heq => ?_⟩
    rw [List.mem_singleton.mp hb] at heq
    exact (h.issued i id hid).2 (heq ▸ ha)

/-! ## What the ledger answers -/

theorem reserved_cases (ledger : SpendLedger) (r : SpendRun) (id : ReservationId) (key : SpendKey) (amount : Nat) :
    (∃ error, r.reserved ledger id key amount = (.error error, { r with issued := id :: r.issued })) ∨
    ((ledger.applicable key).findSome? (SpendLedger.refusal r.state r.now amount) = none ∧
      r.reserved ledger id key amount = (.ok id, { r with
        state := { r.state with holds := r.state.holds.insert id { key, amount, expiresAt := ledger.expiry r.now } }
        issued := id :: r.issued })) := by
  unfold SpendRun.reserved SpendLedger.reserve
  cases hfind : (ledger.applicable key).findSome? (SpendLedger.refusal r.state r.now amount) with
  | some error => exact .inl ⟨error, rfl⟩
  | none => exact .inr ⟨rfl, rfl⟩

theorem committed_some (hhold : r.state.holds[id]? = some hold) (amount : Nat) :
    r.committed id amount = (.ok (), { r with
      state := ⟨Bucket.add (.of hold.key) (dateNaive r.now) amount r.state.committed, r.state.holds.erase id⟩
      settled := r.settled ++ [id]
      spends := r.spends ++ [{ key := hold.key, amount, moment := r.now }] }) := by
  unfold SpendRun.committed SpendLedger.commit
  rw [hhold]
  rfl

theorem released_some (hhold : r.state.holds[id]? = some hold) :
    r.released id = (.ok (), { r with
      state := { r.state with holds := r.state.holds.erase id }, settled := r.settled ++ [id] }) := by
  unfold SpendRun.released SpendLedger.release
  rw [hhold]
  rfl

/-- The limits that an amount of 64 bits can exceed. -/
def bindingLimits (ledger : SpendLedger) : List SpendLimit :=
  ledger.limits.filter fun limit => limit.maxMicroUsd < maxAmount

theorem mem_bindingLimits {limit : SpendLimit} (h : limit ∈ bindingLimits ledger) :
    limit ∈ ledger.limits ∧ limit.maxMicroUsd < maxAmount := by
  obtain ⟨hmem, hlt⟩ := List.mem_filter.mp h
  exact ⟨hmem, of_decide_eq_true hlt⟩

theorem HoldAccount.fits (h : HoldAccount (bindingLimits ledger) r phases counted) {limit : SpendLimit} {amount : Nat}
    (hl : limit ∈ bindingLimits ledger) (hpass : SpendLedger.refusal r.state r.now amount limit = none) :
    inSpends limit (LedgerState.inWindow (limit.key.period.since r.now)) r.spends + inHolds limit r.now counted +
      amount ≤ limit.maxMicroUsd := by
  have hroom := reserve_fits (mem_bindingLimits hl).2 hpass
  rw [h.balanced.booked limit hl] at hroom
  have hle : inHolds limit r.now counted ≤ inHolds limit r.now r.state.holds := Dict.total_le h.sub
  omega

/-- The first reservation of a call. -/
theorem HoldAccount.reserve (h : HoldAccount (bindingLimits ledger) r phases counted)
    {amount : Nat} (hfr : id ∉ r.issued) (hidle : phases i = .idle) :
    ∃ counted', HoldAccount (bindingLimits ledger) (r.reserved ledger id key amount).2 (Function.update phases i
      ((phases i).after ⟨w, .reserve key amount, some (r.reserved ledger id key amount).1⟩)) counted' := by
  rw [hidle]
  rcases reserved_cases ledger r id key amount with ⟨error, heq⟩ | ⟨hfind, heq⟩
  · rw [heq]
    have hsame : Function.update phases i (HoldPhase.after .idle ⟨w, .reserve key amount, some (.error error)⟩) = phases :=
      Function.update_eq_self_iff.mpr hidle.symm
    rw [hsame]
    exact ⟨counted, h.spare id⟩
  · rw [heq]
    refine ⟨_, h.take hfr (fun limit hl hcov => ?_) (fun id' hid => .inl (List.mem_singleton.mp hid)) ?_⟩
    · exact h.fits hl (refusal_eq_none (mem_bindingLimits hl).1 hcov hfind)
    · exact ⟨_, Std.ExtTreeMap.getElem?_insert_self, rfl, rfl⟩

/-- The reservation of nothing under the provider that was reported. -/
theorem HoldAccount.correct (h : HoldAccount (bindingLimits ledger) r phases counted) {own : ReservationId}
    {ownKey : SpendKey} {amount : Nat} (hfr : id ∉ r.issued) (hheld : phases i = .held own ownKey amount) :
    ∃ counted', HoldAccount (bindingLimits ledger) (r.reserved ledger id key 0).2 (Function.update phases i
      ((phases i).after ⟨w, .correct key, some (r.reserved ledger id key 0).1⟩)) counted' := by
  have hbck := h.backed i
  have hiss := h.issued i
  rw [hheld] at hbck hiss ⊢
  rcases reserved_cases ledger r id key 0 with ⟨error, heq⟩ | ⟨hfind, heq⟩
  · rw [heq]
    have hsame : Function.update phases i
        (HoldPhase.after (.held own ownKey amount) ⟨w, .correct key, some (.error error)⟩) = phases :=
      Function.update_eq_self_iff.mpr hheld.symm
    rw [hsame]
    exact ⟨counted, h.spare id⟩
  · rw [heq]
    have hne : own ≠ id := by
      rintro rfl
      exact hfr (hiss own (List.mem_singleton_self _)).1
    refine ⟨_, h.take hfr (fun limit hl hcov => ?_) (fun id' hid => ?_) ?_⟩
    · exact h.fits hl (refusal_eq_none (mem_bindingLimits hl).1 hcov hfind)
    · rcases List.mem_cons.mp hid with rfl | hid
      · refine .inr ?_
        rw [hheld]
        exact List.mem_singleton_self _
      · exact .inl (List.mem_singleton.mp hid)
    · refine ⟨hne, ?_, _, Std.ExtTreeMap.getElem?_insert_self, rfl⟩
      rw [Dict.getElem?_insert_of_ne hne]
      exact hbck

/-- A map without one of its keys. -/
theorem erase_cases (counted : Dict Hold) (id id' : ReservationId) :
    (counted.erase id)[id']? = counted[id']? ∨ ((counted.erase id)[id']? = none ∧ id' = id) := by
  by_cases heq : id' = id
  · subst heq
    exact .inr ⟨Std.ExtTreeMap.getElem?_erase_self, rfl⟩
  · exact .inl (Dict.getElem?_erase_of_ne heq)

theorem HoldAccount.release (h : HoldAccount limits r phases counted)
    (hph : (∃ key amount, phases i = .held id key amount) ∨ phases i = .moved id) :
    (r.released id).1 = .ok () ∧ ∃ counted', HoldAccount limits (r.released id).2 (Function.update phases i
      ((phases i).after ⟨w, .release id, some (r.released id).1⟩)) counted' := by
  have hbck := h.backed i
  rcases hph with ⟨key, amount, hheld⟩ | hmvd
  · rw [hheld] at hbck ⊢
    obtain ⟨hold, hcntd, -, -⟩ := hbck
    rw [released_some (h.sub id hold hcntd)]
    have hid : id ∈ (phases i).ids := by
      rw [hheld]
      exact List.mem_singleton_self _
    have hdropped := h.balanced.drop id
    refine ⟨rfl, _, h.settle hid ⟨hdropped.booked, hdropped.counted, hdropped.capped⟩ (fun id' => ?_) Std.ExtTreeMap.getElem?_erase_self
      (fun _ hnone => by cases hnone) trivial⟩
    rcases erase_cases counted id id' with hsame | ⟨hnone, rfl⟩
    · exact .inl hsame
    · exact .inr ⟨hnone, hid⟩
  · rw [hmvd] at hbck ⊢
    obtain ⟨⟨hold, hhold⟩, hnone⟩ := hbck
    rw [released_some hhold]
    have hid : id ∈ (phases i).ids := by
      rw [hmvd]
      exact List.mem_singleton_self _
    exact ⟨rfl, _, h.settle hid ⟨h.balanced.booked, h.balanced.counted, h.balanced.capped⟩ (fun _ => .inl rfl) hnone
      (fun _ hnone => by cases hnone) trivial⟩

theorem HoldAccount.commit (h : HoldAccount (bindingLimits ledger) r phases counted)
    {amount actual : Nat} (hheld : phases i = .held id key amount) (hactual : actual ≤ amount)
    (hlive : ∀ (id' : String) (hold : Hold), r.state.holds[id']? = some hold → r.now < hold.expiresAt) :
    (r.committed id actual).1 = .ok () ∧ ∃ counted', HoldAccount (bindingLimits ledger) (r.committed id actual).2
      (Function.update phases i ((phases i).after ⟨w, .commit id actual, some (r.committed id actual).1⟩)) counted' := by
  have hbck := h.backed i
  rw [hheld] at hbck ⊢
  obtain ⟨hold, hcntd, -, rfl⟩ := hbck
  rw [committed_some (h.sub id hold hcntd)]
  have hid : id ∈ (phases i).ids := by
    rw [hheld]
    exact List.mem_singleton_self _
  have hspt := h.balanced.spend (fun limit hl => (mem_bindingLimits hl).2)
    ⟨Bucket.add (.of hold.key) (dateNaive r.now) actual r.state.committed, r.state.holds.erase id⟩ rfl
    (h.balanced.settled hcntd hactual (hlive id hold (h.sub id hold hcntd)))
  refine ⟨rfl, _, h.settle hid hspt (fun id' => ?_) Std.ExtTreeMap.getElem?_erase_self
    (fun _ hnone => by cases hnone) trivial⟩
  rcases erase_cases counted id id' with hsame | ⟨hnone, rfl⟩
  · exact .inl hsame
  · exact .inr ⟨hnone, hid⟩

/-- A call commits under the provider that was reported: what its own hold does not cover must fit. -/
theorem HoldAccount.commitCorrected (h : HoldAccount (bindingLimits ledger) r phases counted) {own : ReservationId}
    {ownKey : SpendKey} {amount actual : Nat} (hph : phases i = .correcting own ownKey amount id key)
    (hactual : actual ≤ amount)
    (hlive : ∀ (id' : String) (hold : Hold), r.state.holds[id']? = some hold → r.now < hold.expiresAt)
    (hfits : ∀ limit ∈ ledger.limits, limit.key.covers key = true → limit.key.covers ownKey = false →
      SpendLedger.refusal r.state r.now actual limit = none) :
    (r.committed id actual).1 = .ok () ∧ ∃ counted', HoldAccount (bindingLimits ledger) (r.committed id actual).2
      (Function.update phases i ((phases i).after ⟨w, .commit id actual, some (r.committed id actual).1⟩)) counted' := by
  have hbck := h.backed i
  rw [hph] at hbck ⊢
  obtain ⟨hne, ⟨hold, hcntd, rfl, rfl⟩, hold', hcorrected, rfl⟩ := hbck
  rw [committed_some (h.sub id hold' hcorrected)]
  have hid : id ∈ (phases i).ids := by
    rw [hph]
    exact List.mem_cons_of_mem _ (List.mem_singleton_self _)
  have hown : own ∈ (phases i).ids := by
    rw [hph]
    exact List.mem_cons_self
  have hstill : (counted.erase id)[own]? = some hold := by
    rw [Dict.getElem?_erase_of_ne hne]
    exact hcntd
  have hownLive : r.now < hold.expiresAt := hlive own hold (h.sub own hold hcntd)
  -- the call's own hold covers what it commits, or the amount fits beside all holds
  have hcounts : ∀ limit ∈ bindingLimits ledger,
      inSpends limit (LedgerState.inWindow (limit.key.period.since r.now)) r.spends +
        (if limit.key.covers hold'.key then actual else 0) +
        inHolds limit r.now ((counted.erase id).erase own) ≤ limit.maxMicroUsd := by
    intro limit hl
    have hdropped := (h.balanced.drop id).counted limit hl
    have hless : inHolds limit r.now ((counted.erase id).erase own) ≤ inHolds limit r.now counted := by
      refine Dict.total_le fun k v hv => ?_
      rcases erase_cases (counted.erase id) own k with hsame | ⟨hnone, -⟩
      · rcases erase_cases counted id k with hsame' | ⟨hnone, -⟩
        · exact hsame'.symm.trans (hsame.symm.trans hv)
        · rw [hsame.symm.trans hv] at hnone
          cases hnone
      · rw [hv] at hnone
        cases hnone
    by_cases hcov : limit.key.covers hold'.key = true
    · rw [if_pos hcov]
      by_cases hboth : limit.key.covers hold.key = true
      · have herase := Dict.total_erase (p := fun hold : Hold => decide (r.now < hold.expiresAt) &&
          limit.key.covers hold.key) (f := Hold.amount) hstill
        simp only [hownLive, hboth, decide_true, Bool.and_true, if_true] at herase
        unfold inHolds at hdropped ⊢
        omega
      · have hroom := h.fits hl (hfits limit (mem_bindingLimits hl).1 hcov (by simpa using hboth))
        omega
    · have hcnt := h.balanced.counted limit hl
      rw [if_neg hcov]
      omega
  have hspt := h.balanced.spend (fun limit hl => (mem_bindingLimits hl).2)
    ⟨Bucket.add (.of hold'.key) (dateNaive r.now) actual r.state.committed, r.state.holds.erase id⟩ rfl hcounts
  have hgone : ((counted.erase id).erase own)[id]? = none := by
    rw [Dict.getElem?_erase_of_ne (Ne.symm hne)]
    exact Std.ExtTreeMap.getElem?_erase_self
  refine ⟨rfl, _, h.settle hid hspt (fun id' => ?_) hgone (fun id' hmvd => ?_) ⟨⟨hold, ?_⟩, ?_⟩⟩
  · rcases erase_cases (counted.erase id) own id' with hsame | ⟨hnone, rfl⟩
    · rcases erase_cases counted id id' with hsame' | ⟨hnone, rfl⟩
      · exact .inl (hsame.trans hsame')
      · exact .inr ⟨hsame.trans hnone, hid⟩
    · exact .inr ⟨hnone, hown⟩
  · rw [List.mem_singleton.mp hmvd]
    exact ⟨hown, hne⟩
  · rw [Dict.getElem?_erase_of_ne hne]
    exact h.sub own hold hcntd
  · exact Std.ExtTreeMap.getElem?_erase_self

end Accounts

/-! ## Runs -/

/-- What the ledger answers to a reservation that is not settled. -/
def MeterAnswered : MeterEntry → Prop
  | ⟨_, .commit _ _, some (.error _)⟩ => False
  | ⟨_, .release _, some (.error _)⟩ => False
  | _ => True

/-- The ledger and the logs agree. -/
structure Accounted (ledger : SpendLedger) (s : MeterPool) : Prop where
  account : ∃ counted, HoldAccount (bindingLimits ledger) s.world (fun i => phaseOf (s.logOf i)) counted
  taken : ∀ i id, TakenIn (s.logOf i) id → id ∈ (phaseOf (s.logOf i)).ids ∨ id ∈ s.world.settled
  answered : ∀ i, ∀ entry ∈ s.logOf i, MeterAnswered entry
  once : ∀ i, commits (s.logOf i) ≤ (responded (s.logOf i)).toNat

section Logs

variable {ledger : SpendLedger} {call : MeteredCall} {log : List MeterEntry} {entry : MeterEntry}

theorem PricedCall.of_subset {log' : List MeterEntry} (h : PricedCall call log') (hsub : ∀ entry ∈ log, entry ∈ log') :
    PricedCall call log where
  unpriced := h.unpriced
  costs w response hmem := h.costs w response (hsub _ hmem)
  inTime w id amount answer hmem := h.inTime w id amount answer (hsub _ hmem)

theorem CarefulCall.of_subset {log' : List MeterEntry} (h : CarefulCall ledger call log')
    (hsub : ∀ entry ∈ log, entry ∈ log') : CarefulCall ledger call log where
  corrected w key answer hmem := h.corrected w key answer (hsub _ hmem)
  committed w id amount answer hmem := h.committed w id amount answer (hsub _ hmem)
  released w id answer hmem := h.released w id answer (hsub _ hmem)
  fits w key id hmem w' amount answer hmem' := h.fits w key id (hsub _ hmem) w' amount answer (hsub _ hmem')

theorem clean_of (hpriced : PricedCall call log) (hcare : CarefulCall ledger call log)
    (hansd : ∀ entry ∈ log, MeterAnswered entry) : Clean call log := by
  refine ⟨hpriced.unpriced, fun entry hmem => ?_⟩
  have hent := hansd entry hmem
  obtain ⟨w, op, answer⟩ := entry
  cases op with
  | reserve key amount => trivial
  | beginModelCall => trivial
  | generateContent => trivial
  | correct key => exact hcare.corrected w key answer hmem
  | commit id amount =>
    cases answer with
    | none => exact (hcare.committed w id amount none hmem rfl).elim
    | some answer =>
      cases answer with
      | error error => exact hent.elim
      | ok done => rfl
  | release id =>
    cases answer with
    | none => exact (hcare.released w id none hmem rfl).elim
    | some answer =>
      cases answer with
      | error error => exact hent.elim
      | ok done => rfl
  | next =>
    cases answer with
    | response response => exact hpriced.costs w response hmem
    | error => trivial
    | ended => trivial

variable {id : ReservationId} {w : SpendRun}

theorem takenIn_concat (h : TakenIn (log ++ [entry]) id) : TakenIn log id ∨ TakenIn [entry] id := by
  obtain ⟨w, ⟨key, amount, hmem⟩ | ⟨key, hmem⟩⟩ := h
  · rcases List.mem_append.mp hmem with hold | hnew
    · exact .inl ⟨w, .inl ⟨key, amount, hold⟩⟩
    · exact .inr ⟨w, .inl ⟨key, amount, hnew⟩⟩
  · rcases List.mem_append.mp hmem with hold | hnew
    · exact .inl ⟨w, .inr ⟨key, hold⟩⟩
    · exact .inr ⟨w, .inr ⟨key, hnew⟩⟩

theorem takenIn_singleton {op : MeterOp} {answer : op.Ret} (h : TakenIn [⟨w, op, answer⟩] id) :
    (∃ key amount, (⟨w, op, answer⟩ : MeterEntry) = ⟨w, .reserve key amount, some (.ok id)⟩) ∨
      ∃ key, (⟨w, op, answer⟩ : MeterEntry) = ⟨w, .correct key, some (.ok id)⟩ := by
  obtain ⟨w', ⟨key, amount, hmem⟩ | ⟨key, hmem⟩⟩ := h
  · have heq := List.mem_singleton.mp hmem
    obtain rfl : w' = w := congrArg Entry.world heq
    exact .inl ⟨key, amount, heq.symm⟩
  · have heq := List.mem_singleton.mp hmem
    obtain rfl : w' = w := congrArg Entry.world heq
    exact .inr ⟨key, heq.symm⟩

theorem takenIn_reserve {key : SpendKey} {amount : Nat}
    {answer : Option (Except SpendError ReservationId)} (h : TakenIn [⟨w, .reserve key amount, answer⟩] id) :
    answer = some (.ok id) := by
  rcases takenIn_singleton h with ⟨key', amount', heq⟩ | ⟨key', heq⟩
  · cases heq
    rfl
  · cases heq

theorem takenIn_correct {key : SpendKey}
    {answer : Option (Except SpendError ReservationId)} (h : TakenIn [⟨w, .correct key, answer⟩] id) :
    answer = some (.ok id) := by
  rcases takenIn_singleton h with ⟨key', amount', heq⟩ | ⟨key', heq⟩
  · cases heq
  · cases heq
    rfl

end Logs

section Runs

variable {ledger : SpendLedger} {s s' : MeterPool} {i : Nat} {entry : MeterEntry}

theorem correcting_taken {log : List MeterEntry} {own id : ReservationId} {ownKey key : SpendKey} {amount : Nat}
    (h : phaseOf log = .correcting own ownKey amount id key) :
    ∃ w, (⟨w, .correct key, some (.ok id)⟩ : MeterEntry) ∈ log := by
  induction log using List.reverseRecOn with
  | nil => cases h
  | append_singleton log entry ih =>
    rw [phaseOf_concat] at h
    unfold HoldPhase.after at h
    split at h
    next => cases h
    next =>
      cases h
      exact ⟨_, List.mem_append_right _ (List.mem_singleton_self _)⟩
    next => cases h
    next => cases h
    next => cases h
    next => cases h
    next =>
      obtain ⟨w, hmem⟩ := ih h
      exact ⟨w, List.mem_append_left _ hmem⟩

/-- An operation of one call. -/
theorem Accounted.act (h : Accounted ledger s) (hlog : s'.logOf i = s.logOf i ++ [entry])
    (hoths : ∀ j, j ≠ i → s'.logOf j = s.logOf j)
    (hacc : ∃ counted, HoldAccount (bindingLimits ledger) s'.world
      (Function.update (fun i => phaseOf (s.logOf i)) i ((phaseOf (s.logOf i)).after entry)) counted)
    (hset : ∀ id ∈ s.world.settled, id ∈ s'.world.settled)
    (hkept : ∀ id ∈ (phaseOf (s.logOf i)).ids,
      id ∈ ((phaseOf (s.logOf i)).after entry).ids ∨ id ∈ s'.world.settled)
    (htk : ∀ id, TakenIn [entry] id → id ∈ ((phaseOf (s.logOf i)).after entry).ids) (hansd : MeterAnswered entry)
    (honce : isCommitted entry = true → commits (s.logOf i) = 0 ∧ responded (s.logOf i) = true) :
    Accounted ledger s' := by
  have hphases : (fun j => phaseOf (s'.logOf j)) =
      Function.update (fun j => phaseOf (s.logOf j)) i ((phaseOf (s.logOf i)).after entry) := by
    funext j
    by_cases hj : j = i
    · subst hj
      rw [Function.update_self, hlog, phaseOf_concat]
    · rw [Function.update_of_ne hj, hoths j hj]
  refine ⟨?_, fun j id hj => ?_, fun j e he => ?_, fun j => ?_⟩
  · rw [hphases]
    exact hacc
  · by_cases hji : j = i
    · subst hji
      rw [hlog] at hj
      rw [hlog, phaseOf_concat]
      rcases takenIn_concat hj with hold | hnew
      · rcases h.taken j id hold with hopen | hdone
        · exact hkept id hopen
        · exact .inr (hset id hdone)
      · exact .inl (htk id hnew)
    · rw [hoths j hji] at hj ⊢
      exact (h.taken j id hj).imp_right (hset id)
  · by_cases hji : j = i
    · subst hji
      rw [hlog] at he
      rcases List.mem_append.mp he with hold | hnew
      · exact h.answered j e hold
      · rw [List.mem_singleton.mp hnew]
        exact hansd
    · rw [hoths j hji] at he
      exact h.answered j e he
  · by_cases hji : j = i
    · subst hji
      have hbef := h.once j
      rw [hlog, commits_concat, responded_concat]
      cases hcommitted : isCommitted entry with
      | true =>
        obtain ⟨hnone, hresp⟩ := honce hcommitted
        rw [hnone, hresp]
        rfl
      | false =>
        cases hresp : responded (s.logOf j) with
        | true =>
          rw [hresp] at hbef
          exact hbef
        | false =>
          rw [hresp] at hbef
          exact hbef.trans (Nat.zero_le _)
    · rw [hoths j hji]
      exact h.once j

theorem Accounted.quiet (h : Accounted ledger s) (hlog : s'.logOf i = s.logOf i ++ [entry])
    (hoths : ∀ j, j ≠ i → s'.logOf j = s.logOf j) (hwld : s'.world = s.world)
    (hph : ∀ phase, HoldPhase.after phase entry = phase) (htk : ∀ id, ¬ TakenIn [entry] id)
    (hansd : MeterAnswered entry) (hcommitted : isCommitted entry = false) : Accounted ledger s' := by
  refine h.act hlog hoths ?_ (fun id hid => ?_) (fun id hid => .inl ?_) (fun id hid => (htk id hid).elim) hansd
    fun htrue => ?_
  · rw [hph, hwld, Function.update_eq_self]
    exact h.account
  · rw [hwld]
    exact hid
  · rw [hph]
    exact hid
  · rw [hcommitted] at htrue
    cases htrue

theorem settled_committed {r : SpendRun} {id : ReservationId} {amount : Nat} (h : (r.committed id amount).1 = .ok ()) :
    (r.committed id amount).2.settled = r.settled ++ [id] := by
  have hset : (r.committed id amount).2.settled =
    r.settled ++ SpendRun.settledBy id (r.committed id amount).1 := rfl
  rw [hset, h]
  rfl

theorem settled_released {r : SpendRun} {id : ReservationId} (h : (r.released id).1 = .ok ()) :
    (r.released id).2.settled = r.settled ++ [id] := by
  have hset : (r.released id).2.settled = r.settled ++ SpendRun.settledBy id (r.released id).1 := rfl
  rw [hset, h]
  rfl

/-- **An operation of a call keeps the account.** -/
theorem Accounted.perform (h : Accounted ledger s) {call : MeteredCall} {op : MeterOp} {r : op.Ret}
    (hpre : MeterPre call op (s.logOf i)) (hanss : (meterLaws ledger).answers op s.world r s'.world)
    (hpriced : PricedCall call (s.logOf i ++ [⟨s.world, op, r⟩]))
    (hcare : CarefulCall ledger call (s.logOf i ++ [⟨s.world, op, r⟩]))
    (hlog : s'.logOf i = s.logOf i ++ [⟨s.world, op, r⟩]) (hoths : ∀ j, j ≠ i → s'.logOf j = s.logOf j) :
    Accounted ledger s' := by
  have hcln : Clean call (s.logOf i) := clean_of (hpriced.of_subset fun _ => List.mem_append_left _)
    (hcare.of_subset fun _ => List.mem_append_left _) (h.answered i)
  obtain ⟨counted, hacc⟩ := h.account
  have hent : (⟨s.world, op, r⟩ : MeterEntry) ∈ s.logOf i ++ [⟨s.world, op, r⟩] :=
    List.mem_append_right _ (List.mem_singleton_self _)
  have huntaken : (∀ key amount, op ≠ .reserve key amount) → (∀ key, op ≠ .correct key) →
      ∀ id, ¬ TakenIn [(⟨s.world, op, r⟩ : MeterEntry)] id := by
    intro hreserve hcorrect id htk
    rcases takenIn_singleton htk with ⟨key, amount, heq⟩ | ⟨key, heq⟩
    · exact hreserve key amount (congrArg Entry.op heq)
    · exact hcorrect key (congrArg Entry.op heq)
  cases op with
  | beginModelCall =>
    exact h.quiet hlog hoths hanss (fun phase => by cases phase <;> rfl)
      (huntaken (fun _ _ h => by cases h) fun _ h => by cases h) trivial rfl
  | generateContent =>
    exact h.quiet hlog hoths hanss (fun phase => by cases phase <;> rfl)
      (huntaken (fun _ _ h => by cases h) fun _ h => by cases h) trivial rfl
  | next =>
    exact h.quiet hlog hoths hanss (fun phase => by cases phase <;> rfl)
      (huntaken (fun _ _ h => by cases h) fun _ h => by cases h) trivial rfl
  | reserve key amount =>
    obtain ⟨rfl, rfl, hemp⟩ := hpre
    have hidle : phaseOf (s.logOf i) = .idle := by rw [hemp]; rfl
    rcases hanss with ⟨rfl, hwld⟩ | ⟨id, hfr, rfl, hwld⟩
    · exact h.quiet hlog hoths hwld (fun phase => by cases phase <;> rfl)
        (fun id htk => by cases takenIn_reserve htk) trivial rfl
    · refine h.act hlog hoths ?_ (fun id' hid => ?_) (fun id' hid => ?_) (fun id' htk => ?_) trivial fun hno => ?_
      · rw [hwld]
        exact hacc.reserve hfr hidle
      · rw [hwld]
        exact hid
      · rw [hidle] at hid
        cases hid
      · rw [hidle, Option.some.inj (takenIn_reserve htk)]
        exact List.mem_singleton_self _
      · cases hno
  | correct key =>
    obtain ⟨own, hheld⟩ := hpre hcln
    rcases hanss with ⟨rfl, hwld⟩ | ⟨id, hfr, rfl, hwld⟩
    · exact (hcare.corrected _ key none hent rfl).elim
    · refine h.act hlog hoths ?_ (fun id' hid => ?_) (fun id' hid => .inl ?_) (fun id' htk => ?_) trivial fun hno => ?_
      · rw [hwld]
        exact hacc.correct hfr hheld
      · rw [hwld]
        exact hid
      · rw [hheld] at hid ⊢
        rcases reserved_cases ledger s.world id key 0 with ⟨error, heq⟩ | ⟨-, heq⟩
        · rw [heq]
          exact hid
        · rw [heq, List.mem_singleton.mp hid]
          exact List.mem_cons_self
      · rw [hheld, Option.some.inj (takenIn_correct htk)]
        exact List.mem_cons_of_mem _ (List.mem_singleton_self _)
      · cases hno
  | commit id amount =>
    obtain ⟨ham, hcommits, hresp, hph⟩ := hpre hcln
    have hlive := hpriced.inTime _ id amount r hent
    have hsettles := huntaken (fun _ _ h => by cases h) fun _ h => by cases h
    rcases hanss with ⟨rfl, hwld⟩ | ⟨rfl, hwld⟩
    · exact (hcare.committed _ id amount none hent rfl).elim
    · have hnow : (s.world.committed id amount).1 = .ok () ∧ ∃ counted', HoldAccount (bindingLimits ledger)
          (s.world.committed id amount).2 (Function.update (fun j => phaseOf (s.logOf j)) i ((phaseOf (s.logOf i)).after
            ⟨s.world, .commit id amount, some (s.world.committed id amount).1⟩)) counted' := by
        rcases hph with hheld | ⟨own, key, hcorrecting⟩
        · exact hacc.commit hheld ham hlive
        · obtain ⟨w, hcorrected⟩ := correcting_taken hcorrecting
          exact hacc.commitCorrected hcorrecting ham hlive
            (hcare.fits w key id (List.mem_append_left _ hcorrected) _ amount _ hent)
      obtain ⟨hok, haft⟩ := hnow
      refine h.act hlog hoths ?_ (fun id' hid => ?_) (fun id' hid => ?_)
        (fun id' htk => (hsettles id' htk).elim) ?_ fun _ => ⟨hcommits, hresp⟩
      · rw [hwld]
        exact haft
      · rw [hwld, settled_committed hok]
        exact List.mem_append_left _ hid
      · rw [hwld, settled_committed hok, hok]
        rcases hph with hheld | ⟨own, key, hcorrecting⟩
        · rw [hheld] at hid
          rw [List.mem_singleton.mp hid]
          exact .inr (List.mem_append_right _ (List.mem_singleton_self _))
        · rw [hcorrecting] at hid ⊢
          rcases List.mem_cons.mp hid with rfl | hid
          · exact .inl (List.mem_singleton_self _)
          · rw [List.mem_singleton.mp hid]
            exact .inr (List.mem_append_right _ (List.mem_singleton_self _))
      · rw [hok]
        trivial
  | release id =>
    have hph : (∃ key amount, phaseOf (s.logOf i) = .held id key amount) ∨ phaseOf (s.logOf i) = .moved id :=
      (hpre hcln).imp_left fun hheld => ⟨_, _, hheld⟩
    have hsettles := huntaken (fun _ _ h => by cases h) fun _ h => by cases h
    rcases hanss with ⟨rfl, hwld⟩ | ⟨rfl, hwld⟩
    · exact (hcare.released _ id none hent rfl).elim
    · obtain ⟨hok, haft⟩ := hacc.release (w := s.world) hph
      refine h.act hlog hoths ?_ (fun id' hid => ?_) (fun id' hid => .inr ?_)
        (fun id' htk => (hsettles id' htk).elim) ?_ fun hno => ?_
      · rw [hwld]
        exact haft
      · rw [hwld, settled_released hok]
        exact List.mem_append_left _ hid
      · rw [hwld, settled_released hok]
        have hsame : id' = id := by
          rcases hph with ⟨key, amount, hheld⟩ | hmvd
          · rw [hheld] at hid
            exact List.mem_singleton.mp hid
          · rw [hmvd] at hid
            exact List.mem_singleton.mp hid
        rw [hsame]
        exact List.mem_append_right _ (List.mem_singleton_self _)
      · rw [hok]
        trivial
      · cases hno

theorem meter_keeps {begun : Utc} (hrea : Reaches (meterSystem ledger) (noMeteredCalls begun) s) (j : Nat)
    (proc : MeterProc) (hproc : s.procs[j]? = some proc) :
    Keeps (meterLaws ledger) MeterPre (fun call _ => DoneIn call) proc :=
  Reaches.local hrea rfl (holds_generate ledger) j proc hproc

theorem accounted_noMeteredCalls (ledger : SpendLedger) (begun : Utc) : Accounted ledger (noMeteredCalls begun) := by
  have hemp : ∀ i, (noMeteredCalls begun).logOf i = [] := fun i => rfl
  have hnone : ∀ id : String, ({} : LedgerState).holds[id]? = none := fun id => Std.ExtTreeMap.getElem?_empty
  refine ⟨⟨{}, ?_⟩, fun i id htk => ?_, fun i entry hent => ?_, fun i => ?_⟩
  · refine ⟨⟨fun _ _ _ => rfl, fun limit _ => ?_, fun _ _ _ => Nat.zero_le _⟩, fun id hold h => ?_, fun _ => trivial,
      fun _ _ id hid => (by cases hid), fun _ id hid => (by cases hid), fun id hid => ?_, fun id hid => (by cases hid),
      List.nodup_nil⟩
    · exact Nat.zero_le _
    · cases (hnone id).symm.trans h
    · have hsome : ({} : LedgerState).holds[id]?.isSome = true := Std.ExtTreeMap.mem_iff_isSome_getElem?.mp hid
      rw [hnone id] at hsome
      cases hsome
  · obtain ⟨w, ⟨key, amount, hmem⟩ | ⟨key, hmem⟩⟩ := htk
    · rw [hemp] at hmem
      cases hmem
    · rw [hemp] at hmem
      cases hmem
  · rw [hemp] at hent
    cases hent
  · exact Nat.le_refl 0

/-- **The ledger and the logs agree in every careful run.** -/
theorem accounted_reaches {begun : Utc} (hrea : Reaches (meterSystem ledger) (noMeteredCalls begun) s)
    (hpriced : ∀ proc ∈ s.procs, PricedCall proc.call proc.log)
    (hcare : ∀ proc ∈ s.procs, CarefulCall ledger proc.call proc.log) : Accounted ledger s := by
  induction hrea with
  | refl => exact accounted_noMeteredCalls ledger begun
  | @tail s s' hrea hstep ih =>
    -- the calls were careful before
    have hgrows : ∀ proc ∈ s.procs, ∃ proc' ∈ s'.procs, proc'.call = proc.call ∧ ∀ entry ∈ proc.log, entry ∈ proc'.log := by
      intro proc hmem
      obtain ⟨j, hproc⟩ := List.getElem?_of_mem hmem
      obtain ⟨proc', hproc', hcall, hlog⟩ := hstep.grows hproc
      exact ⟨proc', List.mem_of_getElem? hproc', hcall, hlog⟩
    have hbef : Accounted ledger s := by
      refine ih (fun proc hmem => ?_) fun proc hmem => ?_
      · obtain ⟨proc', hmem', hcall, hlog⟩ := hgrows proc hmem
        rw [← hcall]
        exact (hpriced proc' hmem').of_subset hlog
      · obtain ⟨proc', hmem', hcall, hlog⟩ := hgrows proc hmem
        rw [← hcall]
        exact (hcare proc' hmem').of_subset hlog
    rcases hstep.logs with ⟨hwld, hsame⟩ | ⟨i, proc, op, next, r, hproc, hrest, -, hanss, hproc', hlog, hoths⟩
    · have hphases : (fun j => phaseOf (s'.logOf j)) = fun j => phaseOf (s.logOf j) := by
        funext j
        rw [hsame]
      obtain ⟨counted, hacc⟩ := hbef.account
      have hlat : HoldAccount (bindingLimits ledger) s'.world (fun j => phaseOf (s.logOf j)) counted ∧
          s'.world.settled = s.world.settled := by
        rcases hwld with hwld | ⟨now, hclk, hwld⟩
        · rw [hwld]
          exact ⟨hacc, rfl⟩
        · rw [hwld]
          exact ⟨hacc.later hclk, rfl⟩
      refine ⟨⟨counted, ?_⟩, fun j id hj => ?_, fun j entry hent => ?_, fun j => ?_⟩
      · rw [hphases]
        exact hlat.1
      · rw [hsame] at hj ⊢
        rw [hlat.2]
        exact hbef.taken j id hj
      · rw [hsame] at hent
        exact hbef.answered j entry hent
      · rw [hsame]
        exact hbef.once j
    · have hmem := List.mem_of_getElem? hproc'
      have hpre := (meter_keeps hrea i proc hproc).performs hrest
      rw [← logOf_eq hproc] at hpre
      refine hbef.perform hpre hanss ?_ ?_ hlog hoths
      · have hnow := hpriced _ hmem
        rw [Proc.after_log, ← logOf_eq hproc] at hnow
        exact hnow
      · have hnow := hcare _ hmem
        rw [Proc.after_log, ← logOf_eq hproc] at hnow
        exact hnow

/-- **Metered calls settle once and keep every cap**, in every run whose calls are careful. -/
theorem meteredExact_careful {begun : Utc} (hreach : Reaches (meterSystem ledger) (noMeteredCalls begun) s)
    (hpriced : ∀ proc ∈ s.procs, PricedCall proc.call proc.log)
    (hcareful : ∀ proc ∈ s.procs, CarefulCall ledger proc.call proc.log) : MeteredExact ledger s := by
  have haccounted := accounted_reaches hreach hpriced hcareful
  obtain ⟨counted, haccount⟩ := haccounted.account
  -- a call that has returned holds nothing
  have hdone : ∀ (j : Nat) (proc : MeterProc), s.procs[j]? = some proc → proc.returned.isSome = true →
      Clean proc.call proc.log ∧ DoneIn proc.call proc.log := by
    intro j proc hproc hreturned
    obtain ⟨result, hresult⟩ := Option.isSome_iff_exists.mp hreturned
    have hmem := List.mem_of_getElem? hproc
    refine ⟨clean_of (hpriced proc hmem) (hcareful proc hmem) fun entry hentry => ?_,
      (meter_keeps hreach j proc hproc).returned (Proc.returned_eq hresult)⟩
    rw [← logOf_eq hproc] at hentry
    exact haccounted.answered j entry hentry
  refine ⟨fun id => List.nodup_iff_count_le_one.mp haccount.once id, fun proc hmem hreturned id htaken => ?_,
    fun proc hmem => ?_, fun proc hmem hreturned => ?_, fun limit hl window => ?_⟩
  · obtain ⟨j, hproc⟩ := List.getElem?_of_mem hmem
    obtain ⟨hclean, hphase⟩ := hdone j proc hproc hreturned
    rw [← logOf_eq hproc] at htaken
    have hsettled : id ∈ s.world.settled := by
      rcases haccounted.taken j id htaken with hopen | hsettled
      · rw [logOf_eq hproc] at hopen
        rcases hphase.phase hclean with hidle | hsettled
        · rw [hidle] at hopen
          cases hopen
        · rw [hsettled] at hopen
          cases hopen
      · exact hsettled
    exact List.count_eq_one_of_mem haccount.once hsettled
  · obtain ⟨j, hproc⟩ := List.getElem?_of_mem hmem
    rw [← logOf_eq hproc]
    exact haccounted.once j
  · obtain ⟨j, hproc⟩ := List.getElem?_of_mem hmem
    obtain ⟨hclean, hphase⟩ := hdone j proc hproc hreturned
    exact hphase.commits hclean
  · by_cases hbinding : limit.maxMicroUsd < maxAmount
    · have hkept := haccount.balanced.capped limit (List.mem_filter.mpr ⟨hl, decide_eq_true hbinding⟩) window
      omega
    · omega

end Runs

/-! ## Two calls that another provider answers -/

section Moved

/-- Whether an entry has a cost within the bound, and every hold lives when it commits. -/
def pricedEntry (call : MeteredCall) : MeterEntry → Bool
  | ⟨_, .next, .response response⟩ => match response.cost with
    | some (some cost) => cost ≤ call.bound
    | _ => true
  | ⟨w, .commit _ _, _⟩ => w.state.holds.vals.all fun hold => w.now < hold.expiresAt
  | _ => true

theorem priced_of_check {call : MeteredCall} {log : List MeterEntry} (hunpriced : call.unpriced ≤ call.bound)
    (h : log.all (pricedEntry call) = true) : PricedCall call log := by
  refine ⟨hunpriced, fun w response hmem cost hcost => ?_, fun w id amount answer hmem id' hold hhold => ?_⟩
  · have hent := List.all_eq_true.mp h _ hmem
    unfold pricedEntry at hent
    dsimp only at hent
    rw [hcost] at hent
    exact of_decide_eq_true hent
  · have hent := List.all_eq_true.mp h _ hmem
    exact of_decide_eq_true (List.all_eq_true.mp hent hold (Dict.mem_vals.mpr ⟨id', hhold⟩))

def answeredEntry : MeterEntry → Bool
  | ⟨_, .correct _, answer⟩ => answer.isSome
  | ⟨_, .commit _ _, answer⟩ => answer.isSome
  | ⟨_, .release _, answer⟩ => answer.isSome
  | _ => true

/-- Whether a commit under a reported provider fits there. -/
def fitsEntry (ledger : SpendLedger) (call : MeteredCall) : MeterEntry → MeterEntry → Bool
  | ⟨_, .correct key, some (.ok id)⟩, ⟨w, .commit id' amount, _⟩ => id' ≠ id || ledger.limits.all fun limit =>
      !limit.key.covers key || limit.key.covers call.spendKey || (SpendLedger.refusal w.state w.now amount limit).isNone
  | _, _ => true

theorem careful_of_check {ledger : SpendLedger} {call : MeteredCall} {log : List MeterEntry}
    (hansd : log.all answeredEntry = true)
    (hfits : log.all (fun entry => log.all (fitsEntry ledger call entry)) = true) : CarefulCall ledger call log := by
  have hsome : ∀ entry ∈ log, answeredEntry entry = true := List.all_eq_true.mp hansd
  refine ⟨fun w key answer hmem hnone => ?_, fun w id amount answer hmem hnone => ?_,
    fun w id answer hmem hnone => ?_, fun w key id hmem w' amount answer hmem' limit hl hcov hown => ?_⟩
  · subst hnone
    cases hsome _ hmem
  · subst hnone
    cases hsome _ hmem
  · subst hnone
    cases hsome _ hmem
  · have hent := List.all_eq_true.mp (List.all_eq_true.mp hfits _ hmem) _ hmem'
    unfold fitsEntry at hent
    have hlim := hent
    simp only [ne_eq, not_true_eq_false, decide_false, Bool.false_or] at hlim
    have hpass := List.all_eq_true.mp hlim limit hl
    rw [hcov, hown] at hpass
    exact Option.isNone_iff_eq_none.mp hpass

/-- A ledger with a limit on a vendor, and one on a provider that serves its models. -/
def bedrockCap (max : Nat) : SpendLedger where
  limits := [{ key := { org := "acme", vendor := some "anthropic" }, maxMicroUsd := 300 },
    { key := { org := "acme", vendor := some "bedrock" }, maxMicroUsd := max }]

/-- A call that costs at most 80 micro-USD. -/
def cappedCall : MeteredCall where
  org := "acme"
  model := "models/claude-haiku-4-5"
  maxCostMicroUsd := some 80
  polls := 1

def nextReservation (r : SpendRun) : ReservationId := s!"r{r.issued.length}"

/-- Calls whose reservations have a new identifier. -/
def cappedCalls (max : Nat) : System (fun _ : MeteredCall => Except Unit CallEnd) MeterOp.Ret SpendRun :=
  { meterSystem (bedrockCap max) with acts := fun s _ _ => nextReservation s.world ∉ s.world.issued }

instance (max : Nat) (s : MeterPool) (call : MeteredCall) : Decidable ((cappedCalls max).starts s call) :=
  inferInstanceAs (Decidable True)

instance (max : Nat) (s : MeterPool) (i : Nat) (op : MeterOp) : Decidable ((cappedCalls max).acts s i op) :=
  inferInstanceAs (Decidable (nextReservation s.world ∉ s.world.issued))

/-- The answers: every call costs all of its bound, at another provider. -/
def answerMeter (max : Nat) : (op : MeterOp) → SpendRun → op.Ret × SpendRun
  | .reserve key amount, r =>
    (some (r.reserved (bedrockCap max) (nextReservation r) key amount).1,
      (r.reserved (bedrockCap max) (nextReservation r) key amount).2)
  | .correct key, r =>
    (some (r.reserved (bedrockCap max) (nextReservation r) key 0).1,
      (r.reserved (bedrockCap max) (nextReservation r) key 0).2)
  | .commit id amount, r => (some (r.committed id amount).1, (r.committed id amount).2)
  | .release id, r => (some (r.released id).1, (r.released id).2)
  | .beginModelCall, r => (true, r)
  | .generateContent, r => (.stream, r)
  | .next, r => (.response { cost := some (some 80), provider := some "bedrock", turnComplete := true }, r)

theorem answers_answerMeter (max : Nat) (s : MeterPool) (i : Nat) (op : MeterOp)
    (hacts : (cappedCalls max).acts s i op) : (cappedCalls max).laws.answers op s.world (answerMeter max op s.world).1
      (answerMeter max op s.world).2 := by
  cases op with
  | reserve key amount => exact .inr ⟨_, hacts, rfl, rfl⟩
  | correct key => exact .inr ⟨_, hacts, rfl, rfl⟩
  | commit id amount => exact .inr ⟨rfl, rfl⟩
  | release id => exact .inr ⟨rfl, rfl⟩
  | beginModelCall => rfl
  | generateContent => rfl
  | next => rfl

/-- Two calls that interleave. -/
def movedCalls (max : Nat) : MeterPool :=
  [.start cappedCall, .start cappedCall, .act 0, .act 1, .act 0, .act 1, .act 0, .act 1, .act 0, .act 1, .act 0, .act 1,
    .act 0, .act 1].foldl (next (cappedCalls max) (answerMeter max)) (noMeteredCalls 0)

theorem movedCalls_reaches (max : Nat) : Reaches (meterSystem (bedrockCap max)) (noMeteredCalls 0) (movedCalls max) :=
  (reaches_foldl_acts (answers_answerMeter max) (noMeteredCalls 0) _).weaken fun _ _ _ _ => trivial

def checkCalls (s : MeterPool) (check : MeteredCall → List MeterEntry → Bool) : Bool :=
  s.procs.all fun proc => check proc.call proc.log

/-- Both costs fit within the provider's limit. -/
theorem meteredExact_careful_moved : MeteredExact (bedrockCap 200) (movedCalls 200) ∧
    (movedCalls 200).world.spends.map (·.amount) = [80, 80] := by
  refine ⟨meteredExact_careful (movedCalls_reaches 200) (fun proc hmem => ?_) (fun proc hmem => ?_), by decide +kernel⟩
  · have hcalls : checkCalls (movedCalls 200) (fun call log => call.unpriced ≤ call.bound && log.all (pricedEntry call)) =
        true := by decide +kernel
    have hcall := List.all_eq_true.mp hcalls proc hmem
    rw [Bool.and_eq_true] at hcall
    exact priced_of_check (of_decide_eq_true hcall.1) hcall.2
  · have hcalls : checkCalls (movedCalls 200) (fun call log => log.all answeredEntry &&
        log.all fun entry => log.all (fitsEntry (bedrockCap 200) call entry)) = true := by decide +kernel
    have hcall := List.all_eq_true.mp hcalls proc hmem
    rw [Bool.and_eq_true] at hcall
    exact careful_of_check hcall.1 hcall.2

/-- **They overspend a smaller one**: a reservation of nothing is granted where the cost does not fit. -/
theorem not_meteredExact : ¬ ∀ ledger begun s, Reaches (meterSystem ledger) (noMeteredCalls begun) s →
    (∀ proc ∈ s.procs, PricedCall proc.call proc.log) → MeteredExact ledger s := by
  intro h
  have hpriced : ∀ proc ∈ (movedCalls 100).procs, PricedCall proc.call proc.log := by
    intro proc hmem
    have hcalls : checkCalls (movedCalls 100) (fun call log => call.unpriced ≤ call.bound && log.all (pricedEntry call)) =
        true := by decide +kernel
    have hcall := List.all_eq_true.mp hcalls proc hmem
    rw [Bool.and_eq_true] at hcall
    exact priced_of_check (of_decide_eq_true hcall.1) hcall.2
  have hcapped := (h _ 0 _ (movedCalls_reaches 100) hpriced).capped
    { key := { org := "acme", vendor := some "bedrock" }, maxMicroUsd := 100 }
    (List.mem_cons_of_mem _ (List.mem_singleton_self _)) none
  have hspent : ¬ min ((movedCalls 100).world.spentIn
      { key := { org := "acme", vendor := some "bedrock" }, maxMicroUsd := 100 } none) maxAmount ≤ 100 := by
    decide +kernel
  exact hspent hcapped

end Moved

end Adk
