import AdkRust.Core.Time
import AdkRust.Lib.Dict

/-!
# Shared state

The key-value store that parallel agents coordinate through (`shared_state.rs`). Calls of `set_shared` and
`wait_for_key` run at one time; a step is what one call does without letting go of a lock.

* `SharedState.step`: one step of a call, a new call, or a deadline that passes.
* `SharedState.Sound`: what holds after every step, `sound_step`.
* `SharedState.waits_miss_no_set`: no waiter sleeps through a set, and what it returns was set.
-/

namespace Adk

/-- Errors of the calls. -/
inductive SharedStateError where
  | emptyKey
  | keyTooLong (len : Nat)
  | timeout (key : String) (timeout : Duration)
  | invalidTimeout (timeout : Duration)
deriving DecidableEq

namespace SharedState

def minTimeout : Duration := 1000000
def maxTimeout : Duration := 300 * 1000000000
def maxKeyLen : Nat := 256

def validateKey (key : String) : Except SharedStateError Unit :=
  if key.isEmpty then .error .emptyKey
  else if maxKeyLen < key.utf8ByteSize then .error (.keyTooLong key.utf8ByteSize)
  else .ok ()

/-! ## Calls -/

/-- Where a call of `set_shared` stands. -/
inductive SetPhase where
  | inserting
  | inserted
  /-- It holds the map of the notifiers, in which it found one or not. -/
  | notifying (found : Bool)
  | finished (result : Except SharedStateError Unit)
deriving DecidableEq

/-- Where a call of `wait_for_key` stands. A registered waiter may have been woken. -/
inductive WaitPhase (Value : Type) where
  | checking
  | entering
  | registering
  | registered (woken : Bool)
  | suspended (woken : Bool)
  | finished (result : Except SharedStateError Value)
deriving DecidableEq

structure SetCall (Value : Type) where
  key : String
  value : Value
  phase : SetPhase
deriving DecidableEq

structure WaitCall (Value : Type) where
  key : String
  timeout : Duration
  phase : WaitPhase Value
deriving DecidableEq

inductive Call (Value : Type) where
  | set (call : SetCall Value)
  | wait (call : WaitCall Value)
deriving DecidableEq

/-- The call once all waiters of a key that are registered are woken. -/
def Call.notified {Value : Type} (key : String) : Call Value → Call Value
  | .set call => .set call
  | .wait call =>
    if call.key = key then
      match call.phase with
      | .registered _ => .wait { call with phase := .registered true }
      | .suspended _ => .wait { call with phase := .suspended true }
      | _ => .wait call
    else .wait call

/-- Whether the call keeps writers from the map of the notifiers. -/
def Call.readsNotifiers {Value : Type} : Call Value → Bool
  | .set { phase := .notifying _, .. } => true
  | _ => false

end SharedState

/-- The entries, the keys that have a notifier, and the calls made so far. -/
structure SharedState (Value : Type) where
  data : Dict Value := ∅
  notifiers : List String := []
  calls : List (SharedState.Call Value) := []

namespace SharedState

variable {Value : Type}

/-! ## Steps -/

/-- A call of `set_shared`. -/
def callSet (key : String) (value : Value) : SetCall Value :=
  match validateKey key with
  | .ok _ => { key, value, phase := .inserting }
  | .error error => { key, value, phase := .finished (.error error) }

/-- A call of `wait_for_key`. -/
def callWait (key : String) (timeout : Duration) : WaitCall Value :=
  if timeout < minTimeout ∨ maxTimeout < timeout then
    { key, timeout, phase := .finished (.error (.invalidTimeout timeout)) }
  else { key, timeout, phase := .checking }

def put (s : SharedState Value) (i : Nat) (call : Call Value) : SharedState Value :=
  { s with calls := s.calls.set i call }

/-- The next step of a call of `set_shared`. -/
def actSet (s : SharedState Value) (i : Nat) (call : SetCall Value) : Option (SharedState Value) :=
  match call.phase with
  | .inserting =>
    some ({ s with data := s.data.insert call.key call.value }.put i (.set { call with phase := .inserted }))
  | .inserted => some (s.put i (.set { call with phase := .notifying (s.notifiers.contains call.key) }))
  | .notifying found =>
    let s := if found then { s with calls := s.calls.map (Call.notified call.key) } else s
    some (s.put i (.set { call with phase := .finished (.ok ()) }))
  | .finished _ => none

/-- The next step of a call of `wait_for_key`. -/
def actWait (s : SharedState Value) (i : Nat) (call : WaitCall Value) : Option (SharedState Value) :=
  match call.phase with
  | .checking =>
    match s.data[call.key]? with
    | some value => some (s.put i (.wait { call with phase := .finished (.ok value) }))
    | none => some (s.put i (.wait { call with phase := .entering }))
  | .entering =>
    if s.calls.any Call.readsNotifiers then none
    else
      let notifiers := if s.notifiers.contains call.key then s.notifiers else call.key :: s.notifiers
      some ({ s with notifiers }.put i (.wait { call with phase := .registering }))
  | .registering => some (s.put i (.wait { call with phase := .registered false }))
  | .registered woken =>
    match s.data[call.key]? with
    | some value => some (s.put i (.wait { call with phase := .finished (.ok value) }))
    | none => some (s.put i (.wait { call with phase := .suspended woken }))
  | .suspended woken => if woken then some (s.put i (.wait { call with phase := .registering })) else none
  | .finished _ => none

inductive Move (Value : Type) where
  | set (key : String) (value : Value)
  | wait (key : String) (timeout : Duration)
  | act (i : Nat)
  /-- The deadline of a call passes while it sleeps. -/
  | expire (i : Nat)

def step (s : SharedState Value) : Move Value → Option (SharedState Value)
  | .set key value => some { s with calls := s.calls ++ [.set (callSet key value)] }
  | .wait key timeout => some { s with calls := s.calls ++ [.wait (callWait key timeout)] }
  | .act i =>
    match s.calls[i]? with
    | some (.set call) => s.actSet i call
    | some (.wait call) => s.actWait i call
    | none => none
  | .expire i =>
    match s.calls[i]? with
    | some (.wait call) =>
      match call.phase with
      | .suspended false =>
        some (s.put i (.wait { call with phase := .finished (.error (.timeout call.key call.timeout)) }))
      | _ => none
    | _ => none

def Reachable (s : SharedState Value) : Prop := ∃ moves : List (Move Value), moves.foldlM step {} = some s

/-! ## What holds after every step -/

/-- The value of the call is in the store, or was. -/
def SetPhase.Wrote : SetPhase → Prop
  | .inserted | .notifying _ | .finished (.ok _) => True
  | .inserting | .finished (.error _) => False

def SetPhase.Between : SetPhase → Prop
  | .inserted | .notifying _ => True
  | .inserting | .finished _ => False

/-- The call is to wake the waiters that are registered. -/
def SetPhase.WillNotify : SetPhase → Prop
  | .inserted | .notifying true => True
  | .inserting | .notifying false | .finished _ => False

def WaitPhase.HasNotifier : WaitPhase Value → Prop
  | .registering | .registered _ | .suspended _ => True
  | .checking | .entering | .finished _ => False

def WasSet (s : SharedState Value) (key : String) (value : Value) : Prop :=
  ∃ (i : Nat) (call : SetCall Value), s.calls[i]? = some (.set call) ∧ call.key = key ∧ call.value = value ∧
    call.phase.Wrote

/-- A call is to wake the waiters of a key. -/
def WillNotify (s : SharedState Value) (key : String) : Prop :=
  ∃ (i : Nat) (call : SetCall Value), s.calls[i]? = some (.set call) ∧ call.key = key ∧ call.phase.WillNotify

/-- What is so of a waiter: it has the notifier of its key, it is going to be woken if it sleeps while its key has a
value, and what it returned was set. -/
structure WaiterSound (s : SharedState Value) (call : WaitCall Value) : Prop where
  notifier : call.phase.HasNotifier → call.key ∈ s.notifiers
  pending : call.phase = .suspended false → ∀ value, s.data[call.key]? = some value → s.WillNotify call.key
  returned : ∀ value, call.phase = .finished (.ok value) → s.WasSet call.key value

structure Sound (s : SharedState Value) : Prop where
  data : ∀ key value, s.data[key]? = some value → s.WasSet key value
  waiters : ∀ (i : Nat) (call : WaitCall Value), s.calls[i]? = some (.wait call) → s.WaiterSound call

/-! ### A step of one call -/

variable {s s' : SharedState Value} {i : Nat} {key : String}

theorem getElem?_put {old : Call Value} (hold : s.calls[i]? = some old)
    (call : Call Value) (j : Nat) : (s.put i call).calls[j]? = if j = i then some call else s.calls[j]? := by
  obtain ⟨hi, -⟩ := List.getElem?_eq_some_iff.mp hold
  unfold put
  by_cases hj : j = i
  · subst hj
    simp [hi]
  · rw [if_neg hj, List.getElem?_set_ne (Ne.symm hj)]

/-- The calls of `set_shared` stay where they are, and what they wrote is written. -/
def SetsStay (s s' : SharedState Value) : Prop :=
  ∀ (i : Nat) (call : SetCall Value), s.calls[i]? = some (.set call) → ∃ call', s'.calls[i]? = some (.set call') ∧
    call'.key = call.key ∧ call'.value = call.value ∧ (call.phase.Wrote → call'.phase.Wrote)

theorem WasSet.stays {value : Value} (h : s.WasSet key value) (hstay : SetsStay s s') : s'.WasSet key value := by
  obtain ⟨i, call, hcall, rfl, rfl, hwr⟩ := h
  obtain ⟨call', hcall', hkey, hval, hkeep⟩ := hstay i call hcall
  exact ⟨i, call', hcall', hkey, hval, hkeep hwr⟩

theorem setsStay_wait {old call : WaitCall Value}
    (hold : s.calls[i]? = some (.wait old)) : SetsStay s (s.put i (.wait call)) := by
  intro j set hset
  refine ⟨set, ?_, rfl, rfl, id⟩
  rw [getElem?_put hold, if_neg, hset]
  rintro rfl
  rw [hold] at hset
  cases hset

/-- A step of a call of `set_shared`. -/
theorem setsStay_set {old call : SetCall Value}
    (hold : s.calls[i]? = some (.set old)) (hkey : call.key = old.key) (hval : call.value = old.value)
    (hwr : old.phase.Wrote → call.phase.Wrote) : SetsStay s (s.put i (.set call)) := by
  intro j set hset
  by_cases hj : j = i
  · subst hj
    obtain rfl := Call.set.inj (Option.some.inj (hold.symm.trans hset))
    exact ⟨call, by rw [getElem?_put hold, if_pos rfl], hkey, hval, hwr⟩
  · exact ⟨set, by rw [getElem?_put hold, if_neg hj, hset], rfl, rfl, id⟩

theorem Sound.stepWait {old call : WaitCall Value} {notifiers : List String}
    (h : s.Sound) (hold : s.calls[i]? = some (.wait old)) (hgrow : ∀ key ∈ s.notifiers, key ∈ notifiers)
    (hnotifier : call.phase.HasNotifier → call.key ∈ notifiers)
    (hpend : call.phase = .suspended false → s.data[call.key]? = none)
    (hret : ∀ value, call.phase = .finished (.ok value) → s.data[call.key]? = some value) :
    Sound ({ s with notifiers }.put i (.wait call)) := by
  have hstay : SetsStay s ({ s with notifiers }.put i (.wait call)) := @setsStay_wait _ { s with notifiers } i old call hold
  have hget := @getElem?_put _ { s with notifiers } i _ hold (.wait call)
  refine ⟨fun key value hdata => (h.data key value hdata).stays hstay, fun j wait hwait => ?_⟩
  rw [hget] at hwait
  by_cases hj : j = i
  · rw [if_pos hj] at hwait
    obtain rfl := Call.wait.inj (Option.some.inj hwait)
    refine ⟨hnotifier, fun hph value hdata => ?_, fun value hph => ?_⟩
    · have hnone := hpend hph
      rw [show s.data[call.key]? = some value from hdata] at hnone
      cases hnone
    · exact (h.data _ value (hret value hph)).stays hstay
  · rw [if_neg hj] at hwait
    obtain ⟨hkept, hslp, hgot⟩ := h.waiters j wait hwait
    refine ⟨fun hph => hgrow _ (hkept hph), fun hph value hdata => ?_, fun value hph =>
      (hgot value hph).stays hstay⟩
    obtain ⟨k, set, hset, hkey, hnot⟩ := hslp hph value hdata
    refine ⟨k, set, ?_, hkey, hnot⟩
    rw [hget, if_neg, hset]
    rintro rfl
    rw [hold] at hset
    cases hset

theorem Sound.actWait {call : WaitCall Value} (h : s.Sound)
    (hcall : s.calls[i]? = some (.wait call)) (hstep : s.actWait i call = some s') : s'.Sound := by
  obtain ⟨hnotifier, -, -⟩ := h.waiters i call hcall
  unfold SharedState.actWait at hstep
  cases hph : call.phase with
  | checking =>
    rw [hph] at hstep
    cases hdata : s.data[call.key]? with
    | none =>
      rw [hdata] at hstep
      obtain rfl := Option.some.inj hstep
      exact h.stepWait hcall (fun _ hkey => hkey) (fun hfls => hfls.elim) (by simp) (by simp)
    | some value =>
      rw [hdata] at hstep
      obtain rfl := Option.some.inj hstep
      refine h.stepWait hcall (fun _ hkey => hkey) (fun hfls => hfls.elim) (by simp) fun other hoth => ?_
      obtain rfl : value = other := by simpa using hoth
      exact hdata
  | entering =>
    rw [hph] at hstep
    dsimp only at hstep
    split at hstep
    next => cases hstep
    next =>
      obtain rfl := Option.some.inj hstep
      refine h.stepWait hcall ?_ ?_ (by simp) (by simp)
      · intro key hkey
        split
        · exact hkey
        · exact List.mem_cons_of_mem _ hkey
      · intro _
        split
        next hcontains => simpa using hcontains
        next => exact List.mem_cons_self
  | registering =>
    rw [hph] at hstep hnotifier
    obtain rfl := Option.some.inj hstep
    exact h.stepWait hcall (fun _ hkey => hkey) (fun _ => hnotifier trivial) (by simp) (by simp)
  | registered woken =>
    rw [hph] at hstep hnotifier
    cases hdata : s.data[call.key]? with
    | none =>
      rw [hdata] at hstep
      obtain rfl := Option.some.inj hstep
      exact h.stepWait hcall (fun _ hkey => hkey) (fun _ => hnotifier trivial) (fun _ => hdata) (by simp)
    | some value =>
      rw [hdata] at hstep
      obtain rfl := Option.some.inj hstep
      refine h.stepWait hcall (fun _ hkey => hkey) (fun hfls => hfls.elim) (by simp) fun other hoth => ?_
      obtain rfl : value = other := by simpa using hoth
      exact hdata
  | suspended woken =>
    rw [hph] at hstep hnotifier
    cases woken with
    | false => cases hstep
    | true =>
      obtain rfl := Option.some.inj hstep
      exact h.stepWait hcall (fun _ hkey => hkey) (fun _ => hnotifier trivial) (by simp) (by simp)
  | finished result =>
    rw [hph] at hstep
    cases hstep

theorem notified_eq_wait {call : Call Value} {wait' : WaitCall Value}
    (h : Call.notified key call = .wait wait') : ∃ wait, call = .wait wait ∧ wait'.key = wait.key ∧
      (wait'.phase.HasNotifier → wait.phase.HasNotifier) ∧
      (wait'.phase = .suspended false → wait.phase = .suspended false ∧ wait.key ≠ key) ∧
      ∀ value, wait'.phase = .finished (.ok value) → wait.phase = .finished (.ok value) := by
  cases call with
  | set call => cases h
  | wait wait =>
    refine ⟨wait, rfl, ?_⟩
    unfold Call.notified at h
    dsimp only at h
    split at h
    next hkey =>
      split at h
      next woken hph =>
        obtain rfl := Call.wait.inj h
        exact ⟨rfl, fun _ => by rw [hph]; trivial, by simp, by simp⟩
      next woken hph =>
        obtain rfl := Call.wait.inj h
        exact ⟨rfl, fun _ => by rw [hph]; trivial, by simp, by simp⟩
      next hregistered hsuspended =>
        obtain rfl := Call.wait.inj h
        exact ⟨rfl, id, fun hph => absurd hph (hsuspended false), fun _ => id⟩
    next hkey =>
      obtain rfl := Call.wait.inj h
      exact ⟨rfl, id, fun hph => ⟨hph, hkey⟩, fun _ => id⟩

/-- The waiters of a key are woken; calls of `set_shared` do not sleep. -/
theorem getElem?_notified {found : Bool} {call : SetCall Value} (h : s.calls[i]? = some (.set call)) :
    (if found then { s with calls := s.calls.map (Call.notified key) } else s).calls[i]? = some (.set call) := by
  cases found with
  | false => exact h
  | true =>
    show (s.calls.map (Call.notified key))[i]? = _
    rw [List.getElem?_map, h]
    rfl

/-- A waiter after a call of `set_shared` steps was one before. -/
theorem wait_of_put {j : Nat} {old : Call Value} {call : SetCall Value} {wait : WaitCall Value}
    (hold : s.calls[i]? = some old) (h : (s.put i (.set call)).calls[j]? = some (.wait wait)) :
    s.calls[j]? = some (.wait wait) := by
  rw [getElem?_put hold] at h
  by_cases hj : j = i
  · rw [if_pos hj] at h
    cases h
  · rwa [if_neg hj] at h

theorem Sound.actSet {call : SetCall Value} (h : s.Sound)
    (hcall : s.calls[i]? = some (.set call)) (hstep : s.actSet i call = some s') : s'.Sound := by
  unfold SharedState.actSet at hstep
  cases hph : call.phase with
  | inserting =>
    rw [hph] at hstep
    obtain rfl := Option.some.inj hstep
    have hstay : SetsStay s ({ s with data := s.data.insert call.key call.value }.put i
        (.set { call with phase := .inserted })) :=
      @setsStay_set _ { s with data := s.data.insert call.key call.value } i call _ hcall rfl rfl (fun _ => trivial)
    have hget := @getElem?_put _ { s with data := s.data.insert call.key call.value } i _ hcall
      (.set { call with phase := .inserted })
    have hself := hget i
    rw [if_pos rfl] at hself
    refine ⟨fun key value hdata => ?_, fun j wait hwait => ?_⟩
    · change (s.data.insert call.key call.value)[key]? = some value at hdata
      by_cases hkey : key = call.key
      · subst hkey
        obtain rfl : call.value = value := by simpa using hdata
        exact ⟨i, _, hself, rfl, rfl, trivial⟩
      · rw [Dict.getElem?_insert_of_ne hkey] at hdata
        exact (h.data key value hdata).stays hstay
    · have hbef := @wait_of_put _ { s with data := s.data.insert call.key call.value } i j _ _ wait hcall hwait
      obtain ⟨hkept, hslp, hgot⟩ := h.waiters j wait hbef
      refine ⟨hkept, fun hslps value hdata => ?_, fun value hgot' => (hgot value hgot').stays hstay⟩
      change (s.data.insert call.key call.value)[wait.key]? = some value at hdata
      by_cases hkey : wait.key = call.key
      · exact ⟨i, _, hself, hkey.symm, trivial⟩
      · rw [Dict.getElem?_insert_of_ne hkey] at hdata
        obtain ⟨k, set, hset, hsame, hnot⟩ := hslp hslps value hdata
        refine ⟨k, set, ?_, hsame, hnot⟩
        rw [hget, if_neg, hset]
        rintro rfl
        obtain rfl := Call.set.inj (Option.some.inj (hcall.symm.trans hset))
        exact hkey hsame.symm
  | inserted =>
    rw [hph] at hstep
    obtain rfl := Option.some.inj hstep
    have hstay := @setsStay_set _ s i call { call with phase := .notifying (s.notifiers.contains call.key) } hcall rfl rfl
      fun _ => trivial
    have hget := getElem?_put hcall (.set { call with phase := .notifying (s.notifiers.contains call.key) })
    refine ⟨fun key value hdata => (h.data key value hdata).stays hstay, fun j wait hwait => ?_⟩
    obtain ⟨hkept, hslp, hgot⟩ := h.waiters j wait (wait_of_put hcall hwait)
    refine ⟨hkept, fun hslps value hdata => ?_, fun value hgot' => (hgot value hgot').stays hstay⟩
    obtain ⟨k, set, hset, hsame, hnot⟩ := hslp hslps value hdata
    by_cases hk : k = i
    · -- the sleeper made its notifier before it slept, so the call finds it
      subst hk
      obtain rfl := Call.set.inj (Option.some.inj (hcall.symm.trans hset))
      have hfnd : s.notifiers.contains call.key = true := by
        rw [List.contains_iff_mem, hsame]
        exact hkept (by rw [hslps]; trivial)
      refine ⟨k, _, (hget k).trans (if_pos rfl), hsame, ?_⟩
      rw [hfnd]
      trivial
    · exact ⟨k, set, by rw [hget, if_neg hk, hset], hsame, hnot⟩
  | notifying found =>
    rw [hph] at hstep
    obtain rfl := Option.some.inj hstep
    generalize hwok : (if found then { s with calls := s.calls.map (Call.notified call.key) } else s) = woken
    have hsets : ∀ (k : Nat) (set : SetCall Value), s.calls[k]? = some (.set set) → woken.calls[k]? = some (.set set) := by
      intro k set hset
      rw [← hwok]
      exact getElem?_notified hset
    have hsame : woken.data = s.data ∧ woken.notifiers = s.notifiers := by
      rw [← hwok]
      split <;> exact ⟨rfl, rfl⟩
    have hget := getElem?_put (hsets i call hcall) (.set { call with phase := .finished (.ok ()) })
    have hstay : SetsStay s (woken.put i (.set { call with phase := .finished (.ok ()) })) := by
      intro k set hset
      exact @setsStay_set _ woken i call { call with phase := .finished (.ok ()) } (hsets i call hcall) rfl rfl
        (fun _ => trivial) k set (hsets k set hset)
    refine ⟨fun key value hdata => ?_, fun j wait hwait => ?_⟩
    · change woken.data[key]? = some value at hdata
      rw [hsame.1] at hdata
      exact (h.data key value hdata).stays hstay
    · have hnow := wait_of_put (hsets i call hcall) hwait
      obtain ⟨before, hbef, hkey, hkept', hslp', hgot'⟩ : ∃ before, s.calls[j]? = some (.wait before) ∧
          wait.key = before.key ∧ (wait.phase.HasNotifier → before.phase.HasNotifier) ∧
          (wait.phase = .suspended false → before.phase = .suspended false ∧ (found = true → before.key ≠ call.key)) ∧
          ∀ value, wait.phase = .finished (.ok value) → before.phase = .finished (.ok value) := by
        rw [← hwok] at hnow
        cases found with
        | false => exact ⟨wait, hnow, rfl, id, fun hslps => ⟨hslps, by simp⟩, fun _ => id⟩
        | true =>
          change (s.calls.map (Call.notified call.key))[j]? = some (.wait wait) at hnow
          rw [List.getElem?_map] at hnow
          obtain ⟨old, hold, heq⟩ := Option.map_eq_some_iff.mp hnow
          obtain ⟨before, rfl, hkey, hkept', hslp', hgot'⟩ := notified_eq_wait heq
          exact ⟨before, hold, hkey, hkept', fun hslps => ⟨(hslp' hslps).1, fun _ => (hslp' hslps).2⟩, hgot'⟩
      obtain ⟨hkept, hslp, hgot⟩ := h.waiters j before hbef
      rw [← hkey] at hkept hslp hgot hslp'
      refine ⟨fun hhol => ?_, fun hslps value hdata => ?_, fun value hfin =>
        (hgot value (hgot' value hfin)).stays hstay⟩
      · change wait.key ∈ woken.notifiers
        rw [hsame.2]
        exact hkept (hkept' hhol)
      · change woken.data[wait.key]? = some value at hdata
        rw [hsame.1] at hdata
        obtain ⟨hslp', hoth⟩ := hslp' hslps
        obtain ⟨k, set, hset, hsetKey, hnot⟩ := hslp hslp' value hdata
        refine ⟨k, set, ?_, hsetKey, hnot⟩
        rw [hget, if_neg, hsets k set hset]
        -- this call either woke the sleepers of its key or had none to wake
        rintro rfl
        obtain rfl := Call.set.inj (Option.some.inj (hcall.symm.trans hset))
        rw [hph] at hnot
        cases found with
        | false => exact hnot
        | true => exact hoth rfl hsetKey.symm
  | finished result =>
    rw [hph] at hstep
    cases hstep

/-! ### Runs -/

theorem Sound.called (h : s.Sound) (call : Call Value)
    (hnew : ∀ wait, call = .wait wait → wait.phase = .checking ∨ ∃ error, wait.phase = .finished (.error error)) :
    Sound { s with calls := s.calls ++ [call] } := by
  have hold : ∀ (i : Nat) (c : Call Value), s.calls[i]? = some c → (s.calls ++ [call])[i]? = some c := by
    intro i c hc
    obtain ⟨hi, -⟩ := List.getElem?_eq_some_iff.mp hc
    rw [List.getElem?_append_left hi, hc]
  have hstay : SetsStay s { s with calls := s.calls ++ [call] } := fun i set hset => ⟨set, hold i _ hset, rfl, rfl, id⟩
  refine ⟨fun key value hdata => (h.data key value hdata).stays hstay, fun i wait hwait => ?_⟩
  change (s.calls ++ [call])[i]? = some (.wait wait) at hwait
  by_cases hi : i < s.calls.length
  · rw [List.getElem?_append_left hi] at hwait
    obtain ⟨hkept, hslp, hgot⟩ := h.waiters i wait hwait
    refine ⟨hkept, fun hslps value hdata => ?_, fun value hfin => (hgot value hfin).stays hstay⟩
    obtain ⟨k, set, hset, hsame, hnot⟩ := hslp hslps value hdata
    exact ⟨k, set, hold k _ hset, hsame, hnot⟩
  · have hmem : wait ∈ [wait] := List.mem_singleton_self wait
    have hlast : call = .wait wait := by
      rw [List.getElem?_append_right (by omega)] at hwait
      simpa using List.mem_of_getElem? hwait |> List.mem_singleton.mp |> Eq.symm
    rcases hnew wait hlast with hph | ⟨error, hph⟩
    · exact ⟨by rw [hph]; exact False.elim, by rw [hph]; simp, by rw [hph]; simp⟩
    · exact ⟨by rw [hph]; exact False.elim, by rw [hph]; simp, by rw [hph]; simp⟩

theorem sound_step {move : Move Value} (h : s.Sound) (hstep : s.step move = some s') :
    s'.Sound := by
  cases move with
  | set key value =>
    obtain rfl := Option.some.inj hstep
    exact h.called _ (by simp)
  | wait key timeout =>
    obtain rfl := Option.some.inj hstep
    refine h.called _ fun wait heq => ?_
    obtain rfl := Call.wait.inj heq
    unfold callWait
    split
    · exact .inr ⟨_, rfl⟩
    · exact .inl rfl
  | act i =>
    unfold step at hstep
    dsimp only at hstep
    split at hstep
    next call hcall => exact h.actSet hcall hstep
    next call hcall => exact h.actWait hcall hstep
    next => cases hstep
  | expire i =>
    unfold step at hstep
    dsimp only at hstep
    split at hstep
    next call hcall =>
      split at hstep
      next hph =>
        obtain rfl := Option.some.inj hstep
        exact h.stepWait hcall (fun _ hkey => hkey) (fun hfls => hfls.elim) (by simp) (by simp)
      next => cases hstep
    next => cases hstep

theorem sound_reachable (h : s.Reachable) : s.Sound := by
  obtain ⟨moves, hrun⟩ := h
  have hrun' : ∀ (moves : List (Move Value)) (before after : SharedState Value), before.Sound →
      moves.foldlM step before = some after → after.Sound := by
    intro moves
    induction moves with
    | nil =>
      intro before after hsnd heq
      obtain rfl := Option.some.inj heq
      exact hsnd
    | cons move moves ih =>
      intro before after hsnd heq
      rw [List.foldlM_cons] at heq
      obtain ⟨next, hnext, hrest⟩ := Option.bind_eq_some_iff.mp heq
      exact ih next after (sound_step hsnd hnext) hrest
  refine hrun' moves {} s ⟨fun key value hdata => ?_, fun i wait hwait => ?_⟩ hrun
  · simp at hdata
  · simp at hwait

/-- No waiter sleeps unnotified while its key has a value, unless a call that set the key is between its insert and its
notification; and what a waiter returns was set for its key. -/
theorem waits_miss_no_set {s : SharedState Value} (h : s.Reachable) {i : Nat} {wait : WaitCall Value}
    (hwait : s.calls[i]? = some (.wait wait)) :
    (wait.phase = .suspended false → ∀ value, s.data[wait.key]? = some value → ∃ (j : Nat) (set : SetCall Value),
        s.calls[j]? = some (.set set) ∧ set.key = wait.key ∧ set.phase.Between) ∧
      ∀ value, wait.phase = .finished (.ok value) → ∃ (j : Nat) (set : SetCall Value),
        s.calls[j]? = some (.set set) ∧ set.key = wait.key ∧ set.value = value ∧ set.phase.Wrote := by
  obtain ⟨-, hslept, hgot⟩ := (sound_reachable h).waiters i wait hwait
  refine ⟨fun hsleeps value hdata => ?_, hgot⟩
  obtain ⟨j, set, hset, hkey, hnotify⟩ := hslept hsleeps value hdata
  refine ⟨j, set, hset, hkey, ?_⟩
  cases hphase : set.phase with
  | inserted => trivial
  | notifying found => trivial
  | inserting =>
    rw [hphase] at hnotify
    exact hnotify
  | finished result =>
    rw [hphase] at hnotify
    exact hnotify

/-- A set between the check and the sleep of a waiter, before its notification. -/
def racedMoves : List (Move Nat) :=
  [.wait "raced" maxTimeout, .act 0, .act 0, .act 0, .set "raced" 7, .act 0, .act 1]

def racedState : SharedState Nat where
  data := (∅ : Dict Nat).insert "raced" 7
  notifiers := ["raced"]
  calls := [.wait ⟨"raced", maxTimeout, .suspended false⟩, .set ⟨"raced", 7, .inserted⟩]

theorem waits_miss_no_set_raced : racedMoves.foldlM step {} = some racedState ∧
    ∃ (j : Nat) (set : SetCall Nat), racedState.calls[j]? = some (.set set) ∧ set.key = "raced" ∧ set.phase.Between := by
  have hrun : racedMoves.foldlM step {} = some racedState := rfl
  have hdata : racedState.data["raced"]? = some 7 := by simp [racedState]
  have hwait : racedState.calls[0]? = some (.wait ⟨"raced", maxTimeout, .suspended false⟩) := rfl
  exact ⟨hrun, (waits_miss_no_set ⟨racedMoves, hrun⟩ hwait).1 rfl 7 hdata⟩

end SharedState

end Adk
