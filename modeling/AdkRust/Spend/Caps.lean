import AdkRust.Spend.Ledger

/-!
# Spend caps hold over whole runs

A run of the ledger is any sequence of its calls in which the clock does not go back, a reservation's
identifier is new, and a commit is at most its reservation and before it expires (`SpendRun.Step`). Beside
the ledger a run keeps what was committed and which reservations were settled.

A limit counts what was committed in the current window and the live holds of its scope. `reserve` keeps the
count within the maximum, a commit moves spend from a hold to the window, and time only lowers the count:
a later window starts later and holds expire. That is the invariant (`Sound`) from
which `caps_hold` follows.
-/

namespace Adk

open SpendLedger

structure Spend where
  key : SpendKey
  amount : Nat
  moment : Utc

structure SpendRun where
  state : LedgerState := {}
  /-- The last reading of the clock. -/
  now : Utc
  /-- The identifiers generated so far. -/
  issued : List ReservationId := []
  /-- The reservations committed or released so far. -/
  settled : List ReservationId := []
  spends : List Spend := []

namespace SpendRun

def settledBy (id : ReservationId) (result : Except SpendError Unit) : List ReservationId :=
  match result with
  | .ok () => [id]
  | .error _ => []

inductive Step (ledger : SpendLedger) : SpendRun → SpendRun → Prop where
  | reserve {r : SpendRun} {now : Utc} {id : ReservationId} {key : SpendKey} {amount : Nat}
      {result : Except SpendError ReservationId} {state : LedgerState} (hclock : r.now ≤ now)
      (hfresh : id ∉ r.issued) (h : ledger.reserve r.state now id key amount = (result, state)) :
    Step ledger r { r with state, now, issued := id :: r.issued }
  | commit {r : SpendRun} {now : Utc} {id : ReservationId} {actual : Nat}
      {result : Except SpendError Unit} {state : LedgerState} (hclock : r.now ≤ now)
      (hhold : ∀ hold, r.state.holds[id]? = some hold → actual ≤ hold.amount ∧ now < hold.expiresAt)
      (h : SpendLedger.commit r.state now id actual = (result, state)) :
    Step ledger r { r with
      state, now
      settled := r.settled ++ settledBy id result
      spends := r.spends ++
        (r.state.holds[id]?.map fun hold => { key := hold.key, amount := actual, moment := now }).toList }
  | release {r : SpendRun} {now : Utc} {id : ReservationId} {result : Except SpendError Unit}
      {state : LedgerState} (hclock : r.now ≤ now) (h : SpendLedger.release r.state id = (result, state)) :
    Step ledger r { r with state, now, settled := r.settled ++ settledBy id result }

abbrev Reaches (ledger : SpendLedger) (r : SpendRun) : Prop :=
  ∃ begun : Utc, Relation.ReflTransGen (Step ledger) { now := begun } r

/-- What was committed in a window of a limit's period and is covered by the limit. -/
def spentIn (r : SpendRun) (limit : SpendLimit) (window : Option Utc) : Nat :=
  total (fun spend => limit.key.covers spend.key && limit.key.period.windowStart spend.moment = window)
    Spend.amount r.spends

end SpendRun

/-! ## Windows -/

theorem dateNaive_midnight (day : Day) : dateNaive (midnight day) = day := by
  unfold dateNaive midnight
  exact Int.mul_ediv_cancel day (by decide)

theorem dateNaive_mono {at_ now : Utc} (h : at_ ≤ now) : dateNaive at_ ≤ dateNaive now :=
  Int.ediv_le_ediv (by decide) h

namespace SpendPeriod

/-- The first day of the window that contains a moment. -/
def since (period : SpendPeriod) (moment : Utc) : Option Day := (period.windowStart moment).map dateNaive

/-- A day of the current window is in it at an earlier moment's window too. -/
theorem inWindow_mono {period : SpendPeriod} {at_ now : Utc} (h : at_ ≤ now) {day : Day}
    (hday : LedgerState.inWindow (period.since now) day = true) :
    LedgerState.inWindow (period.since at_) day = true := by
  have hd := dateNaive_mono h
  cases period with
  | lifetime => rfl
  | day =>
    simp only [LedgerState.inWindow, since, windowStart, Option.map_some, dateNaive_midnight,
      Option.all_some, decide_eq_true_eq] at hday ⊢
    exact Int.le_trans hd hday
  | month =>
    simp only [LedgerState.inWindow, since, windowStart, Option.map_some, dateNaive_midnight,
      Option.all_some, decide_eq_true_eq] at hday ⊢
    exact Int.le_trans (Calendar.monthStart_mono hd) hday

/-- A moment is in the window that contains it. -/
theorem inWindow_of_windowStart {period : SpendPeriod} {at_ now : Utc}
    (h : period.windowStart at_ = period.windowStart now) :
    LedgerState.inWindow (period.since now) (dateNaive at_) = true := by
  unfold since
  rw [← h]
  cases period with
  | lifetime => rfl
  | day => simp [LedgerState.inWindow, windowStart, dateNaive_midnight]
  | month =>
    simpa [LedgerState.inWindow, windowStart, dateNaive_midnight] using Calendar.monthStart_le _

end SpendPeriod

/-! ## Sums -/

theorem foldl_saturatingAdd (amounts : List Nat) (start : Nat) (h : start ≤ maxAmount) :
    amounts.foldl saturatingAdd start = min (start + amounts.sum) maxAmount := by
  induction amounts generalizing start with
  | nil => simp [h]
  | cons a amounts ih =>
    have hfst : saturatingAdd start a ≤ maxAmount := Nat.min_le_right _ _
    rw [List.foldl_cons, ih _ hfst, List.sum_cons]
    unfold saturatingAdd
    omega

@[simp] theorem Attribution.covers_of (key entry : SpendKey) :
    key.covers (Attribution.of entry).asKey = key.covers entry := rfl

def inBuckets (limit : SpendLimit) (days : Day → Bool) (buckets : List Bucket) : Nat :=
  total (fun bucket => days bucket.day && limit.key.covers bucket.attribution.asKey) Bucket.amount buckets

def inHolds (limit : SpendLimit) (now : Utc) (holds : Dict Hold) : Nat :=
  total (fun hold => now < hold.expiresAt && limit.key.covers hold.key) Hold.amount holds.vals

def inSpends (limit : SpendLimit) (days : Day → Bool) (spends : List Spend) : Nat :=
  total (fun spend => days (dateNaive spend.moment) && limit.key.covers spend.key) Spend.amount spends

theorem committedIn_eq (state : LedgerState) (limit : SpendLimit) (now : Utc) :
    state.committedIn limit.key limit.key.period now =
      min (inBuckets limit (LedgerState.inWindow (limit.key.period.since now)) state.committed) maxAmount := by
  unfold LedgerState.committedIn inBuckets total
  rw [foldl_saturatingAdd _ _ (Nat.zero_le _), Nat.zero_add]
  rfl

theorem held_eq (state : LedgerState) (limit : SpendLimit) (now : Utc) :
    state.held limit.key now = min (inHolds limit now state.holds) maxAmount := by
  unfold LedgerState.held inHolds total
  rw [foldl_saturatingAdd _ _ (Nat.zero_le _), Nat.zero_add]

variable {limit : SpendLimit} {key : SpendKey} {amount actual : Nat} {id : ReservationId} {state : LedgerState}

theorem inBuckets_add {days : Day → Bool} {day : Day} {buckets : List Bucket}
    (hfit : ∀ bucket ∈ buckets, bucket.attribution = .of key → bucket.day = day →
      bucket.amount + amount ≤ maxAmount) (ham : amount ≤ maxAmount) :
    inBuckets limit days (Bucket.add (.of key) day amount buckets) =
      inBuckets limit days buckets + if days day && limit.key.covers key then amount else 0 := by
  induction buckets with
  | nil => simp [inBuckets, Bucket.add, total_cons, saturatingAdd, ham]
  | cons bucket rest ih =>
    unfold Bucket.add
    by_cases hb : bucket.attribution = .of key ∧ bucket.day = day
    · have hsum : saturatingAdd bucket.amount amount = bucket.amount + amount :=
        Nat.min_eq_left (hfit bucket (by simp) hb.1 hb.2)
      rw [if_pos hb, hsum]
      obtain ⟨hattribution, hday⟩ := hb
      unfold inBuckets
      rw [total_cons, total_cons]
      cases hp : days day && limit.key.covers key with
      | true =>
        simp only [hattribution, hday, Attribution.covers_of, hp, if_true]
        omega
      | false => simp [hattribution, hday, hp]
    · have htail := ih fun b hb => hfit b (by simp [hb])
      rw [if_neg hb]
      simp only [inBuckets, total_cons] at htail ⊢
      omega

theorem inBuckets_add_uncovered {days : Day → Bool} {day : Day}
    (buckets : List Bucket) (h : limit.key.covers key = false) :
    inBuckets limit days (Bucket.add (.of key) day amount buckets) = inBuckets limit days buckets := by
  induction buckets with
  | nil => simp [inBuckets, Bucket.add, total_cons, h]
  | cons bucket rest ih =>
    unfold Bucket.add
    by_cases hb : bucket.attribution = .of key ∧ bucket.day = day
    · rw [if_pos hb]
      simp [inBuckets, total_cons, hb.1, h]
    · rw [if_neg hb]
      simp only [inBuckets, total_cons] at ih ⊢
      omega

/-! ## The balance -/

variable {ledger : SpendLedger} {limits : List SpendLimit} {r r' : SpendRun} {counted : Dict Hold} {now : Utc}

/-- Limits that are kept while the holds that are counted are committed. -/
structure Balanced (limits : List SpendLimit) (r : SpendRun) (counted : Dict Hold) : Prop where
  /-- The buckets of a limit hold what was spent under it. -/
  booked : ∀ limit ∈ limits, ∀ days, inBuckets limit days r.state.committed = inSpends limit days r.spends
  /-- What a limit counts is within its maximum. -/
  counted : ∀ limit ∈ limits, inSpends limit (LedgerState.inWindow (limit.key.period.since r.now)) r.spends +
    inHolds limit r.now counted ≤ limit.maxMicroUsd
  capped : ∀ limit ∈ limits, ∀ window, r.spentIn limit window ≤ limit.maxMicroUsd

theorem Balanced.later (h : Balanced limits r counted) (hclk : r.now ≤ now) : Balanced limits { r with now } counted := by
  refine ⟨h.booked, fun limit hl => ?_, h.capped⟩
  have hspends : inSpends limit (LedgerState.inWindow (limit.key.period.since now)) r.spends ≤
      inSpends limit (LedgerState.inWindow (limit.key.period.since r.now)) r.spends := by
    refine total_mono fun spend _ hs => ?_
    simp only [Bool.and_eq_true] at hs ⊢
    exact ⟨SpendPeriod.inWindow_mono hclk hs.1, hs.2⟩
  have hhol : inHolds limit now counted ≤ inHolds limit r.now counted := by
    refine total_mono fun hold _ hs => ?_
    simp only [Bool.and_eq_true, decide_eq_true_eq] at hs ⊢
    exact ⟨Int.lt_of_le_of_lt hclk hs.1, hs.2⟩
  have := h.counted limit hl
  dsimp only
  omega

theorem Balanced.hold (h : Balanced limits r counted) (hold : Hold) (hnew : id ∉ counted)
    (hfits : ∀ limit ∈ limits, limit.key.covers hold.key = true →
      inSpends limit (LedgerState.inWindow (limit.key.period.since r.now)) r.spends + inHolds limit r.now counted +
        hold.amount ≤ limit.maxMicroUsd) : Balanced limits r (counted.insert id hold) := by
  refine ⟨h.booked, fun limit hl => ?_, h.capped⟩
  have hcnt := h.counted limit hl
  have hinsert := Dict.total_insert (p := fun hold : Hold => decide (r.now < hold.expiresAt) &&
    limit.key.covers hold.key) (f := Hold.amount) hnew hold
  unfold inHolds at hcnt ⊢
  by_cases hcov : limit.key.covers hold.key = true
  · have hroom := hfits limit hl hcov
    unfold inHolds at hroom
    rw [hinsert]
    split <;> omega
  · rw [hinsert, if_neg (by simp [hcov])]
    omega

theorem Balanced.drop (h : Balanced limits r counted) (id : ReservationId) : Balanced limits r (counted.erase id) := by
  refine ⟨h.booked, fun limit hl => ?_, h.capped⟩
  have hcnt := h.counted limit hl
  cases hhold : counted[id]? with
  | none =>
    have hsame : counted.erase id = counted := Std.ExtTreeMap.ext_getElem? fun k => by
      rw [Std.ExtTreeMap.getElem?_erase]
      by_cases hk : compare id k = .eq
      · rw [if_pos hk, ← hhold, Std.LawfulEqOrd.eq_of_compare hk]
      · rw [if_neg hk]
    rw [hsame]
    exact hcnt
  | some hold =>
    have herase := Dict.total_erase (p := fun hold : Hold => decide (r.now < hold.expiresAt) &&
      limit.key.covers hold.key) (f := Hold.amount) hhold
    unfold inHolds at hcnt ⊢
    omega

/-- Spend that every limit still counts within its maximum. -/
theorem Balanced.spend (h : Balanced limits r counted) (hmax : ∀ limit ∈ limits, limit.maxMicroUsd < maxAmount)
    {left : Dict Hold} (state : LedgerState)
    (hst : state.committed = Bucket.add (.of key) (dateNaive r.now) actual r.state.committed)
    (hcounts : ∀ limit ∈ limits, inSpends limit (LedgerState.inWindow (limit.key.period.since r.now)) r.spends +
      (if limit.key.covers key then actual else 0) + inHolds limit r.now left ≤ limit.maxMicroUsd) :
    Balanced limits { r with state, spends := r.spends ++ [{ key, amount := actual, moment := r.now }] } left := by
  have hspend : ∀ (limit : SpendLimit) (days : Day → Bool), inSpends limit days (r.spends ++
      [{ key, amount := actual, moment := r.now }]) = inSpends limit days r.spends +
        if days (dateNaive r.now) && limit.key.covers key then actual else 0 := by
    intro limit days
    simp [inSpends, total_append, total_cons]
  have hday : ∀ limit : SpendLimit,
      LedgerState.inWindow (limit.key.period.since r.now) (dateNaive r.now) = true :=
    fun limit => SpendPeriod.inWindow_of_windowStart rfl
  refine ⟨fun limit hl days => ?_, fun limit hl => ?_, fun limit hl window => ?_⟩
  · dsimp only
    rw [hspend, hst]
    by_cases hcov : limit.key.covers key
    · have hcnt := hcounts limit hl
      have hlt := hmax limit hl
      simp only [hcov, if_true] at hcnt
      rw [inBuckets_add (fun bucket hb hattribution hbday => ?_) (by omega), h.booked limit hl]
      -- The bucket is one of those that the limit counts.
      have hle : bucket.amount ≤ inBuckets limit
          (LedgerState.inWindow (limit.key.period.since r.now)) r.state.committed :=
        le_total hb (by simp [hattribution, hbday, hcov, hday])
      rw [h.booked limit hl] at hle
      omega
    · have hno : limit.key.covers key = false := by simpa using hcov
      rw [inBuckets_add_uncovered _ hno, h.booked limit hl]
      simp [hno]
  · have hcnt := hcounts limit hl
    dsimp only
    rw [hspend]
    simp only [hday, Bool.true_and]
    exact hcnt
  · show total _ _ (r.spends ++ [({ key, amount := actual, moment := r.now } : Spend)]) ≤ _
    rw [total_append]
    by_cases hnow : limit.key.covers key && limit.key.period.windowStart r.now = window
    · -- The window is the current one, and the limit counts all of it.
      simp only [Bool.and_eq_true, decide_eq_true_eq] at hnow
      obtain ⟨hcov, rfl⟩ := hnow
      have hle : r.spentIn limit (limit.key.period.windowStart r.now) ≤
          inSpends limit (LedgerState.inWindow (limit.key.period.since r.now)) r.spends := by
        refine total_mono fun spend _ hs => ?_
        simp only [Bool.and_eq_true, decide_eq_true_eq] at hs ⊢
        exact ⟨SpendPeriod.inWindow_of_windowStart hs.2, hs.1⟩
      have hcnt := hcounts limit hl
      unfold SpendRun.spentIn at hle
      simp only [hcov, if_true] at hcnt
      simp only [total_cons, hcov, Bool.true_and, decide_true, if_true, total_nil]
      omega
    · have hcap := h.capped limit hl window
      unfold SpendRun.spentIn at hcap
      simp only [total_cons, hnow, total_nil]
      exact hcap

/-- A reservation that is granted fits under every limit that covers it. -/
theorem reserve_fits (hmax : limit.maxMicroUsd < maxAmount) (hpass : refusal state now amount limit = none) :
    inBuckets limit (LedgerState.inWindow (limit.key.period.since now)) state.committed +
      inHolds limit now state.holds + amount ≤ limit.maxMicroUsd := by
  have hle : saturatingAdd (consumed state limit now) amount ≤ limit.maxMicroUsd := by
    unfold refusal at hpass
    by_cases hlt : limit.maxMicroUsd < saturatingAdd (consumed state limit now) amount
    · rw [if_pos hlt] at hpass
      cases hpass
    · exact Nat.le_of_not_lt hlt
  unfold consumed at hle
  rw [committedIn_eq, held_eq] at hle
  unfold saturatingAdd at hle
  omega

theorem refusal_eq_none (hl : limit ∈ ledger.limits) (hcov : limit.key.covers key = true)
    (h : (ledger.applicable key).findSome? (refusal state now amount) = none) : refusal state now amount limit = none :=
  List.findSome?_eq_none_iff.mp h limit (List.mem_filter.mpr ⟨hl, hcov⟩)

/-! ## The invariant -/

/-- What every call keeps. -/
structure Sound (ledger : SpendLedger) (r : SpendRun) : Prop where
  /-- The buckets of a limit hold what was spent under it. -/
  booked : ∀ limit ∈ ledger.limits, ∀ days,
    inBuckets limit days r.state.committed = inSpends limit days r.spends
  counted : ∀ limit ∈ ledger.limits,
    inSpends limit (LedgerState.inWindow (limit.key.period.since r.now)) r.spends +
      inHolds limit r.now r.state.holds ≤ limit.maxMicroUsd
  capped : ∀ limit ∈ ledger.limits, ∀ window, r.spentIn limit window ≤ limit.maxMicroUsd
  held : ∀ id : String, id ∈ r.state.holds → id ∈ r.issued ∧ id ∉ r.settled
  settled : ∀ id ∈ r.settled, id ∈ r.issued
  once : r.settled.Nodup

theorem Sound.balanced (h : Sound ledger r) : Balanced ledger.limits r r.state.holds := ⟨h.booked, h.counted, h.capped⟩

/-- Spend that is not recorded leaves every window as it was. -/
theorem Sound.idle (h : Sound ledger r) (hclk : r.now ≤ now) : Sound ledger { r with now } where
  booked := h.booked
  counted := (h.balanced.later hclk).counted
  capped := h.capped
  held := h.held
  settled := h.settled
  once := h.once

theorem Sound.reserve (h : Sound ledger r) (hmax : ∀ limit ∈ ledger.limits, limit.maxMicroUsd < maxAmount)
    (hclk : r.now ≤ now) {result : Except SpendError ReservationId} (hfr : id ∉ r.issued)
    (hr : ledger.reserve r.state now id key amount = (result, state)) :
    Sound ledger { r with state, now, issued := id :: r.issued } := by
  have hidle : Sound ledger { r with now, issued := id :: r.issued } :=
    { h.idle hclk with
      held := fun id' hid => ⟨List.mem_cons_of_mem _ (h.held id' hid).1, (h.held id' hid).2⟩
      settled := fun id' hid => List.mem_cons_of_mem _ (h.settled id' hid) }
  unfold SpendLedger.reserve at hr
  cases hfind : (ledger.applicable key).findSome? (refusal r.state now amount) with
  | some error =>
    rw [hfind] at hr
    obtain ⟨-, rfl⟩ := Prod.mk.inj hr
    exact hidle
  | none =>
    rw [hfind] at hr
    obtain ⟨-, rfl⟩ := Prod.mk.inj hr
    have hnew : id ∉ r.state.holds := fun hid => hfr (h.held id hid).1
    have hheld := (h.balanced.later hclk).hold { key, amount, expiresAt := ledger.expiry now } hnew
      fun limit hl hcov => by
        rw [← h.booked limit hl]
        exact reserve_fits (hmax limit hl) (refusal_eq_none hl hcov hfind)
    refine { hidle with counted := hheld.counted, held := fun id' hid => ?_ }
    rcases Std.ExtTreeMap.mem_insert.mp hid with heq | hid
    · obtain rfl : id = id' := by simpa using heq
      exact ⟨by simp, fun hs => hfr (h.settled id hs)⟩
    · exact hidle.held id' hid

theorem Sound.settle (h : Sound ledger r) {hold : Hold} (hhold : r.state.holds[id]? = some hold) :
    (∀ id' : String, id' ∈ r.state.holds.erase id → id' ∈ r.issued ∧ id' ∉ r.settled ++ [id]) ∧
      (∀ id' ∈ r.settled ++ [id], id' ∈ r.issued) ∧ (r.settled ++ [id]).Nodup := by
  have hmem : id ∈ r.state.holds := Std.ExtTreeMap.mem_iff_isSome_getElem?.mpr (by simp [hhold])
  obtain ⟨hiss, hunsettled⟩ := h.held id hmem
  refine ⟨fun id' hid => ?_, fun id' hid => ?_, ?_⟩
  · rw [Std.ExtTreeMap.mem_erase] at hid
    obtain ⟨hne, hid⟩ := hid
    have hne' : id' ≠ id := fun heq => hne (by simp [heq])
    simpa [hne'] using h.held id' hid
  · rcases List.mem_append.mp hid with hid | hid
    · exact h.settled id' hid
    · rw [List.mem_singleton.mp hid]
      exact hiss
  · rw [List.nodup_append]
    exact ⟨h.once, by simp, fun a ha b hb heq => hunsettled (by simp_all)⟩

theorem Sound.release (h : Sound ledger r) (hclk : r.now ≤ now) {result : Except SpendError Unit}
    (hr : SpendLedger.release r.state id = (result, state)) :
    Sound ledger { r with state, now, settled := r.settled ++ SpendRun.settledBy id result } := by
  have hidle := h.idle hclk
  unfold SpendLedger.release at hr
  cases hhold : r.state.holds[id]? with
  | none =>
    rw [hhold] at hr
    obtain ⟨rfl, rfl⟩ := Prod.mk.inj hr
    simpa [SpendRun.settledBy] using hidle
  | some hold =>
    rw [hhold] at hr
    obtain ⟨rfl, rfl⟩ := Prod.mk.inj hr
    obtain ⟨hheld, hset, honce⟩ := h.settle hhold
    have hdropped := (h.balanced.later hclk).drop id
    exact { hidle with counted := hdropped.counted, held := hheld, settled := hset, once := honce }

theorem Balanced.settled (h : Balanced limits r counted) {hold : Hold}
    (hfnd : counted[id]? = some hold) (hactual : actual ≤ hold.amount) (hlive : r.now < hold.expiresAt) :
    ∀ limit ∈ limits, inSpends limit (LedgerState.inWindow (limit.key.period.since r.now)) r.spends +
      (if limit.key.covers hold.key then actual else 0) + inHolds limit r.now (counted.erase id) ≤ limit.maxMicroUsd := by
  intro limit hl
  have hcnt := h.counted limit hl
  have herase := Dict.total_erase (p := fun hold : Hold => decide (r.now < hold.expiresAt) &&
    limit.key.covers hold.key) (f := Hold.amount) hfnd
  unfold inHolds at hcnt ⊢
  simp only [hlive, decide_true, Bool.true_and] at herase
  by_cases hcov : limit.key.covers hold.key
  · simp only [hcov, if_true] at herase ⊢
    omega
  · simp only [hcov, Bool.false_eq_true, if_false] at herase ⊢
    omega

theorem Sound.commit (h : Sound ledger r) (hmax : ∀ limit ∈ ledger.limits, limit.maxMicroUsd < maxAmount)
    (hclk : r.now ≤ now) {result : Except SpendError Unit}
    (hhold : ∀ hold, r.state.holds[id]? = some hold → actual ≤ hold.amount ∧ now < hold.expiresAt)
    (hr : SpendLedger.commit r.state now id actual = (result, state)) :
    Sound ledger { r with
      state, now
      settled := r.settled ++ SpendRun.settledBy id result
      spends := r.spends ++
        (r.state.holds[id]?.map fun hold => { key := hold.key, amount := actual, moment := now }).toList } := by
  have hidle := h.idle hclk
  unfold SpendLedger.commit at hr
  cases hfnd : r.state.holds[id]? with
  | none =>
    rw [hfnd] at hr
    obtain ⟨rfl, rfl⟩ := Prod.mk.inj hr
    simpa [SpendRun.settledBy] using hidle
  | some hold =>
    rw [hfnd] at hr
    obtain ⟨rfl, rfl⟩ := Prod.mk.inj hr
    obtain ⟨hactual, hlive⟩ := hhold hold hfnd
    obtain ⟨hheld, hset, honce⟩ := h.settle hfnd
    have hlat := h.balanced.later hclk
    have hspt := hlat.spend hmax ⟨Bucket.add (.of hold.key) (dateNaive now) actual r.state.committed,
      r.state.holds.erase id⟩ rfl (hlat.settled hfnd hactual hlive)
    exact ⟨hspt.booked, hspt.counted, hspt.capped, hheld, hset, honce⟩

theorem Sound.step (h : Sound ledger r) (hmax : ∀ limit ∈ ledger.limits, limit.maxMicroUsd < maxAmount)
    (hs : SpendRun.Step ledger r r') : Sound ledger r' := by
  cases hs with
  | reserve hclk hfr hr => exact h.reserve hmax hclk hfr hr
  | commit hclk hhold hr => exact h.commit hmax hclk hhold hr
  | release hclk hr => exact h.release hclk hr

theorem SpendRun.Reaches.sound (hmax : ∀ limit ∈ ledger.limits, limit.maxMicroUsd < maxAmount)
    (h : SpendRun.Reaches ledger r) : Sound ledger r := by
  obtain ⟨begun, hrea⟩ := h
  induction hrea with
  | refl =>
    constructor
    case counted =>
      intro limit _
      have hnone : ∀ hold ∈ ({} : LedgerState).holds.vals, False := by
        intro hold hh
        obtain ⟨k, hk⟩ := Dict.mem_vals.mp hh
        simp at hk
      have : inHolds limit begun ({} : LedgerState).holds = 0 :=
        total_eq_zero fun hold hh => (hnone hold hh).elim
      simp [inSpends, this]
    all_goals simp [inBuckets, inSpends, SpendRun.spentIn]
  | tail _ hs ih => exact ih.step hmax hs

/-- No sum under a limit saturates. -/
theorem Sound.consumed (h : Sound ledger r) (hmax : limit.maxMicroUsd < maxAmount) (hl : limit ∈ ledger.limits) :
    SpendLedger.consumed r.state limit r.now =
      inSpends limit (LedgerState.inWindow (limit.key.period.since r.now)) r.spends +
      inHolds limit r.now r.state.holds := by
  have hcounted := h.counted limit hl
  unfold SpendLedger.consumed saturatingAdd
  rw [committedIn_eq, held_eq, h.booked limit hl]
  omega

/-! ## Caps -/

namespace SpendLedger

/-- What the caps of a ledger promise. -/
structure Capped (ledger : SpendLedger) (r : SpendRun) : Prop where
  /-- No limit is overspent, in any window of its period. -/
  within : ∀ limit ∈ ledger.limits, ∀ window, r.spentIn limit window ≤ limit.maxMicroUsd
  /-- No reservation was settled twice. -/
  once : r.settled.Nodup
  final : ∀ id ∈ r.settled, ∀ now actual,
    commit r.state now id actual = (.error (.unknownReservation id), r.state) ∧
      release r.state id = (.error (.unknownReservation id), r.state)
  refused : ∀ now id key amount error state,
    ledger.reserve r.state now id key amount = (.error error, state) → state = r.state

/-- **Spend caps hold over whole runs.** -/
theorem caps_hold (hmax : ∀ limit ∈ ledger.limits, limit.maxMicroUsd < maxAmount)
    (h : SpendRun.Reaches ledger r) : Capped ledger r where
  within := (h.sound hmax).capped
  once := (h.sound hmax).once
  final := by
    intro id hid now actual
    have hgone : r.state.holds[id]? = none :=
      Std.ExtTreeMap.getElem?_eq_none fun hheld => ((h.sound hmax).held id hheld).2 hid
    constructor
    · unfold commit
      rw [hgone]
    · unfold release
      rw [hgone]
  refused := by
    intro now id key amount error state hr
    unfold reserve at hr
    cases hfind : (ledger.applicable key).findSome? (refusal r.state now amount) with
    | some error' =>
      rw [hfind] at hr
      exact (Prod.mk.inj hr).2.symm
    | none =>
      rw [hfind] at hr
      cases (Prod.mk.inj hr).1

/-- **A reservation is refused only for what was spent and is held.** In every run, one is granted exactly when it fits
under each limit that covers it, with what the run committed in the limit's window and the holds that have not expired;
an error has those numbers. -/
theorem reserve_truthful (hmax : ∀ limit ∈ ledger.limits, limit.maxMicroUsd < maxAmount)
    (h : SpendRun.Reaches ledger r) (hclk : r.now ≤ now) :
    let counted limit := inSpends limit (LedgerState.inWindow (limit.key.period.since now)) r.spends +
      inHolds limit now r.state.holds
    ((ledger.reserve r.state now id key amount).1 = .ok id ↔
      ∀ limit ∈ ledger.limits, limit.key.covers key → counted limit + amount ≤ limit.maxMicroUsd) ∧
    ∀ error, (ledger.reserve r.state now id key amount).1 = .error error →
      ∃ limit ∈ ledger.limits, limit.key.covers key ∧ limit.maxMicroUsd < counted limit + amount ∧
        error = .limitExceeded limit.key limit.maxMicroUsd (counted limit) amount := by
  intro counted
  have hrefusal : ∀ limit ∈ ledger.applicable key, limit ∈ ledger.limits ∧ limit.key.covers key ∧
      refusal r.state now amount limit = if limit.maxMicroUsd < counted limit + amount then
        some (.limitExceeded limit.key limit.maxMicroUsd (counted limit) amount) else none := by
    intro limit hmem
    obtain ⟨hl, hcov⟩ := List.mem_filter.mp hmem
    have hlt := hmax limit hl
    have hconsumed : consumed r.state limit now = counted limit :=
      ((h.sound hmax).idle hclk).consumed hlt hl
    refine ⟨hl, hcov, ?_⟩
    unfold refusal
    rw [hconsumed]
    have hfits : limit.maxMicroUsd < saturatingAdd (counted limit) amount ↔
        limit.maxMicroUsd < counted limit + amount := by
      unfold saturatingAdd
      omega
    simp only [hfits]
  unfold reserve
  cases hfind : (ledger.applicable key).findSome? (refusal r.state now amount) with
  | some error =>
    obtain ⟨limit, hmem, hsome⟩ := List.exists_of_findSome?_eq_some hfind
    obtain ⟨hl, hcov, hif⟩ := hrefusal limit hmem
    rw [hif] at hsome
    split at hsome
    next hlt =>
      refine ⟨⟨nofun, fun hfits => absurd (hfits limit hl hcov) (by omega)⟩, fun error' herr => ?_⟩
      cases herr
      exact ⟨limit, hl, hcov, hlt, (Option.some.inj hsome).symm⟩
    next => cases hsome
  | none =>
    refine ⟨⟨fun _ limit hl hcov => ?_, fun _ => rfl⟩, nofun⟩
    obtain ⟨-, -, hif⟩ := hrefusal limit (List.mem_filter.mpr ⟨hl, hcov⟩)
    rw [refusal_eq_none hl hcov hfind] at hif
    split at hif
    next => cases hif
    next hle => exact Nat.le_of_not_lt hle

def dailyCap : SpendLedger := { limits := [{ key := { org := "acme", period := .day }, maxMicroUsd := 100 }] }

/-- Whom `underspent` is attributed to. -/
def shopper : SpendKey := { org := "acme", agent := some "shopper" }

/-- The state after a reservation of `dailyCap`. -/
def reserved : LedgerState := (dailyCap.reserve {} 0 "r1" shopper 80).2

/-- A reservation of `dailyCap` that is committed for less. -/
def underspent : SpendRun where
  state := (commit reserved 1 "r1" 60).2
  now := 1
  issued := ["r1"]
  settled := ["r1"]
  spends := [{ key := shopper, amount := 60, moment := 1 }]

theorem reserved_hold : reserved.holds["r1"]? =
    some { key := shopper, amount := 80, expiresAt := 900000000000 } := by decide +kernel

theorem underspent_reaches : SpendRun.Reaches dailyCap underspent := by
  have hreserve : SpendRun.Step dailyCap { now := 0 } { state := reserved, now := 0, issued := ["r1"] } := by
    have h : dailyCap.reserve {} 0 "r1" shopper 80 = (.ok "r1", reserved) := by
      unfold reserved reserve
      rw [show (dailyCap.applicable shopper).findSome? (refusal {} 0 80) = none by decide +kernel]
    exact .reserve (Int.le_refl 0) (by simp) h
  have hcommit : SpendRun.Step dailyCap { state := reserved, now := 0, issued := ["r1"] } underspent := by
    have h : commit reserved 1 "r1" 60 = (.ok (), (commit reserved 1 "r1" 60).2) := by
      simp only [commit, reserved_hold]
    have hclk : (0 : Utc) ≤ 1 := by decide
    have hhold : ∀ hold, reserved.holds["r1"]? = some hold → 60 ≤ hold.amount ∧ (1 : Utc) < hold.expiresAt := by
      intro hold hh
      obtain rfl := Option.some.inj (reserved_hold.symm.trans hh)
      decide
    have hstep : SpendRun.Step dailyCap { state := reserved, now := 0, issued := ["r1"] } _ :=
      .commit hclk hhold h
    rw [reserved_hold] at hstep
    exact hstep
  exact ⟨0, (Relation.ReflTransGen.single hreserve).tail hcommit⟩

theorem caps_hold_underspent : Capped dailyCap underspent :=
  caps_hold (by decide) underspent_reaches

/-- The same day takes 40 more. -/
theorem reserve_truthful_underspent : (dailyCap.reserve underspent.state 2 "r2" shopper 40).1 = .ok "r2" :=
  (reserve_truthful (by decide) underspent_reaches (by decide)).1.mpr (by decide +kernel)

end SpendLedger

end Adk
