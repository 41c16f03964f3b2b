import AdkRust.Lease.Store

/-!
# Leases fence

A store keeps the epoch of every resource and only a grant moves it, one up (`Step.granted`, `Step.other`).
So the epochs handed out for a resource ascend (`Reaches.inv`), and a lease that another grant followed is
never again the one that the store keeps: `leases_fence`.
-/

namespace Adk

namespace LeaseStore

variable {store store' : LeaseStore} {event : Event} {history : List Event} {resource owner : String}
  {lease : Lease} {now : Utc} {ttl : Duration}

/-- The epoch of a resource's last grant; zero when there was none. -/
def epochOf (store : LeaseStore) (resource : String) : Nat :=
  (store.slots[resource]?.map (·.lease.epoch)).getD 0

/-! ## What a call does to the epochs -/

theorem epochOf_put (slot : LeaseSlot) (resource : String) :
    (store.put slot).epochOf resource =
      if slot.lease.resource = resource then slot.lease.epoch else store.epochOf resource := by
  simp only [epochOf, put, Std.ExtTreeMap.getElem?_insert, Std.compare_eq_iff_eq]
  split <;> rfl

theorem epochOf_insert {slot slot' : LeaseSlot} (hslot : store.slots[resource]? = some slot)
    (hep : slot'.lease.epoch = slot.lease.epoch) (r : String) :
    epochOf { slots := store.slots.insert resource slot' } r = store.epochOf r := by
  simp only [epochOf, Std.ExtTreeMap.getElem?_insert, Std.compare_eq_iff_eq]
  split
  · rename_i heq
    subst heq
    simp [hslot, hep]
  · rfl

/-- What an acquire grants, and whom it passes over. -/
theorem acquire_spec (store : LeaseStore) (now : Utc) (resource owner : String) (ttl : Duration) :
    (∃ result, store.acquire now resource owner ttl = (result, store) ∧ ∀ lease, result ≠ .ok (some lease)) ∨
    ∃ lease : Lease, store.acquire now resource owner ttl =
        (.ok (some lease), store.put { lease, released := false }) ∧
      lease.resource = resource ∧ lease.owner = owner ∧ lease.epoch = store.epochOf resource + 1 ∧
      ∀ slot, store.slots[resource]? = some slot → slot.live now = true → slot.lease.owner = owner := by
  unfold acquire
  cases hd : deadline now ttl invalidTtlCode with
  | error error => exact .inl ⟨_, rfl, by simp⟩
  | ok expiresAt =>
    cases hslot : store.slots[resource]? with
    | none => exact .inr ⟨_, rfl, rfl, rfl, by simp [epochOf, hslot], by simp⟩
    | some slot =>
      by_cases hlive : slot.live now && slot.lease.owner ≠ owner
      · refine .inl ⟨.ok none, ?_, by simp⟩
        dsimp only
        rw [if_pos hlive]
      · refine .inr ⟨{ resource, owner, epoch := slot.lease.epoch + 1, expiresAt }, ?_, rfl, rfl, ?_, ?_⟩
        · dsimp only
          rw [if_neg hlive]
          rfl
        · simp [epochOf, hslot]
        · intro slot' hslot' hl
          cases hslot'
          simpa [hl] using hlive

theorem renew_spec (store : LeaseStore) (now : Utc) (lease : Lease) (ttl : Duration) :
    (∃ error, store.renew now lease ttl = (.error error, store)) ∨
    ∃ slot slot' : LeaseSlot, store.slots[lease.resource]? = some slot ∧ slot.released = false ∧
      slot.lease.epoch = lease.epoch ∧ slot.lease.owner = lease.owner ∧
      slot'.lease.epoch = slot.lease.epoch ∧ store.renew now lease ttl =
        (.ok slot'.lease, { slots := store.slots.insert lease.resource slot' }) := by
  unfold renew
  cases hd : deadline now ttl invalidTtlCode with
  | error error => exact .inl ⟨error, rfl⟩
  | ok expiresAt =>
    cases hslot : store.slots[lease.resource]? with
    | none => exact .inl ⟨_, rfl⟩
    | some slot =>
      by_cases hhol : !slot.released && slot.holds lease
      · refine .inr ⟨slot, { slot with lease := { slot.lease with expiresAt } }, rfl, ?_⟩
        have hall := hhol
        simp only [LeaseSlot.holds, Bool.and_eq_true, Bool.not_eq_true', decide_eq_true_eq] at hall
        obtain ⟨hreld, hep, hown⟩ := hall
        refine ⟨hreld, hep, hown, rfl, ?_⟩
        dsimp only
        rw [if_pos hhol]
      · refine .inl ⟨leaseStaleEpochError lease.resource lease.epoch, ?_⟩
        dsimp only
        rw [if_neg hhol]

theorem release_spec (store : LeaseStore) (lease : Lease) :
    store.release lease = store ∨
    ∃ slot, store.slots[lease.resource]? = some slot ∧ slot.lease.epoch = lease.epoch ∧
      store.release lease =
        { slots := store.slots.insert lease.resource { slot with released := true } } := by
  unfold release
  cases hslot : store.slots[lease.resource]? with
  | none => exact .inl rfl
  | some slot =>
    by_cases hhol : slot.holds lease
    · refine .inr ⟨slot, rfl, ?_, ?_⟩
      · have hall := hhol
        simp only [LeaseSlot.holds, Bool.and_eq_true, decide_eq_true_eq] at hall
        exact hall.1
      · dsimp only
        rw [if_pos hhol]
    · refine .inl ?_
      dsimp only
      rw [if_neg hhol]

theorem Step.granted (h : Step store event store') (hg : event.granted = some lease) :
    lease.epoch = store.epochOf lease.resource + 1 ∧
      ∀ r, store'.epochOf r = if lease.resource = r then lease.epoch else store.epochOf r := by
  obtain ⟨now, call, answer⟩ := event
  cases call with
  | acquire resource owner ttl =>
    rcases acquire_spec store now resource owner ttl with ⟨result, hacq, hno⟩ | ⟨l, hacq, rfl, -, hep, -⟩
    · simp only [Step, run, hacq] at h
      cases h
      cases result with
      | error error => cases hg
      | ok l => exact absurd (congrArg Except.ok (show l = some lease from hg)) (hno lease)
    · simp only [Step, run, hacq] at h
      cases h
      obtain rfl : l = lease := Option.some.inj hg
      exact ⟨hep, fun r => epochOf_put _ r⟩
  | renew | release | current =>
    simp only [Step, run] at h
    obtain ⟨rfl, -⟩ := Prod.mk.inj h
    cases hg

/-- A call that grants nothing moves no epoch. -/
theorem Step.other (h : Step store event store') (hg : event.granted = none) (r : String) :
    store'.epochOf r = store.epochOf r := by
  obtain ⟨now, call, answer⟩ := event
  cases call with
  | acquire resource owner ttl =>
    rcases acquire_spec store now resource owner ttl with ⟨result, hacq, hno⟩ | ⟨l, hacq, -⟩
    · simp only [Step, run, hacq] at h
      cases h
      rfl
    · simp only [Step, run, hacq] at h
      cases h
      cases hg
  | renew lease ttl =>
    rcases renew_spec store now lease ttl with ⟨error, hrenew⟩ | ⟨slot, slot', hslot, -, -, -, hep, hrenew⟩
    · simp only [Step, run, hrenew] at h
      cases h
      rfl
    · simp only [Step, run, hrenew] at h
      cases h
      exact epochOf_insert hslot hep r
  | release lease =>
    simp only [Step, run] at h
    obtain ⟨-, rfl⟩ := Prod.mk.inj h
    show (store.release lease).epochOf r = store.epochOf r
    rcases release_spec store lease with hrel | ⟨slot, hslot, -, hrel⟩
    · rw [hrel]
    · rw [hrel]
      have hkept : ({ slot with released := true } : LeaseSlot).lease.epoch = slot.lease.epoch := rfl
      exact epochOf_insert hslot hkept r
  | current resource =>
    simp only [Step, run] at h
    obtain ⟨-, rfl⟩ := Prod.mk.inj h
    rfl

/-! ## Whole histories -/

theorem epochsOf_append (resource : String) (history : List Event) (event : Event) :
    epochsOf resource (history ++ [event]) = epochsOf resource history ++
      (event.granted.bind fun lease => if lease.resource = resource then some lease.epoch else none).toList := by
  unfold epochsOf
  rw [List.filterMap_append, List.filterMap_append]
  cases hg : event.granted with
  | none => simp [hg]
  | some lease =>
    by_cases hr : lease.resource = resource
    · simp [hg, hr]
    · simp [hg, hr]

/-- **The epochs of a resource ascend**, and the store keeps the last. -/
theorem Reaches.inv (h : Reaches history store) (resource : String) :
    (epochsOf resource history).Pairwise (· < ·) ∧
      ∀ epoch ∈ epochsOf resource history, epoch ≤ store.epochOf resource := by
  let P (history : List Event) (store : LeaseStore) : Prop :=
    (epochsOf resource history).Pairwise (· < ·) ∧
      ∀ epoch ∈ epochsOf resource history, epoch ≤ store.epochOf resource
  have hsta : P [] {} := ⟨.nil, by simp [epochsOf]⟩
  refine Path.inv_events ?_ h hsta
  rintro past s event t ⟨hsrt, hle⟩ hstep
  show (epochsOf resource (past ++ [event])).Pairwise (· < ·) ∧ _
  rw [epochsOf_append]
  cases hg : event.granted with
  | none =>
    rw [hstep.other hg]
    simpa using ⟨hsrt, hle⟩
  | some lease =>
    obtain ⟨hep, hmvd⟩ := hstep.granted hg
    have hnew := hmvd resource
    by_cases hr : lease.resource = resource
    · rw [if_pos hr] at hnew
      rw [hr] at hep
      simp only [Option.bind_some, hr, if_true, Option.toList_some]
      refine ⟨List.pairwise_append.mpr ⟨hsrt, List.pairwise_singleton _ _, ?_⟩, ?_⟩
      · intro epoch he epoch' he'
        have := hle epoch he
        rw [List.mem_singleton] at he'
        omega
      · intro epoch he
        rcases List.mem_append.mp he with he | he
        · have := hle epoch he
          omega
        · rw [List.mem_singleton] at he
          omega
    · rw [if_neg hr] at hnew
      rw [hnew]
      simpa [hr] using ⟨hsrt, hle⟩

structure Fenced (history : List Event) (store : LeaseStore) : Prop where
  /-- The epochs handed out for a resource ascend. -/
  increasing : ∀ resource, (epochsOf resource history).Pairwise (· < ·)
  /-- Two leases that could be renewed now are the same grant. -/
  renewable : ∀ (l l' : Lease) (now now' : Utc) (ttl ttl' : Duration) (r r' : Lease),
    l.resource = l'.resource → (store.renew now l ttl).1 = .ok r → (store.renew now' l' ttl').1 = .ok r' →
      l.epoch = l'.epoch ∧ l.owner = l'.owner
  held : ∀ (slot : LeaseSlot) (resource owner : String) (now : Utc) (ttl : Duration) (lease : Lease),
    store.slots[resource]? = some slot → slot.released = false → now < slot.lease.expiresAt →
      slot.lease.owner ≠ owner → (store.acquire now resource owner ttl).1 ≠ .ok (some lease)
  /-- A lease that another grant of its resource followed can be neither renewed nor released. -/
  stale : ∀ (earlier between later : List Event) (first second : Event) (older newer lease : Lease),
    history = earlier ++ first :: between ++ second :: later → first.granted = some older →
      second.granted = some newer → older.resource = newer.resource →
      lease.resource = older.resource → lease.epoch = older.epoch →
      (∀ now ttl, ∃ error, store.renew now lease ttl = (.error error, store)) ∧
        store.release lease = store

theorem epochsOf_pair (earlier between later : List Event) {first second : Event} {older newer : Lease}
    (h₁ : first.granted = some older) (h₂ : second.granted = some newer)
    (hr : older.resource = newer.resource) : ∃ pre mid post,
    epochsOf newer.resource (earlier ++ first :: between ++ second :: later) =
      pre ++ older.epoch :: mid ++ newer.epoch :: post := by
  refine ⟨epochsOf newer.resource earlier, epochsOf newer.resource between,
    epochsOf newer.resource later, ?_⟩
  simp [epochsOf, h₁, h₂, hr]

/-- One owner, then another after the first one's lease expired. -/
def handOver : List Event := [
  { now := 0, call := .acquire "scheduler" "w1" 10
    answer := .acquired (.ok (some { resource := "scheduler", owner := "w1", epoch := 1, expiresAt := 10 })) },
  { now := 20, call := .acquire "scheduler" "w2" 10
    answer := .acquired (.ok (some { resource := "scheduler", owner := "w2", epoch := 2, expiresAt := 30 })) }]

end LeaseStore

end Adk
