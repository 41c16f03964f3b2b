import AdkRust.Team.Receipts

/-!
# An invocation has one budget and one receipt

Streams of any invocations interleave, one lock at a time.

* `OneBudget`: streams alive together share a tracker, the limits on edges hold, and no receipt in use is evicted.
* `Truthful`: the edges of a receipt that run are those that were granted and not finished.
* `oneReceipt_careful`: **every run of careful steps has one budget, and truthful receipts within limits**.
* `not_oneReceipt`: not every run.
-/

namespace Adk

namespace Team

variable {budget : TeamBudget} {w w' : TeamWorld} {s : TeamStream}

/-! ## Every run -/

theorem SameReceipts.unknown (hsame : SameReceipts w w') (id : String) (hid : w'.invocations[id]? = none)
    (hgone : ∀ gone ∈ w'.evicted, gone.1 ≠ id) : w.Unknown id :=
  ⟨hsame.invocations ▸ hid, hsame.evicted ▸ hgone⟩

theorem SameReceipts.receipt (hsame : SameReceipts w w') {id : String} {l : TeamInvocation}
    (h : w'.Receipt id l) : w.Receipt id l := by
  obtain ⟨ledger, hid, hl⟩ := h
  exact ⟨ledger, hsame.invocations ▸ hid, hsame.ledgers ▸ hl⟩

theorem Counted.congr (h : Counted budget w) (hsame : SameReceipts w w') : Counted budget w' :=
  h.of_same hsame.granted hsame.unknown fun _ l hrec => .inl ⟨l, hsame.receipt hrec, fun _ => rfl⟩

theorem Receipts.congr (h : Receipts w) (hsame : SameReceipts w w') : Receipts w' :=
  h.of_same hsame.granted hsame.ended hsame.unknown fun _ l hrec => .inl ⟨l, hsame.receipt hrec, rfl⟩

theorem sameReceipts_step {move : TeamMove} (hmove : ∀ i exceeded, move ≠ .lock i exceeded)
    (hstep : w.step budget move = some w') : SameReceipts w w' := by
  cases move with
  | start invocation =>
    obtain rfl := Option.some.inj hstep
    exact ⟨rfl, rfl, rfl, rfl, rfl⟩
  | call i call =>
    dsimp only [TeamWorld.step] at hstep
    split at hstep
    next =>
      obtain rfl := Option.some.inj hstep
      exact sameReceipts_stands ..
    next => cases hstep
  | enter i =>
    dsimp only [TeamWorld.step] at hstep
    split at hstep
    next =>
      obtain rfl := Option.some.inj hstep
      exact sameReceipts_stands ..
    next => cases hstep
  | abandon i =>
    dsimp only [TeamWorld.step] at hstep
    split at hstep
    next =>
      obtain rfl := Option.some.inj hstep
      exact sameReceipts_stands ..
    next => cases hstep
  | leave i =>
    dsimp only [TeamWorld.step] at hstep
    split at hstep
    next =>
      obtain rfl := Option.some.inj hstep
      exact sameReceipts_stands ..
    next => cases hstep
  | lock i exceeded => exact absurd rfl (hmove i exceeded)
  | meter tracker usage =>
    obtain rfl := Option.some.inj hstep
    exact ⟨rfl, rfl, rfl, rfl, rfl⟩

/-- The worlds that moves lead to, where each of them meets a condition. -/
inductive Reaches (budget : TeamBudget) (acts : TeamWorld → TeamMove → Prop) : TeamWorld → Prop where
  | start : Reaches budget acts {}
  | step {w w' : TeamWorld} {move : TeamMove} (h : Reaches budget acts w) (hacts : acts w move)
      (hstep : w.step budget move = some w') : Reaches budget acts w'

variable {acts : TeamWorld → TeamMove → Prop}

theorem Reaches.next (h : Reaches budget acts w) (move : TeamMove) (hacts : acts w move)
    (hstep : w.step budget move = some w') : Reaches budget acts w' :=
  .step h hacts hstep

theorem Reaches.bound (h : Reaches budget acts w) (hcare : ∀ w move, acts w move → Careful w move) :
    Bound w ∧ Counted budget w := by
  induction h with
  | start => exact ⟨bound_start, counted_start⟩
  | @step w w' move hreas hacts hstep ih =>
    obtain ⟨hbd, hcntd⟩ := ih
    refine ⟨hbd.step (hcare w move hacts) hstep, ?_⟩
    by_cases hmove : ∃ i exceeded, move = .lock i exceeded
    · obtain ⟨i, exceeded, rfl⟩ := hmove
      obtain ⟨s, hi, hadvance⟩ := Option.bind_eq_some_iff.mp hstep
      exact hcntd.effect hbd (List.mem_of_getElem? hi) (effect_advance hadvance)
    · exact hcntd.congr (sameReceipts_step (fun i exceeded heq => hmove ⟨i, exceeded, heq⟩) hstep)

theorem Reaches.receipts (h : Reaches budget acts w) (hcare : ∀ w move, acts w move → Careful w move)
    (hlimits : ∀ w move, acts w move → WithinLimits budget w move) : Receipts w := by
  induction h with
  | start => exact receipts_start
  | @step w w' move hreas hacts hstep ih =>
    by_cases hmove : ∃ i exceeded, move = .lock i exceeded
    · obtain ⟨i, exceeded, rfl⟩ := hmove
      obtain ⟨s, hi, hadvance⟩ := Option.bind_eq_some_iff.mp hstep
      exact ih.effect (hreas.bound hcare).1 (List.mem_of_getElem? hi) (effect_advance hadvance)
        (hlimits w _ hacts s hi)
    · exact ih.congr (sameReceipts_step (fun i exceeded heq => hmove ⟨i, exceeded, heq⟩) hstep)

/-- **A team invocation has one budget.** -/
structure OneBudget (budget : TeamBudget) (w : TeamWorld) : Prop where
  /-- Streams of one invocation that are alive at the same time hold the same tracker. -/
  shared : ∀ s ∈ w.streams, ∀ s' ∈ w.streams, s.stand.live = true → s'.stand.live = true →
    s.invocation = s'.invocation → ∃ tracker, s.stand.holds = some tracker ∧ s'.stand.holds = some tracker
  checked : ∀ s ∈ w.streams, ∀ s' ∈ w.streams, s.stand.live = true → s.invocation = s'.invocation →
    ∀ tracker entered call ledger checks, s'.stand = .tracked tracker entered call ledger checks →
      checks = s.stand.holds
  limited : ∀ id kind max, budget.maxEdges kind = some max → w.grants id kind ≤ max
  evicted : ∀ gone ∈ w.evicted, (∀ s ∈ w.streams, s.invocation = gone.1 → s.stand.live = false) ∧
    ∀ l, w.ledgers[gone.2]? = some l → l.snapshot.hasRunningEdges = false

/-- **The receipts are truthful**: the edges that run are those that were granted and not finished, and so is a handoff
that is to be resumed. -/
structure Truthful (w : TeamWorld) : Prop where
  running : ∀ (id : String) (ledger : Nat) (l : TeamInvocation), w.invocations[id]? = some ledger →
    w.ledgers[ledger]? = some l → ∀ edge ∈ l.snapshot.edges, edge.status = .running ↔ w.Open id edge
  resumed : ∀ (id : String) (ledger : Nat) (l : TeamInvocation), w.invocations[id]? = some ledger →
    w.ledgers[ledger]? = some l → ∀ target, l.snapshot.resumeHandoffTarget = .ok (some target) →
    ∃ edge ∈ l.snapshot.edges, edge.kind = .handoff ∧ edge.to_ = target ∧ w.Open id edge

theorem of_resumeHandoffTarget {snapshot : TeamExecutionSnapshot} {target : String}
    (h : snapshot.resumeHandoffTarget = .ok (some target)) :
    ∃ edge ∈ snapshot.edges, edge.kind = .handoff ∧ edge.to_ = target ∧ edge.status = .running := by
  unfold TeamExecutionSnapshot.resumeHandoffTarget at h
  split at h
  next => cases h
  next active hact =>
    have hmem := List.mem_of_find?_eq_some hact
    have hrun := List.find?_some hact
    split at h
    next hkind =>
      cases h
      exact ⟨active, List.mem_reverse.mp hmem, hkind, rfl, of_decide_eq_true hrun⟩
    next => cases h

/-- **Every run of careful steps has one budget for an invocation, and truthful receipts where its edges are within the
limits.** -/
theorem oneReceipt_careful (h : Reaches budget acts w) (hcareful : ∀ w move, acts w move → Careful w move) :
    OneBudget budget w ∧ ((∀ w move, acts w move → WithinLimits budget w move) → Truthful w) := by
  obtain ⟨hbound, hcounted⟩ := h.bound hcareful
  refine ⟨⟨fun s hs s' hs' hlive hlive' hsame => ?_, fun s hs s' hs' hlive hsame tracker entered call ledger checks hstand =>
    ?_, hcounted.within, fun gone hgone => ⟨fun s hs hid => ?_, fun l hl => ?_⟩⟩, fun hlimits => ?_⟩
  · obtain ⟨tracker, hholds⟩ := Stand.holds_of_live hlive
    obtain ⟨tracker', hholds'⟩ := Stand.holds_of_live hlive'
    obtain ⟨ledger, l, hid, hl, htracker⟩ := (hbound.fits s hs).holds tracker hholds
    obtain ⟨ledger', l', hid', hl', htracker'⟩ := (hbound.fits s' hs').holds tracker' hholds'
    rw [hsame] at hid
    obtain rfl := Option.some.inj (hid.symm.trans hid')
    obtain rfl := Option.some.inj (hl.symm.trans hl')
    obtain rfl := Option.some.inj (htracker.symm.trans htracker')
    exact ⟨tracker, hholds, hholds'⟩
  · obtain ⟨own, hholds⟩ := Stand.holds_of_live hlive
    obtain ⟨ledger', l, hid, hl, htracker⟩ := (hbound.fits s hs).holds own hholds
    have hconsistent := (hbound.fits s' hs').consistent
    obtain ⟨other, l', hid', hl', htracker'⟩ := (hbound.fits s' hs').holds tracker (by rw [hstand]; rfl)
    rw [hsame] at hid
    obtain rfl := Option.some.inj (hid.symm.trans hid')
    obtain rfl := Option.some.inj (hl.symm.trans hl')
    rw [hstand] at hconsistent
    rw [hholds, ← htracker, htracker']
    exact hconsistent
  · rw [← Bool.not_eq_true]
    exact fun hlive => hbound.present hs (Stand.underWay_of_live hlive) gone hgone hid.symm
  · obtain ⟨-, found, hfound, -, hquiet⟩ := hbound.gone gone hgone
    obtain rfl := Option.some.inj (hfound.symm.trans hl)
    exact hquiet
  · have hreceipts := h.receipts hcareful hlimits
    refine ⟨hreceipts.running, fun id ledger l hid hl target htarget => ?_⟩
    obtain ⟨edge, hedge, hkind, hto, hstatus⟩ := of_resumeHandoffTarget htarget
    exact ⟨edge, hedge, hkind, hto, (hreceipts.running id ledger l hid hl edge hedge).mp hstatus⟩

/-! ## A handoff -/

def handoff : TeamEdgeStart where
  executionId := "edge-1"
  from_ := "root"
  to_ := "specialist"
  kind := .handoff

/-- A stand at which every step is careful and within limits. -/
def Stand.plain : Stand → Bool
  | .taking _ | .evicting | .found (.push _ _ _) _ => false
  | _ => true

/-- What the steps of a careful run within limits meet. -/
def Kept (budget : TeamBudget) (w : TeamWorld) (move : TeamMove) : Prop := Careful w move ∧ WithinLimits budget w move

theorem kept_lock {exceeded : Option String} (hi : w.streams[i]? = some s) (hpln : s.stand.plain = true) :
    Kept budget w (.lock i exceeded) := by
  refine ⟨fun s' hs' => ⟨fun ledger hstd => ?_, fun hstd => ?_⟩, fun s' hs' tracker entered start ledger l hstd => ?_⟩
  · obtain rfl := Option.some.inj (hi.symm.trans hs')
    rw [hstd] at hpln
    cases hpln
  · obtain rfl := Option.some.inj (hi.symm.trans hs')
    rw [hstd] at hpln
    cases hpln
  · obtain rfl := Option.some.inj (hi.symm.trans hs')
    rw [hstd] at hpln
    cases hpln

/-- A stream starts, and its handoff is granted. -/
theorem oneReceipt_handoff : ∃ w : TeamWorld, Reaches { maxHandoffs := some 1 } (Kept { maxHandoffs := some 1 }) w ∧
    (OneBudget { maxHandoffs := some 1 } w ∧ Truthful w) ∧ w.grants "run" .handoff = 1 := by
  have hstarted : Reaches { maxHandoffs := some 1 } (Kept { maxHandoffs := some 1 }) _ :=
    Reaches.start.next (.start "run") ⟨fun _ h => (by cases h), trivial⟩ rfl
  have hinsert := hstarted.next (.lock 0 none) (kept_lock rfl rfl) rfl
  have hfound := hinsert.next (.lock 0 none) (kept_lock rfl rfl) rfl
  have hgiven := hfound.next (.lock 0 none) (kept_lock rfl rfl) rfl
  have henter := hgiven.next (.enter 0) ⟨trivial, trivial⟩ rfl
  have hlooked := henter.next (.lock 0 none) (kept_lock rfl rfl) rfl
  have hentered := hlooked.next (.lock 0 none) (kept_lock rfl rfl) rfl
  have hcalled := hentered.next (.call 0 (.startEdge handoff)) ⟨trivial, trivial⟩ rfl
  have hasked := hcalled.next (.lock 0 none) (kept_lock rfl rfl) rfl
  have htracked := hasked.next (.lock 0 none) (kept_lock rfl rfl) rfl
  have hchecked := htracked.next (.lock 0 none) (kept_lock rfl rfl) rfl
  have hpushes := hchecked.next (.lock 0 none) (kept_lock rfl rfl) rfl
  have hgranted := hpushes.next (.lock 0 none) (by
    refine ⟨fun s hs => ?_, fun s hs tracker entered start ledger l hstand hl => ?_⟩
    · obtain rfl := Option.some.inj hs
      exact ⟨fun _ hstand => (by cases hstand), fun hstand => (by cases hstand)⟩
    · obtain rfl := Option.some.inj hs
      injection hstand with hcall hledger
      injection hcall with _ _ hstart
      subst hstart hledger
      obtain rfl := Option.some.inj hl
      exact ⟨by decide, by decide⟩) rfl
  have hone := oneReceipt_careful hgranted fun _ _ hkept => hkept.1
  exact ⟨_, hgranted, ⟨hone.1, hone.2 fun _ _ hkept => hkept.2⟩, by decide +kernel⟩

/-- A handoff that is refused runs in the receipt. -/
theorem not_oneReceipt : ¬ ∀ budget w, Reaches budget (fun _ _ => True) w → OneBudget budget w ∧ Truthful w := by
  intro h
  have hstarted : Reaches { maxHandoffs := some 0 } (fun _ _ => True) _ := Reaches.start.next (.start "run") trivial rfl
  have hinsert := hstarted.next (.lock 0 none) trivial rfl
  have hfound := hinsert.next (.lock 0 none) trivial rfl
  have hgiven := hfound.next (.lock 0 none) trivial rfl
  have henter := hgiven.next (.enter 0) trivial rfl
  have hlooked := henter.next (.lock 0 none) trivial rfl
  have hentered := hlooked.next (.lock 0 none) trivial rfl
  have hcalled := hentered.next (.call 0 (.startEdge handoff)) trivial rfl
  have hasked := hcalled.next (.lock 0 none) trivial rfl
  have htracked := hasked.next (.lock 0 none) trivial rfl
  have hchecked := htracked.next (.lock 0 none) trivial rfl
  have hpushes := hchecked.next (.lock 0 none) trivial rfl
  have hrefused := hpushes.next (.lock 0 none) trivial rfl
  obtain ⟨hgranted, -⟩ := ((h _ _ hrefused).2.running "run" 0 _ rfl rfl _ List.mem_cons_self).mp rfl
  exact absurd hgranted (by decide +kernel)

end Team

end Adk
