import AdkRust.Team.Trackers

/-!
# What a receipt says

A lock that a stream takes makes a receipt, pushes an edge, finishes one, evicts a receipt, or leaves the edges of all
receipts.

* `effect_advance`: **what taking a lock does to the receipts**.
* `Counted`: the invariant of the limits on edges. Refused edges are counted too.
* `Receipts`: the invariant of the edges that run, where edges are within the limits (`WithinLimits`).
-/

namespace Adk

namespace Team

variable {budget : TeamBudget} {w w' : TeamWorld} {i : Nat} {s : TeamStream} {id : String} {ledger : Nat}
  {l l' : TeamInvocation}

/-! ## What a step does to receipts -/

structure SameReceipts (w w' : TeamWorld) : Prop where
  invocations : w'.invocations = w.invocations
  ledgers : w'.ledgers = w.ledgers
  granted : w'.granted = w.granted
  ended : w'.ended = w.ended
  evicted : w'.evicted = w.evicted

theorem sameReceipts_stands (w : TeamWorld) (i : Nat) (s : TeamStream) (stand : Stand) :
    SameReceipts w (w.stands i s stand) := ⟨rfl, rfl, rfl, rfl, rfl⟩

/-- Two states of a ledger with the same edges, as many of which were started. -/
structure SameEdges (l l' : TeamInvocation) : Prop where
  edges : l'.snapshot.edges = l.snapshot.edges
  started : ∀ kind, l'.snapshot.usage.started kind = l.snapshot.usage.started kind

theorem SameEdges.refl (l : TeamInvocation) : SameEdges l l := ⟨rfl, fun _ => rfl⟩

/-- What a step of a stream does to the receipts. -/
inductive Effect (budget : TeamBudget) (w : TeamWorld) (s : TeamStream) (w' : TeamWorld) : Prop where
  | kept (hinvocations : w'.invocations = w.invocations) (hgranted : w'.granted = w.granted) (hended : w'.ended = w.ended)
      (hevicted : w'.evicted = w.evicted) (hledgers : ∀ (ledger : Nat) (l' : TeamInvocation),
        w'.ledgers[ledger]? = some l' → ∃ l, w.ledgers[ledger]? = some l ∧ SameEdges l l')
  | made (call : LedgerCall) (hstand : s.stand = .insert call) (hnone : w.invocations[s.invocation]? = none)
      (hsame : SameReceipts (w.make s.invocation) w')
  | pushed (tracker : Nat) (entered : Bool) (start : TeamEdgeStart) (ledger : Nat) (l : TeamInvocation)
      (hstand : s.stand = .found (.push tracker entered start) ledger) (hl : w.ledgers[ledger]? = some l)
      (hsame : SameReceipts (w.pushEdge budget s ledger l start) w')
  | finished (tracker : Nat) (entered : Bool) (id : String) (error : Option String) (ledger : Nat) (l : TeamInvocation)
      (hstand : s.stand = .found (.use tracker entered (.finishEdge id error)) ledger) (hl : w.ledgers[ledger]? = some l)
      (hsame : SameReceipts (w.finishEdge s ledger l id error) w')
  | evicted (id : String) (ledger : Nat) (hidle : w.idleLedger id = some ledger)
      (hinvocations : w'.invocations = w.invocations.erase id) (hledgers : w'.ledgers = w.ledgers)
      (hgranted : w'.granted = w.granted) (hended : w'.ended = w.ended)
      (hevicted : w'.evicted = w.evicted ++ [(id, ledger)])

theorem Effect.same (h : SameReceipts w w') : Effect budget w s w' :=
  .kept h.invocations h.granted h.ended h.evicted fun ledger l' hl' => ⟨l', by rw [← h.ledgers, hl'], .refl l'⟩

theorem Effect.put (hl : w.ledgers[ledger]? = some l) (hsame : SameReceipts (w.put ledger l') w')
    (hedgs : SameEdges l l') : Effect budget w s w' := by
  refine .kept hsame.invocations hsame.granted hsame.ended hsame.evicted fun other found hfnd => ?_
  rw [hsame.ledgers] at hfnd
  by_cases hoth : other = ledger
  · subst hoth
    have hself : (w.ledgers.set other l')[other]? = some l' :=
      List.getElem?_set_self (List.getElem?_eq_some_iff.mp hl).1
    obtain rfl := Option.some.inj (hself.symm.trans hfnd)
    exact ⟨l, hl, hedgs⟩
  · have hne : (w.ledgers.set ledger l')[other]? = w.ledgers[other]? := List.getElem?_set_ne (Ne.symm hoth)
    exact ⟨found, hne.symm.trans hfnd, .refl found⟩

theorem sameEdges_synced (w : TeamWorld) (l : TeamInvocation) (tracker : Option Nat) :
    SameEdges l { l with snapshot := w.synced l tracker } := by
  refine ⟨edges_synced w l tracker, fun kind => ?_⟩
  dsimp only
  unfold TeamWorld.synced
  cases w.usageOf tracker with
  | none => rfl
  | some usage => cases kind <;> rfl

theorem sameEdges_check {snapshot : TeamExecutionSnapshot} {exceeded : Option String}
    (h : SameEdges l { l with snapshot }) : SameEdges l { l with snapshot := (snapshot.check budget exceeded).2 } := by
  unfold TeamExecutionSnapshot.check
  split
  next => exact ⟨h.edges, h.started⟩
  next => exact h

theorem sameEdges_recordEvent {snapshot : TeamExecutionSnapshot} {event : TeamEvent} {exceeded : Option String}
    (h : SameEdges l { l with snapshot }) :
    SameEdges l { l with snapshot := ((snapshot.countEvent event).recordEvent budget event exceeded).2 } := by
  have hcnt : SameEdges l { l with snapshot := snapshot.countEvent event } := by
    unfold TeamExecutionSnapshot.countEvent
    split
    next => exact h
    next =>
      refine ⟨h.edges, fun kind => (h.started kind).symm.trans ?_ |>.symm⟩
      cases kind <;> rfl
  unfold TeamExecutionSnapshot.recordEvent
  split
  next => exact ⟨hcnt.edges, hcnt.started⟩
  next =>
    split
    next => exact ⟨hcnt.edges, hcnt.started⟩
    next =>
      dsimp only
      split
      next => exact ⟨hcnt.edges, hcnt.started⟩
      next => exact hcnt

/-- **What taking a lock does to the receipts.** -/
theorem effect_advance {exceeded : Option String} (hstep : w.advance budget i s exceeded = some w') :
    Effect budget w s w' := by
  unfold TeamWorld.advance at hstep
  cases hstd : s.stand with
  | lookup call =>
    rw [hstd] at hstep
    dsimp only at hstep
    split at hstep
    next =>
      obtain rfl := Option.some.inj hstep
      exact .same (sameReceipts_stands ..)
    next =>
      split at hstep
      next =>
        obtain rfl := Option.some.inj hstep
        exact .same (sameReceipts_stands ..)
      next =>
        obtain rfl := Option.some.inj hstep
        exact .same (sameReceipts_stands ..)
  | insert call =>
    rw [hstd] at hstep
    dsimp only at hstep
    split at hstep
    next =>
      obtain rfl := Option.some.inj hstep
      exact .same (sameReceipts_stands ..)
    next hnone =>
      obtain rfl := Option.some.inj hstep
      exact .made call hstd hnone (sameReceipts_stands ..)
  | found call ledger =>
    rw [hstd] at hstep
    obtain ⟨l, hl, rfl⟩ := Option.map_eq_some_iff.mp hstep
    obtain ⟨trackers, hspec, -⟩ := trackerFor_spec hl
    have htrack : ∀ stand', Effect budget w s ((w.trackerFor ledger l).2.stands i s stand') := by
      intro stand'
      rw [hspec]
      exact .put hl ⟨rfl, rfl, rfl, rfl, rfl⟩ ⟨rfl, fun _ => rfl⟩
    cases call with
    | budgetTracker => exact htrack _
    | enter tracker => exact .put hl (sameReceipts_stands ..) ⟨rfl, fun _ => rfl⟩
    | push tracker entered start => exact .pushed tracker entered start ledger l hstd hl (sameReceipts_stands ..)
    | use tracker entered call =>
      cases call with
      | checkBudget => exact htrack _
      | startEdge start => exact htrack _
      | recordEvent event => exact htrack _
      | finishEdge id error => exact .finished tracker entered id error ledger l hstd hl (sameReceipts_stands ..)
      | snapshot => exact .same (sameReceipts_stands ..)
  | tracked tracker entered call ledger checks =>
    rw [hstd] at hstep
    obtain ⟨l, hl, rfl⟩ := Option.map_eq_some_iff.mp hstep
    have hsynced := sameEdges_synced w l checks
    have hchk : SameEdges l { l with snapshot := ((w.synced l checks).check budget exceeded).2 } :=
      sameEdges_check hsynced
    cases call with
    | checkBudget => exact .put hl (sameReceipts_stands ..) hchk
    | startEdge start =>
      dsimp only [TeamWorld.withReceipt]
      split
      next snapshot hcheck =>
        rw [hcheck] at hchk
        exact .put hl (sameReceipts_stands ..) hchk
      next reason snapshot hcheck =>
        rw [hcheck] at hchk
        exact .put hl (sameReceipts_stands ..) hchk
    | recordEvent event => exact .put hl (sameReceipts_stands ..) (sameEdges_recordEvent hsynced)
    | finishEdge id error => exact .put hl (sameReceipts_stands ..) hsynced
    | snapshot => exact .put hl (sameReceipts_stands ..) hsynced
  | leaving tracker =>
    rw [hstd] at hstep
    dsimp only at hstep
    split at hstep
    next =>
      obtain rfl := Option.some.inj hstep
      exact .same (sameReceipts_stands ..)
    next =>
      obtain rfl := Option.some.inj hstep
      exact .same (sameReceipts_stands ..)
  | exiting tracker ledger =>
    rw [hstd] at hstep
    obtain ⟨l, hl, rfl⟩ := Option.map_eq_some_iff.mp hstep
    exact .put hl (sameReceipts_stands ..) ⟨rfl, fun _ => rfl⟩
  | reading ledger =>
    rw [hstd] at hstep
    obtain ⟨l, hl, rfl⟩ := Option.map_eq_some_iff.mp hstep
    exact .same (sameReceipts_stands ..)
  | syncing ledger tracker =>
    rw [hstd] at hstep
    obtain ⟨l, hl, rfl⟩ := Option.map_eq_some_iff.mp hstep
    exact .put hl (sameReceipts_stands ..) (sameEdges_synced w l tracker)
  | taking ledger =>
    rw [hstd] at hstep
    obtain ⟨l, hl, rfl⟩ := Option.map_eq_some_iff.mp hstep
    exact .put hl (sameReceipts_stands ..) ⟨rfl, fun _ => rfl⟩
  | retiring =>
    rw [hstd] at hstep
    dsimp only at hstep
    split at hstep
    next => cases hstep
    next =>
      obtain rfl := Option.some.inj hstep
      exact .same ⟨rfl, rfl, rfl, rfl, rfl⟩
  | evicting =>
    rw [hstd] at hstep
    dsimp only at hstep
    split at hstep
    next id rest hfin =>
      split at hstep
      next =>
        obtain rfl := Option.some.inj hstep
        unfold TeamWorld.evict
        split
        next ledger hidle => exact .evicted id ledger hidle rfl rfl rfl rfl rfl
        next => exact .same ⟨rfl, rfl, rfl, rfl, rfl⟩
      next =>
        obtain rfl := Option.some.inj hstep
        exact .same ⟨rfl, rfl, rfl, rfl, rfl⟩
    next =>
      obtain rfl := Option.some.inj hstep
      exact .same ⟨rfl, rfl, rfl, rfl, rfl⟩
  | resting tracker entered =>
    rw [hstd] at hstep
    cases hstep
  | finished =>
    rw [hstd] at hstep
    cases hstep

def TeamWorld.Receipt (w : TeamWorld) (id : String) (l : TeamInvocation) : Prop :=
  ∃ ledger, w.invocations[id]? = some ledger ∧ w.ledgers[ledger]? = some l

/-- An invocation without a receipt, now and before. -/
def TeamWorld.Unknown (w : TeamWorld) (id : String) : Prop :=
  w.invocations[id]? = none ∧ ∀ gone ∈ w.evicted, gone.1 ≠ id

variable {other : String} {found : TeamInvocation}

theorem Bound.ledger_ne {ledger' : Nat} (h : Bound w) (hid : w.invocations[id]? = some ledger)
    (hid' : w.invocations[other]? = some ledger') (hne : other ≠ id) : ledger' ≠ ledger := by
  rintro rfl
  obtain ⟨own, hown, howr⟩ := h.owner id ledger' hid
  obtain ⟨own', hown', howr'⟩ := h.owner other ledger' hid'
  obtain rfl := Option.some.inj (hown.symm.trans hown')
  exact hne (howr'.symm.trans howr)

theorem Bound.receipt_set (h : Bound w) (hmap : w.invocations[id]? = some ledger) (hl : w.ledgers[ledger]? = some l)
    (hinv : w'.invocations = w.invocations) (hleds : w'.ledgers = w.ledgers.set ledger l')
    (hrec : w'.Receipt other found) : (other = id ∧ found = l') ∨ (other ≠ id ∧ w.Receipt other found) := by
  obtain ⟨place, hid, hfnd⟩ := hrec
  rw [hinv] at hid
  by_cases hself : other = id
  · subst hself
    obtain rfl := Option.some.inj (hmap.symm.trans hid)
    rw [hleds, List.getElem?_set_self (List.getElem?_eq_some_iff.mp hl).1] at hfnd
    exact .inl ⟨rfl, (Option.some.inj hfnd).symm⟩
  · rw [hleds, List.getElem?_set_ne (Ne.symm (h.ledger_ne hmap hid hself))] at hfnd
    exact .inr ⟨hself, place, hid, hfnd⟩

theorem Bound.receipt_make (h : Bound w) (hsame : SameReceipts (w.make id) w') (hrec : w'.Receipt other found) :
    (other = id ∧ found = { invocationId := id }) ∨ (other ≠ id ∧ w.Receipt other found) := by
  have hinv : w'.invocations = w.invocations.insert id w.ledgers.length := hsame.invocations
  have hleds : w'.ledgers = w.ledgers ++ [{ invocationId := id }] := hsame.ledgers
  obtain ⟨place, hid, hfnd⟩ := hrec
  by_cases hself : other = id
  · subst hself
    rw [hinv, Std.ExtTreeMap.getElem?_insert_self] at hid
    obtain rfl := Option.some.inj hid
    rw [hleds, List.getElem?_append_right (Nat.le_refl _), Nat.sub_self] at hfnd
    exact .inl ⟨rfl, (Option.some.inj hfnd).symm⟩
  · rw [hinv, Dict.getElem?_insert_of_ne hself] at hid
    obtain ⟨l, hl, -⟩ := h.owner other place hid
    rw [hleds, List.getElem?_append_left (List.getElem?_eq_some_iff.mp hl).1] at hfnd
    exact .inr ⟨hself, place, hid, hfnd⟩

theorem receipt_erase (hinv : w'.invocations = w.invocations.erase id) (hleds : w'.ledgers = w.ledgers)
    (hrec : w'.Receipt other found) : other ≠ id ∧ w.Receipt other found := by
  obtain ⟨place, hid, hfnd⟩ := hrec
  have hne : other ≠ id := by
    rintro rfl
    rw [hinv, Std.ExtTreeMap.getElem?_erase_self] at hid
    cases hid
  rw [hinv, Dict.getElem?_erase_of_ne hne] at hid
  exact ⟨hne, place, hid, hleds ▸ hfnd⟩

theorem Effect.unknown (heff : Effect budget w s w') (id : String) (hid : w'.invocations[id]? = none)
    (hgone : ∀ gone ∈ w'.evicted, gone.1 ≠ id) : w.Unknown id := by
  cases heff with
  | kept hinv _ _ hevict => exact ⟨hinv ▸ hid, hevict ▸ hgone⟩
  | made call hstd hnone hsame =>
    have hinv : w'.invocations = w.invocations.insert s.invocation w.ledgers.length := hsame.invocations
    have hevict : w'.evicted = w.evicted := hsame.evicted
    by_cases hself : id = s.invocation
    · rw [hinv, hself, Std.ExtTreeMap.getElem?_insert_self] at hid
      cases hid
    · rw [hinv, Dict.getElem?_insert_of_ne hself] at hid
      exact ⟨hid, hevict ▸ hgone⟩
  | pushed tracker entered start ledger l hstd hl hsame =>
    obtain ⟨hinv, -, -, -, hevict⟩ := hsame
    exact ⟨hinv ▸ hid, hevict ▸ hgone⟩
  | finished tracker entered edge error ledger l hstd hl hsame =>
    obtain ⟨hinv, -, -, -, hevict⟩ := hsame
    exact ⟨hinv ▸ hid, hevict ▸ hgone⟩
  | evicted gone ledger hidle hinv hleds hgr hendd hevict =>
    have hne : id ≠ gone := fun heq => hgone (gone, ledger) (by rw [hevict]; simp) heq.symm
    rw [hinv, Dict.getElem?_erase_of_ne hne] at hid
    exact ⟨hid, fun gone hmem => hgone gone (by rw [hevict]; exact List.mem_append_left _ hmem)⟩

/-! ## How many edges are granted -/

/-- How many edges of a kind an invocation was granted. -/
def TeamWorld.grants (w : TeamWorld) (id : String) (kind : RelationshipKind) : Nat :=
  w.granted.countP fun grant => grant.invocation = id && grant.kind = kind

/-- The invariant of the limits on edges. -/
structure Counted (budget : TeamBudget) (w : TeamWorld) : Prop where
  within : ∀ id kind max, budget.maxEdges kind = some max → w.grants id kind ≤ max
  counted : ∀ (id : String) (ledger : Nat) (l : TeamInvocation), w.invocations[id]? = some ledger →
    w.ledgers[ledger]? = some l → ∀ kind, w.grants id kind ≤ l.snapshot.usage.started kind
  unknown : ∀ id, w.invocations[id]? = none → (∀ gone ∈ w.evicted, gone.1 ≠ id) → ∀ kind, w.grants id kind = 0

theorem counted_start : Counted budget {} where
  within _ _ _ _ := Nat.zero_le _
  counted _ _ _ _ _ _ := Nat.zero_le _
  unknown _ _ _ _ := rfl

theorem started_count (usage : TeamExecutionUsage) (kind other : RelationshipKind) :
    (usage.count kind).started other = usage.started other + if kind = other then 1 else 0 := by
  cases kind <;> cases other <;> rfl

theorem started_le_of_budgetViolation {usage : TeamExecutionUsage} (h : budget.budgetViolation usage = none)
    {kind : RelationshipKind} {max : Nat} (hmax : budget.maxEdges kind = some max) : usage.started kind ≤ max := by
  unfold TeamBudget.budgetViolation at h
  rw [Option.map_eq_none_iff, List.find?_eq_none] at h
  have hlim : ∀ name used, (name, used, some max) ∈ [("events", usage.events, budget.maxEvents),
      ("delegations", usage.delegations, budget.maxDelegations), ("handoffs", usage.handoffs, budget.maxHandoffs)] →
      used ≤ max := by
    intro name used hmem
    have := h _ hmem
    simpa using this
  cases kind with
  | delegate => exact hlim "delegations" _ (by rw [← hmax]; simp [TeamBudget.maxEdges, TeamExecutionUsage.started])
  | handoff => exact hlim "handoffs" _ (by rw [← hmax]; simp [TeamBudget.maxEdges, TeamExecutionUsage.started])

theorem grants_append (w : TeamWorld) (grant : Grant) (hgr : w'.granted = w.granted ++ [grant]) (id : String)
    (kind : RelationshipKind) :
    w'.grants id kind = w.grants id kind + if grant.invocation = id ∧ grant.kind = kind then 1 else 0 := by
  unfold TeamWorld.grants
  rw [hgr, List.countP_append, List.countP_singleton]
  congr 1
  by_cases h : grant.invocation = id ∧ grant.kind = kind
  · simp [h]
  · simp only [not_and] at h
    by_cases hid : grant.invocation = id
    · simp [hid, h hid]
    · simp [hid]

theorem grants_congr (hgr : w'.granted = w.granted) (id : String) (kind : RelationshipKind) :
    w'.grants id kind = w.grants id kind := by
  unfold TeamWorld.grants
  rw [hgr]

theorem Counted.of_same (h : Counted budget w) (hgr : w'.granted = w.granted)
    (hunk : ∀ id, w'.invocations[id]? = none → (∀ gone ∈ w'.evicted, gone.1 ≠ id) → w.Unknown id)
    (hreceipts : ∀ id l', w'.Receipt id l' → (∃ l, w.Receipt id l ∧
      ∀ kind, l'.snapshot.usage.started kind = l.snapshot.usage.started kind) ∨ w.Unknown id) : Counted budget w' := by
  have hgrs := grants_congr hgr
  refine ⟨fun id kind max hmax => ?_, fun id ledger l' hid hl' kind => ?_, fun id hid hgone kind => ?_⟩
  · rw [hgrs]
    exact h.within id kind max hmax
  · rw [hgrs]
    rcases hreceipts id l' ⟨ledger, hid, hl'⟩ with ⟨l, ⟨before, hbef, hl⟩, hstrd⟩ | ⟨hnone, hgone⟩
    · rw [hstrd]
      exact h.counted id before l hbef hl kind
    · rw [h.unknown id hnone hgone kind]
      exact Nat.zero_le _
  · rw [hgrs]
    obtain ⟨hnone, hgone⟩ := hunk id hid hgone
    exact h.unknown id hnone hgone kind

/-- A step keeps the limits on edges. -/
theorem Counted.effect (h : Counted budget w) (hbd : Bound w) (hs : s ∈ w.streams) (heff : Effect budget w s w') :
    Counted budget w' := by
  have hunk := heff.unknown
  cases heff with
  | kept hinv hgr hendd hevict hleds =>
    refine h.of_same hgr hunk fun id l' ⟨ledger, hid, hl'⟩ => .inl ?_
    obtain ⟨l, hl, hedgs⟩ := hleds ledger l' hl'
    exact ⟨l, ⟨ledger, hinv ▸ hid, hl⟩, hedgs.started⟩
  | made call hstd hnone hsame =>
    refine h.of_same hsame.granted hunk fun id l' hrec => ?_
    rcases hbd.receipt_make hsame hrec with ⟨rfl, -⟩ | ⟨-, hrec⟩
    · -- The stream is under way, so the receipt was not evicted and the invocation is new.
      exact .inr ⟨hnone, hbd.present hs (by rw [hstd]; rfl)⟩
    · exact .inl ⟨l', hrec, fun _ => rfl⟩
  | pushed tracker entered start ledger l hstd hl hsame =>
    obtain ⟨hmap, -⟩ := hbd.engaged hs (by rw [hstd]; rfl)
    have hinv : w'.invocations = w.invocations := hsame.invocations
    have hleds : w'.ledgers = w.ledgers.set ledger { l with snapshot := (l.snapshot.startEdge budget start).2 } :=
      hsame.ledgers
    have hgr : w'.granted = if (l.snapshot.startEdge budget start).1.isSome then w.granted
        else w.granted ++ [⟨s.invocation, start.executionId, start.kind⟩] := hsame.granted
    have hstrd : ∀ kind, (l.snapshot.startEdge budget start).2.usage.started kind =
        l.snapshot.usage.started kind + if start.kind = kind then 1 else 0 := by
      intro kind
      have : (l.snapshot.startEdge budget start).2.usage = l.snapshot.usage.count start.kind := by
        unfold TeamExecutionSnapshot.startEdge
        split
        next => rfl
        next => rfl
      rw [this, started_count]
    -- The edge is counted in the receipt, whether it is granted or not.
    have hgrs : ∀ id kind, w'.grants id kind ≤ w.grants id kind +
        if s.invocation = id ∧ start.kind = kind then 1 else 0 := by
      intro id kind
      by_cases href : (l.snapshot.startEdge budget start).1.isSome
      · rw [if_pos href] at hgr
        rw [grants_congr hgr]
        omega
      · rw [if_neg href] at hgr
        rw [grants_append w _ hgr]
    have hcntd : ∀ (id : String) (ledger : Nat) (l : TeamInvocation), w'.invocations[id]? = some ledger →
        w'.ledgers[ledger]? = some l → ∀ kind, w'.grants id kind ≤ l.snapshot.usage.started kind := by
      intro id other l' hid hl' kind
      refine Nat.le_trans (hgrs id kind) ?_
      rcases hbd.receipt_set hmap hl hinv hleds ⟨other, hid, hl'⟩ with ⟨rfl, rfl⟩ | ⟨hne, own, hid, hl'⟩
      · have := h.counted _ ledger l hmap hl kind
        have := hstrd kind
        simp only [true_and]
        omega
      · have := h.counted id own l' hid hl' kind
        simp only [Ne.symm hne, false_and, if_false, Nat.add_zero]
        exact this
    refine ⟨fun id kind max hmax => ?_, hcntd, fun id hid hgone kind => ?_⟩
    · by_cases hself : s.invocation = id ∧ start.kind = kind
      · obtain ⟨rfl, rfl⟩ := hself
        cases hviolation : budget.budgetViolation (l.snapshot.push start).usage with
        | none =>
          -- The count with this edge is within the limit.
          have hle := started_le_of_budgetViolation hviolation hmax
          have haft := hcntd s.invocation ledger _ (by rw [hinv]; exact hmap)
            (by rw [hleds, List.getElem?_set_self (List.getElem?_eq_some_iff.mp hl).1]) start.kind
          have hsnap : (l.snapshot.startEdge budget start).2 = l.snapshot.push start := by
            unfold TeamExecutionSnapshot.startEdge
            rw [hviolation]
          rw [hsnap] at haft
          exact Nat.le_trans haft hle
        | some reason =>
          have href : (l.snapshot.startEdge budget start).1.isSome = true := by
            unfold TeamExecutionSnapshot.startEdge
            rw [hviolation]
            rfl
          rw [if_pos href] at hgr
          rw [grants_congr hgr]
          exact h.within _ _ max hmax
      · have := hgrs id kind
        rw [if_neg hself] at this
        exact Nat.le_trans this (h.within id kind max hmax)
    · obtain ⟨hnone, hgone⟩ := hunk id hid hgone
      have hne : s.invocation ≠ id := by
        rintro rfl
        rw [hmap] at hnone
        cases hnone
      have := hgrs id kind
      rw [h.unknown id hnone hgone kind, if_neg fun hself => hne hself.1] at this
      omega
  | finished tracker entered id error ledger l hstd hl hsame =>
    obtain ⟨hmap, -⟩ := hbd.engaged hs (by rw [hstd]; rfl)
    refine h.of_same hsame.granted hunk fun id' l' hrec => .inl ?_
    rcases hbd.receipt_set hmap hl hsame.invocations hsame.ledgers hrec with ⟨rfl, rfl⟩ | ⟨-, hrec⟩
    · exact ⟨l, ⟨ledger, hmap, hl⟩, fun _ => rfl⟩
    · exact ⟨l', hrec, fun _ => rfl⟩
  | evicted id ledger hidle hinv hleds hgr hendd hevict =>
    exact h.of_same hgr hunk fun id' l hrec =>
      .inl ⟨l, (receipt_erase hinv hleds hrec).2, fun _ => rfl⟩

/-! ## Which edges run -/

/-- A granted edge of an invocation that was not finished. -/
def TeamWorld.Open (w : TeamWorld) (id : String) (edge : TeamEdgeExecution) : Prop :=
  ⟨id, edge.id, edge.kind⟩ ∈ w.granted ∧ (id, edge.id) ∉ w.ended

/-- The invariant of the edges that run. -/
structure Receipts (w : TeamWorld) : Prop where
  ids : ∀ (id : String) (ledger : Nat) (l : TeamInvocation), w.invocations[id]? = some ledger →
    w.ledgers[ledger]? = some l → (l.snapshot.edges.map (·.id)).Nodup
  running : ∀ (id : String) (ledger : Nat) (l : TeamInvocation), w.invocations[id]? = some ledger →
    w.ledgers[ledger]? = some l → ∀ edge ∈ l.snapshot.edges, edge.status = .running ↔ w.Open id edge
  /-- What was granted or finished is in the receipt. -/
  known : ∀ (id : String) (ledger : Nat) (l : TeamInvocation), w.invocations[id]? = some ledger →
    w.ledgers[ledger]? = some l → ∀ edgeId, (∃ kind, ⟨id, edgeId, kind⟩ ∈ w.granted) ∨ (id, edgeId) ∈ w.ended →
    edgeId ∈ l.snapshot.edges.map (·.id)
  unknown : ∀ id, w.invocations[id]? = none → (∀ gone ∈ w.evicted, gone.1 ≠ id) →
    (∀ grant ∈ w.granted, grant.invocation ≠ id) ∧ ∀ ended ∈ w.ended, ended.1 ≠ id

def WithinLimits (budget : TeamBudget) (w : TeamWorld) : TeamMove → Prop
  | .lock i _ => ∀ s, w.streams[i]? = some s → ∀ tracker entered start ledger l,
    s.stand = .found (.push tracker entered start) ledger → w.ledgers[ledger]? = some l →
    budget.budgetViolation (l.snapshot.push start).usage = none ∧ start.executionId ∉ l.snapshot.edges.map (·.id)
  | _ => True

theorem receipts_start : Receipts {} where
  ids id ledger l h := by simp at h
  running id ledger l h := by simp at h
  known id ledger l h := by simp at h
  unknown id _ _ := ⟨fun _ h => (by cases h), fun _ h => (by cases h)⟩

theorem map_id_finishEdges (id : String) (error : Option String) (edges : List TeamEdgeExecution) :
    (TeamExecutionSnapshot.finishEdges id error edges).map (·.id) = edges.map (·.id) := by
  induction edges with
  | nil => rfl
  | cons edge edges ih =>
    unfold TeamExecutionSnapshot.finishEdges
    split
    next => rfl
    next =>
      rw [List.map_cons, List.map_cons, ih]

/-- Where ids are distinct, the edge that is finished runs no more and the others are as they were. -/
theorem of_mem_finishEdges {id : String} {error : Option String} {edges : List TeamEdgeExecution}
    (hids : (edges.map (·.id)).Nodup) {edge : TeamEdgeExecution}
    (hmem : edge ∈ TeamExecutionSnapshot.finishEdges id error edges) :
    edge.id ≠ id ∧ edge ∈ edges ∨ edge.id = id ∧ edge.status ≠ .running ∧ ∃ before ∈ edges, before.id = id := by
  induction edges with
  | nil => cases hmem
  | cons first edges ih =>
    rw [List.map_cons, List.nodup_cons] at hids
    unfold TeamExecutionSnapshot.finishEdges at hmem
    split at hmem
    next hid =>
      rcases List.mem_cons.mp hmem with rfl | hmem
      · refine .inr ⟨hid, ?_, first, List.mem_cons_self, hid⟩
        dsimp only
        split
        next => simp
        next => simp
      · refine .inl ⟨fun heq => hids.1 ?_, List.mem_cons_of_mem _ hmem⟩
        rw [hid, ← heq]
        exact List.mem_map_of_mem hmem
    next hid =>
      rcases List.mem_cons.mp hmem with rfl | hmem
      · exact .inl ⟨hid, List.mem_cons_self⟩
      · rcases ih hids.2 hmem with ⟨hne, hrest⟩ | ⟨heq, hstatus, before, hbef, hsame⟩
        · exact .inl ⟨hne, List.mem_cons_of_mem _ hrest⟩
        · exact .inr ⟨heq, hstatus, before, List.mem_cons_of_mem _ hbef, hsame⟩

/-- What holds of one receipt. -/
structure Right (w : TeamWorld) (id : String) (l : TeamInvocation) : Prop where
  ids : (l.snapshot.edges.map (·.id)).Nodup
  running : ∀ edge ∈ l.snapshot.edges, edge.status = .running ↔ w.Open id edge
  known : ∀ edgeId, (∃ kind, ⟨id, edgeId, kind⟩ ∈ w.granted) ∨ (id, edgeId) ∈ w.ended →
    edgeId ∈ l.snapshot.edges.map (·.id)

theorem Receipts.right (h : Receipts w) (hrec : w.Receipt id l) : Right w id l := by
  obtain ⟨ledger, hid, hl⟩ := hrec
  exact ⟨h.ids id ledger l hid hl, h.running id ledger l hid hl, h.known id ledger l hid hl⟩

theorem Receipts.of_right (hrt : ∀ id l, w.Receipt id l → Right w id l)
    (hunk : ∀ id, w.invocations[id]? = none → (∀ gone ∈ w.evicted, gone.1 ≠ id) →
      (∀ grant ∈ w.granted, grant.invocation ≠ id) ∧ ∀ ended ∈ w.ended, ended.1 ≠ id) : Receipts w where
  ids id ledger l hid hl := (hrt id l ⟨ledger, hid, hl⟩).ids
  running id ledger l hid hl := (hrt id l ⟨ledger, hid, hl⟩).running
  known id ledger l hid hl := (hrt id l ⟨ledger, hid, hl⟩).known
  unknown := hunk

/-- Two worlds in which the same edges of an invocation were granted and finished. -/
structure SameFor (w w' : TeamWorld) (id : String) : Prop where
  granted : ∀ edgeId kind, (⟨id, edgeId, kind⟩ : Grant) ∈ w'.granted ↔ (⟨id, edgeId, kind⟩ : Grant) ∈ w.granted
  ended : ∀ edgeId, (id, edgeId) ∈ w'.ended ↔ (id, edgeId) ∈ w.ended

theorem sameFor_of_eq (hgr : w'.granted = w.granted) (hendd : w'.ended = w.ended) : SameFor w w' id :=
  ⟨fun _ _ => by rw [hgr], fun _ => by rw [hendd]⟩

theorem Right.same (h : Right w id l) (hsame : SameFor w w' id) (hedgs : l'.snapshot.edges = l.snapshot.edges) :
    Right w' id l' := by
  refine ⟨?_, fun edge hedge => ?_, fun edgeId hkn => ?_⟩
  · rw [hedgs]
    exact h.ids
  · unfold TeamWorld.Open
    rw [hsame.granted, hsame.ended]
    exact h.running edge (hedgs ▸ hedge)
  · simp only [hsame.granted, hsame.ended] at hkn
    rw [hedgs]
    exact h.known edgeId hkn

theorem Receipts.of_same (h : Receipts w) (hgr : w'.granted = w.granted) (hendd : w'.ended = w.ended)
    (hunk : ∀ id, w'.invocations[id]? = none → (∀ gone ∈ w'.evicted, gone.1 ≠ id) → w.Unknown id)
    (hreceipts : ∀ id l', w'.Receipt id l' → (∃ l, w.Receipt id l ∧ l'.snapshot.edges = l.snapshot.edges) ∨
      (w.Unknown id ∧ l'.snapshot.edges = [])) : Receipts w' := by
  refine .of_right (fun id l' hrec => ?_) fun id hid hgone => ?_
  · rcases hreceipts id l' hrec with ⟨l, hrec, hedgs⟩ | ⟨⟨hnone, hgone⟩, hemp⟩
    · exact (h.right hrec).same (sameFor_of_eq hgr hendd) hedgs
    · obtain ⟨hnoGrant, hnoEnd⟩ := h.unknown id hnone hgone
      refine ⟨by rw [hemp]; exact List.nodup_nil, fun edge hedge => ?_, fun edgeId hkn => ?_⟩
      · rw [hemp] at hedge
        cases hedge
      · rw [hgr, hendd] at hkn
        rcases hkn with ⟨kind, hgrant⟩ | hend
        · exact absurd rfl (hnoGrant _ hgrant)
        · exact absurd rfl (hnoEnd _ hend)
  · rw [hgr, hendd]
    obtain ⟨hnone, hgone⟩ := hunk id hid hgone
    exact h.unknown id hnone hgone

/-- A step within limits keeps which edges run. -/
theorem Receipts.effect (h : Receipts w) (hbd : Bound w) (hs : s ∈ w.streams) (heff : Effect budget w s w')
    (hlimits : ∀ tracker entered start ledger l, s.stand = .found (.push tracker entered start) ledger →
      w.ledgers[ledger]? = some l → budget.budgetViolation (l.snapshot.push start).usage = none ∧
        start.executionId ∉ l.snapshot.edges.map (·.id)) : Receipts w' := by
  have hunk := heff.unknown
  cases heff with
  | kept hinv hgr hendd hevict hleds =>
    refine h.of_same hgr hendd hunk fun id l' ⟨ledger, hid, hl'⟩ => .inl ?_
    obtain ⟨l, hl, hedgs⟩ := hleds ledger l' hl'
    exact ⟨l, ⟨ledger, hinv ▸ hid, hl⟩, hedgs.edges⟩
  | made call hstd hnone hsame =>
    refine h.of_same hsame.granted hsame.ended hunk fun id l' hrec => ?_
    -- The new ledger has no edge, and the others are as they were.
    rcases hbd.receipt_make hsame hrec with ⟨rfl, rfl⟩ | ⟨-, hrec⟩
    · exact .inr ⟨⟨hnone, hbd.present hs (by rw [hstd]; rfl)⟩, rfl⟩
    · exact .inl ⟨l', hrec, rfl⟩
  | pushed tracker entered start ledger l hstd hl hsame =>
    obtain ⟨hmap, -⟩ := hbd.engaged hs (by rw [hstd]; rfl)
    obtain ⟨hwin, hnew⟩ := hlimits tracker entered start ledger l hstd hl
    have hpush : l.snapshot.startEdge budget start = (none, l.snapshot.push start) := by
      unfold TeamExecutionSnapshot.startEdge
      rw [hwin]
    have hinv : w'.invocations = w.invocations := hsame.invocations
    have hendd : w'.ended = w.ended := hsame.ended
    have hleds : w'.ledgers = w.ledgers.set ledger { l with snapshot := l.snapshot.push start } := by
      have : w'.ledgers = w.ledgers.set ledger { l with snapshot := (l.snapshot.startEdge budget start).2 } := hsame.ledgers
      rw [this, hpush]
    have hgr : w'.granted = w.granted ++ [⟨s.invocation, start.executionId, start.kind⟩] := by
      have : w'.granted = if (l.snapshot.startEdge budget start).1.isSome then w.granted
          else w.granted ++ [⟨s.invocation, start.executionId, start.kind⟩] := hsame.granted
      rw [this, hpush]
      rfl
    have hmem : ∀ {id edgeId kind}, (⟨id, edgeId, kind⟩ : Grant) ∈ w'.granted ↔ ⟨id, edgeId, kind⟩ ∈ w.granted ∨
        (id = s.invocation ∧ edgeId = start.executionId ∧ kind = start.kind) := by
      intro id edgeId kind
      rw [hgr, List.mem_append, List.mem_singleton, Grant.mk.injEq]
    have hsameFor : ∀ {id}, id ≠ s.invocation → SameFor w w' id := fun hne =>
      ⟨fun _ _ => by simp [hmem, hne], fun _ => by rw [hendd]⟩
    have hedgs : (l.snapshot.push start).edges.map (·.id) = l.snapshot.edges.map (·.id) ++ [start.executionId] :=
      List.map_append
    have hrt := h.right ⟨ledger, hmap, hl⟩
    refine .of_right (fun id l' hrec => ?_) fun id hid hgone => ?_
    · rcases hbd.receipt_set hmap hl hinv hleds hrec with ⟨rfl, rfl⟩ | ⟨hne, hrec⟩
      · refine ⟨?_, fun edge hedge => ?_, fun edgeId hkn => ?_⟩
        · rw [hedgs, List.nodup_append]
          refine ⟨hrt.ids, List.nodup_singleton _, fun a ha b hb heq => ?_⟩
          rw [List.mem_singleton.mp hb] at heq
          exact hnew (heq ▸ ha)
        · unfold TeamWorld.Open
          rw [hendd, hmem]
          rcases List.mem_append.mp hedge with hedge | hedge
          · have hid : edge.id ≠ start.executionId := fun heq => hnew (heq ▸ List.mem_map_of_mem hedge)
            simp only [hid, false_and, and_false, or_false]
            exact hrt.running edge hedge
          · rw [List.mem_singleton.mp hedge]
            exact ⟨fun _ => ⟨.inr ⟨rfl, rfl, rfl⟩, fun hend => hnew (hrt.known _ (.inr hend))⟩, fun _ => rfl⟩
        · rw [hedgs, List.mem_append, List.mem_singleton]
          rw [hendd] at hkn
          by_cases hedge : edgeId = start.executionId
          · exact .inr hedge
          · simp only [hmem, hedge, false_and, and_false, or_false] at hkn
            exact .inl (hrt.known edgeId hkn)
      · exact (h.right hrec).same (hsameFor hne) rfl
    · obtain ⟨hnone, hgone⟩ := hunk id hid hgone
      obtain ⟨hgrs, hends⟩ := h.unknown id hnone hgone
      refine ⟨fun grant hmem => ?_, by rw [hendd]; exact hends⟩
      rw [hgr, List.mem_append, List.mem_singleton] at hmem
      rcases hmem with hmem | rfl
      · exact hgrs grant hmem
      · rintro rfl
        rw [hmap] at hnone
        cases hnone
  | finished tracker entered id error ledger l hstd hl hsame =>
    obtain ⟨hmap, -⟩ := hbd.engaged hs (by rw [hstd]; rfl)
    have hinv : w'.invocations = w.invocations := hsame.invocations
    have hgr : w'.granted = w.granted := hsame.granted
    have hleds : w'.ledgers = w.ledgers.set ledger { l with snapshot := l.snapshot.finishEdge id error } :=
      hsame.ledgers
    have hendd : w'.ended = if l.snapshot.edges.any fun edge => edge.id = id then w.ended ++ [(s.invocation, id)]
        else w.ended := hsame.ended
    have hmem : ∀ {id' edgeId}, (id', edgeId) ∈ w'.ended ↔ (id', edgeId) ∈ w.ended ∨
        ((∃ edge ∈ l.snapshot.edges, edge.id = id) ∧ id' = s.invocation ∧ edgeId = id) := by
      intro id' edgeId
      rw [hendd]
      split
      next hany =>
        have : ∃ edge ∈ l.snapshot.edges, edge.id = id := by simpa using hany
        simp [this]
      next hnone =>
        have : ¬ ∃ edge ∈ l.snapshot.edges, edge.id = id := by simpa using hnone
        simp only [this, false_and, or_false]
    have hsameFor : ∀ {id'}, id' ≠ s.invocation → SameFor w w' id' := fun hne =>
      ⟨fun _ _ => by rw [hgr], fun _ => by simp [hmem, hne]⟩
    have hrt := h.right ⟨ledger, hmap, hl⟩
    refine .of_right (fun id' l' hrec => ?_) fun id' hid hgone => ?_
    · rcases hbd.receipt_set hmap hl hinv hleds hrec with ⟨rfl, rfl⟩ | ⟨hne, hrec⟩
      · have hids : (l.snapshot.finishEdge id error).edges.map (·.id) = l.snapshot.edges.map (·.id) :=
          map_id_finishEdges ..
        refine ⟨by rw [hids]; exact hrt.ids, fun edge hedge => ?_, fun edgeId hkn => ?_⟩
        · unfold TeamWorld.Open
          rw [hgr, hmem]
          rcases of_mem_finishEdges hrt.ids hedge with ⟨hne, hedge⟩ | ⟨heq, hstatus, before, hbef, hsame⟩
          · simp only [hne, and_false, or_false]
            exact hrt.running edge hedge
          · exact ⟨fun hrun => absurd hrun hstatus,
              fun hopen => absurd (.inr ⟨⟨before, hbef, hsame⟩, rfl, heq⟩) hopen.2⟩
        · rw [hids]
          rw [hgr, hmem] at hkn
          rcases hkn with hgrant | hend | ⟨⟨edge, hedge, rfl⟩, -, rfl⟩
          · exact hrt.known edgeId (.inl hgrant)
          · exact hrt.known edgeId (.inr hend)
          · exact List.mem_map_of_mem hedge
      · exact (h.right hrec).same (hsameFor hne) rfl
    · obtain ⟨hnone, hgone⟩ := hunk id' hid hgone
      obtain ⟨hgrs, hends⟩ := h.unknown id' hnone hgone
      refine ⟨by rw [hgr]; exact hgrs, fun ⟨id'', edgeId⟩ hendd => ?_⟩
      rcases hmem.mp hendd with hendd | ⟨-, rfl, -⟩
      · exact hends _ hendd
      · rintro rfl
        rw [hmap] at hnone
        cases hnone
  | evicted id ledger hidle hinv hleds hgr hendd hevict =>
    exact h.of_same hgr hendd hunk fun id' l hrec =>
      .inl ⟨l, (receipt_erase hinv hleds hrec).2, rfl⟩

end Team

end Adk
