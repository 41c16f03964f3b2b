import AdkRust.Graph.Frontier
import AdkRust.Lib.Except

/-!
# What happens at the fan-in nodes

Everything the executor does to its fan-in nodes is made of four kinds of steps (`FanInStep`): a join
starts to wait, records arrivals, drops late ones, or is released.

* `FanInStep.core`, `FanInStep.journal`: a step leaves the rest of the executor as it is, and only
  adds to the journal.
* `Ledger`: the trackers and the journal agree. A waiting tracker holds the arrivals recorded since
  the join was last released, and a released one held them. `FanInMoves.ledger`: every step keeps it.
-/

namespace Adk

/-! ## The arrivals a join holds -/

def FanInEvent.hold (join : String) (held : List (String × Value)) :
    FanInEvent → List (String × Value)
  | .arrived j source output => if j = join then held ++ [(source, output)] else held
  | .ignored .. => held
  | .released j .. => if j = join then [] else held

/-- The arrivals recorded at a join since it was last released. -/
def held (join : String) (journal : List FanInEvent) : List (String × Value) :=
  journal.foldl (FanInEvent.hold join) []

@[simp] theorem held_nil (join : String) : held join [] = [] := rfl

theorem held_append_released (join j : String) (journal : List FanInEvent) (rule : ReleaseRule)
    (tracker : FanInTracker) :
    held join (journal ++ [.released j rule tracker]) = if j = join then [] else held join journal := by
  simp [held, FanInEvent.hold]

theorem held_append_arrived (join j : String) (journal : List FanInEvent)
    (arrivals : List (String × Value)) :
    held join (journal ++ arrivals.map fun a => .arrived j a.1 a.2) =
      if j = join then held join journal ++ arrivals else held join journal := by
  induction arrivals generalizing journal with
  | nil => simp
  | cons a arrivals ih =>
    rw [List.map_cons, List.append_cons, ih]
    simp only [held, List.foldl_append, List.foldl_cons, List.foldl_nil, FanInEvent.hold]
    split
    · simp
    · rfl

theorem held_append_ignored (join j : String) (journal : List FanInEvent) (sources : List String) :
    held join (journal ++ sources.map (FanInEvent.ignored j)) = held join journal := by
  induction sources generalizing journal with
  | nil => simp
  | cons s sources ih =>
    rw [List.map_cons, List.append_cons, ih]
    simp [held, FanInEvent.hold]

namespace FanInTracker

/-- What a tracker holds of a source is the last output recorded of it. -/
theorem received_recordAll (t : FanInTracker) (arrivals : List (String × Value)) (s : String) :
    (t.recordAll arrivals).received[s]? = (arrivals.reverse.lookup s).or t.received[s]? := by
  induction arrivals generalizing t with
  | nil => simp
  | cons a arrivals ih =>
    rw [recordAll_cons, ih, record_received, List.reverse_cons, List.lookup_append,
      Std.ExtTreeMap.getElem?_insert, List.lookup_cons, List.lookup_nil, Option.or_assoc]
    by_cases h : s = a.1
    · simp [h]
    · simp [beq_false_of_ne h, Ne.symm h]

end FanInTracker

namespace Exec

variable (g : CompiledGraph)

/-! ## The steps -/

/-- One thing that happens at the fan-in nodes. -/
inductive FanInStep : Exec → Exec → Prop where
  /-- An entry node starts to wait. -/
  | await {e : Exec} {join : String} (now : Clock) (hd : join ∈ g.deferredConfigs)
      (hn : join ∉ e.pendingDeferred) :
    FanInStep e (awaitEntry g now e join)
  | record {e : Exec} {join : String} (arrivals : List (String × Value)) (now : Clock)
      (hd : join ∈ g.deferredConfigs) :
    FanInStep e (recordAt g e join arrivals now)
  | drop {e : Exec} (abandoned : Dict Names) (join : String) (sources : List String) :
    FanInStep e { e with
      abandonedArrivals := abandoned
      journal := e.journal ++ sources.map (.ignored join) }
  | release {e e' : Exec} {rule : ReleaseRule} {join : String} {checkMinimum : Bool}
      {tracker : FanInTracker} (ht : e.pendingDeferred[join]? = some tracker)
      (h : releaseJoin g e rule join checkMinimum = .ok e') :
    FanInStep e e'

/-- Steps one after another. -/
abbrev FanInMoves : Exec → Exec → Prop := Relation.ReflTransGen (FanInStep g)

/-- The executor but for its state and its fan-in nodes. -/
def core (e : Exec) : Exec :=
  { e with
    state := ∅, pendingDeferred := ∅, deferredStartTimes := ∅, abandonedArrivals := ∅
    journal := [] }

variable {g}

theorem releaseJoin_ok {e e' : Exec} {rule : ReleaseRule} {join : String} {checkMinimum : Bool}
    {tracker : FanInTracker} (ht : e.pendingDeferred[join]? = some tracker)
    (h : releaseJoin g e rule join checkMinimum = .ok e') :
    ∃ state, e' = { e with
      state := state
      pendingDeferred := e.pendingDeferred.erase join
      deferredStartTimes := e.deferredStartTimes.erase join
      abandonedArrivals := e.abandonedArrivals.erase join
      journal := e.journal ++
        if join ∈ g.deferredConfigs then [.released join rule tracker] else [] } := by
  simp only [releaseJoin, ht] at h
  split at h
  · rename_i hc
    cases h
    have hn : join ∉ g.deferredConfigs := by simpa using hc
    exact ⟨e.state, by simp [hn]⟩
  · rename_i config hc
    have hm : join ∈ g.deferredConfigs := by
      rw [← Std.ExtTreeMap.isSome_getElem?_iff_mem, hc]; rfl
    split at h
    · cases h
    · cases h
      exact ⟨g.schema.applyUpdate e.state s!"{join}_fan_in" (tracker.merge config.mergeStrategy),
        by simp [hm]⟩

namespace FanInStep

theorem core {e e' : Exec} (h : FanInStep g e e') : e'.core = e.core := by
  cases h with
  | await | record | drop => rfl
  | release ht h =>
    obtain ⟨state, rfl⟩ := releaseJoin_ok ht h
    rfl

theorem journal {e e' : Exec} (h : FanInStep g e e') :
    ∃ journal, e'.journal = e.journal ++ journal := by
  cases h with
  | await => exact ⟨[], by simp [awaitEntry]⟩
  | record arrivals now hd => exact ⟨_, rfl⟩
  | drop abandoned join sources => exact ⟨_, rfl⟩
  | release ht h =>
    obtain ⟨state, rfl⟩ := releaseJoin_ok ht h
    exact ⟨_, rfl⟩

end FanInStep

theorem FanInMoves.core {e e' : Exec} (h : FanInMoves g e e') : e'.core = e.core := by
  induction h with
  | refl => rfl
  | tail _ hs ih => rw [hs.core, ih]

theorem FanInMoves.journal {e e' : Exec} (h : FanInMoves g e e') :
    ∃ journal, e'.journal = e.journal ++ journal := by
  induction h with
  | refl => exact ⟨[], by simp⟩
  | tail _ hs ih =>
    obtain ⟨j, hj⟩ := ih
    obtain ⟨k, hk⟩ := hs.journal
    exact ⟨j ++ k, by rw [hk, hj, List.append_assoc]⟩

/-! ## The ledger -/

def trackerOf (g : CompiledGraph) (journal : List FanInEvent) (join : String) : FanInTracker :=
  (FanInTracker.new (g.getUpstreamNodes join)).recordAll (held join journal)

/-- The trackers and the journal agree; `past` is what was on record before the executor's own
journal began. -/
structure Ledger (g : CompiledGraph) (past : List FanInEvent) (e : Exec) : Prop where
  deferred : ∀ join ∈ e.pendingDeferred, join ∈ g.deferredConfigs
  waiting : ∀ (join : String) (tracker : FanInTracker), e.pendingDeferred[join]? = some tracker →
    tracker = trackerOf g (past ++ e.journal) join
  idle : ∀ join ∉ e.pendingDeferred, held join (past ++ e.journal) = []
  released : ∀ (pre : List FanInEvent) (join : String) (rule : ReleaseRule) (tracker : FanInTracker)
    (post : List FanInEvent), past ++ e.journal = pre ++ .released join rule tracker :: post →
    tracker = trackerOf g pre join

private theorem released_append {journal events pre post : List FanInEvent} {join : String}
    {rule : ReleaseRule} {tracker : FanInTracker}
    (hn : ∀ event ∈ events, ∀ j r t, event ≠ FanInEvent.released j r t)
    (h : journal ++ events = pre ++ .released join rule tracker :: post) :
    ∃ post', journal = pre ++ .released join rule tracker :: post' := by
  rw [List.append_eq_append_iff] at h
  rcases h with ⟨as, rfl, has⟩ | ⟨bs, hbs, hp⟩
  · have := hn (.released join rule tracker) (by rw [has]; simp)
    exact absurd rfl (this _ _ _)
  · cases bs with
    | nil =>
      have := hn (.released join rule tracker) (by rw [← List.nil_append events, ← hp]; simp)
      exact absurd rfl (this _ _ _)
    | cons b bs =>
      obtain ⟨rfl, -⟩ := List.cons.inj hp
      exact ⟨bs, hbs⟩

namespace Ledger

variable {past : List FanInEvent} {e : Exec} (hl : Ledger g past e)
include hl

/-- A join that starts to wait holds nothing. -/
theorem await {join : String} (now : Clock) (hd : join ∈ g.deferredConfigs)
    (hn : join ∉ e.pendingDeferred) : Ledger g past (awaitEntry g now e join) := by
  refine ⟨fun j hj => ?_, fun j t hjt => ?_, fun j hj => ?_, hl.released⟩
  · rcases Std.ExtTreeMap.mem_insert.mp hj with hj | hj
    · exact Std.LawfulEqCmp.eq_of_compare hj ▸ hd
    · exact hl.deferred j hj
  · by_cases he : join = j
    · subst he
      have : t = .new (g.getUpstreamNodes join) := by simpa [awaitEntry, eq_comm] using hjt
      subst this
      change _ = trackerOf g (past ++ e.journal) join
      rw [trackerOf, hl.idle join hn]
      rfl
    · refine hl.waiting j t ?_
      simpa [awaitEntry, Std.ExtTreeMap.getElem?_insert, he] using hjt
  · refine hl.idle j fun hm => hj ?_
    exact Std.ExtTreeMap.mem_insert.mpr (.inr hm)

/-- The tracker that a join records its next arrivals in. -/
theorem getD_tracker (join : String) :
    e.pendingDeferred.getD join (.new (g.getUpstreamNodes join)) =
      trackerOf g (past ++ e.journal) join := by
  rw [Std.ExtTreeMap.getD_eq_getD_getElem?]
  cases ht : e.pendingDeferred[join]? with
  | none =>
    rw [trackerOf, hl.idle join (by simpa using ht)]
    rfl
  | some tracker => exact hl.waiting join tracker ht

theorem record {join : String} (arrivals : List (String × Value)) (now : Clock)
    (hd : join ∈ g.deferredConfigs) : Ledger g past (recordAt g e join arrivals now) := by
  have hheld : ∀ j, held j (past ++ (recordAt g e join arrivals now).journal) =
      if join = j then held j (past ++ e.journal) ++ arrivals else held j (past ++ e.journal) := by
    intro j
    simp only [recordAt, ← List.append_assoc]
    exact held_append_arrived j join _ arrivals
  refine ⟨fun j hj => ?_, fun j t hjt => ?_, fun j hj => ?_, fun pre j r t post hp => ?_⟩
  · rcases Std.ExtTreeMap.mem_insert.mp hj with hj | hj
    · exact Std.LawfulEqCmp.eq_of_compare hj ▸ hd
    · exact hl.deferred j hj
  · rw [trackerOf, hheld]
    by_cases he : join = j
    · subst he
      simp only [recordAt, Std.ExtTreeMap.getElem?_insert_self, Option.some.injEq] at hjt
      rw [if_pos rfl, FanInTracker.recordAll_append, ← trackerOf, ← hl.getD_tracker, hjt]
    · simp only [recordAt, Std.ExtTreeMap.getElem?_insert, Std.compare_eq_iff_eq, he] at hjt
      rw [if_neg he]
      exact hl.waiting j t hjt
  · have hne : join ≠ j := fun he => hj (by
      subst he; exact Std.ExtTreeMap.mem_insert_self)
    rw [hheld, if_neg hne]
    exact hl.idle j fun hm => hj (Std.ExtTreeMap.mem_insert.mpr (.inr hm))
  · simp only [recordAt, ← List.append_assoc] at hp
    obtain ⟨post', hp'⟩ := released_append (by simp +contextual [eq_comm]) hp
    exact hl.released pre j r t post' hp'

theorem drop (abandoned : Dict Names) (join : String) (sources : List String) :
    Ledger g past { e with
      abandonedArrivals := abandoned
      journal := e.journal ++ sources.map (.ignored join) } := by
  have hheld : ∀ j, held j (past ++ (e.journal ++ sources.map (.ignored join))) =
      held j (past ++ e.journal) := by
    intro j
    rw [← List.append_assoc]
    exact held_append_ignored j join _ sources
  refine ⟨hl.deferred, fun j t hjt => ?_, fun j hj => ?_, fun pre j r t post hp => ?_⟩
  · rw [trackerOf, hheld]
    exact hl.waiting j t hjt
  · exact (hheld j).trans (hl.idle j hj)
  · simp only [← List.append_assoc] at hp
    obtain ⟨post', hp'⟩ := released_append (by simp) hp
    exact hl.released pre j r t post' hp'

/-- A join is released with what it holds, and holds nothing after. -/
theorem release {e' : Exec} {rule : ReleaseRule} {join : String} {checkMinimum : Bool}
    {tracker : FanInTracker} (ht : e.pendingDeferred[join]? = some tracker)
    (h : releaseJoin g e rule join checkMinimum = .ok e') : Ledger g past e' := by
  obtain ⟨state, rfl⟩ := releaseJoin_ok ht h
  have hmem : join ∈ e.pendingDeferred := by
    rw [← Std.ExtTreeMap.isSome_getElem?_iff_mem, ht]; rfl
  have hheld : ∀ j, held j (past ++ (e.journal ++ [.released join rule tracker])) =
      if join = j then [] else held j (past ++ e.journal) := by
    intro j
    rw [← List.append_assoc]
    exact held_append_released j join _ rule tracker
  simp only [hl.deferred join hmem, if_true]
  refine ⟨fun j hj => hl.deferred j (Std.ExtTreeMap.mem_of_mem_erase hj), fun j t hjt => ?_,
    fun j hj => ?_, fun pre j r t post hp => ?_⟩
  · have hne : join ≠ j := fun he => by subst he; simp at hjt
    simp only [Std.ExtTreeMap.getElem?_erase, Std.compare_eq_iff_eq, hne, if_false] at hjt
    rw [trackerOf, hheld, if_neg hne]
    exact hl.waiting j t hjt
  · simp only
    rw [hheld]
    split
    · rfl
    · rename_i hne
      refine hl.idle j fun hm => hj ?_
      rw [Std.ExtTreeMap.mem_erase]
      exact ⟨by simpa using hne, hm⟩
  · simp only [← List.append_assoc] at hp
    rcases List.eq_nil_or_concat post with rfl | ⟨post', last, rfl⟩
    · obtain ⟨hpre, hlast⟩ := List.append_inj' hp rfl
      cases hlast
      rw [← hpre]
      exact hl.waiting join tracker ht
    · rw [List.concat_eq_append, ← List.cons_append, ← List.append_assoc] at hp
      obtain ⟨hpre, -⟩ := List.append_inj' hp rfl
      exact hl.released pre j r t post' hpre

end Ledger

theorem FanInStep.ledger {past : List FanInEvent} {e e' : Exec} (h : FanInStep g e e')
    (hl : Ledger g past e) : Ledger g past e' := by
  cases h with
  | await now hd hn => exact hl.await now hd hn
  | record arrivals now hd => exact hl.record arrivals now hd
  | drop abandoned join sources => exact hl.drop abandoned join sources
  | release ht h => exact hl.release ht h

/-- **The ledger holds whatever happens at the fan-in nodes.** -/
theorem FanInMoves.ledger {past : List FanInEvent} {e e' : Exec} (h : FanInMoves g e e')
    (hl : Ledger g past e) : Ledger g past e' := by
  induction h with
  | refl => exact hl
  | tail _ hs ih => exact hs.ledger ih

end Exec

end Adk
