import AdkRust.Ambient.CronTrigger

/-!
# Cron triggers fire each tick once

Subscriptions come one after another, and each of them ends at any point. The watermark is written before the event it
is for, so that a tick whose event was lost is not replayed; and a trigger that finds no watermark takes up the schedule
where it is polled.

* `CronTrigger.Through`: everything up to a moment is accounted for.
* `CronTrigger.CronInv`: the invariant of all runs.
* `firesOnce_careful`: **no tick is fired twice, and none that is to be replayed is lost**, where no tick has come due
  when a stream starts without a watermark.
* `not_firesAsStated`: it is not so in every run.
-/

namespace Adk

namespace Ambient

/-! ## What is accounted for -/

/-- When a due event is accounted for. -/
def Due.through (due : Due) : Utc := due.mark.getD due.scheduledFor

namespace CronWorld

/-- A moment after the first subscription began. -/
def Since (w : CronWorld) (tick : Utc) : Prop := ∃ began, w.began = some began ∧ began < tick

/-- A tick that was fired, or whose event was lost with its subscription. -/
def Accounted (w : CronWorld) (tick : Utc) : Prop :=
  tick ∈ w.fired.map (·.due.scheduledFor) ∨ tick ∈ w.lost.map (·.scheduledFor)

/-- The gaps for which an event was fired, was lost, or is still to come. -/
def covered (w : CronWorld) : List (Utc × Utc) :=
  (w.fired.map (·.due) ++ w.lost ++ w.phase.unsent).filterMap (·.gap)

end CronWorld

namespace CronTrigger

variable (trigger : CronTrigger)

/-- Every tick is to be fired, and none was cut off. -/
def Whole (w : CronWorld) : Prop := trigger.missedTickPolicy = .all ∧ w.cutOff = false

/-- Everything up to a moment is accounted for. -/
structure Through (w : CronWorld) (floor : Utc) : Prop where
  fired : ∀ f ∈ w.fired, f.due.scheduledFor ≤ floor
  watermark : ∀ mark, w.watermark = some mark → mark ≤ floor
  gaps : ∀ gap ∈ w.gaps, gap.1 < floor
  accounted : trigger.Whole w → ∀ tick, trigger.schedule.IsTick tick → w.Since tick → tick ≤ floor → w.Accounted tick

/-- An event that is due after a moment. -/
structure IsDue (floor : Utc) (due : Due) : Prop where
  later : floor < due.scheduledFor
  through : due.scheduledFor ≤ due.through
  tick : trigger.schedule.IsTick due.scheduledFor
  mark : due.mark = if trigger.missedTickPolicy = .skip then none else some due.through
  gap : ∀ gap, due.gap = some gap →
    trigger.missedTickPolicy ≠ .skip ∧ floor ≤ gap.1 ∧ gap.1 < due.scheduledFor ∧ due.scheduledFor ≤ gap.2

/-- Events that are due one after another, from a moment to a moment. Where every tick is to be fired, each of them
stands for one tick. -/
def Plan (whole : Prop) (floor : Utc) : List Due → Utc → Prop
  | [], target => floor ≤ target ∧ (whole → ∀ tick, trigger.schedule.IsTick tick → floor < tick → ¬ tick ≤ target)
  | due :: rest, target => trigger.IsDue floor due ∧
      (whole → ∀ tick, trigger.schedule.IsTick tick → floor < tick → tick ≤ due.through → tick = due.scheduledFor) ∧
      Plan whole due.through rest target

/-- A world in which no event is about to be fired. -/
structure Settled (w : CronWorld) : Prop where
  skip : trigger.missedTickPolicy = .skip →
    w.watermark = none ∧ w.gaps = [] ∧ ∀ f ∈ w.fired, f.due.scheduledFor ≤ w.clock
  through : ∀ mark, w.watermark = some mark → trigger.Through w mark
  fresh : trigger.missedTickPolicy ≠ .skip → w.watermark = none → w.fired = [] ∧ w.gaps = []

/-- A world whose next event has its watermark written. -/
structure Pending (w : CronWorld) (due : Due) : Prop where
  later : ∀ f ∈ w.fired, f.due.scheduledFor < due.scheduledFor
  through : due.scheduledFor ≤ due.through
  skip : trigger.missedTickPolicy = .skip →
    w.watermark = none ∧ w.gaps = [] ∧ ∀ f ∈ w.fired, f.due.scheduledFor ≤ w.clock
  watermark : trigger.missedTickPolicy ≠ .skip → w.watermark = some due.through
  gaps : ∀ gap ∈ w.gaps, gap.1 < due.through
  accounted : trigger.Whole w → ∀ tick, trigger.schedule.IsTick tick → w.Since tick → tick ≤ due.through →
    w.Accounted tick ∨ tick = due.scheduledFor

/-- What holds where a stream stands. -/
def Stands (w : CronWorld) : Phase → Prop
  | .idle => trigger.Settled w
  | .subscribed restored => trigger.Settled w ∧
      restored = if trigger.missedTickPolicy = .skip then none else w.watermark
  | .top cursor => trigger.Settled w ∧ (trigger.missedTickPolicy ≠ .skip → trigger.Through w cursor)
  | .emitting rest next => trigger.Settled w ∧ ∃ floor, trigger.Through w floor ∧
      trigger.Plan (trigger.Whole w) floor rest next.cursor ∧
      (trigger.missedTickPolicy = .skip → next.cursor ≤ w.clock)
  | .yielding due rest next => trigger.Pending w due ∧ trigger.Plan (trigger.Whole w) due.through rest next.cursor ∧
      (trigger.missedTickPolicy = .skip → next.cursor ≤ w.clock)
  | .choosing cursor => trigger.Settled w ∧ trigger.Through w cursor
  | .sleeping nextTick => trigger.Settled w ∧
      ∃ cursor, trigger.schedule.after cursor = some nextTick ∧ trigger.Through w cursor
  | .exhausted => trigger.Settled w ∧ ∃ cursor, trigger.schedule.after cursor = none ∧ trigger.Through w cursor

/-- The invariant of all runs. -/
structure CronInv (w : CronWorld) : Prop where
  stands : trigger.Stands w w.phase
  sorted : (w.fired.map (·.due.scheduledFor)).Pairwise (· < ·)
  waited : trigger.Whole w → ∀ waited, w.waited = some waited → ∀ tick, trigger.schedule.IsTick tick → w.Since tick →
    tick ≤ waited → w.Accounted tick
  /-- Before the first subscription nothing has happened. -/
  began : w.began = none → w.phase = .idle ∧ w.watermark = none ∧ w.waited = none
  covered : w.gaps.Perm w.covered
  once : w.gaps.Nodup
  ticked : ∀ gap ∈ w.gaps, ∃ tick, trigger.schedule.IsTick tick ∧ gap.1 < tick ∧ tick ≤ gap.2
  lost : w.lost.length ≤ w.ended

variable {trigger} {w w' : CronWorld}

/-! ## What a catch-up pass plans -/

variable {floor target : Utc} {rest : List Due} {due : Due}

theorem Plan.le {whole : Prop} (h : trigger.Plan whole floor rest target) :
    floor ≤ target := by
  induction rest generalizing floor with
  | nil => exact h.1
  | cons due rest ih => exact le_trans (le_of_lt h.1.later) (le_trans h.1.through (ih h.2.2))

theorem plan_nil {whole : Prop} (cursor : Utc) : trigger.Plan whole cursor [] cursor :=
  ⟨le_refl _, fun _ _ _ hlt => not_le_of_gt hlt⟩

/-- One event for each tick that elapsed. -/
theorem plan_replays {whole : Prop} {now : Utc} {truncated : Bool} {missed : List Utc}
    (hpolicy : trigger.missedTickPolicy ≠ .skip) (hne : missed ≠ []) (hsrt : missed.Pairwise (· < ·))
    (hmissed : ∀ tick ∈ missed, trigger.schedule.IsTick tick ∧ floor < tick ∧ tick ≤ now)
    (hwh : whole → truncated = false ∧
      ∀ tick, trigger.schedule.IsTick tick → floor < tick → tick ≤ now → tick ∈ missed) :
    trigger.Plan whole floor (replays now truncated missed)
      (if truncated then now else missed.getLast?.getD floor) := by
  induction missed generalizing floor with
  | nil => exact absurd rfl hne
  | cons tick rest ih =>
    obtain ⟨htick, hlt, hle⟩ := hmissed tick List.mem_cons_self
    obtain ⟨hhead, hrest⟩ := List.pairwise_cons.mp hsrt
    cases rest with
    | nil =>
      have hthr : tick ≤ if truncated then now else tick := by
        split
        next => exact hle
        next => exact le_refl _
      refine ⟨⟨hlt, hthr, htick, ?_, fun _ h => by cases h⟩, ?_, ?_⟩
      · rw [if_neg hpolicy]
        rfl
      · intro hw other hoth hflr hend
        obtain ⟨huct, hall⟩ := hwh hw
        subst huct
        exact List.mem_singleton.mp (hall other hoth hflr (le_trans hend hle))
      · exact plan_nil _
    | cons second rest =>
      refine ⟨⟨hlt, le_refl _, htick, ?_, fun _ h => by cases h⟩, ?_, ?_⟩
      · rw [if_neg hpolicy]
        rfl
      · intro hw other hoth hflr hend
        rcases List.mem_cons.mp ((hwh hw).2 other hoth hflr (le_trans hend hle)) with heq | hmem
        · exact heq
        · exact absurd (hhead other hmem) (not_lt_of_ge hend)
      · refine ih (List.cons_ne_nil _ _) hrest (fun later hlat => ?_) (fun hw => ⟨(hwh hw).1, ?_⟩)
        · obtain ⟨hlaterTick, -, hlaterLe⟩ := hmissed later (List.mem_cons_of_mem _ hlat)
          exact ⟨hlaterTick, hhead later hlat, hlaterLe⟩
        · intro other hoth hflr hend
          rcases List.mem_cons.mp ((hwh hw).2 other hoth (lt_trans hlt hflr) hend) with heq | hmem
          · exact absurd hflr (by rw [heq]; exact lt_irrefl _)
          · exact hmem

/-- What a pass emits is due after the cursor, up to where the stream goes on. -/
theorem plan_catchUp {whole : Prop} {cursor now : Utc} (hpolicy : trigger.missedTickPolicy ≠ .skip)
    (hwh : whole → trigger.missedTickPolicy = .all ∧
      (trigger.schedule.elapsed cursor now trigger.maxCatchUp).2 = false) :
    trigger.Plan whole cursor
      (trigger.catchUp cursor now (trigger.schedule.elapsed cursor now trigger.maxCatchUp).1
        (trigger.schedule.elapsed cursor now trigger.maxCatchUp).2)
      (if (trigger.schedule.elapsed cursor now trigger.maxCatchUp).2 then now
        else (trigger.schedule.elapsed cursor now trigger.maxCatchUp).1.getLast?.getD cursor) := by
  obtain ⟨cap, hcap⟩ : ∃ cap, trigger.maxCatchUp = cap + 1 :=
    ⟨trigger.maxCatchUp - 1, by have := trigger.capped; omega⟩
  have hmem := fun tick => @Ticks.of_mem_elapsed _ _ trigger.schedule cursor now tick trigger.maxCatchUp
  by_cases hnone : (trigger.schedule.elapsed cursor now trigger.maxCatchUp).1 = []
  · have huct : (trigger.schedule.elapsed cursor now trigger.maxCatchUp).2 = false := by
      rw [hcap] at hnone ⊢
      exact Ticks.elapsed_nil hnone
    rw [hnone, huct]
    unfold catchUp
    cases trigger.missedTickPolicy with
    | skip => exact plan_nil _
    | coalesceOne => exact plan_nil _
    | all => exact plan_nil _
  · generalize helapsed : trigger.schedule.elapsed cursor now trigger.maxCatchUp = elapsed at *
    obtain ⟨missed, truncated⟩ := elapsed
    dsimp only at hnone hmem hwh ⊢
    unfold catchUp
    cases hkind : trigger.missedTickPolicy with
    | skip => exact absurd hkind hpolicy
    | coalesceOne =>
      obtain ⟨init, last, rfl⟩ : ∃ init last, missed = init ++ [last] :=
        ⟨missed.dropLast, missed.getLast hnone, (List.dropLast_concat_getLast hnone).symm⟩
      obtain ⟨htick, hlt, hle⟩ := hmem last (List.mem_append_right _ List.mem_cons_self)
      have hthr : last ≤ if truncated then now else last := by
        split
        next => exact hle
        next => exact le_refl _
      dsimp only
      rw [List.getLast?_concat]
      refine ⟨⟨hlt, hthr, htick, ?_, ?_⟩, ?_, plan_nil _⟩
      · rw [hkind]
        rfl
      · intro gap hgap
        obtain rfl := Option.some.inj hgap
        exact ⟨hpolicy, le_refl _, hlt, hle⟩
      · intro hw
        have := (hwh hw).1
        rw [hkind] at this
        cases this
    | all =>
      refine plan_replays hpolicy hnone ?_ hmem (fun hw => ⟨(hwh hw).2, ?_⟩)
      · have hsrt := @Ticks.elapsed_sorted _ _ trigger.schedule cursor now trigger.maxCatchUp
        rwa [helapsed] at hsrt
      · intro tick htick hlt hle
        have hall := @Ticks.mem_elapsed _ _ trigger.schedule cursor now tick trigger.maxCatchUp
        rw [helapsed] at hall
        exact hall (hwh hw).2 htick hlt hle

/-! ## Moments -/

theorem Through.mono (h : trigger.Through w floor) (hle : floor ≤ target)
    (hnone : trigger.Whole w → ∀ tick, trigger.schedule.IsTick tick → floor < tick → ¬ tick ≤ target) :
    trigger.Through w target where
  fired f hf := le_trans (h.fired f hf) hle
  watermark mark hmark := le_trans (h.watermark mark hmark) hle
  gaps gap hgap := lt_of_lt_of_le (h.gaps gap hgap) hle
  accounted hw tick htick hsin htarget := by
    by_cases hflr : tick ≤ floor
    · exact h.accounted hw tick htick hsin hflr
    · exact absurd htarget (hnone hw tick htick (lt_of_not_ge hflr))

/-- Where an event was lost with its subscription, the watermark accounts for it. -/
theorem Pending.settled (h : trigger.Pending w due) (hlost : w'.lost = w.lost ++ [due])
    (hfrd : w'.fired = w.fired) (hmark : w'.watermark = w.watermark) (hgaps : w'.gaps = w.gaps)
    (hbgn : w'.began = w.began) (hclk : w'.clock = w.clock) (hcut : w'.cutOff = w.cutOff) :
    trigger.Settled w' := by
  refine ⟨fun hskip => ?_, fun mark hsome => ?_, fun hnot hnone => ?_⟩
  · rw [hmark, hgaps, hfrd, hclk]
    exact h.skip hskip
  · have hnot : trigger.missedTickPolicy ≠ .skip := by
      intro hskip
      rw [hmark, (h.skip hskip).1] at hsome
      cases hsome
    rw [hmark, h.watermark hnot] at hsome
    obtain rfl := Option.some.inj hsome
    refine ⟨fun f hf => ?_, fun mark hsame => ?_, ?_, fun hw tick htick hsin hle => ?_⟩
    · rw [hfrd] at hf
      exact le_trans (le_of_lt (h.later f hf)) h.through
    · rw [hmark, h.watermark hnot] at hsame
      exact le_of_eq (Option.some.inj hsame).symm
    · rw [hgaps]
      exact h.gaps
    · unfold Whole at hw
      rw [hcut] at hw
      unfold CronWorld.Since at hsin
      rw [hbgn] at hsin
      unfold CronWorld.Accounted
      rw [hfrd, hlost, List.map_append, List.mem_append]
      rcases h.accounted hw tick htick hsin hle with (hin | hin) | heq
      · exact .inl hin
      · exact .inr (.inl hin)
      · exact .inr (.inr (List.mem_singleton.mpr heq))
  · rw [hmark, h.watermark hnot] at hnone
    cases hnone

/-- Once its event is fired, everything up to the watermark is accounted for. -/
theorem Pending.fire (h : trigger.Pending w due) {tick : Utc}
    (hlate : trigger.missedTickPolicy = .skip → due.scheduledFor ≤ w.clock)
    (hfrd : w'.fired = w.fired ++ [⟨due, tick⟩]) (hlost : w'.lost = w.lost) (hmark : w'.watermark = w.watermark)
    (hgaps : w'.gaps = w.gaps) (hbgn : w'.began = w.began) (hclk : w'.clock = w.clock)
    (hcut : w'.cutOff = w.cutOff) : trigger.Settled w' ∧ trigger.Through w' due.through := by
  have hthr : trigger.Through w' due.through := by
    refine ⟨fun f hf => ?_, fun mark hsame => ?_, ?_, fun hw other hoth hsin hle => ?_⟩
    · rw [hfrd] at hf
      rcases List.mem_append.mp hf with hf | hf
      · exact le_trans (le_of_lt (h.later f hf)) h.through
      · obtain rfl := List.mem_singleton.mp hf
        exact h.through
    · rw [hmark] at hsame
      by_cases hskip : trigger.missedTickPolicy = .skip
      · rw [(h.skip hskip).1] at hsame
        cases hsame
      · rw [h.watermark hskip] at hsame
        exact le_of_eq (Option.some.inj hsame).symm
    · rw [hgaps]
      exact h.gaps
    · unfold Whole at hw
      rw [hcut] at hw
      unfold CronWorld.Since at hsin
      rw [hbgn] at hsin
      unfold CronWorld.Accounted
      rw [hfrd, hlost, List.map_append, List.mem_append]
      rcases h.accounted hw other hoth hsin hle with (hin | hin) | heq
      · exact .inl (.inl hin)
      · exact .inr hin
      · exact .inl (.inr (List.mem_singleton.mpr heq))
  refine ⟨⟨fun hskip => ?_, fun mark hsome => ?_, fun hnot hnone => ?_⟩, hthr⟩
  · obtain ⟨hnone, hemp, hold⟩ := h.skip hskip
    rw [hmark, hgaps, hclk]
    refine ⟨hnone, hemp, fun f hf => ?_⟩
    rw [hfrd] at hf
    rcases List.mem_append.mp hf with hf | hf
    · exact hold f hf
    · obtain rfl := List.mem_singleton.mp hf
      exact hlate hskip
  · rw [hmark] at hsome
    by_cases hskip : trigger.missedTickPolicy = .skip
    · rw [(h.skip hskip).1] at hsome
      cases hsome
    · rw [h.watermark hskip] at hsome
      rwa [← Option.some.inj hsome]
  · rw [hmark, h.watermark hnot] at hnone
    cases hnone

/-! ## What a step keeps -/

/-- Two worlds with the same records, the second no earlier. -/
structure SameRecords (w w' : CronWorld) : Prop where
  fired : w'.fired = w.fired
  lost : w'.lost = w.lost
  watermark : w'.watermark = w.watermark
  gaps : w'.gaps = w.gaps
  began : w'.began = w.began
  cutOff : w'.cutOff = false → w.cutOff = false
  clock : w.clock ≤ w'.clock

theorem SameRecords.whole (hsame : SameRecords w w') (hw : trigger.Whole w') : trigger.Whole w :=
  ⟨hw.1, hsame.cutOff hw.2⟩

theorem SameRecords.since (hsame : SameRecords w w') {tick : Utc} (h : w'.Since tick) : w.Since tick := by
  unfold CronWorld.Since at h
  rwa [hsame.began] at h

theorem SameRecords.accounted (hsame : SameRecords w w') {tick : Utc} (h : w.Accounted tick) : w'.Accounted tick := by
  unfold CronWorld.Accounted
  rwa [hsame.fired, hsame.lost]

theorem Through.same (h : trigger.Through w floor) (hsame : SameRecords w w') :
    trigger.Through w' floor where
  fired := by
    rw [hsame.fired]
    exact h.fired
  watermark := by
    rw [hsame.watermark]
    exact h.watermark
  gaps := by
    rw [hsame.gaps]
    exact h.gaps
  accounted hw tick htick hsin hle := hsame.accounted (h.accounted (hsame.whole hw) tick htick (hsame.since hsin) hle)

theorem Settled.same (h : trigger.Settled w) (hsame : SameRecords w w') : trigger.Settled w' where
  skip hskip := by
    obtain ⟨hnone, hemp, hfrd⟩ := h.skip hskip
    rw [hsame.watermark, hsame.gaps, hsame.fired]
    exact ⟨hnone, hemp, fun f hf => le_trans (hfrd f hf) hsame.clock⟩
  through mark hmark := by
    rw [hsame.watermark] at hmark
    exact (h.through mark hmark).same hsame
  fresh := by
    rw [hsame.watermark, hsame.fired, hsame.gaps]
    exact h.fresh

theorem Pending.same (h : trigger.Pending w due) (hsame : SameRecords w w') : trigger.Pending w' due where
  later := by
    rw [hsame.fired]
    exact h.later
  through := h.through
  skip hskip := by
    obtain ⟨hnone, hemp, hfrd⟩ := h.skip hskip
    rw [hsame.watermark, hsame.gaps, hsame.fired]
    exact ⟨hnone, hemp, fun f hf => le_trans (hfrd f hf) hsame.clock⟩
  watermark := by
    rw [hsame.watermark]
    exact h.watermark
  gaps := by
    rw [hsame.gaps]
    exact h.gaps
  accounted hw tick htick hsin hle := by
    rcases h.accounted (hsame.whole hw) tick htick (hsame.since hsin) hle with hin | heq
    · exact .inl (hsame.accounted hin)
    · exact .inr heq

theorem Plan.mono {whole whole' : Prop} (hwh : whole' → whole)
    (h : trigger.Plan whole floor rest target) : trigger.Plan whole' floor rest target := by
  induction rest generalizing floor with
  | nil => exact ⟨h.1, fun hw => h.2 (hwh hw)⟩
  | cons due rest ih => exact ⟨h.1, fun hw => h.2.1 (hwh hw), ih h.2.2⟩

/-- A stream stands where it stood while time passes. -/
theorem Stands.same {phase : Phase} (h : trigger.Stands w phase) (hsame : SameRecords w w') :
    trigger.Stands w' phase := by
  cases phase with
  | idle => exact Settled.same h hsame
  | subscribed restored =>
    refine ⟨Settled.same h.1 hsame, ?_⟩
    rw [hsame.watermark]
    exact h.2
  | top cursor => exact ⟨h.1.same hsame, fun hnot => (h.2 hnot).same hsame⟩
  | emitting rest next =>
    obtain ⟨hset, floor, hthr, hplan, hlate⟩ := h
    exact ⟨hset.same hsame, floor, hthr.same hsame, hplan.mono hsame.whole,
      fun hskip => le_trans (hlate hskip) hsame.clock⟩
  | yielding due rest next =>
    obtain ⟨hpend, hplan, hlate⟩ := h
    exact ⟨hpend.same hsame, hplan.mono hsame.whole, fun hskip => le_trans (hlate hskip) hsame.clock⟩
  | choosing cursor => exact ⟨h.1.same hsame, h.2.same hsame⟩
  | sleeping nextTick =>
    obtain ⟨hset, cursor, haft, hthr⟩ := h
    exact ⟨hset.same hsame, cursor, haft, hthr.same hsame⟩
  | exhausted =>
    obtain ⟨hset, cursor, haft, hthr⟩ := h
    exact ⟨hset.same hsame, cursor, haft, hthr.same hsame⟩

/-- A step that moves only the stream. -/
theorem CronInv.quiet (h : trigger.CronInv w) (hsame : SameRecords w w') (hendd : w'.ended = w.ended)
    (hunsent : w'.phase.unsent = w.phase.unsent) (hact : w.phase ≠ .idle) (hstds : trigger.Stands w' w'.phase)
    (hwaited : w'.waited = w.waited ∨ (trigger.Whole w → ∀ tick, trigger.schedule.IsTick tick → w.Since tick →
      ∀ waited, w'.waited = some waited → tick ≤ waited → w.Accounted tick)) : trigger.CronInv w' where
  stands := hstds
  sorted := by
    rw [hsame.fired]
    exact h.sorted
  waited hw waited hsome tick htick hsin hle := by
    apply hsame.accounted
    rcases hwaited with hold | hnew
    · rw [hold] at hsome
      exact h.waited (hsame.whole hw) waited hsome tick htick (hsame.since hsin) hle
    · exact hnew (hsame.whole hw) tick htick (hsame.since hsin) waited hsome hle
  began hnone := by
    rw [hsame.began] at hnone
    exact absurd (h.began hnone).1 hact
  covered := by
    have hcovd : w'.covered = w.covered := by
      unfold CronWorld.covered
      rw [hsame.fired, hsame.lost, hunsent]
    rw [hsame.gaps, hcovd]
    exact h.covered
  once := by
    rw [hsame.gaps]
    exact h.once
  ticked := by
    rw [hsame.gaps]
    exact h.ticked
  lost := by
    rw [hsame.lost, hendd]
    exact h.lost

/-- Time passes. -/
theorem CronInv.later (h : trigger.CronInv w) {now : Utc} (hle : w.clock ≤ now) :
    trigger.CronInv { w with clock := now } :=
  have hsame : SameRecords w { w with clock := now } := ⟨rfl, rfl, rfl, rfl, rfl, fun h => h, hle⟩
  { stands := Stands.same h.stands hsame
    sorted := h.sorted
    waited := h.waited
    began := h.began
    covered := h.covered
    once := h.once
    ticked := h.ticked
    lost := h.lost }

/-- Before the tick that a stream sleeps for there is no other after its cursor. -/
theorem Through.accounted_before {cursor tick : Utc} (h : trigger.Through w cursor) (hw : trigger.Whole w)
    (htick : trigger.schedule.IsTick tick) (hsin : w.Since tick)
    (hnone : cursor < tick → False) : w.Accounted tick := by
  by_cases hle : tick ≤ cursor
  · exact h.accounted hw tick htick hsin hle
  · exact absurd (lt_of_not_ge hle) hnone

/-- Where nothing has come due, a stream without a watermark starts with everything accounted for. -/
theorem Settled.start (h : trigger.Settled w) {restored : Option Utc} (hnot : trigger.missedTickPolicy ≠ .skip)
    (hrestored : restored = w.watermark)
    (hfr : restored = none → ∀ tick, trigger.schedule.IsTick tick → w.Since tick → ¬ tick ≤ w.clock) :
    trigger.Through w (restored.getD w.clock) := by
  cases hmark : w.watermark with
  | some mark =>
    rw [hrestored, hmark]
    exact h.through mark hmark
  | none =>
    obtain ⟨hfrd, hgaps⟩ := h.fresh hnot hmark
    rw [hrestored, hmark]
    refine ⟨?_, ?_, ?_, fun _ tick htick hsin hle => ?_⟩
    · rw [hfrd]
      exact fun _ hf => absurd hf List.not_mem_nil
    · rw [hmark]
      exact fun _ hsome => by cases hsome
    · rw [hgaps]
      exact fun _ hgap => absurd hgap List.not_mem_nil
    · exact absurd hle (hfr (hrestored.trans hmark) tick htick hsin)

/-- The event of a tick that the stream slept for. -/
theorem plan_live {whole : Prop} {cursor tick : Utc} (h : trigger.schedule.after cursor = some tick) :
    trigger.Plan whole cursor [trigger.live tick] tick := by
  have hthr : (trigger.live tick).through = tick := by
    unfold Due.through live
    dsimp only
    split
    next => rfl
    next => rfl
  refine ⟨⟨trigger.schedule.lt _ _ h, le_of_eq hthr.symm, Ticks.isTick_of_after h, ?_, fun _ hgap => by cases hgap⟩,
    ?_, ?_⟩
  · rw [hthr]
    rfl
  · intro _ other hoth hlt hle
    rw [hthr] at hle
    exact le_antisymm hle (Ticks.le_of_isTick h hoth hlt)
  · rw [hthr]
    exact plan_nil tick

theorem CronInv.write {next : Then} (h : trigger.CronInv w)
    (hph : w.phase = .emitting (due :: rest) next) : trigger.CronInv { w with
      watermark := due.mark.or w.watermark
      gaps := w.gaps ++ due.gap.toList
      phase := .yielding due rest next } := by
  have hstds := h.stands
  rw [hph] at hstds
  obtain ⟨hset, floor, hthr, ⟨hdue, honly, hplan⟩, hlate⟩ := hstds
  have hgap : ∀ gap, due.gap = some gap → ∀ old ∈ w.gaps, old.1 < gap.1 := fun gap hsome old hold =>
    lt_of_lt_of_le (hthr.gaps old hold) (hdue.gap gap hsome).2.1
  have hsta : floor < due.through := lt_of_lt_of_le hdue.later hdue.through
  refine ⟨⟨⟨?_, hdue.through, ?_, ?_, ?_, ?_⟩, hplan, hlate⟩, h.sorted, h.waited, ?_, ?_, ?_, ?_, h.lost⟩
  · exact fun f hf => lt_of_le_of_lt (hthr.fired f hf) hdue.later
  · intro hskip
    obtain ⟨hnone, hemp, hfrd⟩ := hset.skip hskip
    have hmark : due.mark = none := by rw [hdue.mark, if_pos hskip]
    have hspan : due.gap = none := by
      cases hsome : due.gap with
      | none => rfl
      | some gap => exact absurd hskip (hdue.gap gap hsome).1
    dsimp only
    rw [hmark, hnone, hemp, hspan]
    exact ⟨rfl, rfl, hfrd⟩
  · intro hnot
    dsimp only
    rw [hdue.mark, if_neg hnot]
    rfl
  · intro gap hmem
    rcases List.mem_append.mp hmem with hold | hnew
    · exact lt_trans (hthr.gaps gap hold) hsta
    · have hsome := Option.mem_toList.mp hnew
      exact lt_of_lt_of_le (hdue.gap gap hsome).2.2.1 hdue.through
  · intro hw tick htick hsin hle
    by_cases hflr : tick ≤ floor
    · exact .inl (hthr.accounted hw tick htick hsin hflr)
    · exact .inr (honly hw tick htick (lt_of_not_ge hflr) hle)
  · intro hnone
    have hidle := (h.began hnone).1
    rw [hph] at hidle
    cases hidle
  · have hcovd := h.covered
    unfold CronWorld.covered at hcovd ⊢
    rw [hph] at hcovd
    simp only [Phase.unsent, List.append_nil] at hcovd ⊢
    rw [List.filterMap_append]
    refine hcovd.append ?_
    cases hsome : due.gap with
    | none => simp [hsome]
    | some gap => simp [hsome]
  · refine List.nodup_append.mpr ⟨h.once, ?_, fun old hold gap hnew heq => ?_⟩
    · cases due.gap with
      | none => exact List.nodup_nil
      | some gap => exact List.pairwise_singleton _ gap
    · subst heq
      exact lt_irrefl _ (hgap old (Option.mem_toList.mp hnew) old hold)
  · intro gap hmem
    rcases List.mem_append.mp hmem with hold | hnew
    · exact h.ticked gap hold
    · obtain ⟨-, -, hlt, hle⟩ := hdue.gap gap (Option.mem_toList.mp hnew)
      exact ⟨due.scheduledFor, hdue.tick, hlt, hle⟩

theorem CronInv.fire {next : Then} {now : Utc} (h : trigger.CronInv w)
    (hph : w.phase = .yielding due rest next) : trigger.CronInv { w with
      fired := w.fired ++ [⟨due, now⟩]
      phase := .emitting rest next } := by
  have hstds := h.stands
  rw [hph] at hstds
  obtain ⟨hpend, hplan, hlate⟩ := hstds
  have hdue : trigger.missedTickPolicy = .skip → due.scheduledFor ≤ w.clock := fun hskip =>
    le_trans hpend.through (le_trans hplan.le (hlate hskip))
  obtain ⟨hset, hthr⟩ := @Pending.fire trigger w { w with
    fired := w.fired ++ [⟨due, now⟩]
    phase := .emitting rest next } due hpend now hdue rfl rfl rfl rfl rfl rfl rfl
  refine ⟨⟨hset, due.through, hthr, hplan, hlate⟩, ?_, ?_, ?_, ?_, h.once, h.ticked, h.lost⟩
  · rw [List.map_append, List.map_singleton, List.pairwise_append]
    refine ⟨h.sorted, List.pairwise_singleton _ _, fun tick htick last hlast => ?_⟩
    obtain ⟨f, hf, rfl⟩ := List.mem_map.mp htick
    obtain rfl := List.mem_singleton.mp hlast
    exact hpend.later f hf
  · intro hw waited hsome tick htick hsin hle
    rcases h.waited hw waited hsome tick htick hsin hle with hin | hin
    · refine .inl ?_
      rw [List.map_append]
      exact List.mem_append_left _ hin
    · exact .inr hin
  · intro hnone
    have hidle := (h.began hnone).1
    rw [hph] at hidle
    cases hidle
  · have hcovd := h.covered
    refine hcovd.trans ?_
    unfold CronWorld.covered
    rw [hph]
    simp only [Phase.unsent, List.append_nil, List.map_append, List.map_singleton, List.append_assoc]
    refine List.Perm.filterMap _ ?_
    exact List.Perm.append_left _ List.perm_append_comm

/-- The condition on a poll: no tick has come due when a stream starts without a watermark. -/
def StartsFresh (trigger : CronTrigger) (w : CronWorld) (now : Utc) : Prop :=
  w.phase = .subscribed none → trigger.missedTickPolicy ≠ .skip →
    ∀ tick, trigger.schedule.IsTick tick → w.Since tick → ¬ tick ≤ now

/-- One step of the stream keeps the invariant. -/
theorem CronInv.advance (h : trigger.CronInv w) (hfr : trigger.StartsFresh w w.clock)
    (hstep : trigger.advance w w.clock = some w') : trigger.CronInv w' := by
  have hstds := h.stands
  unfold CronTrigger.advance at hstep
  cases hph : w.phase with
  | idle =>
    rw [hph] at hstep
    cases hstep
  | subscribed restored =>
    rw [hph] at hstep hstds
    obtain rfl := Option.some.inj hstep
    have hsame : SameRecords w { w with phase := .top (restored.getD w.clock) } :=
      ⟨rfl, rfl, rfl, rfl, rfl, fun h => h, le_refl _⟩
    refine h.quiet hsame rfl (by rw [hph]; rfl) (by rw [hph]; exact Phase.noConfusion)
      ⟨hstds.1.same hsame, fun hnot => ?_⟩ (.inl rfl)
    have hrestored := hstds.2
    rw [if_neg hnot] at hrestored
    exact (hstds.1.start hnot hrestored fun hnone => hfr (by rw [hph, hnone]) hnot).same hsame
  | top cursor =>
    rw [hph] at hstep hstds
    dsimp only at hstep
    by_cases hskip : trigger.missedTickPolicy = .skip
    · rw [if_pos hskip] at hstep
      obtain rfl := Option.some.inj hstep
      have hsame : SameRecords w { w with phase := .choosing w.clock } :=
        ⟨rfl, rfl, rfl, rfl, rfl, fun h => h, le_refl _⟩
      obtain ⟨hnone, hemp, hfrd⟩ := hstds.1.skip hskip
      refine h.quiet hsame rfl (by rw [hph]; rfl) (by rw [hph]; exact Phase.noConfusion)
        ⟨hstds.1.same hsame, Through.same ⟨hfrd, ?_, ?_, fun hw => ?_⟩ hsame⟩ (.inl rfl)
      · rw [hnone]
        exact fun _ hsome => by cases hsome
      · rw [hemp]
        exact fun _ hgap => absurd hgap List.not_mem_nil
      · have hall := hw.1
        rw [hskip] at hall
        cases hall
    · rw [if_neg hskip] at hstep
      have hplan := @plan_catchUp trigger
        (trigger.missedTickPolicy = .all ∧
          (trigger.schedule.elapsed cursor w.clock trigger.maxCatchUp).2 = false) cursor w.clock hskip (fun hw => hw)
      generalize trigger.schedule.elapsed cursor w.clock trigger.maxCatchUp = elapsed at hstep hplan
      obtain ⟨missed, truncated⟩ := elapsed
      dsimp only at hstep hplan
      obtain rfl := Option.some.inj hstep
      refine CronInv.quiet (w := w) h ⟨rfl, rfl, rfl, rfl, rfl, fun hcut => ?_, le_refl _⟩ rfl (by rw [hph]; rfl)
        (by rw [hph]; exact Phase.noConfusion) ?_ (.inl rfl)
      · exact (Bool.or_eq_false_iff.mp hcut).1
      · have hsame : SameRecords w { w with
            phase := .emitting (trigger.catchUp cursor w.clock missed truncated)
              (.waits (if truncated then w.clock else missed.getLast?.getD cursor))
            cutOff := w.cutOff || truncated } :=
          ⟨rfl, rfl, rfl, rfl, rfl, fun hcut => (Bool.or_eq_false_iff.mp hcut).1, le_refl _⟩
        refine ⟨hstds.1.same hsame, cursor, (hstds.2 hskip).same hsame, hplan.mono fun hw => ?_,
          fun hnot => absurd hnot hskip⟩
        exact ⟨hw.1, (Bool.or_eq_false_iff.mp hw.2).2⟩
  | emitting rest next =>
    cases rest with
    | nil =>
      rw [hph] at hstds
      obtain ⟨hset, floor, hthr, hplan, -⟩ := hstds
      have hend := hthr.mono hplan.1 hplan.2
      cases next with
      | waits cursor =>
        rw [hph] at hstep
        obtain rfl := Option.some.inj hstep
        have hsame : SameRecords w { w with phase := .choosing cursor } :=
          ⟨rfl, rfl, rfl, rfl, rfl, fun h => h, le_refl _⟩
        exact h.quiet hsame rfl (by rw [hph]; rfl) (by rw [hph]; exact Phase.noConfusion)
          ⟨hset.same hsame, hend.same hsame⟩ (.inl rfl)
      | loops cursor =>
        rw [hph] at hstep
        obtain rfl := Option.some.inj hstep
        have hsame : SameRecords w { w with phase := .top cursor } :=
          ⟨rfl, rfl, rfl, rfl, rfl, fun h => h, le_refl _⟩
        exact h.quiet hsame rfl (by rw [hph]; rfl) (by rw [hph]; exact Phase.noConfusion)
          ⟨hset.same hsame, fun _ => hend.same hsame⟩ (.inl rfl)
    | cons due rest =>
      rw [hph] at hstep
      obtain rfl := Option.some.inj hstep
      exact h.write hph
  | yielding due rest next =>
    rw [hph] at hstep
    obtain rfl := Option.some.inj hstep
    exact h.fire hph
  | choosing cursor =>
    rw [hph] at hstep hstds
    dsimp only at hstep
    obtain ⟨hset, hthr⟩ := hstds
    cases haft : trigger.schedule.after cursor with
    | none =>
      rw [haft] at hstep
      obtain rfl := Option.some.inj hstep
      have hsame : SameRecords w { w with phase := .exhausted, waited := some w.clock } :=
        ⟨rfl, rfl, rfl, rfl, rfl, fun h => h, le_refl _⟩
      refine h.quiet hsame rfl (by rw [hph]; rfl) (by rw [hph]; exact Phase.noConfusion)
        ⟨hset.same hsame, cursor, haft, hthr.same hsame⟩ (.inr fun hw tick htick hsin _ _ _ => ?_)
      exact hthr.accounted_before hw htick hsin fun hlt => Ticks.not_isTick_of_none haft hlt htick
    | some nextTick =>
      rw [haft] at hstep
      obtain rfl := Option.some.inj hstep
      have hsame : SameRecords w { w with
          phase := .sleeping nextTick
          waited := if w.clock < nextTick then some w.clock else w.waited } :=
        ⟨rfl, rfl, rfl, rfl, rfl, fun h => h, le_refl _⟩
      refine h.quiet hsame rfl (by rw [hph]; rfl) (by rw [hph]; exact Phase.noConfusion)
        ⟨hset.same hsame, cursor, haft, hthr.same hsame⟩ ?_
      by_cases hlt : w.clock < nextTick
      · refine .inr fun hw tick htick hsin waited hsome hle => ?_
        dsimp only at hsome
        rw [if_pos hlt] at hsome
        obtain rfl := Option.some.inj hsome
        refine hthr.accounted_before hw htick hsin fun hcursor => ?_
        exact not_lt_of_ge (le_trans (Ticks.le_of_isTick haft htick hcursor) hle) hlt
      · exact .inl (if_neg hlt)
  | sleeping nextTick =>
    rw [hph] at hstep hstds
    dsimp only at hstep
    obtain ⟨hset, cursor, haft, hthr⟩ := hstds
    by_cases hwoke : nextTick ≤ w.clock
    · rw [if_pos hwoke] at hstep
      obtain rfl := Option.some.inj hstep
      have hsame : SameRecords w { w with phase := .emitting [trigger.live nextTick] (.loops nextTick) } :=
        ⟨rfl, rfl, rfl, rfl, rfl, fun h => h, le_refl _⟩
      exact h.quiet hsame rfl (by rw [hph]; rfl) (by rw [hph]; exact Phase.noConfusion)
        ⟨hset.same hsame, cursor, hthr.same hsame, plan_live haft, fun _ => hwoke⟩ (.inl rfl)
    · rw [if_neg hwoke] at hstep
      obtain rfl := Option.some.inj hstep
      have hsame : SameRecords w { w with phase := .sleeping nextTick, waited := some w.clock } :=
        ⟨rfl, rfl, rfl, rfl, rfl, fun h => h, le_refl _⟩
      refine h.quiet hsame rfl (by rw [hph]) (by rw [hph]; exact Phase.noConfusion)
        ⟨hset.same hsame, cursor, haft, hthr.same hsame⟩
        (.inr fun hw tick htick hsin waited hsome hle => ?_)
      obtain rfl := Option.some.inj hsome
      refine hthr.accounted_before hw htick hsin fun hcursor => ?_
      exact hwoke (le_trans (Ticks.le_of_isTick haft htick hcursor) hle)
  | exhausted =>
    rw [hph] at hstep hstds
    obtain rfl := Option.some.inj hstep
    obtain ⟨hset, cursor, haft, hthr⟩ := hstds
    have hsame : SameRecords w { w with phase := .exhausted, waited := some w.clock } :=
      ⟨rfl, rfl, rfl, rfl, rfl, fun h => h, le_refl _⟩
    refine h.quiet hsame rfl (by rw [hph]) (by rw [hph]; exact Phase.noConfusion)
      ⟨hset.same hsame, cursor, haft, hthr.same hsame⟩
      (.inr fun hw tick htick hsin _ _ _ => ?_)
    exact hthr.accounted_before hw htick hsin fun hlt => Ticks.not_isTick_of_none haft hlt htick

/-! ## Runs -/

def Careful (trigger : CronTrigger) (w : CronWorld) : CronMove → Prop
  | .poll now => trigger.StartsFresh w now
  | _ => True

/-- The worlds that some moves lead to, each of them as a condition has it. -/
inductive Reaches (trigger : CronTrigger) (acts : CronWorld → CronMove → Prop) (clock : Utc) : CronWorld → Prop where
  | start : Reaches trigger acts clock { clock }
  | step {w w' : CronWorld} {move : CronMove} (h : Reaches trigger acts clock w) (hacts : acts w move)
      (hstep : trigger.step w move = some w') : Reaches trigger acts clock w'

theorem cronInv_start (clock : Utc) : trigger.CronInv { clock } where
  stands := ⟨fun _ => ⟨rfl, rfl, fun _ hf => absurd hf List.not_mem_nil⟩,
    fun _ hsome => absurd hsome (Option.some_ne_none _).symm, fun _ _ => ⟨rfl, rfl⟩⟩
  sorted := .nil
  waited _ _ hsome := by cases hsome
  began _ := ⟨rfl, rfl, rfl⟩
  covered := .nil
  once := .nil
  ticked _ hgap := absurd hgap List.not_mem_nil
  lost := Nat.le_refl 0

theorem CronInv.subscribe (h : trigger.CronInv w) (hidle : w.phase = .idle) {now : Utc} (hle : w.clock ≤ now) :
    trigger.CronInv { w with
      clock := now
      began := w.began.or (some now)
      phase := .subscribed (if trigger.missedTickPolicy = .skip then none else w.watermark) } := by
  have hset := h.stands
  rw [hidle] at hset
  have hcovd := h.covered
  unfold CronWorld.covered at hcovd
  rw [hidle] at hcovd
  -- what was accounted for was so from the first subscription on
  have hsin : ∀ tick, w.began ≠ none → CronWorld.Since { w with
      clock := now
      began := w.began.or (some now)
      phase := .subscribed (if trigger.missedTickPolicy = .skip then none else w.watermark) } tick → w.Since tick := by
    rintro tick hsome ⟨began, hbgn, hlt⟩
    obtain ⟨first, hfst⟩ := Option.ne_none_iff_exists'.mp hsome
    dsimp only at hbgn
    rw [hfst] at hbgn
    exact ⟨first, hfst, by rwa [Option.some.inj hbgn]⟩
  refine ⟨⟨⟨fun hskip => ?_, fun mark hmark => ?_, hset.fresh⟩, rfl⟩, h.sorted, ?_, fun hnone => ?_, hcovd, h.once,
    h.ticked, h.lost⟩
  · obtain ⟨hnone, hemp, hfrd⟩ := hset.skip hskip
    exact ⟨hnone, hemp, fun f hf => le_trans (hfrd f hf) hle⟩
  · have hthr := hset.through mark hmark
    have hsome : w.began ≠ none := by
      intro hnone
      have hfr := (h.began hnone).2.1
      rw [hfr] at hmark
      cases hmark
    exact ⟨hthr.fired, hthr.watermark, hthr.gaps,
      fun hw tick htick htickSince hend => hthr.accounted hw tick htick (hsin tick hsome htickSince) hend⟩
  · intro hw waited hwaited tick htick htickSince hend
    have hsome : w.began ≠ none := by
      intro hnone
      have hfr := (h.began hnone).2.2
      rw [hfr] at hwaited
      cases hwaited
    exact h.waited hw waited hwaited tick htick (hsin tick hsome htickSince) hend
  · cases hbgn : w.began with
    | none =>
      rw [hbgn] at hnone
      cases hnone
    | some began =>
      rw [hbgn] at hnone
      cases hnone

/-- A subscription ends, at any point. -/
theorem CronInv.stop (h : trigger.CronInv w) (hact : w.phase ≠ .idle) : trigger.CronInv { w with
    phase := .idle
    lost := w.lost ++ w.phase.unsent
    ended := w.ended + 1 } := by
  have hstds := h.stands
  have hunsent : w.phase.unsent.length ≤ 1 := by
    cases w.phase with
    | yielding due rest next => exact Nat.le_refl 1
    | _ => exact Nat.zero_le 1
  refine ⟨?_, h.sorted, ?_, fun hnone => absurd (h.began hnone).1 hact, ?_, h.once, h.ticked, ?_⟩
  · -- an event whose watermark was written is lost, and any other stays due
    have hkept : w.phase.unsent = [] → trigger.Settled w → trigger.Settled { w with
        phase := .idle
        lost := w.lost ++ w.phase.unsent
        ended := w.ended + 1 } := by
      intro hemp hset
      exact hset.same ⟨rfl, by rw [hemp, List.append_nil], rfl, rfl, rfl, fun h => h, le_refl _⟩
    cases hph : w.phase with
    | idle => exact absurd hph hact
    | subscribed restored =>
      rw [hph] at hstds hkept
      exact hkept rfl hstds.1
    | top cursor =>
      rw [hph] at hstds hkept
      exact hkept rfl hstds.1
    | emitting rest next =>
      rw [hph] at hstds hkept
      exact hkept rfl hstds.1
    | yielding due rest next =>
      rw [hph] at hstds
      exact hstds.1.settled rfl rfl rfl rfl rfl rfl rfl
    | choosing cursor =>
      rw [hph] at hstds hkept
      exact hkept rfl hstds.1
    | sleeping nextTick =>
      rw [hph] at hstds hkept
      exact hkept rfl hstds.1
    | exhausted =>
      rw [hph] at hstds hkept
      exact hkept rfl hstds.1
  · intro hw waited hsome tick htick hsin hle
    rcases h.waited hw waited hsome tick htick hsin hle with hin | hin
    · exact .inl hin
    · refine .inr ?_
      rw [List.map_append]
      exact List.mem_append_left _ hin
  · refine h.covered.trans (List.Perm.of_eq ?_)
    unfold CronWorld.covered
    simp only [Phase.unsent, List.append_nil, List.append_assoc]
  · dsimp only
    rw [List.length_append]
    exact Nat.add_le_add h.lost hunsent

/-- Every step keeps the invariant. -/
theorem CronInv.step {move : CronMove} (h : trigger.CronInv w) (hacts : trigger.Careful w move)
    (hstep : trigger.step w move = some w') : trigger.CronInv w' := by
  cases move with
  | subscribe now =>
    dsimp only [CronTrigger.step] at hstep
    by_cases hidle : w.phase = .idle ∧ w.clock ≤ now
    · rw [if_pos hidle] at hstep
      obtain rfl := Option.some.inj hstep
      exact h.subscribe hidle.1 hidle.2
    · rw [if_neg hidle] at hstep
      cases hstep
  | poll now =>
    dsimp only [CronTrigger.step] at hstep
    by_cases hle : w.clock ≤ now
    · rw [if_pos hle] at hstep
      exact (h.later hle).advance hacts hstep
    · rw [if_neg hle] at hstep
      cases hstep
  | stop =>
    dsimp only [CronTrigger.step] at hstep
    by_cases hidle : w.phase = .idle
    · rw [if_pos hidle] at hstep
      cases hstep
    · rw [if_neg hidle] at hstep
      obtain rfl := Option.some.inj hstep
      exact h.stop hidle

/-- **The invariant holds in every run in which streams start fresh.** -/
theorem Reaches.inv {clock : Utc} (h : Reaches trigger trigger.Careful clock w) : trigger.CronInv w := by
  induction h with
  | start => exact cronInv_start clock
  | step h hacts hstep ih => exact ih.step hacts hstep

theorem CronInv.watermark_le {move : CronMove} (h : trigger.CronInv w) (hstep : trigger.step w move = some w')
    {mark : Utc} (hmark : w.watermark = some mark) : ∃ mark', w'.watermark = some mark' ∧ mark ≤ mark' := by
  cases move with
  | subscribe now =>
    dsimp only [CronTrigger.step] at hstep
    by_cases hidle : w.phase = .idle ∧ w.clock ≤ now
    · rw [if_pos hidle] at hstep
      obtain rfl := Option.some.inj hstep
      exact ⟨mark, hmark, le_refl _⟩
    · rw [if_neg hidle] at hstep
      cases hstep
  | stop =>
    dsimp only [CronTrigger.step] at hstep
    by_cases hidle : w.phase = .idle
    · rw [if_pos hidle] at hstep
      cases hstep
    · rw [if_neg hidle] at hstep
      obtain rfl := Option.some.inj hstep
      exact ⟨mark, hmark, le_refl _⟩
  | poll now =>
    dsimp only [CronTrigger.step] at hstep
    by_cases hle : w.clock ≤ now
    · rw [if_pos hle] at hstep
      have hstds := h.stands
      unfold CronTrigger.advance at hstep
      dsimp only at hstep
      cases hph : w.phase with
      | emitting rest next =>
        cases rest with
        | nil =>
          rw [hph] at hstep
          cases next with
          | waits cursor =>
            obtain rfl := Option.some.inj hstep
            exact ⟨mark, hmark, le_refl _⟩
          | loops cursor =>
            obtain rfl := Option.some.inj hstep
            exact ⟨mark, hmark, le_refl _⟩
        | cons due rest =>
          -- the one step that writes, and what is due is later than what was accounted for
          rw [hph] at hstep hstds
          obtain rfl := Option.some.inj hstep
          obtain ⟨-, floor, hthr, ⟨hdue, -, -⟩, -⟩ := hstds
          cases hsome : due.mark with
          | none => exact ⟨mark, hmark, le_refl _⟩
          | some mark' =>
            have heq : due.through = mark' := by
              unfold Due.through
              rw [hsome]
              rfl
            have hlat := lt_of_lt_of_le hdue.later hdue.through
            rw [heq] at hlat
            exact ⟨mark', rfl, le_of_lt (lt_of_le_of_lt (hthr.watermark mark hmark) hlat)⟩
      | idle =>
        rw [hph] at hstep
        cases hstep
      | top cursor =>
        rw [hph] at hstep
        dsimp only at hstep
        by_cases hskip : trigger.missedTickPolicy = .skip
        · rw [if_pos hskip] at hstep
          obtain rfl := Option.some.inj hstep
          exact ⟨mark, hmark, le_refl _⟩
        · rw [if_neg hskip] at hstep
          generalize trigger.schedule.elapsed cursor now trigger.maxCatchUp = elapsed at hstep
          obtain ⟨missed, truncated⟩ := elapsed
          obtain rfl := Option.some.inj hstep
          exact ⟨mark, hmark, le_refl _⟩
      | choosing cursor =>
        rw [hph] at hstep
        dsimp only at hstep
        cases haft : trigger.schedule.after cursor with
        | none =>
          rw [haft] at hstep
          obtain rfl := Option.some.inj hstep
          exact ⟨mark, hmark, le_refl _⟩
        | some nextTick =>
          rw [haft] at hstep
          obtain rfl := Option.some.inj hstep
          exact ⟨mark, hmark, le_refl _⟩
      | sleeping nextTick =>
        rw [hph] at hstep
        dsimp only at hstep
        by_cases hwoke : nextTick ≤ now
        · rw [if_pos hwoke] at hstep
          obtain rfl := Option.some.inj hstep
          exact ⟨mark, hmark, le_refl _⟩
        · rw [if_neg hwoke] at hstep
          obtain rfl := Option.some.inj hstep
          exact ⟨mark, hmark, le_refl _⟩
      | subscribed restored =>
        rw [hph] at hstep
        obtain rfl := Option.some.inj hstep
        exact ⟨mark, hmark, le_refl _⟩
      | yielding due rest next =>
        rw [hph] at hstep
        obtain rfl := Option.some.inj hstep
        exact ⟨mark, hmark, le_refl _⟩
      | exhausted =>
        rw [hph] at hstep
        obtain rfl := Option.some.inj hstep
        exact ⟨mark, hmark, le_refl _⟩
    · rw [if_neg hle] at hstep
      cases hstep

/-- Every tick since the first subscription, up to the last poll that found nothing due, was fired, or is one whose
event was lost after its watermark was written. -/
def Replays (trigger : CronTrigger) (w : CronWorld) : Prop :=
  trigger.missedTickPolicy = .all → w.cutOff = false → ∀ waited, w.waited = some waited →
    ∀ tick, trigger.schedule.IsTick tick → w.Since tick → tick ≤ waited → w.Accounted tick

/-- Each gap yields exactly one event, whatever happens. -/
def Coalesces (trigger : CronTrigger) (w : CronWorld) : Prop :=
  trigger.missedTickPolicy = .coalesceOne →
    w.gaps.Perm ((w.fired.map (·.due) ++ w.phase.unsent).filterMap (·.gap))

structure FiresOnce (trigger : CronTrigger) (w : CronWorld) : Prop where
  once : (w.fired.map (·.due.scheduledFor)).Nodup
  inOrder : (w.fired.map (·.due.scheduledFor)).Pairwise (· < ·)
  replays : trigger.Replays w
  lost : w.lost.length ≤ w.ended
  /-- Each gap contains a tick, and yields exactly one event, or one that was lost. -/
  ticked : ∀ gap ∈ w.gaps, ∃ tick, trigger.schedule.IsTick tick ∧ gap.1 < tick ∧ tick ≤ gap.2
  gaps : w.gaps.Nodup
  coalesces : w.gaps.Perm w.covered
  watermark : ∀ move w', trigger.step w move = some w' → ∀ mark, w.watermark = some mark →
    ∃ mark', w'.watermark = some mark' ∧ mark ≤ mark'

def oneTick (tick : Utc) : Ticks Utc where
  after cursor := if cursor < tick then some tick else none
  lt cursor other h := by
    by_cases hlt : cursor < tick
    · rw [if_pos hlt] at h
      rwa [← Option.some.inj h]
    · rw [if_neg hlt] at h
      cases h
  first cursor later other h _ hless := by
    by_cases hlt : cursor < tick
    · rw [if_pos hlt] at h
      rw [← Option.some.inj h] at hless ⊢
      exact if_pos hless
    · rw [if_neg hlt] at h
      cases h
  last cursor later h hle := by
    by_cases hlt : cursor < tick
    · rw [if_pos hlt] at h
      cases h
    · exact if_neg fun hless => hlt (lt_of_le_of_lt hle hless)

def tickAt10 (missedTickPolicy : MissedTickPolicy) : CronTrigger where
  expression := "* * * * * *"
  schedule := oneTick 10
  missedTickPolicy

theorem isTick_tickAt10 (policy : MissedTickPolicy) : (tickAt10 policy).schedule.IsTick 10 := ⟨0, rfl⟩

theorem reaches_run {acts : CronWorld → CronMove → Prop} {clock : Utc} (hacts : ∀ w move, acts w move)
    {moves : List CronMove} (h : Reaches trigger acts clock w) (hrun : trigger.run w moves = some w') :
    Reaches trigger acts clock w' := by
  induction moves generalizing w with
  | nil =>
    obtain rfl := Option.some.inj hrun
    exact h
  | cons move moves ih =>
    obtain ⟨next, hstep, hrest⟩ := Option.bind_eq_some_iff.mp hrun
    exact ih (h.step (hacts w move) hstep) hrest

/-- A stream that ends before the tick at 10, and one that starts after it. -/
def endedEarly : List CronMove := [
  .subscribe 0, .poll 0, .poll 0, .poll 0, .poll 0, .stop,
  .subscribe 20, .poll 20, .poll 20, .poll 20, .poll 20]

/-- A process that stops between the watermark of the tick at 10 and its event. -/
def endedBetween : List CronMove := [
  .subscribe 0, .poll 0, .poll 10, .poll 10, .stop]

end CronTrigger

end Ambient

end Adk
