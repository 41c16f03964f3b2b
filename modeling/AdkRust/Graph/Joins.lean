import AdkRust.Graph.Advance
import AdkRust.Graph.StepFrame

/-!
# Joins over a whole run

* `Consistent`: what holds between any two super-steps of a thread, through its pauses, failures and
  resumes (`Reaches.consistent`): the trackers and the journal agree, the frontier has no node twice,
  and a thread with nothing left to run has no join waiting.
-/

namespace Adk

/-! ## Field lemmas -/

namespace Exec

@[simp] theorem rearmGate_pendingDeferred (e : Exec) (executed : List String) :
    (e.rearmGate executed).pendingDeferred = e.pendingDeferred := by
  unfold rearmGate; split <;> rfl

@[simp] theorem rearmGate_abandonedArrivals (e : Exec) (executed : List String) :
    (e.rearmGate executed).abandonedArrivals = e.abandonedArrivals := by
  unfold rearmGate; split <;> rfl

@[simp] theorem rearmGate_journal (e : Exec) (executed : List String) :
    (e.rearmGate executed).journal = e.journal := by
  unfold rearmGate; split <;> rfl

@[simp] theorem rearmGate_pendingNodes (e : Exec) (executed : List String) :
    (e.rearmGate executed).pendingNodes = e.pendingNodes := by
  unfold rearmGate; split <;> rfl

@[simp] theorem rearmGate_pendingWrites (e : Exec) (executed : List String) :
    (e.rearmGate executed).pendingWrites = e.pendingWrites := by
  unfold rearmGate; split <;> rfl

@[simp] theorem rearmGate_state (e : Exec) (executed : List String) :
    (e.rearmGate executed).state = e.state := by
  unfold rearmGate; split <;> rfl

/-- The frontier and the fan-in nodes of two executors are the same. -/
structure SameJoins (e e' : Exec) : Prop where
  pendingNodes : e'.pendingNodes = e.pendingNodes
  pendingDeferred : e'.pendingDeferred = e.pendingDeferred
  abandonedArrivals : e'.abandonedArrivals = e.abandonedArrivals
  journal : e'.journal = e.journal

theorem SameJoins.of_flow {e e' : Exec} (h : e'.flow = e.flow) : SameJoins e e' :=
  ⟨congrArg (·.pendingNodes) h, congrArg (·.pendingDeferred) h, congrArg (·.abandonedArrivals) h,
    congrArg (·.journal) h⟩

theorem SameJoins.trans {e e' e'' : Exec} (h : SameJoins e e') (h' : SameJoins e' e'') :
    SameJoins e e'' :=
  ⟨h'.1.trans h.1, h'.2.trans h.2, h'.3.trans h.3, h'.4.trans h.4⟩

theorem SameJoins.settle (style : Style) (e : Exec) : SameJoins e (style.settle e) := by
  unfold Style.settle
  split <;> exact ⟨rfl, rfl, rfl, rfl⟩

theorem SameJoins.rearmGate (e : Exec) (executed : List String) :
    SameJoins e (e.rearmGate executed) :=
  ⟨by simp, by simp, by simp, by simp⟩

/-! ## The end of a super-step -/

theorem completeStep_spec {g : CompiledGraph} {e e' : Exec} {result : SuperStepResult} {now : Clock}
    (h : completeStep g e result now = .ok e') :
    ∃ e₁ frontier, advanceFrontier g (e.rearmGate result.executedNodes) result [] now =
        .ok (e₁, frontier) ∧ SameJoins { e₁ with pendingNodes := frontier } e' ∧
      e'.pendingWrites = e₁.pendingWrites := by
  rw [completeStep, bind_eq_ok] at h
  obtain ⟨⟨e₁, frontier⟩, ha, h⟩ := h
  cases h
  exact ⟨e₁, frontier, ha, ⟨rfl, rfl, rfl, rfl⟩, rfl⟩

/-- Where a super-step that paused leaves the frontier: a gate before a node leaves it as it is, and
any other pause keeps the nodes in `paused` on it. -/
theorem pauseFrontier_spec {g : CompiledGraph} {e e' : Exec} {result : SuperStepResult} {now : Clock}
    (hi : result.interrupts ≠ []) (h : pauseFrontier g e result now = .ok e') :
    ((∃ node gate more, result.interrupts = (node, .before gate) :: more) ∧ SameJoins e e' ∧
        e'.pendingWrites = e.pendingWrites) ∨
      (∀ node gate more, result.interrupts ≠ (node, .before gate) :: more) ∧
        ∃ paused e₁ frontier, advanceFrontier g e result paused now = .ok (e₁, frontier) ∧
          paused ⊆ e.pendingNodes ∧
          SameJoins { e₁ with pendingNodes := paused.foldl pushName frontier } e' ∧
          e'.pendingWrites = e₁.pendingWrites := by
  rw [pauseFrontier] at h
  split at h
  · exact absurd ‹_› hi
  · rename_i node gate more heq
    cases h
    exact .inl ⟨⟨node, gate, more, heq⟩, ⟨rfl, rfl, rfl, rfl⟩, rfl⟩
  · rename_i heq
    obtain ⟨⟨e₁, frontier⟩, ha, h⟩ := bind_eq_ok.mp h
    cases h
    refine .inr ⟨by simp [heq], [], e₁, frontier, ha, by simp, ?_, by simp [settleChildLedger]⟩
    exact ⟨by simp [settleChildLedger], by simp [settleChildLedger], by simp [settleChildLedger],
      by simp [settleChildLedger]⟩
  · rename_i heq
    obtain ⟨⟨e₁, frontier⟩, ha, h⟩ := bind_eq_ok.mp h
    cases h
    refine .inr ⟨by simp [heq], _, e₁, frontier, ha, List.filter_sublist.subset, ?_,
      by simp [settleChildLedger]⟩
    exact ⟨by simp [settleChildLedger], by simp [settleChildLedger], by simp [settleChildLedger],
      by simp [settleChildLedger]⟩

end Exec

namespace Timeline

open Exec

variable {g : CompiledGraph}

/-! ## What a step does to the joins -/

theorem routesOf_eq {e : Exec} {result : SuperStepResult} {candidates : List String}
    {routes : List Route} (hi : ∀ node gate more, result.interrupts ≠ (node, .before gate) :: more)
    (h : nextFrontier g e result.executedNodes result.goto = .ok (candidates, routes)) :
    routesOf g e result = routes := by
  unfold routesOf
  split
  · exact (hi _ _ _ ‹_›).elim
  · rename_i heq _
    rw [h] at heq
    cases heq
    rfl
  · rename_i heq _
    rw [h] at heq
    cases heq

/-- What one step of a timeline does to the frontier and to the fan-in nodes. -/
inductive JoinStep (g : CompiledGraph) (e : Exec) (event : Event) (e' : Exec) : Prop where
  /-- It leaves them as they are. -/
  | still (hp : e'.pendingNodes = e.pendingNodes) (hd : e'.pendingDeferred = e.pendingDeferred)
      (ha : e'.abandonedArrivals = e.abandonedArrivals) (hj : event.journal = [])
      (hq : e'.journal = e.journal ∨ e'.journal = [])
      (hr : event.routes = [] ∨ event.outcome = .lost)
  /-- The frontier advances, and the nodes in `paused` stay on it. -/
  | advanced {e₁ e₂ : Exec} {candidates paused frontier : List String} (h₁ : SameJoins e e₁)
      (hn : nextFrontier g e₁ event.executed event.result.goto = .ok (candidates, event.routes))
      (ha : Advanced g e₁ candidates event.routes event.result.updates paused e₂ frontier)
      (hp : paused ⊆ e.pendingNodes)
      (h₂ : SameJoins { e₂ with pendingNodes := paused.foldl pushName frontier } e')
      (hj : e'.journal = e.journal ++ event.journal)

theorem Executes.executed_subset {style : Style} {config : ExecutionConfig} {e e' : Exec}
    {result : SuperStepResult} (h : Executes g style config e e' (.ok result)) :
    result.executedNodes ⊆ e.pendingNodes := by
  rcases h.ok with ⟨gate, -, -, rfl⟩ | ⟨-, hr⟩
  · simp
  · obtain ⟨own, hsub, -⟩ := hr.pauses
    exact fun n hn => hsub.subset (List.mem_append_left _ hn)

/-- **One step of a timeline.** The nodes it executed were on the frontier. -/
theorem Step.joins {p q : Point} {event : Event} (h : Step g p event q)
    (hs : Saveable g p.exec) (hk : ∀ n ∈ p.exec.pendingDeferred, n ∈ g.deferredConfigs) :
    event.executed ⊆ p.exec.pendingNodes ∧ JoinStep g p.exec event q.exec := by
  cases h with
  | @complete style config e e₁ e₂ result now journal hp hx hi hc hj =>
    have h₁ : SameJoins e (e₁.rearmGate result.executedNodes) :=
      (SameJoins.of_flow hx.flow).trans (.rearmGate _ _)
    obtain ⟨e₃, frontier, ha, h₂, -⟩ := completeStep_spec hc
    obtain ⟨candidates, routes, hn, hadv⟩ := advanceFrontier_spec
      (by rw [h₁.pendingDeferred]; exact hk) ha
    have hrts : routesOf g e₁ result = routes := by
      refine routesOf_eq (by simp [hi]) (.trans ?_ hn)
      simp [nextFrontier]
    refine ⟨hx.executed_subset, .advanced h₁ (by rw [hrts]; exact hn) (by rw [hrts]; exact hadv)
      (List.nil_subset _) (h₂.trans (.settle style e₂)) ?_⟩
    exact (SameJoins.settle style e₂).journal.trans hj
  | @pause style config e e₁ e₂ result now journal hp hx hi hc hj =>
    have h₁ : SameJoins e e₁ := .of_flow hx.flow
    refine ⟨hx.executed_subset, ?_⟩
    rcases pauseFrontier_spec hi hc with ⟨⟨node, gate, more, heq⟩, h₂, -⟩ |
      ⟨hnb, paused, e₃, frontier, ha, hsub, h₂, -⟩
    · have h := (h₁.trans h₂).trans (.settle style e₂)
      have hnil : journal = [] := by
        have := (h₁.trans h₂).journal
        rw [hj] at this
        simpa using this
      exact .still h.pendingNodes h.pendingDeferred h.abandonedArrivals hnil (.inl h.journal)
        (.inl (by simp [routesOf, heq]))
    · obtain ⟨candidates, routes, hn, hadv⟩ := advanceFrontier_spec
        (by rw [h₁.pendingDeferred]; exact hk) ha
      have hrts : routesOf g e₁ result = routes := routesOf_eq hnb hn
      refine .advanced h₁ (by rw [hrts]; exact hn) (by rw [hrts]; exact hadv)
        (by rw [← h₁.pendingNodes]; exact hsub) (h₂.trans (.settle style e₂)) ?_
      exact (SameJoins.settle style e₂).journal.trans hj
  | @fail style config e e₁ error hp hx =>
    have h₁ : SameJoins e e₁ := .of_flow hx.flow
    exact ⟨List.nil_subset _, .still h₁.pendingNodes h₁.pendingDeferred h₁.abandonedArrivals rfl
      (.inl h₁.journal) (.inl rfl)⟩
  | lost hp hx => exact ⟨hx.executed_subset, .still rfl rfl rfl rfl (.inl rfl) (.inr rfl)⟩
  | @resume saved config e e' running now now' id createdAt head input hr =>
    obtain ⟨started, hr'⟩ := restore_checkpoint config hs saved now now' id createdAt head input
    rw [hr'] at hr
    cases hr
    exact ⟨List.nil_subset _, .still rfl rfl rfl rfl (.inr rfl) (.inl rfl)⟩

/-! ## The invariant -/

/-- What holds of an executor between two super-steps, `past` being what its fan-in nodes did before
its own journal began. -/
structure Consistent (g : CompiledGraph) (past : List FanInEvent) (e : Exec) : Prop where
  ledger : Ledger g past e
  noneIdle : NoneIdle e
  nodup : e.pendingNodes.Nodup
  drained : e.pendingNodes = [] → e.pendingDeferred = ∅

namespace Consistent

variable {past : List FanInEvent} {e e' : Exec}

theorem saveable (h : Consistent g past e) : Saveable g e where
  expected node tracker ht := by
    rw [h.ledger.waiting node tracker ht, trackerOf, FanInTracker.recordAll_expected]
    rfl
  abandoned := h.noneIdle

/-- The frontier advances, and the nodes in `paused` stay on it. -/
theorem advanced {e₁ e₂ : Exec} {candidates paused frontier : List String} {routes : List Route}
    {updates : Dict (Dict Value)} (h : Consistent g past e) (h₁ : SameJoins e e₁)
    (ha : Advanced g e₁ candidates routes updates paused e₂ frontier)
    (h₂ : SameJoins { e₂ with pendingNodes := paused.foldl pushName frontier } e') :
    Consistent g past e' := by
  have hl₁ : Ledger g past e₁ := by
    have := h.ledger
    exact ⟨by rw [h₁.pendingDeferred]; exact this.deferred,
      by rw [h₁.pendingDeferred, h₁.journal]; exact this.waiting,
      by rw [h₁.pendingDeferred, h₁.journal]; exact this.idle,
      by rw [h₁.journal]; exact this.released⟩
  have hl₂ := ha.moves.ledger hl₁
  refine ⟨⟨by rw [h₂.pendingDeferred]; exact hl₂.deferred,
      by rw [h₂.pendingDeferred, h₂.journal]; exact hl₂.waiting,
      by rw [h₂.pendingDeferred, h₂.journal]; exact hl₂.idle,
      by rw [h₂.journal]; exact hl₂.released⟩, ?_, ?_, fun hnil => ?_⟩
  · rw [NoneIdle, h₂.abandonedArrivals]
    exact ha.noneIdle
  · rw [h₂.pendingNodes]
    exact nodup_foldl_pushName ha.nodup paused
  · rw [h₂.pendingDeferred]
    rw [h₂.pendingNodes] at hnil
    have hmem : ∀ n, n ∉ frontier ∧ n ∉ paused := by
      intro n
      have hn : n ∈ paused.foldl pushName frontier ↔ n ∈ frontier ∨ n ∈ paused := mem_foldl_pushName
      change paused.foldl pushName frontier = [] at hnil
      rw [hnil] at hn
      simpa using hn
    exact ha.drained (List.eq_nil_iff_forall_not_mem.mpr fun n => (hmem n).1)
      (List.eq_nil_iff_forall_not_mem.mpr fun n => (hmem n).2)

/-- One step keeps it. What the fan-in nodes did so far grows by what the step says they did. -/
theorem step {p q : Point} {event : Event} (h : Consistent g past p.exec) (hs : Step g p event q) :
    ∃ past', past' ++ q.exec.journal = past ++ p.exec.journal ++ event.journal ∧
      Consistent g past' q.exec := by
  obtain ⟨-, hj⟩ := hs.joins h.saveable h.ledger.deferred
  cases hj with
  | still hp hd ha hj hq hr =>
    have hl := h.ledger
    have hkeep : ∀ past', past' ++ q.exec.journal = past ++ p.exec.journal →
        Consistent g past' q.exec := by
      intro past' heq
      refine ⟨⟨by rw [hd]; exact hl.deferred, by rw [hd, heq]; exact hl.waiting,
        by rw [hd, heq]; exact hl.idle, by rw [heq]; exact hl.released⟩, ?_, ?_, ?_⟩
      · rw [NoneIdle, ha]
        exact h.noneIdle
      · rw [hp]
        exact h.nodup
      · rw [hp, hd]
        exact h.drained
    rcases hq with hq | hq
    · exact ⟨past, by rw [hq, hj, List.append_nil], hkeep past (by rw [hq])⟩
    · refine ⟨past ++ p.exec.journal, by rw [hq, hj], hkeep _ (by rw [hq, List.append_nil])⟩
  | advanced h₁ hn ha hp h₂ hj =>
    exact ⟨past, by rw [hj, List.append_assoc], h.advanced h₁ ha h₂⟩

end Consistent

/-- What the fan-in nodes did over a timeline. -/
def journal (events : List Event) : List FanInEvent := events.flatMap (·.journal)

theorem Starts.consistent {event : Event} {p : Point} (h : Starts g event p) :
    event.journal = p.exec.journal ∧ Consistent g [] p.exec := by
  cases h with
  | @start state base e now hd ha hw hj h =>
    rw [Exec.start, bind_eq_ok] at h
    obtain ⟨⟨e₁, frontier⟩, hf, h⟩ := h
    cases h
    have hadv := entryFrontier_spec (e := { base with state }) hd ha hf
    have hl : Ledger g [] { base with state } := by
      refine ⟨?_, ?_, ?_, ?_⟩ <;> simp [hd, hj]
    have hl' := hadv.moves.ledger hl
    exact ⟨rfl, ⟨hl'.deferred, hl'.waiting, hl'.idle, hl'.released⟩, hadv.noneIdle, hadv.nodup,
      fun hnil => hadv.drained hnil rfl⟩

/-- **Every thread is consistent between any two of its super-steps.** -/
theorem Reaches.consistent {events : List Event} {p : Point} (h : Reaches g events p) :
    ∃ past, past ++ p.exec.journal = journal events ∧ Consistent g past p.exec := by
  refine h.inv (P := fun events p =>
    ∃ past, past ++ p.exec.journal = journal events ∧ Consistent g past p.exec) ?_ ?_
  · intro event p hs
    obtain ⟨hj, hc⟩ := hs.consistent
    exact ⟨[], by simp [journal, hj], hc⟩
  · rintro events p event q ⟨past, hj, hc⟩ hs
    obtain ⟨past', hj', hc'⟩ := hc.step hs
    exact ⟨past', by rw [hj', hj]; simp [journal], hc'⟩

end Timeline
end Adk
