import AdkRust.Graph.Goto
import AdkRust.Graph.Play

/-!
# What a released join still misses

`released_join_misses_nothing`: once a join was released because no predecessor it misses can still
run, none of those predecessors runs before the next pass.
-/

namespace Adk
namespace Timeline

open Exec

variable {g : CompiledGraph}

/-- Every node that runs next or waits is among `reached`, or comes after the join. -/
def Confined (g : CompiledGraph) (join : String) (reached : List String) (e : Exec) : Prop :=
  (∀ n ∈ e.pendingNodes, n ∈ reached ∨ blocked g join n) ∧
    ∀ n ∈ e.pendingDeferred, n ∈ reached ∨ blocked g join n

variable {join : String} {sources : List String} {event : Event} {p : Point} {events : List Event}

theorem mem_reachableFor {n : String} (h : n ∈ sources) :
    n ∈ reachableFor g join sources ∨ blocked g join n := by
  cases hb : blocked g join n with
  | true => exact .inr rfl
  | false =>
    refine .inl (Reach.source_mem_reachable (fun m => ?_) (List.mem_filter.mpr ⟨h, by simp [hb]⟩))
    by_cases hm : m ∈ g.successorMap
    · exact .inl (Std.ExtTreeMap.mem_keys.mpr hm)
    · exact .inr (CompiledGraph.successors_eq_nil_of_not_mem hm)

theorem reachableFor_closed {m n : String} (hm : m ∈ reachableFor g join sources) (hl : g.Links m n) :
    n ∈ reachableFor g join sources ∨ blocked g join n := by
  cases hb : blocked g join n with
  | true => exact .inr rfl
  | false =>
    refine .inl (Reach.reachable_closed (fun m => ?_) hm (CompiledGraph.mem_successors.mpr hl) hb)
    by_cases hm : m ∈ g.successorMap
    · exact .inl (Std.ExtTreeMap.mem_keys.mpr hm)
    · exact .inr (CompiledGraph.successors_eq_nil_of_not_mem hm)

/-- A step that runs no node after the join, and follows no `goto`, stays confined. -/
theorem JoinStep.confined {e e' : Exec}
    (h : JoinStep g e event e') (hsub : event.executed ⊆ e.pendingNodes)
    (hgoto : event.result.goto = ∅) (hx : ∀ n ∈ event.executed, blocked g join n = false)
    (hc : Confined g join (reachableFor g join sources) e) :
    Confined g join (reachableFor g join sources) e' := by
  cases h with
  | still hp hd ha hj hq hr => exact ⟨by rw [hp]; exact hc.1, by rw [hd]; exact hc.2⟩
  | @advanced e₁ e₂ candidates paused frontier h₁ hn ha hp h₂ hj =>
    rw [hgoto] at hn
    have hcand : ∀ n ∈ candidates, n ∈ reachableFor g join sources ∨ blocked g join n := by
      intro n hmem
      obtain ⟨s, hs⟩ := ((nextFrontier_spec hn).2 n).mp hmem
      obtain ⟨hex, hl⟩ := links_of_nextFrontier hn hs
      rcases hc.1 s (hsub hex) with hr | hb
      · exact reachableFor_closed hr hl
      · rw [hx s hex] at hb
        cases hb
    have hwait : ∀ n ∈ e₁.pendingDeferred, n ∈ reachableFor g join sources ∨ blocked g join n := by
      rw [h₁.pendingDeferred]
      exact hc.2
    refine ⟨fun n hmem => ?_, fun n hmem => ?_⟩
    · rw [h₂.pendingNodes] at hmem
      rcases mem_foldl_pushName.mp hmem with hmem | hmem
      · rcases ha.source n hmem with hmem | hmem
        · exact hcand n hmem
        · exact hwait n hmem
      · exact hc.1 n (hp hmem)
    · rw [h₂.pendingDeferred] at hmem
      rcases ha.waiting n hmem with hmem | hmem
      · exact hcand n hmem
      · exact hwait n hmem

/-- A step of a graph without `goto` follows none and keeps none. -/
theorem Step.noGoto (hg : g.NoGoto) {q : Point} (h : Step g p event q)
    (hs : Saveable g p.exec) (hk : ∀ n ∈ p.exec.pendingDeferred, n ∈ g.deferredConfigs)
    (hw : NoGotoWrites p.exec.pendingWrites) :
    NoGotoWrites q.exec.pendingWrites ∧ event.result.goto = ∅ := by
  have hstl : ∀ (style : Style) (e : Exec), NoGotoWrites e.pendingWrites →
      NoGotoWrites (style.settle e).pendingWrites := by
    intro style e he
    unfold Style.settle
    split
    · exact .empty
    · exact he
  have hadvance : ∀ {e₁ e₂ : Exec} {result : SuperStepResult} {paused frontier : List String}
      {now : Clock}, e₁.pendingDeferred = p.exec.pendingDeferred →
      advanceFrontier g e₁ result paused now = .ok (e₂, frontier) → NoGotoWrites e₁.pendingWrites →
      NoGotoWrites e₂.pendingWrites := by
    intro e₁ e₂ result paused frontier now hd ha he
    obtain ⟨_, _, -, hadv⟩ := advanceFrontier_spec (by rw [hd]; exact hk) ha
    have hpw : e₂.pendingWrites = e₁.pendingWrites := congrArg (·.pendingWrites) hadv.moves.core
    rw [hpw]
    exact he
  cases h with
  | @complete style config e e₁ e₂ result now journal hp hx hi hc hj =>
    obtain ⟨hw₁, hgoto⟩ := hx.noGoto hg hw
    obtain ⟨e₃, frontier, ha, -, hpw⟩ := completeStep_spec hc
    refine ⟨hstl style e₂ ?_, hgoto result rfl⟩
    rw [hpw]
    refine hadvance ?_ ha (by simpa using hw₁)
    rw [rearmGate_pendingDeferred]
    exact (SameJoins.of_flow hx.flow).pendingDeferred
  | @pause style config e e₁ e₂ result now journal hp hx hi hc hj =>
    obtain ⟨hw₁, hgoto⟩ := hx.noGoto hg hw
    refine ⟨hstl style e₂ ?_, hgoto result rfl⟩
    rcases pauseFrontier_spec hi hc with ⟨-, -, hpw⟩ | ⟨-, paused, e₃, frontier, ha, -, -, hpw⟩
    · rw [hpw]
      exact hw₁
    · rw [hpw]
      exact hadvance (SameJoins.of_flow hx.flow).pendingDeferred ha hw₁
  | fail hp hx => exact ⟨(hx.noGoto hg hw).1, rfl⟩
  | @lost style config e e₁ result hp hx => exact ⟨hw, (hx.noGoto hg hw).2 result rfl⟩
  | @resume saved config e e' running now now' id createdAt head input hr =>
    obtain ⟨started, hr'⟩ := restore_checkpoint config hs saved now now' id createdAt head input
    rw [hr'] at hr
    cases hr
    exact ⟨hw, rfl⟩

/-- A thread of a graph without `goto` keeps no write that names successors. -/
theorem Reaches.noGoto (hg : g.NoGoto) (h : Reaches g events p) :
    NoGotoWrites p.exec.pendingWrites := by
  induction h with
  | start hs =>
    cases hs with
    | @start state base e now hd ha hw hj h =>
      rw [Exec.start, bind_eq_ok] at h
      obtain ⟨⟨e₁, frontier⟩, hf, h⟩ := h
      cases h
      have hcore := (entryFrontier_spec (e := { base with state }) hd ha hf).moves.core
      have : e₁.pendingWrites = base.pendingWrites := congrArg (·.pendingWrites) hcore
      rw [this, hw]
      exact .empty
  | step hr hs ih =>
    obtain ⟨past, -, hc⟩ := hr.consistent
    exact (hs.noGoto hg hc.saveable hc.ledger.deferred ih).1

/-- What comes after a point stays confined as long as no node after the join runs. -/
theorem Reaches.confined (hg : g.NoGoto) {mid : List Event} {q : Point}
    (h : Reaches g events p) (hgo : Goes g p mid q)
    (hc : Confined g join (reachableFor g join sources) p.exec)
    (hx : ∀ event ∈ mid, ∀ n ∈ event.executed, blocked g join n = false) :
    Confined g join (reachableFor g join sources) q.exec := by
  induction hgo generalizing events with
  | nil => exact hc
  | @cons p q r event mid hs hgo ih =>
    obtain ⟨past, -, hcon⟩ := h.consistent
    obtain ⟨hsub, hjoin⟩ := hs.joins hcon.saveable hcon.ledger.deferred
    have hgoto := (hs.noGoto hg hcon.saveable hcon.ledger.deferred (h.noGoto hg)).2
    exact ih (h.step hs) (hjoin.confined hsub hgoto (hx event (by simp)) hc)
      fun event he => hx event (by simp [he])

/-- A release by reachability leaves a point at which nothing that runs next or waits leads to a
predecessor the join misses. -/
theorem Reaches.released (h : Reaches g (events ++ [event]) p) {tracker : FanInTracker}
    (hr : .released join .reachability tracker ∈ event.journal) :
    ∃ sources, Confined g join (reachableFor g join sources) p.exec ∧
      stillExpected tracker (reachableFor g join sources) = false := by
  have hfinish : ∀ {e₁ e₂ : Exec} {candidates paused frontier : List String} {routes : List Route}
      {updates : Dict (Dict Value)} {e' : Exec} (releases : List FanInEvent),
      Advanced g e₁ candidates routes updates paused e₂ frontier →
      SameJoins { e₂ with pendingNodes := paused.foldl pushName frontier } e' →
      e₂.journal = e₁.journal ++ releases → .released join .reachability tracker ∈ releases →
      ∃ sources, Confined g join (reachableFor g join sources) e' ∧
        stillExpected tracker (reachableFor g join sources) = false := by
    intro e₁ e₂ candidates paused frontier routes updates e' releases ha hsame hj hmem
    obtain ⟨more, hje, hrel⟩ := ha.journal
    have hmore : .released join .reachability tracker ∈ more := by
      have heq := List.append_cancel_left (hj.symm.trans (hje.trans (List.append_assoc ..)))
      rw [heq, List.mem_append] at hmem
      rcases hmem with hmem | hmem
      · obtain ⟨c, -, hc⟩ := List.mem_flatMap.mp hmem
        simp [arrivalEvents] at hc
      · exact hmem
    obtain ⟨_, _, _, heq, hs⟩ := hrel _ hmore
    cases heq
    obtain ⟨sources, hf, hp, hw, next, hsub, hnone⟩ := hs rfl
    refine ⟨next, ⟨fun n hn => ?_, fun n hn => ?_⟩, hnone⟩
    · rw [hsame.pendingNodes] at hn
      rcases mem_foldl_pushName.mp hn with hn | hn
      · exact mem_reachableFor (hsub (hf hn))
      · exact mem_reachableFor (hsub (hp hn))
    · rw [hsame.pendingDeferred] at hn
      exact mem_reachableFor (hsub (hw n hn))
  generalize hev : events ++ [event] = all at h
  cases h with
  | @start first p hs =>
    obtain ⟨-, hfst⟩ := List.append_inj' (show events ++ [event] = [] ++ [first] from hev) rfl
    obtain rfl : event = first := by simpa using hfst
    cases hs with
    | @start state base e now hd ha hw hj h =>
      rw [Exec.start, bind_eq_ok] at h
      obtain ⟨⟨e₁, frontier⟩, hf, h⟩ := h
      cases h
      have hadv := entryFrontier_spec (e := { base with state }) hd ha hf
      refine hfinish e₁.journal hadv ⟨rfl, rfl, rfl, rfl⟩ ?_ hr
      change e₁.journal = base.journal ++ e₁.journal
      rw [hj, List.nil_append]
  | @step past p q last hrea hs =>
    obtain ⟨rfl, hlast⟩ := List.append_inj' hev rfl
    obtain rfl : event = last := by simpa using hlast
    obtain ⟨before, -, hc⟩ := hrea.consistent
    cases (hs.joins hc.saveable hc.ledger.deferred).2 with
    | still hp hd ha hj hq hrts => simp [hj] at hr
    | @advanced e₁ e₂ candidates paused frontier h₁ hn ha hp h₂ hj =>
      refine hfinish event.journal ha h₂ ?_ hr
      have := h₂.journal.symm.trans hj
      rw [h₁.journal]
      exact this

/-- **A join is released only when nothing still missing can arrive in this pass.** Once a join was
released because no predecessor it misses can still run, none of those predecessors executes, let
alone routes to it, before the join itself or a deferred node that waits on it has executed. -/
theorem released_join_misses_nothing (hg : g.NoGoto) {pre mid post : List Event} {ev₀ ev : Event}
    {p : Point} (h : Reaches g (pre ++ ev₀ :: (mid ++ ev :: post)) p) {join missing : String}
    {tracker : FanInTracker} (hr : .released join .reachability tracker ∈ ev₀.journal)
    (hup : missing ∈ g.getUpstreamNodes join) (hmiss : missing ∉ tracker.received)
    (hex : missing ∈ ev.executed) :
    ∃ event ∈ mid ++ [ev], ∃ n ∈ event.executed,
      n = join ∨ n ∈ g.deferredConfigs ∧ join ∈ g.getUpstreamNodes n := by
  by_contra hnone
  have hblocked : ∀ event ∈ mid ++ [ev], ∀ n ∈ event.executed, blocked g join n = false := by
    intro event he n hn
    rw [← Bool.not_eq_true]
    intro hb
    refine hnone ⟨event, he, n, hn, ?_⟩
    simpa [blocked, Std.ExtTreeMap.contains_iff_mem] using hb
  rw [List.append_cons] at h
  obtain ⟨q₀, h₀, hgo⟩ := h.cut (by simp)
  obtain ⟨sources, hc, hexpect⟩ := h₀.released hr
  obtain ⟨q, q', hmid, hstep, -⟩ := hgo.split
  have hcq := h₀.confined hg hmid hc fun event he => hblocked event (by simp [he])
  obtain ⟨past, -, hcon⟩ := (h₀.append hmid).consistent
  have hsub := (hstep.joins hcon.saveable hcon.ledger.deferred).1
  -- The missing predecessor is on the frontier, so it is among the nodes reached.
  have hreached : missing ∈ reachableFor g join sources := by
    rcases hcq.1 missing (hsub hex) with hm | hb
    · exact hm
    · rw [hblocked ev (by simp) missing hex] at hb
      cases hb
  have hpending : missing ∈ tracker.pendingSources := by
    obtain ⟨past₀, hj₀, hcon₀⟩ := h₀.consistent
    obtain ⟨before, after, hsplit⟩ := List.append_of_mem hr
    have ht : tracker = trackerOf g (journal pre ++ before) join := by
      refine hcon₀.ledger.released _ join .reachability tracker after ?_
      rw [hj₀, journal, List.flatMap_append, List.flatMap_singleton, hsplit, List.append_assoc]
      rfl
    refine List.mem_filter.mpr ⟨?_, by simpa [← Std.ExtTreeMap.contains_iff_mem] using hmiss⟩
    rw [ht, trackerOf, FanInTracker.recordAll_expected]
    simpa using hup
  have : stillExpected tracker (reachableFor g join sources) = true :=
    List.any_eq_true.mpr ⟨missing, hpending, by simpa using hreached⟩
  rw [hexpect] at this
  cases this

/-! ### The head of a loop -/

/-- A join that is the head of a loop: `a` leads to it from outside and `b` from inside. -/
def loopHead : CompiledGraph where
  schema := {}
  nodes := markers ["a", "b", "j"]
  edges := [.entry ["a"] nodup_a, .direct "a" (.node "j"), .direct "j" (.node "b"),
    .direct "b" (.node "j")]
  deferredConfigs := Dict.ofList [("j", {})]

theorem loopHead_noGoto : loopHead.NoGoto := by
  have hnds : ∀ (name : String) (node : Node), loopHead.nodes[name]? = some node →
      ∃ n, node = marker n := by
    intro name node h
    simp only [loopHead, markers, Dict.ofList, List.map_cons, List.map_nil, List.foldl_cons,
      List.foldl_nil, Std.ExtTreeMap.getElem?_insert, Std.ExtTreeMap.getElem?_empty] at h
    grind
  refine ⟨fun name node hn ctx moment output h => ?_, fun name node hn ctx moment source targets => ?_,
    fun name handler h => ?_⟩
  · obtain ⟨n, rfl⟩ := hnds name node hn
    cases h
    rfl
  · obtain ⟨n, rfl⟩ := hnds name node hn
    simp [marker, streamOf]
  · simp [loopHead, CompiledGraph.errorHandlerFor] at h

def loopRun : List Event × Point :=
  run loopHead ∅ [.step .invoke, .step .invoke, .step (.stream .messages)]

/-- `j` is released without `b`, and `b` runs only after `j` has. -/
theorem released_join_misses_nothing_loopHead :
    ∃ ev₁ ev₂ ev₃, loopRun.1.tail = [ev₁, ev₂, ev₃] ∧ "b" ∈ ev₃.executed ∧
      ∃ event ∈ [ev₂, ev₃], ∃ n ∈ event.executed,
        n = "j" ∨ n ∈ loopHead.deferredConfigs ∧ "j" ∈ loopHead.getUpstreamNodes n := by
  have hreach : Reaches loopHead loopRun.1 loopRun.2 := run_reaches (by decide +kernel) _
  have hexecuted : loopRun.1.map Event.executed = [[], ["a"], ["j"], ["b"]] := by decide +kernel
  have hmissed : loopRun.1.map (fun event => event.journal.any fun
      | .released join rule tracker =>
        join == "j" && rule == .reachability && !tracker.received.contains "b"
      | _ => false) = [false, true, false, false] := by decide +kernel
  obtain ⟨ev₀, ev₁, ev₂, ev₃, hrun⟩ : ∃ ev₀ ev₁ ev₂ ev₃, loopRun.1 = [ev₀, ev₁, ev₂, ev₃] := by
    generalize loopRun.1 = events at hexecuted
    rcases events with _ | ⟨a, _ | ⟨b, _ | ⟨c, _ | ⟨d, _ | ⟨e, events⟩⟩⟩⟩⟩ <;> simp at hexecuted
    exact ⟨a, b, c, d, rfl⟩
  rw [hrun] at hreach hexecuted hmissed
  simp only [List.map_cons, List.map_nil, List.cons.injEq] at hexecuted hmissed
  obtain ⟨event, hevent, hj⟩ := List.any_eq_true.mp hmissed.2.1
  have hb : "b" ∈ ev₃.executed := by simp [hexecuted]
  refine ⟨ev₁, ev₂, ev₃, by rw [hrun]; rfl, hb, ?_⟩
  cases event with
  | arrived | ignored => cases hj
  | released join rule tracker =>
    obtain ⟨⟨rfl, rfl⟩, hnot⟩ : (join = "j" ∧ rule = .reachability) ∧ "b" ∉ tracker.received := by
      simpa [← Std.ExtTreeMap.contains_iff_mem] using hj
    have hreach : Reaches loopHead ([ev₀] ++ ev₁ :: ([ev₂] ++ ev₃ :: [])) loopRun.2 := hreach
    exact released_join_misses_nothing loopHead_noGoto hreach hevent (by decide +kernel) hnot hb

end Timeline
end Adk
