import AdkRust.Graph.Drive
import AdkRust.Graph.Quiet
import AdkRust.Graph.Subgraph

/-!
# Routing the parent of a subgraph

A node of a subgraph may ask for nodes of the parent (`goto_parent`). Its run keeps the last request in
its executor and reports it when it completes.

* `StepsTo.asked`: the request that stands after a super-step is the last one made, in it or before it.
* `goto_parent_survives_iff`: no checkpoint holds the request, so the subgraph's output carries the last
  one made on its thread exactly when it was made in the run that completes.
* `goto_parent_lost`: a run that asks, pauses and is resumed completes without the request.
-/

namespace Adk

namespace Run

open Prog

/-! ## The standing request -/

/-- The request that stands when some are made one after another. -/
def standing (before : Option (List String)) (asked : List (List String)) : Option (List String) :=
  asked.getLast?.or before

theorem standing_nil (before : Option (List String)) : standing before [] = before := rfl

theorem standing_append (before : Option (List String)) (asked more : List (List String)) :
    standing before (asked ++ more) = standing (standing before asked) more := by
  simp [standing, List.getLast?_append, Option.or_assoc]

theorem standing_toList (before request : Option (List String)) :
    standing before request.toList = request.or before := by
  cases request <;> rfl

theorem standing_eq_none {asked : List (List String)} : standing none asked = none ↔ asked = [] := by
  simp [standing]

variable {g : CompiledGraph} {config : ExecutionConfig} {style : Style}
  {others : MemoryStore → MemoryStore → Prop} {history : List Mark} {store : MemoryStore}

private theorem answerPending_asked (nodes : List String) (c : Collected) (toRun : List String) :
    (nodes.foldl Exec.answerPending (c, toRun)).1.exec.gotoParent =
      standing c.exec.gotoParent
        (nodes.filterMap fun node => c.exec.pendingWrites[node]?.bind (·.gotoParent)) := by
  induction nodes generalizing c toRun with
  | nil => rfl
  | cons node nodes ih =>
    rw [List.foldl_cons]
    cases hw : c.exec.pendingWrites[node]? with
    | none =>
      have hstep : Exec.answerPending (c, toRun) node = (c, toRun ++ [node]) := by
        simp only [Exec.answerPending, hw]
      rw [hstep, ih, List.filterMap_cons_none (by simp [hw])]
    | some write =>
      have hstep : Exec.answerPending (c, toRun) node = (c.finish node write, toRun) := by
        simp only [Exec.answerPending, hw]
      have hwrs : (c.finish node write).exec.pendingWrites = c.exec.pendingWrites := rfl
      have hask : (c.finish node write).exec.gotoParent =
          standing c.exec.gotoParent write.gotoParent.toList := (standing_toList _ _).symm
      rw [hstep, ih, hwrs, hask, ← standing_append]
      congr 1
      cases hg : write.gotoParent with
      | none => rw [List.filterMap_cons_none (by simp [hw, hg])]; rfl
      | some targets =>
        simp only [List.filterMap_cons, hw, Option.bind_some, hg]
        rfl

private theorem answerCached_asked (cached : Dict Value) (nodes : List String) (c : Collected)
    (toRun : List String) :
    (nodes.foldl (Exec.answerCached cached) (c, toRun)).1.exec.gotoParent = c.exec.gotoParent := by
  induction nodes generalizing c toRun with
  | nil => rfl
  | cons node nodes ih =>
    rw [List.foldl_cons]
    unfold Exec.answerCached
    split
    · exact (ih _ _).trans (Option.none_or ..)
    · exact ih _ _

theorem plan_asked (cached : Dict Value) (e : Exec) :
    (Exec.plan cached e).1.exec.gotoParent = standing e.gotoParent
      (e.pendingNodes.filterMap fun node => e.pendingWrites[node]?.bind (·.gotoParent)) := by
  have hpend := answerPending_asked e.pendingNodes { exec := e } []
  simp only [Exec.plan]
  generalize e.pendingNodes.foldl Exec.answerPending ({ exec := e }, []) = acc at hpend
  obtain ⟨c, toRun⟩ := acc
  exact (answerCached_asked cached toRun c []).trans hpend

variable {c : Collected} {e' e : Exec} {result : SuperStepResult}

private theorem collectOutput_asked {c' : Collected} {output : Output}
    (h : Exec.collectOutput g c output = .ok c') :
    c'.exec.gotoParent = standing c.exec.gotoParent (requestOf output).toList := by
  rw [standing_toList]
  simp only [Exec.collectOutput] at h
  split at h
  · rename_i hres
    cases h
    simp [requestOf, hres]
  · rename_i out hres
    split at h
    · rename_i interrupt hinterrupt
      cases h
      simp [requestOf, hres, hinterrupt, Collected.addEvents]
    · rename_i hinterrupt
      cases h
      simp [requestOf, hres, hinterrupt, Collected.addEvents, Collected.finish]
  · rename_i error hres
    have hnone : requestOf output = none := by simp [requestOf, hres]
    rw [hnone, Option.none_or]
    split at h
    · cases h
      rfl
    · split at h
      · cases h
        rfl
      · split at h
        · cases h
        · cases h
          exact Option.none_or ..

private theorem collectOutputs_asked {outputs : List Output} {c' : Collected}
    (h : outputs.foldlM (Exec.collectOutput g) c = .ok c') :
    c'.exec.gotoParent = standing c.exec.gotoParent (outputs.filterMap requestOf) := by
  induction outputs generalizing c with
  | nil =>
    cases h
    rfl
  | cons output outputs ih =>
    rw [List.foldlM_cons, bind_eq_ok] at h
    obtain ⟨c₁, hone, hrest⟩ := h
    rw [ih hrest, collectOutput_asked hone, ← standing_append]
    congr 1
    cases hr : requestOf output with
    | none => rw [List.filterMap_cons_none hr]; rfl
    | some targets => rw [List.filterMap_cons_some hr]; rfl

private theorem finishStep_asked
    (h : Exec.finishStep g c = (e', .ok result)) : e'.gotoParent = c.exec.gotoParent := by
  rw [Exec.finishStep] at h
  split at h
  · cases h
  · dsimp only at h
    split at h
    · cases h
    · rename_i e₁ heq
      cases h
      have h0 : ({ c.exec with pendingWrites := ∅ } : Exec).gotoParent = c.exec.gotoParent := rfl
      refine foldlM_ok_inv (fun _ (e : Exec) => e.gotoParent = c.exec.gotoParent)
        (fun entry items e₁ e₂ he ha => ?_) h0 heq
      simp only [Exec.applyNodeUpdates] at ha
      split at ha
      · cases ha
      · cases ha
        exact he

theorem collectSuperStep_asked {cached : Dict Value} {outputs : List Output}
    {recorded : List (String × Value)}
    (h : Exec.collectSuperStep g cached outputs recorded e = (e', .ok result)) :
    e'.gotoParent = standing e.gotoParent
      (e.pendingNodes.filterMap (fun node => e.pendingWrites[node]?.bind (·.gotoParent)) ++
        (outputs.insertionSort fun a b => a.name ≤ b.name).filterMap requestOf) := by
  simp only [Exec.collectSuperStep] at h
  split at h
  · cases h
  · rename_i c heq
    rw [finishStep_asked h, collectOutputs_asked heq, standing_append]
    congr 1
    exact plan_asked cached e

/-- **The request that stands after a super-step is the last one made.** -/
theorem StepsTo.asked {asked : List (List String)}
    (hstyle : style.isMessages = false) (h : StepsTo g config style e e' (.ok result) asked) :
    e'.gotoParent = standing e.gotoParent asked := by
  generalize ho : (Except.ok result : Except MessagesFailure SuperStepResult) = outcome at h
  cases h with
  | messages hm h => rw [hstyle] at hm; cases hm
  | @step env recorded outputs _ res hm h =>
    cases res with
    | error error => cases ho
    | ok result =>
      cases hgate : Exec.gateBefore g e e.pendingNodes with
      | some gate =>
        simp only [Exec.SuperStepIn, hgate] at h
        obtain ⟨-, heq⟩ := h
        cases heq
        simp only [requests, hgate]
        rfl
      | none =>
        simp only [Exec.SuperStepIn, hgate] at h
        obtain ⟨-, heq⟩ := h
        simp only [requests, hgate]
        exact collectSuperStep_asked heq.symm

/-! ## A run -/

def Mark.asked : Mark → List (List String)
  | .superStep _ _ asked => asked
  | _ => []

/-- What the nodes of some runs asked for. -/
def askedIn (deeds : List Mark) : List (List String) := deeds.flatMap Mark.asked

theorem askedIn_append (deeds more : List Mark) :
    askedIn (deeds ++ more) = askedIn deeds ++ askedIn more := List.flatMap_append

/-- **A run holds the last request that was made in it.** -/
theorem standing_invariant (hstyle : style.isMessages = false) :
    Invariant g config style (fun e deeds => e.gotoParent = standing none (askedIn deeds))
      (fun _ => True) where
  same := by
    intro e e' deeds h hsame
    have hgoto : e'.gotoParent = e.gotoParent := by rw [hsame]
    rw [hgoto, h]
  during := fun _ => trivial
  step := fun _ _ _ _ => trivial
  complete := by
    intro e e' e'' result asked now deeds h _ _ hsts hi hc
    have hctr := (Exec.completeStep_counters e' result now).result hc
    have hstl := (Exec.settle_counters style e'').trans hctr
    have hgoto : (style.settle e'').gotoParent = e'.gotoParent :=
      congrArg Counters.gotoParent hstl
    rw [hgoto, hsts.asked hstyle, h, askedIn_append, standing_append]
    simp [askedIn, Mark.asked]

structure IsCall (node : SubgraphNode) (thread : String) (config : ExecutionConfig) (style : Style) :
    Prop where
  thread : config.threadId = thread
  latest : config.resumeFrom = none
  style : style = .invoke

/-- The last of the calls of a subgraph on one thread completes with `e`. The others may have paused,
failed, completed or been dropped: `history` is what they did, and `deeds` what the last one did. -/
def Completes (node : SubgraphNode) (thread : String) (others : MemoryStore → MemoryStore → Prop)
    (history deeds : List Mark) (e : Exec) : Prop :=
  ∃ (store : MemoryStore) (config : ExecutionConfig) (input : State) (w : World),
    Session node.graph false others (fun _ config style _ => IsCall node thread config style)
      history store ∧ IsCall node thread config .invoke ∧ w.deeds = deeds ∧
    Reaches (laws node.graph config .invoke others)
      ((run node.graph config .invoke false input).run, { store }) (.pure (.ok e), w)

/-- A completed call reports the last request that was made in it. -/
theorem Completes.gotoParent {node : SubgraphNode} {thread : String} {deeds : List Mark}
    (h : Completes node thread others history deeds e) :
    e.gotoParent = standing none (askedIn deeds) := by
  obtain ⟨store, config, input, w, -, -, rfl, hrea⟩ := h
  have hsta : ∀ {m : Mark} {e : Exec}, m.asked = [] → e.gotoParent = none →
      e.gotoParent = standing none (askedIn [m]) := by
    intro m e hm he
    rw [he]
    simp [askedIn, hm, standing_nil]
  have hrun : Obeys node.graph config .invoke others
      (fun e deeds => e.gotoParent = standing none (askedIn deeds)) (fun _ => True)
      (fun e w => Quietly (fun deeds => e.gotoParent = standing none (askedIn deeds)) w ∧
        e.pendingNodes = []) (run node.graph config .invoke false input) { store } := by
    refine run_obeys (standing_invariant rfl) rfl rfl trivial ?_ ?_
    · intro state now e hs
      exact hsta rfl (congrArg Counters.gotoParent ((Exec.start_counters state now).result hs))
    · intro cp head now e _ hr
      have hctr := (Exec.restore_counters config false cp head input now).result hr
      exact hsta rfl (congrArg Counters.gotoParent hctr)
  exact (hrun.returned hrea).1.deeds

/-- **A request to route the parent survives exactly in the run it is made in**: the output of the
subgraph carries the last request made on its thread, in whichever run, if and only if a node of the run
that completes asked, or no node of an earlier run did. -/
theorem goto_parent_survives_iff {node : SubgraphNode} {thread : String} {deeds : List Mark} {e : Exec}
    (h : Completes node thread others history deeds e)
    (confirmation : String → Interrupt → Option Interrupt) (ctx : NodeContext) :
    (node.output confirmation ctx (.ok (.ofExec e))).map (·.goto) =
        .ok (standing none (askedIn (history ++ deeds))) ↔
      askedIn deeds ≠ [] ∨ askedIn history = [] := by
  have hout : (node.output confirmation ctx (.ok (.ofExec e))).map (·.goto) = .ok e.gotoParent := rfl
  rw [hout, h.gotoParent, askedIn_append]
  by_cases hlast : askedIn deeds = []
  · rw [hlast, List.append_nil]
    constructor
    · intro heq
      refine .inr (standing_eq_none.mp ?_)
      exact (Except.ok.inj heq).symm
    · rintro (hne | hnone)
      · exact absurd rfl hne
      · rw [hnone]
  · have hsame : standing none (askedIn history ++ askedIn deeds) = standing none (askedIn deeds) := by
      obtain ⟨targets, htargets⟩ := Option.isSome_iff_exists.mp (List.getLast?_isSome.mpr hlast)
      simp [standing, List.getLast?_append, htargets]
    rw [hsame]
    exact ⟨fun _ => .inl hlast, fun _ => rfl⟩

/-! ## A subgraph that asks -/

/-- A node that asks for the parent's `x`. -/
def caller (name : String) : Node where
  name := name
  execute := fun _ _ => .ok { gotoParent := some ["x"] }

/-- A graph whose first node asks, with or without a gate before its second one. -/
def asksFirst (gates : List String) : CompiledGraph where
  schema := {}
  nodes := (Timeline.markers ["b"]).insert "a" (caller "a")
  edges := [.entry ["a"] Timeline.nodup_a, .direct "a" (.node "b"), .direct "b" .end_]
  checkpointer := true
  interruptBefore := Names.ofList gates
  deferredConfigs := ∅

/-- The graph as a node of another. -/
def asking (gates : List String) : SubgraphNode where
  name := "sub"
  graph := asksFirst gates

def subThread : ExecutionConfig where
  threadId := "thread/sub@0"

@[irreducible] def callSub (gates : List String) (stamp : String) (store : MemoryStore) :
    Except GraphError Exec × World :=
  drive (asksFirst gates) subThread .invoke stamp
    (run (asksFirst gates) subThread .invoke false ∅).run { store }

theorem callSub_reaches (gates : List String) (stamp : String) (store : MemoryStore) :
    Reaches (laws (asking gates).graph subThread .invoke nobody)
      ((run (asking gates).graph subThread .invoke false ∅).run, { store })
      (.pure (callSub gates stamp store).1, (callSub gates stamp store).2) := by
  unfold callSub
  exact drive_reaches _ _

theorem subThread_isCall (gates : List String) :
    IsCall (asking gates) subThread.threadId subThread .invoke := ⟨rfl, rfl, rfl⟩

def subContext : NodeContext where
  state := ∅
  config := { threadId := "thread" }
  step := 0
  parentSchema := {}
  children := { ledger := ∅, activation := "" }

theorem exists_completed {r : Except GraphError Exec} (h : r.isOk = true) : ∃ e, r = .ok e := by
  cases r with
  | ok e => exact ⟨e, rfl⟩
  | error error => cases h

/-- A subgraph that does not pause reports what it asked for. -/
theorem goto_parent_survives_iff_asking :
    ∃ e, Completes (asking []) subThread.threadId nobody [] (callSub [] "a" {}).2.deeds e ∧
      askedIn (callSub [] "a" {}).2.deeds = [["x"]] ∧
      (((asking []).output (fun _ _ => none) subContext (.ok (.ofExec e))).map (·.goto) =
          .ok (standing none (askedIn ([] ++ (callSub [] "a" {}).2.deeds))) ↔
        askedIn (callSub [] "a" {}).2.deeds ≠ [] ∨ askedIn [] = []) := by
  obtain ⟨e, he⟩ := exists_completed (r := (callSub [] "a" {}).1) (by decide +kernel)
  have hreach := callSub_reaches [] "a" {}
  rw [he] at hreach
  have hcompletes : Completes (asking []) subThread.threadId nobody [] (callSub [] "a" {}).2.deeds e :=
    ⟨{}, subThread, ∅, _, .new {}, subThread_isCall [], rfl, hreach⟩
  exact ⟨e, hcompletes, by decide +kernel, goto_parent_survives_iff hcompletes _ subContext⟩

/-- The first call of a subgraph that pauses after it asked, and the second call. -/
def askedAndPaused : World := (callSub ["b"] "a" {}).2
def resumedSub : Except GraphError Exec × World := callSub ["b"] "b" askedAndPaused.store

/-- **A request is lost when the run that made it pauses.** -/
theorem goto_parent_lost : ¬ ∀ (node : SubgraphNode) (thread : String)
    (others : MemoryStore → MemoryStore → Prop) (history deeds : List Mark) (e : Exec),
    Completes node thread others history deeds e →
      ∀ (confirmation : String → Interrupt → Option Interrupt) (ctx : NodeContext),
        (node.output confirmation ctx (.ok (.ofExec e))).map (·.goto) =
          .ok (standing none (askedIn (history ++ deeds))) := by
  intro h
  obtain ⟨e, he⟩ := exists_completed (r := resumedSub.1) (by decide +kernel)
  let call (_ : List Mark) (config : ExecutionConfig) (style : Style) (_ : MemoryStore) : Prop :=
    IsCall (asking ["b"]) subThread.threadId config style
  have hnew : Session (asking ["b"]).graph false nobody call [] {} := .new {}
  have hpaused : Session (asking ["b"]).graph false nobody call askedAndPaused.deeds
      askedAndPaused.store := by
    have hrun := hnew.run (subThread_isCall ["b"]) (callSub_reaches ["b"] "a" {})
    rw [List.nil_append] at hrun
    exact hrun
  have hreach := callSub_reaches ["b"] "b" askedAndPaused.store
  have hreach' : Reaches (laws (asking ["b"]).graph subThread .invoke nobody)
      ((run (asking ["b"]).graph subThread .invoke false ∅).run, { store := askedAndPaused.store })
      (.pure (.ok e), resumedSub.2) := by
    rw [← he]
    exact hreach
  have hcompletes : Completes (asking ["b"]) subThread.threadId nobody askedAndPaused.deeds
      resumedSub.2.deeds e :=
    ⟨askedAndPaused.store, subThread, ∅, resumedSub.2, hpaused, subThread_isCall ["b"], rfl, hreach'⟩
  have hcarries := h _ _ _ _ _ _ hcompletes (fun _ _ => none) subContext
  have hgoto : (Except.ok e.gotoParent : Except GraphError (Option (List String))) =
      .ok (standing none (askedIn (askedAndPaused.deeds ++ resumedSub.2.deeds))) := hcarries
  have hasked : askedIn (askedAndPaused.deeds ++ resumedSub.2.deeds) = [["x"]] := by decide +kernel
  have hnone : resumedSub.1.toOption.map (·.gotoParent) = some none := by decide +kernel
  rw [he] at hnone
  rw [hasked] at hgoto
  have hstanding : e.gotoParent = some ["x"] := Except.ok.inj hgoto
  have hlost : e.gotoParent = none := by simpa [Except.toOption] using hnone
  rw [hlost] at hstanding
  cases hstanding

end Run

end Adk
