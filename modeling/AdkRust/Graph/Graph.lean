import AdkRust.Core.ToolCall
import AdkRust.Graph.Deferred
import AdkRust.Lib.Reach

/-!
# Graphs

* `CompiledGraph` and its edges (`graph.rs`, `edge.rs`).
* `CompiledGraph.routesFrom`: the routes a finished step takes.
* `CompiledGraph.successorMap` and `getUpstreamNodes`: the declared edges, read forwards and
  backwards. Both are the relation `Links` (`mem_successors`), and a route
  taken is one of its pairs (`links_of_mem_routesFrom`).
-/

namespace Adk

/-- The target that ends a branch. -/
def END : String := "__end__"

inductive EdgeTarget where
  | node (name : String)
  | end_
deriving DecidableEq

namespace EdgeTarget

def nodeName : EdgeTarget → Option String
  | .node name => some name
  | .end_ => none

end EdgeTarget

inductive Edge where
  /-- Always from `source` to `target`. -/
  | direct (source : String) (target : EdgeTarget)
  /-- To the target the router names. -/
  | conditional (source : String) (router : State → String) (targets : Dict EdgeTarget)
  /-- From `START` to the first nodes. `add_edge` keeps them distinct. -/
  | entry (targets : List String) (distinct : targets.Nodup)

/-- The edge leads from `source` to `target`. -/
def Edge.Links (source target : String) : Edge → Prop
  | .direct s t => s = source ∧ t = .node target
  | .conditional s _ targets => s = source ∧ ∃ key : String, targets[key]? = some (.node target)
  | .entry .. => False

/-! ## Building a graph -/

/-- A graph ready for execution. -/
structure CompiledGraph where
  schema : StateSchema
  nodes : Dict Node
  edges : List Edge
  checkpointer : Bool := false
  interruptBefore : Names := ∅
  interruptAfter : Names := ∅
  recursionLimit : Nat := 100
  timeoutPolicies : Dict TimeoutPolicy := ∅
  defaultTimeout : Option TimeoutPolicy := none
  defaultRetry : Option RetryPolicy := none
  errorHandlers : Dict NodeErrorHandler := ∅
  defaultErrorHandler : Option NodeErrorHandler := none
  deferredConfigs : Dict DeferredNodeConfig
  maxConcurrency : Option Nat := none
  retryPolicies : Dict RetryPolicy := ∅
  nodeEffects : Dict ToolEffect := ∅
  strictChannels : Bool := false
  retention : Option RetentionPolicy := none

/-! ## Reading a compiled graph -/

/-- An executed node and a node it routed to. -/
abbrev Route : Type := String × String

namespace CompiledGraph

variable (g : CompiledGraph)

/-- The failure handler of a node: its own, else the default. -/
def errorHandlerFor (node : String) : Option NodeErrorHandler :=
  g.errorHandlers[node]?.or g.defaultErrorHandler

def retryPolicyFor (node : String) : Option RetryPolicy :=
  g.retryPolicies[node]?.or g.defaultRetry

def timeoutPolicyFor (node : String) : Option TimeoutPolicy :=
  g.timeoutPolicies[node]?.or g.defaultTimeout

def getEntryNodes : List String :=
  (g.edges.findSome? fun edge =>
    match edge with
    | .entry targets _ => some targets
    | _ => none).getD []

/-- A list of names as its `Debug` form shows it. -/
def debugNames (names : List String) : String :=
  "[" ++ ", ".intercalate (names.map (·.quote)) ++ "]"

/-- Adds a route that is not there yet. -/
def pushRoute (routes : List Route) (source target : String) : List Route :=
  if (source, target) ∈ routes then routes else routes ++ [(source, target)]

def followEdge (executed : List String) (state : State) (routes : List Route) :
    Edge → Except GraphError (List Route)
  | .direct source (.node target) =>
    if source ∈ executed then .ok (pushRoute routes source target) else .ok routes
  | .direct _ .end_ => .ok routes
  | .conditional source router targets =>
    if source ∈ executed then
      match targets[router state]? with
      | some (.node target) => .ok (pushRoute routes source target)
      -- Declared, and the end of this branch.
      | some .end_ => .ok routes
      | none => .error (.unknownRouteTarget
          (s!"node '{source}' routed to '{router state}', which is not a declared target. " ++
            s!"Declared: {debugNames targets.keys}"))
    else .ok routes
  | .entry .. => .ok routes

/-- The routes the executed nodes' edges take, in edge declaration order. -/
def routesFrom (executed : List String) (state : State) : Except GraphError (List Route) :=
  g.edges.foldlM (followEdge executed state) []

def addSuccessors (successors : Dict (List String)) (source : String) (targets : List String) :
    Dict (List String) :=
  successors.insert source (successors.getD source [] ++ targets)

/-- Every node one declared edge leads to from each node. -/
def successorMap : Dict (List String) :=
  g.edges.foldl (fun successors edge =>
    match edge with
    | .direct source (.node target) => addSuccessors successors source [target]
    | .direct _ .end_ => successors
    | .conditional source _ targets =>
      addSuccessors successors source (targets.toList.filterMap fun entry => entry.2.nodeName)
    | .entry .. => successors) ∅

def successors (node : String) : List String := g.successorMap.getD node []

/-- The conditional dispatches the executed nodes produce. -/
def routeDispatches (executed : List String) (state : State) :
    Except GraphError (List (String × List String)) :=
  g.edges.foldlM (fun dispatches edge =>
    match edge with
    | .conditional source router targets =>
      if source ∈ executed then
        match targets[router state]? with
        | some (.node target) => .ok (dispatches ++ [(source, [target])])
        | some .end_ => .ok (dispatches ++ [(source, [])])
        | none => .error (.unknownRouteTarget
            s!"node '{source}' routed to '{router state}', which is not a declared target")
      else .ok dispatches
    | _ => .ok dispatches) []

/-- Adds a source that is not there yet. -/
def pushSource (sources : List String) (source : String) : List String :=
  if source ∈ sources then sources else sources ++ [source]

/-- Every node with an edge to `targetNode`, counting every target of a conditional edge. -/
def getUpstreamNodes (targetNode : String) : List String :=
  g.edges.foldl (fun sources edge =>
    match edge with
    | .direct source target =>
      if target = .node targetNode then pushSource sources source else sources
    | .conditional source _ targets =>
      targets.toList.foldl (fun sources entry =>
        if entry.2 = .node targetNode then pushSource sources source else sources) sources
    -- `START` is not a node.
    | .entry .. => sources) []

/-! ## The declared edges as a relation -/

/-- Some declared edge leads from `source` to `target`. -/
def Links (source target : String) : Prop := ∃ edge ∈ g.edges, Edge.Links source target edge

variable {g}

private theorem mem_addSuccessors {successors : Dict (List String)} {source s t : String}
    {targets : List String} :
    t ∈ (addSuccessors successors source targets).getD s [] ↔
      t ∈ successors.getD s [] ∨ s = source ∧ t ∈ targets := by
  rw [addSuccessors, Std.ExtTreeMap.getD_insert]
  by_cases h : s = source
  · subst h; simp
  · simp [h, Ne.symm h]

private theorem mem_targets {targets : Dict EdgeTarget} {t : String} :
    t ∈ targets.toList.filterMap (fun entry => entry.2.nodeName) ↔
      ∃ key : String, targets[key]? = some (.node t) := by
  simp only [List.mem_filterMap, Prod.exists, Std.ExtTreeMap.mem_toList_iff_getElem?_eq_some]
  refine exists_congr fun key => ⟨?_, fun h => ⟨_, h, rfl⟩⟩
  rintro ⟨target, hm, ht⟩
  cases target with
  | node name => cases ht; exact hm
  | end_ => cases ht

/-- The successor map is the declared edges read forwards. -/
theorem mem_successors {s t : String} : t ∈ g.successors s ↔ g.Links s t := by
  suffices h : ∀ (edges : List Edge) (d : Dict (List String)),
      t ∈ (edges.foldl (fun successors edge =>
        match edge with
        | .direct source (.node target) => addSuccessors successors source [target]
        | .direct _ .end_ => successors
        | .conditional source _ targets =>
          addSuccessors successors source (targets.toList.filterMap fun entry => entry.2.nodeName)
        | .entry .. => successors) d).getD s [] ↔
      t ∈ d.getD s [] ∨ ∃ edge ∈ edges, Edge.Links s t edge by
    simpa [successors, successorMap, Links] using h g.edges ∅
  intro edges
  induction edges with
  | nil => simp
  | cons edge edges ih =>
    intro d
    rw [List.foldl_cons, ih]
    cases edge with
    | direct source target =>
      cases target with
      | node name => simp only [mem_addSuccessors, List.mem_cons, Edge.Links]; grind
      | end_ => simp [Edge.Links]
    | conditional source router targets =>
      simp only [mem_addSuccessors, mem_targets, List.mem_cons, Edge.Links]; grind
    | entry targets distinct => simp [Edge.Links]

theorem successors_eq_nil_of_not_mem {s : String} (h : s ∉ g.successorMap) :
    g.successors s = [] := by
  simp [successors, Std.ExtTreeMap.getD_eq_getD_getElem?, Std.ExtTreeMap.getElem?_eq_none h]

private theorem mem_pushRoute {routes : List Route} {source target : String} {route : Route} :
    route ∈ pushRoute routes source target ↔ route ∈ routes ∨ route = (source, target) := by
  unfold pushRoute; split <;> grind

private theorem followEdge_spec {executed : List String} {state : State} {edge : Edge}
    {routes routes' : List Route} (h : followEdge executed state routes edge = .ok routes') :
    (∀ route ∈ routes', route ∈ routes ∨
      route.1 ∈ executed ∧ Edge.Links route.1 route.2 edge) := by
  intro route hr
  unfold followEdge at h
  split at h
  · split at h <;> cases h
    · rcases mem_pushRoute.mp hr with hr | rfl
      · exact .inl hr
      · exact .inr ⟨‹_›, rfl, rfl⟩
    · exact .inl hr
  · cases h; exact .inl hr
  · split at h
    · split at h <;> cases h
      · rcases mem_pushRoute.mp hr with hr | rfl
        · exact .inl hr
        · exact .inr ⟨‹_›, rfl, _, ‹_›⟩
      · exact .inl hr
    · cases h; exact .inl hr
  · cases h; exact .inl hr

/-- **A route taken is a declared edge of an executed node.** -/
theorem links_of_mem_routesFrom {executed : List String} {state : State} {routes : List Route}
    (h : g.routesFrom executed state = .ok routes) {route : Route} (hr : route ∈ routes) :
    route.1 ∈ executed ∧ g.Links route.1 route.2 := by
  suffices hs : ∀ (edges : List Edge) (acc : List Route), (∀ edge ∈ edges, edge ∈ g.edges) →
      (∀ r ∈ acc, r.1 ∈ executed ∧ g.Links r.1 r.2) →
      edges.foldlM (followEdge executed state) acc = .ok routes →
      route.1 ∈ executed ∧ g.Links route.1 route.2 from
    hs g.edges [] (fun _ h => h) (by simp) h
  intro edges
  induction edges with
  | nil =>
    intro acc _ hacc h
    cases h
    exact hacc route hr
  | cons edge edges ih =>
    intro acc hsub hacc h
    rw [List.foldlM_cons] at h
    cases hf : followEdge executed state acc edge with
    | error e => rw [hf] at h; cases h
    | ok acc' =>
      rw [hf] at h
      refine ih acc' (fun e he => hsub e (by simp [he])) (fun r hr => ?_) h
      rcases followEdge_spec hf r hr with hr | ⟨hex, hl⟩
      · exact hacc r hr
      · exact ⟨hex, edge, hsub edge (by simp), hl⟩

end CompiledGraph

end Adk
