import AdkRust.Graph.Play

/-!
# Static interrupt gates

A gate stops a run before a node of the frontier runs (`interrupt_before`) or after one has finished
(`interrupt_after`).

* `Executes.runs_all`: a super-step that no gate stops runs every node of its frontier.
* `passable_iff`: repeated resumes get past the gates before a frontier exactly when the frontier has
  at most one gated node. The executor remembers one answered gate, so two of them stop the run in
  turns, for ever (`two_gates_not_passable`).
* `gate_after_ends_run`: a super-step in which a gated node finishes ends its run. The pause reports
  that gate unless a node of the step asked to pause itself.
-/

namespace Adk

/-! ## A step that no gate stops -/

namespace Exec

variable {g : CompiledGraph} {config : ExecutionConfig}

/-- Collecting only adds: a failure stays, and so do the nodes that finished or paused. -/
structure Grows (c c' : Collected) : Prop where
  failure : c.failure.isSome → c'.failure.isSome
  names : c.names ⊆ c'.names

/-- An output that is collected: the step has failed, or its node did not start, or it finished or
paused, its failure being one a handler takes. -/
def Settled (g : CompiledGraph) (c : Collected) (output : Output) : Prop :=
  c.failure.isSome ∨ output.result = none ∨ output.name ∈ c.names ∧
    ∀ error, output.result = some (.error error) → (g.errorHandlerFor output.name).isSome

variable {c c' : Collected} {node : String} {e' : Exec} {result : SuperStepResult} {env : Attempts}

theorem Settled.mono {output : Output} (h : Settled g c output)
    (hg : Grows c c') : Settled g c' output := by
  rcases h with h | h | ⟨h, he⟩
  · exact .inl (hg.failure h)
  · exact .inr (.inl h)
  · exact .inr (.inr ⟨hg.names h, he⟩)

theorem mem_finish_names {write : PendingWrite} {n : String} :
    n ∈ (c.finish node write).names ↔ n ∈ c.names ∨ n = node := by
  have h := (c.finish_names node write []).mem_iff (a := n)
  simpa using h

theorem Grows.finish {c₁ : Collected} {write : PendingWrite}
    (hf : c₁.failure = c.failure) (hn : c₁.names = c.names) : Grows c (c₁.finish node write) :=
  ⟨fun h => hf ▸ h, fun _ h => mem_finish_names.mpr (.inl (hn ▸ h))⟩

theorem fail_isSome (c : Collected) (node : String) (error : GraphError) :
    (c.fail node error).failure.isSome := by
  cases hf : c.failure <;> simp [Collected.fail, hf]

theorem Grows.fail {c₁ : Collected} {error : GraphError} (hn : c₁.names = c.names) :
    Grows c (c₁.fail node error) :=
  ⟨fun _ => fail_isSome c₁ node error, fun _ h => hn ▸ h⟩

theorem collectOutput_settled {output : Output}
    (h : collectOutput g c output = .ok c') : Settled g c' output ∧ Grows c c' := by
  unfold collectOutput at h
  split at h
  · rename_i hnone
    cases h
    exact ⟨.inr (.inl hnone), fun hf => hf, fun n hn => hn⟩
  · rename_i out hout
    dsimp only at h
    split at h
    · rename_i interrupt hi
      cases h
      refine ⟨.inr (.inr ⟨?_, by simp [hout]⟩), fun hf => hf, fun n hn => ?_⟩
      · simp [Collected.names]
      · simp only [Collected.names, Collected.addEvents, List.map_append, List.mem_append] at hn ⊢
        tauto
    · cases h
      exact ⟨.inr (.inr ⟨mem_finish_names.mpr (.inr rfl), by simp [hout]⟩), .finish rfl rfl⟩
  · rename_i error hout
    dsimp only at h
    split at h
    · cases h
      exact ⟨.inl (fail_isSome _ _ _), .fail rfl⟩
    · rename_i handler hhand
      split at h
      · cases h
        exact ⟨.inl (fail_isSome _ _ _), .fail rfl⟩
      · split at h
        · cases h
        · cases h
          exact ⟨.inr (.inr ⟨mem_finish_names.mpr (.inr rfl), by simp [hhand]⟩),
            .finish rfl rfl⟩

theorem collectOutputs_settled {outputs : List Output} (h : outputs.foldlM (collectOutput g) c = .ok c') :
    (∀ output ∈ outputs, Settled g c' output) ∧ Grows c c' := by
  induction outputs generalizing c with
  | nil =>
    cases h
    exact ⟨by simp, fun hf => hf, fun n hn => hn⟩
  | cons output outputs ih =>
    rw [List.foldlM_cons, bind_eq_ok] at h
    obtain ⟨c₁, h₁, h⟩ := h
    obtain ⟨hset, hgrow⟩ := ih h
    obtain ⟨hset₁, hgrow₁⟩ := collectOutput_settled h₁
    refine ⟨fun o ho => ?_, fun hf => hgrow.failure (hgrow₁.failure hf), fun n hn =>
      hgrow.names (hgrow₁.names hn)⟩
    rcases List.mem_cons.mp ho with rfl | ho
    · exact hset₁.mono hgrow
    · exact hset o ho

def HasRun (result : SuperStepResult) (node : String) : Prop :=
  node ∈ result.executedNodes ∨ node ∈ result.interrupts.map (·.1)

theorem finishStep_ok (h : finishStep g c = (e', .ok result)) :
    c.failure = none ∧ ∀ n ∈ c.names, HasRun result n := by
  obtain ⟨-, hres⟩ := finishStep_spec h
  obtain ⟨hx, hi⟩ := hres result rfl
  refine ⟨?_, fun n hn => ?_⟩
  · unfold finishStep at h
    split at h
    · cases h
    · assumption
  · rcases List.mem_append.mp hn with hn | hn
    · exact .inl (hx ▸ hn)
    · have hne : c.interrupts.isEmpty = false := by
        cases hc : c.interrupts with
        | nil => simp [hc] at hn
        | cons => rfl
      rw [hne] at hi
      exact .inr (by rw [hi]; exact hn)

theorem superStepIn_runs_all {recorded : List (String × Value)} {e : Exec} {outputs : List Output}
    (hgate : gateBefore g e e.pendingNodes = none)
    (h : SuperStepIn g config ∅ env recorded e outputs (e', .ok result))
    (hp : node ∈ e.pendingNodes) (hn : node ∈ g.nodes) : HasRun result node := by
  rw [SuperStepIn, hgate] at h
  obtain ⟨hd, ho⟩ := h
  obtain ⟨-, hperm⟩ := plan_spec ∅ e
  rw [collectSuperStep] at ho
  dsimp only at ho
  split at ho
  · cases ho
  · rename_i c hc
    obtain ⟨hset, hgrow⟩ := collectOutputs_settled hc
    obtain ⟨hfail, hrun⟩ := finishStep_ok ho.symm
    have hset' : ∀ output ∈ outputs, Settled g c output := fun o ho =>
      hset o ((List.mem_insertionSort _).mpr ho)
    -- A future that did not start gave way to a failure, and the step would have failed.
    have hstd : ∀ output ∈ outputs, output.result ≠ none := by
      intro o ho hnone
      obtain ⟨a, ha, out, hout, error, hname, hrec, hres⟩ := Dispatched.started ⟨env, hd⟩ ho hnone
      rw [toDispatch_recoverable ha, ← hname] at hrec
      rcases hset' out hout with hf | hnone' | ⟨-, hhandled⟩
      · simp [hfail] at hf
      · simp [hres] at hnone'
      · simp [hhandled error hres] at hrec
    rcases List.mem_append.mp (hperm.mem_iff.mpr hp) with hans | hleft
    · exact hrun node (hgrow.names hans)
    · obtain ⟨program, hprg⟩ := Std.ExtTreeMap.mem_iff_isSome_getElem?.mp hn |> Option.isSome_iff_exists.mp
      have hact : activation g config e node program ∈ toDispatch g config ∅ e := by
        rw [toDispatch, List.mem_filterMap]
        exact ⟨node, hleft, by rw [hprg]; rfl⟩
      have hname : node ∈ outputs.map (·.name) :=
        (Dispatched.names_perm ⟨env, hd⟩).mem_iff.mpr (List.mem_map.mpr ⟨_, hact, rfl⟩)
      obtain ⟨out, hout, rfl⟩ := List.mem_map.mp hname
      rcases hset' out hout with hf | hnone | ⟨hmem, -⟩
      · simp [hfail] at hf
      · exact absurd hnone (hstd out hout)
      · exact hrun _ hmem

theorem endStreamed_runs {m m' : Messages} {name : String} {streamed : Streamed}
    (h : endStreamed g m name streamed = .ok m') : name ∈ m'.names ∧ m.names ⊆ m'.names := by
  unfold endStreamed at h
  dsimp only at h
  split at h
  · cases h
    refine ⟨by simp [Messages.names], fun n hn => ?_⟩
    simp only [Messages.names, List.map_append, List.mem_append] at hn ⊢
    tauto
  · obtain ⟨-, hr⟩ := applyStreamed_spec.1 m' h
    refine ⟨by simp [Messages.names, hr], fun n hn => ?_⟩
    simp only [Messages.names, hr, List.mem_append] at hn ⊢
    tauto

theorem streamNode_runs {start : State} {m m' : Messages} {name : String}
    (h : streamNode g config env start m name = .ok m') :
    (name ∈ g.nodes → name ∈ m'.names) ∧ m.names ⊆ m'.names := by
  unfold streamNode at h
  split at h
  · cases h
    refine ⟨fun _ => by simp [streamPending, Messages.names], fun n hn => ?_⟩
    simp only [streamPending, Messages.names, List.mem_append] at hn ⊢
    tauto
  · split at h
    · rename_i hnone
      cases h
      exact ⟨fun hn => absurd hnone (by simpa using hn), fun n hn => hn⟩
    · dsimp only at h
      split at h
      · cases h
      · obtain ⟨hmem, hsub⟩ := endStreamed_runs h
        exact ⟨fun _ => hmem, hsub⟩
      · obtain ⟨hmem, hsub⟩ := endStreamed_runs h
        exact ⟨fun _ => hmem, hsub⟩
      · cases h

theorem messagesSuperStep_runs_all {recorded : List (String × Value)} {e : Exec}
    {yielded : List StreamEvent} (hgate : gateBefore g e e.pendingNodes = none)
    (h : messagesSuperStep g config env recorded e = (yielded, e', .ok result))
    (hp : node ∈ e.pendingNodes) (hn : node ∈ g.nodes) : HasRun result node := by
  let P (items : List String) (m : Messages) : Prop := node ∈ items ∨ node ∈ m.names
  have hstep : ∀ name items m m', P (name :: items) m →
      streamNode g config env e.state m name = .ok m' → P items m' := by
    intro name items m m' hP hm
    obtain ⟨hself, hkeep⟩ := streamNode_runs hm
    rcases hP with hP | hP
    · rcases List.mem_cons.mp hP with rfl | hP
      · exact .inr (hself hn)
      · exact .inl hP
    · exact .inr (hkeep hP)
  rw [messagesSuperStep, hgate] at h
  dsimp only at h
  split at h
  · cases h
  · rename_i m heq
    have hmem : node ∈ m.names := by simpa [P] using foldlM_ok_inv P hstep (.inl hp) heq
    cases h
    have hsort : node ∈ (m.result.interrupts.insertionSort fun a b => a.1 ≤ b.1).map (·.1) ↔
        node ∈ m.result.interrupts.map (·.1) :=
      ((List.perm_insertionSort _ _).map _).mem_iff
    rcases List.mem_append.mp hmem with hx | hi
    · exact .inl hx
    · have hi := hsort.mpr hi
      have hne : (m.result.interrupts.insertionSort fun a b => a.1 ≤ b.1).isEmpty = false := by
        cases hs : m.result.interrupts.insertionSort fun a b => a.1 ≤ b.1 with
        | nil => simp [hs] at hi
        | cons => rfl
      refine .inr ?_
      simp only [hne, Bool.false_eq_true, if_false]
      exact hi

end Exec

/-! ## Gates before a node -/

namespace Timeline

open Exec

variable {g : CompiledGraph}

/-- **A super-step that no gate stops runs every node of its frontier.** -/
theorem Executes.runs_all {style : Style} {config : ExecutionConfig} {e e' : Exec}
    {result : SuperStepResult} (h : Executes g style config e e' (.ok result))
    (hgate : gateBefore g e e.pendingNodes = none) {node : String} (hp : node ∈ e.pendingNodes)
    (hn : node ∈ g.nodes) : HasRun result node := by
  generalize hr : (Except.ok result : Except GraphError SuperStepResult) = r at h
  cases h with
  | step hm h =>
    subst hr
    exact superStepIn_runs_all hgate h hp hn
  | @messages env recorded yielded e' res hm h =>
    cases res with
    | error failure => cases hr
    | ok r =>
      cases hr
      exact messagesSuperStep_runs_all hgate h hp hn

variable (g) in
/-- The nodes of the frontier that have a gate before them. -/
def gated (e : Exec) : List String := e.pendingNodes.filter fun node => g.interruptBefore.contains node

variable (g) in
/-- A run stops at the gate before `node`, and another run resumes the thread with nothing changed. -/
inductive Stop : Exec → String → Exec → Prop where
  | stop {style : Style} {config saved config' : ExecutionConfig} {e e₁ e₂ e' : Exec}
      {result : SuperStepResult} {node : String} {now now' now'' : Clock} {id : String}
      {createdAt : Utc} {head : Nat} (hp : e.pendingNodes ≠ [])
      (hg : gateBefore g e e.pendingNodes = some (node, .before node))
      (hx : Executes g style config e e₁ (.ok result))
      (hc : pauseFrontier g e₁ result now = .ok e₂)
      (hr : restore g config' false (checkpoint saved (style.settle e₂) now' id createdAt) head ∅
        now'' {} = .ok e') :
    Stop e node e'

variable (g) in
/-- The gates a thread stops at one after another, being resumed each time. -/
abbrev Stops : Exec → List String → Exec → Prop := Path (Stop g)

variable (g) in
/-- The thread runs its super-step: no gate stops it, and every node of the frontier runs. -/
structure RunsFrontier (e : Exec) : Prop where
  ungated : gateBefore g e e.pendingNodes = none
  runs : ∀ style config e' result, Executes g style config e e' (.ok result) →
    ∀ node ∈ e.pendingNodes, node ∈ g.nodes → HasRun result node

variable (g) in
/-- The gates before a frontier are passable: a thread that is resumed again and again stops at each
of them at most once, and then runs the super-step. -/
structure Passable (e : Exec) : Prop where
  once : ∀ gates e', Stops g e gates e' →
    gates.Nodup ∧ gates ⊆ gated g e ∧ gates.length ≤ (gated g e).length
  runs : ∀ gates e', Stops g e gates e' → ∃ more e'', Stops g e' more e'' ∧
    e''.pendingNodes = e.pendingNodes ∧ RunsFrontier g e''

section

variable {e : Exec}

variable {node : String} {e' : Exec}

theorem gateBefore_eq_some {pending : List String} {gate : Interrupt}
    (h : gateBefore g e pending = some (node, gate)) :
    node ∈ pending ∧ g.interruptBefore.contains node ∧ e.clearedInterrupt ≠ some node ∧
      gate = .before node := by
  obtain ⟨n, hfind, heq⟩ := Option.map_eq_some_iff.mp h
  cases heq
  have hp := List.find?_some hfind
  simp only [Bool.and_eq_true, decide_eq_true_eq] at hp
  exact ⟨List.mem_of_find?_eq_some hfind, hp.1, hp.2, rfl⟩

theorem gateBefore_eq_none :
    gateBefore g e e.pendingNodes = none ↔ ∀ node ∈ gated g e, e.clearedInterrupt = some node := by
  simp only [gateBefore, Option.map_eq_none_iff, List.find?_eq_none, Bool.and_eq_true,
    decide_eq_true_eq, gated, List.mem_filter]
  constructor
  · rintro h node ⟨hp, hg⟩
    by_contra hc
    exact h node hp ⟨hg, hc⟩
  · rintro h node hp ⟨hg, hc⟩
    exact hc (h node ⟨hp, hg⟩)

theorem Stop.spec (hs : Saveable g e) (h : Stop g e node e') :
    node ∈ gated g e ∧ e.clearedInterrupt ≠ some node ∧ e'.clearedInterrupt = some node ∧
      e'.pendingNodes = e.pendingNodes ∧ Saveable g e' := by
  cases h with
  | @stop style config saved config' _ e₁ e₂ _ result _ now now' now'' id createdAt head hp hg hx hc
      hr =>
    obtain ⟨hmem, hgated, hcleared, -⟩ := gateBefore_eq_some hg
    rcases hx.ok with ⟨gate, hgate, rfl, rfl⟩ | ⟨hnone, -⟩
    · rw [hg] at hgate
      cases hgate
      cases hc
      have hsave : Saveable g (style.settle { e₁ with clearedInterrupt := some node }) := by
        unfold Style.settle
        split <;> exact ⟨hs.expected, hs.abandoned⟩
      obtain ⟨started, hres⟩ := restore_checkpoint config' hsave saved now' now'' id createdAt head ∅
      rw [hres] at hr
      cases hr
      refine ⟨List.mem_filter.mpr ⟨hmem, hgated⟩, hcleared, ?_, ?_, ?_⟩
      · simp only [Style.settle]; split <;> rfl
      · simp only [Style.settle]; split <;> rfl
      · exact ⟨hsave.expected, hsave.abandoned⟩
    · rw [hg] at hnone
      cases hnone

theorem exists_stop (hs : Saveable g e) {gate : Interrupt}
    (hg : gateBefore g e e.pendingNodes = some (node, gate)) : ∃ e', Stop g e node e' := by
  obtain ⟨hmem, -, -, rfl⟩ := gateBefore_eq_some hg
  have hne : e.pendingNodes ≠ [] := List.ne_nil_of_mem hmem
  have hx : Executes g .invoke played e e (.ok { interrupts := [(node, .before node)] }) := by
    have h := execute_executes (g := g) .invoke e
    simpa [execute, Style.isMessages, hg] using h
  have hsave : Saveable g { e with clearedInterrupt := some node } := ⟨hs.expected, hs.abandoned⟩
  have hc : pauseFrontier g e { interrupts := [(node, .before node)] } still =
      .ok { e with clearedInterrupt := some node } := rfl
  obtain ⟨started, hr⟩ := restore_checkpoint played hsave played still still "" 0 0 ∅
  exact ⟨_, .stop hne hg hx hc hr⟩

/-- The gated nodes depend on the frontier alone. -/
theorem gated_congr (h : e'.pendingNodes = e.pendingNodes) : gated g e' = gated g e := by
  unfold gated
  rw [h]

theorem Stops.spec {gates : List String} (hs : Saveable g e) (h : Stops g e gates e') :
    e'.pendingNodes = e.pendingNodes ∧ Saveable g e' := by
  induction h with
  | nil => exact ⟨rfl, hs⟩
  | cons hstop _ ih =>
    obtain ⟨-, -, -, hp, hs'⟩ := hstop.spec hs
    obtain ⟨hp', hs''⟩ := ih hs'
    exact ⟨hp'.trans hp, hs''⟩

/-- A frontier that gets to run has at most one gated node: the answered gate is a single one. -/
theorem length_gated_le_one (hn : e.pendingNodes.Nodup) (h : Passable g e) :
    (gated g e).length ≤ 1 := by
  obtain ⟨more, e', -, hp, hrun⟩ := h.runs [] e (.nil e)
  have hall := gateBefore_eq_none.mp hrun.ungated
  rw [gated_congr hp] at hall
  have hnd : (gated g e).Nodup := hn.filter _
  generalize gated g e = nodes at hall hnd
  rcases nodes with _ | ⟨a, _ | ⟨b, nodes⟩⟩
  · simp
  · simp
  · have ha := hall a (by simp)
    have hb := hall b (by simp)
    have hab : a = b := by rw [ha] at hb; exact Option.some.inj hb
    simp [hab] at hnd

theorem length_stops_le_one {gates : List String} (hs : Saveable g e)
    (hg : (gated g e).length ≤ 1) (h : Stops g e gates e') :
    gates = [] ∨ ∃ node, gates = [node] ∧ gated g e = [node] := by
  cases h with
  | nil => exact .inl rfl
  | @cons _ e₁ _ node gates hstop hrest =>
    obtain ⟨hmem, -, hcleared, hp, -⟩ := hstop.spec hs
    have hone : gated g e = [node] := by
      obtain ⟨x, hx⟩ := List.length_eq_one_iff.mp
        (Nat.le_antisymm hg (List.length_pos_of_mem hmem))
      rw [hx] at hmem
      rw [hx, List.mem_singleton.mp hmem]
    refine .inr ⟨node, ?_, hone⟩
    cases hrest with
    | nil => rfl
    | @cons _ _ _ node' _ hstop' _ =>
      -- The gate that was answered is the only one.
      have hsave : Saveable g e₁ := by
        obtain ⟨-, -, -, -, hsave⟩ := hstop.spec hs
        exact hsave
      obtain ⟨hmem', hne, -, -, -⟩ := hstop'.spec hsave
      rw [gated_congr hp, hone, List.mem_singleton] at hmem'
      exact absurd (hmem' ▸ hcleared) hne

theorem exists_runs (hs : Saveable g e) (hg : (gated g e).length ≤ 1) :
    ∃ more e', Stops g e more e' ∧ e'.pendingNodes = e.pendingNodes ∧ RunsFrontier g e' := by
  have hruns : ∀ e', gateBefore g e' e'.pendingNodes = none → RunsFrontier g e' := fun e' hgate =>
    ⟨hgate, fun _ _ _ _ hx node hp hn => hx.runs_all hgate hp hn⟩
  cases hgate : gateBefore g e e.pendingNodes with
  | none => exact ⟨[], e, .nil e, rfl, hruns e hgate⟩
  | some gate =>
    obtain ⟨node, interrupt⟩ := gate
    obtain ⟨e', hstop⟩ := exists_stop hs hgate
    obtain ⟨hmem, -, hcleared, hp, -⟩ := hstop.spec hs
    refine ⟨[node], e', .single hstop, hp, hruns e' (gateBefore_eq_none.mpr fun n hn => ?_)⟩
    rw [gated_congr hp] at hn
    obtain ⟨x, hx⟩ := List.length_eq_one_iff.mp (Nat.le_antisymm hg (List.length_pos_of_mem hmem))
    rw [hx, List.mem_singleton] at hn hmem
    rw [hcleared, hn, hmem]

end

/-- **The gates before a frontier are passable exactly when there is at most one.** -/
theorem passable_iff {events : List Event} {p : Point} (h : Reaches g events p) :
    Passable g p.exec ↔ (gated g p.exec).length ≤ 1 := by
  obtain ⟨past, -, hc⟩ := h.consistent
  have hs : Saveable g p.exec := hc.saveable
  refine ⟨length_gated_le_one hc.nodup, fun hg => ⟨fun gates e' hstops => ?_, fun gates e' hstops => ?_⟩⟩
  · rcases length_stops_le_one hs hg hstops with rfl | ⟨node, rfl, hone⟩
    · simp
    · simp [hone]
  · obtain ⟨hp, hs'⟩ := hstops.spec hs
    obtain ⟨more, e'', hmore, hp', hrun⟩ := exists_runs hs' (by rwa [gated_congr hp])
    exact ⟨more, e'', hmore, hp'.trans hp, hrun⟩

def gatedEntries (names : List String) (h : names.Nodup) : CompiledGraph where
  schema := {}
  nodes := markers names
  edges := [.entry names h]
  interruptBefore := Names.ofList names
  deferredConfigs := ∅

/-- A single gated entry node is passed. -/
theorem passable_iff_oneGate :
    Passable (gatedEntries ["a"] nodup_a) (begun (gatedEntries ["a"] nodup_a) ∅) :=
  (passable_iff (@run_reaches (gatedEntries ["a"] nodup_a) ∅ (by decide +kernel) [])).mpr
    (by decide +kernel)

/-- **Two gated nodes in one frontier are never passed.** -/
theorem two_gates_not_passable : ¬ ∀ (g : CompiledGraph) (events : List Event) (p : Point),
    Reaches g events p → Passable g p.exec := by
  intro h
  let g := gatedEntries ["a", "b"] nodup_ab
  have hr : Reaches g (run g ∅ []).1 (run g ∅ []).2 := run_reaches (by decide +kernel) []
  obtain ⟨past, -, hc⟩ := hr.consistent
  have hone := length_gated_le_one hc.nodup (h g _ _ hr)
  have htwo : (gated g (run g ∅ []).2.exec).length = 2 := by decide +kernel
  omega

/-! ## Gates after a node -/

theorem Reaches.last {events : List Event} {event : Event} {p : Point}
    (h : Reaches g (events ++ [event]) p) :
    Starts g event p ∨ ∃ q, Reaches g events q ∧ Step g q event p := by
  generalize he : events ++ [event] = all at h
  cases h with
  | start hs =>
    obtain ⟨-, heq⟩ := List.append_inj' (he.trans (List.nil_append _).symm) rfl
    cases heq
    exact .inl hs
  | step hr hs =>
    obtain ⟨rfl, heq⟩ := List.append_inj' he rfl
    cases heq
    exact .inr ⟨_, hr, hs⟩

variable (g) in
/-- What a pause reports when a node with a gate after it finished: the gate, or else the pauses that
nodes of the step asked for themselves. -/
def ReportsAfter (frontier : List String) (result : SuperStepResult) : Prop :=
  (∃ node, result.executedNodes.find? (fun node => g.interruptAfter.contains node) = some node ∧
    result.interrupts = [(node, .after node)]) ∨
  result.interrupts ≠ [] ∧
    ∀ pause ∈ result.interrupts, pause.1 ∈ frontier ∧ pause.1 ∉ result.executedNodes

theorem Executes.reportsAfter {style : Style} {config : ExecutionConfig} {e e' : Exec}
    {result : SuperStepResult} (h : Executes g style config e e' (.ok result))
    (hn : e.pendingNodes.Nodup) {node : String} (hx : node ∈ result.executedNodes)
    (ha : g.interruptAfter.contains node) :
    result.interrupts ≠ [] ∧ ReportsAfter g e.pendingNodes result := by
  rcases h.ok with ⟨gate, -, -, rfl⟩ | ⟨-, hran⟩
  · simp at hx
  · obtain ⟨own, hsub, hi⟩ := hran.pauses
    by_cases hown : own = []
    · subst hown
      obtain ⟨first, hfst⟩ : ∃ first,
          result.executedNodes.find? (fun node => g.interruptAfter.contains node) = some first :=
        Option.isSome_iff_exists.mp (List.find?_isSome.mpr ⟨node, hx, ha⟩)
      have hgate : result.interrupts = [(first, .after first)] := by
        simpa [gateAfter, hfst] using hi
      exact ⟨by simp [hgate], .inl ⟨first, hfst, hgate⟩⟩
    · have hi : result.interrupts = own := by simpa [hown] using hi
      have hne : result.interrupts ≠ [] := hi ▸ hown
      refine ⟨hne, .inr ⟨hne, fun pause hp => ?_⟩⟩
      rw [hi] at hp
      have hmem : pause.1 ∈ own.map Prod.fst := List.mem_map_of_mem hp
      have hnd : (result.executedNodes ++ own.map Prod.fst).Nodup := nodup_of_subperm hsub hn
      refine ⟨hsub.subset (List.mem_append_right _ hmem), fun hexec => ?_⟩
      exact (List.nodup_append.mp hnd).2.2 _ hexec _ hmem rfl

/-- **A super-step in which a node with a gate after it finishes ends its run**, and only a resumed
run goes on from there. -/
theorem gate_after_ends_run {events pre post : List Event} {event : Event} {p : Point}
    (h : Reaches g events p) (he : events = pre ++ event :: post) {node : String}
    (hx : node ∈ event.executed) (ha : g.interruptAfter.contains node) :
    (event.outcome = .paused ∧ ReportsAfter g event.frontier event.result ∨
        event.outcome = .lost) ∧
      ∀ next ∈ post.head?, next.outcome = .resumed := by
  subst he
  obtain ⟨q, hq, hgoes⟩ := @Reaches.cut g (pre ++ [event]) post p (by simpa using h) (by simp)
  have hend : (event.outcome = .paused ∧ ReportsAfter g event.frontier event.result ∨
      event.outcome = .lost) ∧ q.running = false := by
    rcases hq.last with hs | ⟨r, hr, hs⟩
    · cases hs
      simp [Event.executed] at hx
    · obtain ⟨past, -, hc⟩ := hr.consistent
      cases hs with
      | complete hp hexec hi hc' hj =>
        exact absurd hi (hexec.reportsAfter hc.nodup hx ha).1
      | pause hp hexec hi hc' hj =>
        exact ⟨.inl ⟨rfl, (hexec.reportsAfter hc.nodup hx ha).2⟩, rfl⟩
      | fail hp hexec => simp [Event.executed] at hx
      | lost hp hexec => exact ⟨.inr rfl, rfl⟩
      | resume hr => simp [Event.executed] at hx
  refine ⟨hend.1, fun next hnext => ?_⟩
  cases hgoes with
  | nil => simp at hnext
  | @cons _ q' _ event' rest hs _ =>
    obtain rfl : next = event' := by simpa [eq_comm] using hnext
    have hstop := hend.2
    cases hs with
    | complete | pause | fail | lost => simp at hstop
    | resume hr => rfl

def asker (name : String) : Node where
  name := name
  execute := fun _ _ => .ok { interrupt := some (.dynamic "wait" none) }

/-- A node with a gate after it, and its successor. -/
def gatedFirst : CompiledGraph where
  schema := {}
  nodes := markers ["a", "c"]
  edges := [.entry ["a"] nodup_a, .direct "a" (.node "c"), .direct "c" .end_]
  interruptAfter := Names.ofList ["a"]
  deferredConfigs := ∅

/-- Runs the entry nodes, resumes the thread and runs once more. -/
def resumedOnce : List Command := [.step .invoke, .resume ∅, .step .invoke]

/-- The run of `gatedFirst` ends once `a` has finished, and goes on when it is resumed. -/
theorem gate_after_ends_run_gatedFirst :
    ∃ start pause next last, (run gatedFirst ∅ resumedOnce).1 = [start, pause, next, last] ∧
      (pause.outcome = .paused ∧ ReportsAfter gatedFirst pause.frontier pause.result ∨
        pause.outcome = .lost) ∧ next.outcome = .resumed := by
  have hr : Reaches gatedFirst _ _ := @run_reaches _ ∅ (by decide +kernel) resumedOnce
  have hexec : (run gatedFirst ∅ resumedOnce).1.map (·.executed) = [[], ["a"], [], ["c"]] := by
    decide +kernel
  obtain ⟨start, rest, hrun, -, hexec⟩ := List.map_eq_cons_iff.mp hexec
  obtain ⟨pause, rest, rfl, hpause, hexec⟩ := List.map_eq_cons_iff.mp hexec
  obtain ⟨next, rest, rfl, -, hexec⟩ := List.map_eq_cons_iff.mp hexec
  obtain ⟨last, rest, rfl, -, hexec⟩ := List.map_eq_cons_iff.mp hexec
  obtain rfl := List.map_eq_nil_iff.mp hexec
  obtain ⟨hend, hnext⟩ := @gate_after_ends_run _ _ [start] [next, last] pause _ hr hrun "a"
    (by simp [hpause]) (by decide +kernel)
  exact ⟨start, pause, next, last, hrun, hend, hnext next rfl⟩

/-- The same beside a node that asks to pause itself. -/
def gatedBesideAsker : CompiledGraph where
  schema := {}
  nodes := (markers ["a", "c"]).insert "b" (asker "b")
  edges := [.entry ["a", "b"] nodup_ab, .direct "a" (.node "c"), .direct "c" .end_]
  interruptAfter := Names.ofList ["a"]
  deferredConfigs := ∅

/-- Whether a pause reports a gate after a node. -/
def isAfter : Interrupt → Bool
  | .after _ => true
  | _ => false

/-- **A gate after a node need not be reported**: `b` asked to pause itself beside `a`, and when the
thread is resumed the successor of `a` runs. -/
theorem gate_after_not_reported :
    ¬ ∀ (g : CompiledGraph) (events : List Event) (p : Point), Reaches g events p →
      ∀ pre event mid later post node target,
        events = pre ++ event :: (mid ++ later :: post) → node ∈ event.executed →
        g.interruptAfter.contains node → (node, target) ∈ event.routes → target ∈ later.executed →
        ∃ pause ∈ event :: mid, pause.outcome = .paused ∧
          ∃ entry ∈ pause.result.interrupts, isAfter entry.2 := by
  intro h
  have hr : Reaches gatedBesideAsker _ _ := @run_reaches _ ∅ (by decide +kernel) resumedOnce
  have hevents : (run gatedBesideAsker ∅ resumedOnce).1.map (fun event =>
      (event.executed, event.routes, event.result.interrupts.any fun entry => isAfter entry.2)) =
      [([], [], false), (["a"], [("a", "c")], false), ([], [], false), (["c"], [], false)] := by
    decide +kernel
  obtain ⟨start, rest, hrun, -, hevents⟩ := List.map_eq_cons_iff.mp hevents
  obtain ⟨pause, rest, rfl, hpause, hevents⟩ := List.map_eq_cons_iff.mp hevents
  obtain ⟨next, rest, rfl, hnext, hevents⟩ := List.map_eq_cons_iff.mp hevents
  obtain ⟨last, rest, rfl, hlast, hevents⟩ := List.map_eq_cons_iff.mp hevents
  simp only [Prod.mk.injEq] at hpause hnext hlast
  obtain ⟨event, hmem, -, entry, hentry, hafter⟩ := h gatedBesideAsker _ _ hr [start] pause [next] last
    rest "a" "c" hrun (by simp [hpause]) (by decide +kernel) (by simp [hpause]) (by simp [hlast])
  have hany : event.result.interrupts.any (fun entry => isAfter entry.2) = true :=
    List.any_eq_true.mpr ⟨entry, hentry, hafter⟩
  rcases List.mem_cons.mp hmem with rfl | hmem
  · rw [hpause.2.2] at hany
    cases hany
  · obtain rfl := List.mem_singleton.mp hmem
    rw [hnext.2.2] at hany
    cases hany

end Timeline
end Adk
