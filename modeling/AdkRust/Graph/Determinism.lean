import AdkRust.Graph.SuperStep

/-!
# A super-step does not depend on its schedule

`superStep_deterministic`: two schedules of the same step, under any two bounds on the futures in
flight, leave the same executor and the same result, and the next frontier is the same. What makes
it so is that each node's future gives its own output when no sibling fails the step
(`DispatchedIn.outputs_perm`), and that the outputs are sorted by node name before anything is made
of them (`collectSuperStep_perm`).
-/

namespace Adk
namespace Exec

variable {g : CompiledGraph} {config : ExecutionConfig}

variable {cached : Dict Value} {e : Exec}

/-- The future of a node is determined by the node's name. -/
theorem toDispatch_name {a b : Activation}
    (ha : a ∈ toDispatch g config cached e) (hb : b ∈ toDispatch g config cached e)
    (h : a.name = b.name) : a = b := by
  simp only [toDispatch, List.mem_filterMap, Option.map_eq_some_iff] at ha hb
  obtain ⟨n, -, node, hn, rfl⟩ := ha
  obtain ⟨m, -, node', hm, rfl⟩ := hb
  obtain rfl : n = m := h
  rw [hn] at hm
  cases hm
  rfl

theorem toDispatch_recoverable {a : Activation} (ha : a ∈ toDispatch g config cached e) :
    a.recoverable = (g.errorHandlerFor a.name).isSome := by
  simp only [toDispatch, List.mem_filterMap, Option.map_eq_some_iff] at ha
  obtain ⟨n, -, node, hn, rfl⟩ := ha
  rfl

/-- What is made of the outputs does not depend on their order. -/
theorem collectSuperStep_perm {recorded : List (String × Value)}
    {outputs₁ outputs₂ : List Output} (hp : outputs₁.Perm outputs₂)
    (hname : ∀ a ∈ outputs₁, ∀ b ∈ outputs₁, a.name = b.name → a = b) :
    collectSuperStep g cached outputs₁ recorded e = collectSuperStep g cached outputs₂ recorded e := by
  simp only [collectSuperStep, insertionSort_eq_of_perm (·.name) hp hname]

/-- Two schedules of the same futures resolve to the same outputs, when no failure goes unrecovered
in the first one. -/
theorem dispatch_perm {env : Attempts} {limit₁ limit₂ : Nat} {outputs₁ outputs₂ : List Output}
    (h₁ : DispatchedIn limit₁ env (toDispatch g config cached e) outputs₁)
    (h₂ : DispatchedIn limit₂ env (toDispatch g config cached e) outputs₂)
    (hok : ∀ out ∈ outputs₁, ∀ error, out.result = some (.error error) →
      (g.errorHandlerFor out.name).isSome) :
    outputs₁.Perm outputs₂ ∧ ∀ a ∈ outputs₁, ∀ b ∈ outputs₁, a.name = b.name → a = b := by
  have hperm₁ := h₁.outputs_perm fun a ha out hout error hname hres => by
    rw [toDispatch_recoverable ha, ← hname]
    exact hok out hout error hres
  have hrec : ∀ a ∈ toDispatch g config cached e,
      (a.output env).result.any a.unrecovered = false := by
    intro a ha
    have hout := hperm₁.mem_iff.mpr (List.mem_map_of_mem (f := (·.output env)) ha)
    have hrecov := toDispatch_recoverable ha
    cases hr : (a.settle env (a.budget a.spent) a.spent 0).1 with
    | ok out => simp [Activation.output, Activation.unrecovered, hr]
    | error error =>
      have := hok _ hout error (by simp [Activation.output, hr])
      simpa [Activation.output, Activation.unrecovered, hr, hrecov] using this
  refine ⟨hperm₁.trans (h₂.outputs_perm_of_recovered hrec).symm, fun x hx y hy hxy => ?_⟩
  obtain ⟨a, ha, rfl⟩ := List.mem_map.mp (hperm₁.mem_iff.mp hx)
  obtain ⟨b, hb, rfl⟩ := List.mem_map.mp (hperm₁.mem_iff.mp hy)
  rw [toDispatch_name ha hb hxy]

/-- **A super-step depends neither on the order its futures resolve in nor on the bound.** -/
theorem superStep_deterministic (g : CompiledGraph) (config : ExecutionConfig)
    (maxConcurrency₁ maxConcurrency₂ : Option Nat) (cached : Dict Value) (env : Attempts)
    (recorded : List (String × Value)) (e : Exec) {outputs₁ outputs₂ : List Output}
    {outcome₁ outcome₂ : Exec × Except GraphError SuperStepResult}
    (h₁ : SuperStepIn { g with maxConcurrency := maxConcurrency₁ } config cached env recorded e
      outputs₁ outcome₁)
    (h₂ : SuperStepIn { g with maxConcurrency := maxConcurrency₂ } config cached env recorded e
      outputs₂ outcome₂)
    (hok : ∀ out ∈ outputs₁, ∀ error, out.result = some (.error error) →
      (g.errorHandlerFor out.name).isSome) :
    outcome₁ = outcome₂ ∧ ∀ result, outcome₁.2 = .ok result →
      nextFrontier { g with maxConcurrency := maxConcurrency₁ } outcome₁.1 result.executedNodes
          result.goto =
        nextFrontier { g with maxConcurrency := maxConcurrency₂ } outcome₂.1 result.executedNodes
          result.goto := by
  suffices h : outcome₁ = outcome₂ by
    subst h
    exact ⟨rfl, fun _ _ => rfl⟩
  simp only [SuperStepIn] at h₁ h₂
  have hg : ∀ c, gateBefore { g with maxConcurrency := c } e e.pendingNodes =
      gateBefore g e e.pendingNodes := fun _ => rfl
  rw [hg] at h₁ h₂
  cases hgate : gateBefore g e e.pendingNodes with
  | some gate =>
    rw [hgate] at h₁ h₂
    rw [h₁.2, h₂.2]
  | none =>
    rw [hgate] at h₁ h₂
    obtain ⟨hd₁, rfl⟩ := h₁
    obtain ⟨hd₂, rfl⟩ := h₂
    have hd₁ : DispatchedIn _ env (toDispatch g config cached e) outputs₁ := hd₁
    obtain ⟨hp, hname⟩ := dispatch_perm hd₁ hd₂ hok
    exact collectSuperStep_perm hp hname

/-! ### Two nodes that append to one channel -/

/-- A node that appends its name to the channel `log`. -/
def logger (name : String) : Node where
  name := name
  execute := fun _ _ => .ok { updates := Dict.ofList [("log", .string name)] }

/-- Two nodes that write the same list channel. -/
def twoLoggers : CompiledGraph where
  schema := { channels := Dict.ofList [("log", Channel.list "log")] }
  nodes := Dict.ofList [("a", logger "a"), ("b", logger "b")]
  edges := []
  deferredConfigs := ∅

/-- An executor about to run both nodes. -/
def beforeLoggers : Exec := { pendingNodes := ["b", "a"] }

/-- The output of a node of `twoLoggers`. -/
def loggerOutput (name : String) : Output where
  name := name
  result := some (.ok { updates := Dict.ofList [("log", .string name)] })
  attempts := 1

/-- The two nodes run side by side, and the later one in name order resolves first. -/
theorem twoLoggers_reversed (config : ExecutionConfig) :
    DispatchedIn 2 (fun _ _ => { moment := 0 }) (toDispatch twoLoggers config ∅ beforeLoggers)
      [loggerOutput "b", loggerOutput "a"] := by
  let a := activation twoLoggers config beforeLoggers "a" (logger "a")
  let b := activation twoLoggers config beforeLoggers "b" (logger "b")
  let env : Attempts := fun _ _ => { moment := 0 }
  have admitA : Pool.Step 2 env { queue := [a, b] }
      { queue := [b], active := [(a, .admitted)] } := .enter rfl Nat.zero_lt_two
  have admitB : Pool.Step 2 env { queue := [b], active := [(a, .admitted)] }
      { queue := [], active := [(a, .admitted), (b, .admitted)] } := .enter rfl Nat.one_lt_two
  have startA : Pool.Step 2 env { queue := [], active := [(a, .admitted), (b, .admitted)] }
      { queue := [], active := [(a, .attempting 0 0), (b, .admitted)] } :=
    .start [] [(b, .admitted)] rfl rfl
  have startB : Pool.Step 2 env { queue := [], active := [(a, .attempting 0 0), (b, .admitted)] }
      { queue := [], active := [(a, .attempting 0 0), (b, .attempting 0 0)] } :=
    .start [(a, .attempting 0 0)] [] rfl rfl
  have finishB : Pool.Step 2 env
      { queue := [], active := [(a, .attempting 0 0), (b, .attempting 0 0)] }
      { queue := [], active := [(a, .attempting 0 0)], finished := [loggerOutput "b"] } :=
    @Pool.Step.finish 2 env _ b 0 0 [(a, .attempting 0 0)] [] rfl (.inl rfl)
  have finishA : Pool.Step 2 env
      { queue := [], active := [(a, .attempting 0 0)], finished := [loggerOutput "b"] }
      { queue := [], finished := [loggerOutput "b", loggerOutput "a"] } :=
    @Pool.Step.finish 2 env _ a 0 0 [] [] rfl (.inl rfl)
  exact ⟨false, .head admitA (.head admitB (.head startA (.head startB (.head finishB
    (.single finishA)))))⟩

/-- The nodes side by side, resolving in either order, and one after the other. -/
theorem superStep_deterministic_twoLoggers :
    collectSuperStep twoLoggers ∅ [loggerOutput "b", loggerOutput "a"] [] beforeLoggers =
      collectSuperStep twoLoggers ∅ [loggerOutput "a", loggerOutput "b"] [] beforeLoggers :=
  (superStep_deterministic twoLoggers { threadId := "t" } none (some 1) ∅
    (fun _ _ => { moment := 0 }) [] beforeLoggers ⟨twoLoggers_reversed _, rfl⟩
    ⟨sequential_dispatched (by decide) _ _, rfl⟩ (by simp [loggerOutput])).1

end Exec
end Adk
