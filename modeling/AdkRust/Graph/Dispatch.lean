import AdkRust.Graph.Graph
import Mathlib.Data.List.Perm.Basic
import Mathlib.Logic.Relation

/-!
# Dispatching the nodes of a super-step

The futures of a super-step run in a bounded pool (`buffer_unordered`). `Pool.Step` is one event of
that pool: a future is admitted, starts, finishes an attempt, backs off, wakes up, or resolves. The
events interleave freely; `Dispatched` relates the futures to the outputs they resolve to, in the
order they resolved.

* `Dispatched.names_perm`: every future resolves exactly once.
* `Dispatched.started`: a future that did not start gave way to a failure no handler recovers.
* `DispatchedIn.outputs_perm`: when no failure goes unrecovered, what the futures resolve to depends
  neither on the order nor on the bound.
* `sequential_dispatched`: there is a schedule in which all of them resolve, one after another.
-/

namespace Adk

/-- What the future of one node captures. -/
structure Activation where
  name : String
  node : Node
  ctx : NodeContext
  timeout : Option TimeoutPolicy
  retry : Option RetryPolicy
  /-- Attempts already spent. -/
  spent : Nat
  /-- Whether an error handler takes the node's failure. -/
  recoverable : Bool

/-- What a future resolves to; `none` when the step had failed before the future started. -/
structure Output where
  name : String
  result : Option (Except GraphError NodeOutput)
  attempts : Nat

/-- How the executions of each node in the step meet the world, in order. -/
abbrev Attempts : Type := String → Nat → Attempt

namespace Activation

variable (a : Activation) (env : Attempts)

/-- One attempt of the node, `tick` executions after its first. -/
def attempt (tick : Nat) : Except GraphError NodeOutput × Nat :=
  match a.timeout with
  | some policy => executeWithTimeout a.node a.ctx policy (env a.name) tick
  | none => (a.node.execute a.ctx (env a.name tick).moment, tick + 1)

/-- Whether a result is followed by another attempt, `attempts` having been made. -/
def retries (attempts : Nat) (result : Except GraphError NodeOutput) : Bool :=
  match result, a.retry with
  | .error error, some retry =>
    retry.allowsAnotherAttempt attempts && retry.retryOn.shouldRetry error
  | _, _ => false

/-- Whether a result is a failure that no handler recovers. -/
def unrecovered (result : Except GraphError NodeOutput) : Bool :=
  match result with
  | .error _ => !a.recoverable
  | .ok _ => false

/-- The attempts the retry policy still allows. -/
def budget (attempts : Nat) : Nat :=
  (a.retry.map fun retry => retry.maxAttempts - attempts).getD 0

/-- The result a future that no sibling disturbs ends with, and the attempts made by then. -/
def settle : Nat → Nat → Nat → Except GraphError NodeOutput × Nat
  | 0, attempts, tick => ((a.attempt env tick).1, attempts + 1)
  | fuel + 1, attempts, tick =>
    let (result, tick) := a.attempt env tick
    if a.retries (attempts + 1) result then settle fuel (attempts + 1) tick
    else (result, attempts + 1)

/-- The output of a future that no sibling disturbs. -/
def output : Output :=
  let (result, attempts) := a.settle env (a.budget a.spent) a.spent 0
  { name := a.name, result := some result, attempts }

theorem budget_of_retries {a : Activation} {attempts : Nat}
    {result : Except GraphError NodeOutput} (h : a.retries attempts result) :
    0 < a.budget attempts := by
  unfold retries at h
  split at h
  · rename_i error retry hr
    simp only [Bool.and_eq_true, RetryPolicy.allowsAnotherAttempt, decide_eq_true_eq] at h
    simp only [budget, hr, Option.map_some, Option.getD_some]
    omega
  · cases h

theorem budget_succ (a : Activation) (attempts : Nat) :
    a.budget (attempts + 1) = a.budget attempts - 1 := by
  unfold budget
  cases a.retry with
  | none => rfl
  | some retry => simp only [Option.map_some, Option.getD_some]; omega

theorem settle_done {a : Activation} {env : Attempts} {attempts tick : Nat}
    (h : a.retries (attempts + 1) (a.attempt env tick).1 = false) :
    a.settle env (a.budget attempts) attempts tick = ((a.attempt env tick).1, attempts + 1) := by
  cases hb : a.budget attempts with
  | zero => rfl
  | succ fuel => simp [settle, h]

theorem settle_retry {a : Activation} {env : Attempts} {attempts tick : Nat}
    (h : a.retries (attempts + 1) (a.attempt env tick).1) :
    a.settle env (a.budget attempts) attempts tick =
      a.settle env (a.budget (attempts + 1)) (attempts + 1) (a.attempt env tick).2 := by
  have hb := budget_of_retries h
  rw [budget_succ] at hb ⊢
  obtain ⟨fuel, hf⟩ : ∃ fuel, a.budget attempts = fuel + 1 := ⟨a.budget attempts - 1, by omega⟩
  rw [hf]
  simp [settle, h]

end Activation

/-! ## The pool -/

inductive Phase where
  /-- Admitted and not polled yet. -/
  | admitted
  /-- About to make an attempt, `attempts` having been made. -/
  | attempting (attempts tick : Nat)
  /-- Waiting before the next attempt. -/
  | backingOff (attempts tick : Nat) (error : GraphError)

/-- The futures of a step in flight. -/
structure Pool where
  queue : List Activation
  active : List (Activation × Phase) := []
  finished : List Output := []
  /-- Set by the first failure no handler recovers. -/
  failed : Bool := false

namespace Pool

def move (p : Pool) (before after : List (Activation × Phase)) (a : Activation) (phase : Phase) :
    Pool :=
  { p with active := before ++ (a, phase) :: after }

def resolve (p : Pool) (before after : List (Activation × Phase)) (a : Activation)
    (result : Option (Except GraphError NodeOutput)) (attempts : Nat) : Pool :=
  { p with
    active := before ++ after
    finished := p.finished ++ [{ name := a.name, result, attempts }]
    failed := p.failed || result.any a.unrecovered }

/-- One event of the pool under a bound on the futures in flight. -/
inductive Step (limit : Nat) (env : Attempts) : Pool → Pool → Prop where
  /-- The next future enters the pool. -/
  | enter {p a rest} (hq : p.queue = a :: rest) (hl : p.active.length < limit) :
    Step limit env p { p with queue := rest, active := p.active ++ [(a, .admitted)] }
  | start {p a} (before after) (ha : p.active = before ++ (a, .admitted) :: after)
      (hf : p.failed = false) :
    Step limit env p (p.move before after a (.attempting a.spent 0))
  | skip {p a} (before after) (ha : p.active = before ++ (a, .admitted) :: after)
      (hf : p.failed = true) :
    Step limit env p (p.resolve before after a none a.spent)
  /-- An attempt ends, and the future does not retry. -/
  | finish {p a attempts tick} (before after)
      (ha : p.active = before ++ (a, .attempting attempts tick) :: after)
      (hr : a.retries (attempts + 1) (a.attempt env tick).1 = false ∨ p.failed = true) :
    Step limit env p (p.resolve before after a (some (a.attempt env tick).1) (attempts + 1))
  | backOff {p a attempts tick error} (before after)
      (ha : p.active = before ++ (a, .attempting attempts tick) :: after)
      (he : (a.attempt env tick).1 = .error error)
      (hr : a.retries (attempts + 1) (a.attempt env tick).1 = true) (hf : p.failed = false) :
    Step limit env p
      (p.move before after a (.backingOff (attempts + 1) (a.attempt env tick).2 error))
  | wake {p a attempts tick error} (before after)
      (ha : p.active = before ++ (a, .backingOff attempts tick error) :: after) :
    Step limit env p (p.move before after a (.attempting attempts tick))
  /-- A sibling failed the step during the wait. -/
  | abandon {p a attempts tick error} (before after)
      (ha : p.active = before ++ (a, .backingOff attempts tick error) :: after)
      (hf : p.failed = true) :
    Step limit env p (p.resolve before after a (some (.error error)) attempts)

/-- Events one after another. -/
abbrev Run (limit : Nat) (env : Attempts) : Pool → Pool → Prop :=
  Relation.ReflTransGen (Step limit env)

end Pool

/-- The futures resolve to these outputs, in this order. -/
def DispatchedIn (limit : Nat) (env : Attempts) (activations : List Activation)
    (outputs : List Output) : Prop :=
  ∃ failed, Pool.Run limit env { queue := activations } { queue := [], finished := outputs, failed }

/-- The futures can resolve to these outputs, in this order. -/
def Dispatched (limit : Nat) (activations : List Activation) (outputs : List Output) : Prop :=
  ∃ env, DispatchedIn limit env activations outputs

namespace Pool

def names (p : Pool) : List String :=
  p.finished.map (·.name) ++ p.active.map (·.1.name) ++ p.queue.map (·.name)

/-- The futures a pool holds. -/
def held (p : Pool) : List Activation := p.active.map (·.1) ++ p.queue

variable {p q : Pool} {before after : List (Activation × Phase)} {a : Activation}
  {phase phase' : Phase} {attempts limit : Nat} {env : Attempts} {activations : List Activation}

theorem names_move (h : p.active = before ++ (a, phase) :: after) :
    (p.move before after a phase').names = p.names := by
  simp [names, move, h]

theorem names_resolve {result : Option (Except GraphError NodeOutput)}
    (h : p.active = before ++ (a, phase) :: after) :
    ((p.resolve before after a result attempts).names).Perm p.names := by
  simp only [names, resolve, h, List.map_append, List.map_cons, List.map_nil, List.append_assoc,
    List.cons_append, List.nil_append]
  exact (List.perm_append_left_iff _).mpr (List.perm_middle.symm)

/-- An event resolves at most what was held. -/
theorem names_step (h : Step limit env p q) :
    q.names.Perm p.names := by
  cases h with
  | enter hq hl => simp [names, hq]
  | start before after ha hf => rw [names_move ha]
  | skip before after ha hf => exact names_resolve ha
  | finish before after ha hr => exact names_resolve ha
  | backOff before after ha he hr hf => rw [names_move ha]
  | wake before after ha => rw [names_move ha]
  | abandon before after ha hf => exact names_resolve ha

/-- What holds of a pool's resolved futures in every schedule: the pool is failed exactly when a
failure went unrecovered, and only in a failed pool does a future not start. -/
structure Sound (activations : List Activation) (p : Pool) : Prop where
  held : ∀ a ∈ p.held, a ∈ activations
  failed : p.failed → ∃ a ∈ activations, ∃ out ∈ p.finished, ∃ error,
    out.name = a.name ∧ a.recoverable = false ∧ out.result = some (.error error)
  started : ∀ out ∈ p.finished, out.result = none → p.failed

theorem Sound.move (hs : Sound activations p) (ha : p.active = before ++ (a, phase) :: after) :
    Sound activations (p.move before after a phase') := by
  refine ⟨fun b hb => hs.held b ?_, hs.failed, hs.started⟩
  simpa [Pool.held, Pool.move, ha] using hb

theorem Sound.resolve {result : Option (Except GraphError NodeOutput)}
    (hs : Sound activations p) (ha : p.active = before ++ (a, phase) :: after)
    (hr : result = none → p.failed) :
    Sound activations (p.resolve before after a result attempts) := by
  have hmem : a ∈ activations := hs.held a (by simp [Pool.held, ha])
  refine ⟨fun b hb => hs.held b ?_, fun hf => ?_, fun out hout hnone => ?_⟩
  · simp only [Pool.held, Pool.resolve, ha, List.map_append, List.map_cons] at hb ⊢
    grind
  · simp only [Pool.resolve, Bool.or_eq_true] at hf ⊢
    rcases hf with hf | hf
    · obtain ⟨b, hb, out, hout, error, h⟩ := hs.failed hf
      exact ⟨b, hb, out, by simp [hout], error, h⟩
    · cases result with
      | none => simp at hf
      | some r =>
        cases r with
        | ok out => simp [Activation.unrecovered] at hf
        | error e =>
          refine ⟨a, hmem, { name := a.name, result := some (.error e), attempts }, by simp, e, rfl,
          ?_, rfl⟩
          simpa [Activation.unrecovered] using hf
  · simp only [Pool.resolve, List.mem_append, List.mem_singleton, Bool.or_eq_true] at hout ⊢
    rcases hout with hout | rfl
    · exact .inl (hs.started out hout hnone)
    · exact .inl (hr hnone)

theorem Sound.step (hs : Sound activations p) (h : Step limit env p q) : Sound activations q := by
  cases h with
  | enter hq hl =>
    refine ⟨fun b hb => hs.held b ?_, hs.failed, hs.started⟩
    simpa [Pool.held, hq] using hb
  | start before after ha hf => exact hs.move ha
  | skip before after ha hf => exact hs.resolve ha fun _ => hf
  | finish before after ha hr => exact hs.resolve ha (by simp)
  | backOff before after ha he hr hf => exact hs.move ha
  | wake before after ha => exact hs.move ha
  | abandon before after ha hf => exact hs.resolve ha (by simp)

theorem Sound.run (h : Run limit env { queue := activations } p) :
    Sound activations p ∧ p.names.Perm (activations.map (·.name)) := by
  induction h with
  | refl =>
    exact ⟨⟨by simp [Pool.held], by simp, by simp⟩, by simp [names]⟩
  | tail _ hstep ih => exact ⟨ih.1.step hstep, (names_step hstep).trans ih.2⟩

theorem returned (h : Run limit env { queue := activations } p) :
    ∀ out ∈ p.finished, ∀ output, out.result = some (.ok output) →
      ∃ a ∈ activations, out.name = a.name ∧ ∃ tick, (a.attempt env tick).1 = .ok output := by
  induction h with
  | refl => simp
  | @tail p q hrun hstep ih =>
    have hheld := (Sound.run hrun).1.held
    -- Only a future that resolves adds an output.
    have hresolve : ∀ {before after a phase result attempts},
        p.active = before ++ (a, phase) :: after →
        (∀ output, result = some (.ok output) → ∃ tick, (a.attempt env tick).1 = .ok output) →
        ∀ out ∈ (p.resolve before after a result attempts).finished, ∀ output,
          out.result = some (.ok output) →
          ∃ a ∈ activations, out.name = a.name ∧ ∃ tick, (a.attempt env tick).1 = .ok output := by
      intro before after a phase result attempts ha hres out hout output hok
      rcases List.mem_append.mp hout with hout | hout
      · exact ih out hout output hok
      · obtain rfl := List.mem_singleton.mp hout
        exact ⟨a, hheld a (by simp [Pool.held, ha]), rfl, hres output hok⟩
    cases hstep with
    | enter | start | backOff | wake => exact ih
    | skip before after ha hf => exact hresolve ha (by simp)
    | @finish a attempts tick before after ha hr =>
      exact hresolve ha fun output hok => ⟨tick, Option.some.inj hok⟩
    | abandon before after ha hf => exact hresolve ha (by simp)

/-! ## A pool in which no failure goes unrecovered -/

def Phase.Agrees (env : Attempts) (a : Activation) : Phase → Prop
  | .admitted => True
  | .attempting attempts tick | .backingOff attempts tick _ =>
    a.settle env (a.budget attempts) attempts tick = a.settle env (a.budget a.spent) a.spent 0

/-- The futures resolved so far gave the outputs they give undisturbed. -/
structure Undisturbed (activations : List Activation) (env : Attempts) (p : Pool) : Prop where
  agrees : ∀ f ∈ p.active, Phase.Agrees env f.1 f.2
  finished : ∃ resolved : List Activation, p.finished = resolved.map (·.output env) ∧
    (resolved ++ p.held).Perm activations

theorem Undisturbed.move
    (hu : Undisturbed activations env p) (ha : p.active = before ++ (a, phase) :: after)
    (hp : Phase.Agrees env a phase') : Undisturbed activations env (p.move before after a phase') := by
  obtain ⟨resolved, hres, hperm⟩ := hu.finished
  refine ⟨fun f hf => ?_, resolved, hres, ?_⟩
  · have hag := hu.agrees
    simp only [Pool.move, ha, List.mem_append, List.mem_cons] at hf hag
    rcases hf with hf | rfl | hf
    · exact hag f (.inl hf)
    · exact hp
    · exact hag f (.inr (.inr hf))
  · simpa [Pool.held, Pool.move, ha] using hperm

theorem Undisturbed.resolve {result : Except GraphError NodeOutput}
    (hu : Undisturbed activations env p) (ha : p.active = before ++ (a, phase) :: after)
    (hr : a.settle env (a.budget a.spent) a.spent 0 = (result, attempts)) :
    Undisturbed activations env (p.resolve before after a (some result) attempts) := by
  obtain ⟨resolved, hres, hperm⟩ := hu.finished
  refine ⟨fun f hf => hu.agrees f ?_, resolved ++ [a], ?_, ?_⟩
  · simp only [Pool.resolve, ha, List.mem_append, List.mem_cons] at hf ⊢
    tauto
  · simp [Pool.resolve, hres, Activation.output, hr]
  · refine List.Perm.trans ?_ hperm
    simp only [Pool.held, Pool.resolve, ha, List.map_append, List.map_cons, List.append_assoc,
      List.cons_append, List.nil_append]
    exact (List.perm_append_left_iff _).mpr List.perm_middle.symm

theorem Undisturbed.step (hu : Undisturbed activations env p) (hf : q.failed = false)
    (h : Step limit env p q) : Undisturbed activations env q := by
  have hag := hu.agrees
  cases h with
  | enter hq hl =>
    obtain ⟨resolved, hres, hperm⟩ := hu.finished
    refine ⟨fun f hf => ?_, resolved, hres, ?_⟩
    · simp only [List.mem_append, List.mem_singleton] at hf
      rcases hf with hf | rfl
      · exact hag f hf
      · trivial
    · simpa [Pool.held, hq] using hperm
  | start before after ha _ => exact hu.move ha rfl
  | skip before after ha hpf => simp [Pool.resolve, hpf] at hf
  | finish before after ha hr =>
    have hpf : p.failed = false := by simp [Pool.resolve] at hf; exact hf.1
    have hr := hr.resolve_right (by simp [hpf])
    have := hag _ (by rw [ha]; exact List.mem_append_right _ (List.mem_cons_self ..))
    exact hu.resolve ha (by rw [← this, Activation.settle_done hr])
  | backOff before after ha he hr _ =>
    have := hag _ (by rw [ha]; exact List.mem_append_right _ (List.mem_cons_self ..))
    exact hu.move ha (by rw [Phase.Agrees, ← Activation.settle_retry hr]; exact this)
  | wake before after ha =>
    have := hag _ (by rw [ha]; exact List.mem_append_right _ (List.mem_cons_self ..))
    exact hu.move ha this
  | abandon before after ha hpf => simp [Pool.resolve, hpf] at hf

theorem failed_step (h : Step limit env p q) (hf : q.failed = false) : p.failed = false := by
  cases h <;> simp_all [Pool.resolve, Pool.move]

theorem Undisturbed.run (h : Run limit env { queue := activations } p) (hf : p.failed = false) :
    Undisturbed activations env p := by
  induction h with
  | refl => exact ⟨by simp, [], rfl, by simp [Pool.held]⟩
  | tail _ hstep ih => exact (ih (failed_step hstep hf)).step hf hstep

/-- The pool does not fail when no future, undisturbed, ends in a failure no handler recovers. -/
theorem Undisturbed.run_of_recovered (h : Run limit env { queue := activations } p)
    (hrec : ∀ a ∈ activations, (a.output env).result.any a.unrecovered = false) :
    p.failed = false := by
  induction h with
  | refl => rfl
  | @tail p q hrun hstep ih =>
    have hs := (Sound.run hrun).1
    have hu := Undisturbed.run hrun ih
    have hag := hu.agrees
    cases hstep with
    | enter hq hl => exact ih
    | start before after ha hf => exact ih
    | skip before after ha hf => simp [ih] at hf
    | @finish a attempts tick before after ha hr =>
      have hr := hr.resolve_right (by simp [ih])
      have hset := hag _ (by rw [ha]; exact List.mem_append_right _ (List.mem_cons_self ..))
      rw [Phase.Agrees, Activation.settle_done hr] at hset
      have := hrec a (hs.held a (by simp [held, ha]))
      simp only [Activation.output, ← hset] at this
      simpa [Pool.resolve, ih] using this
    | backOff before after ha he hr hf => exact ih
    | wake before after ha => exact ih
    | abandon before after ha hf => simp [ih] at hf

end Pool

namespace DispatchedIn

variable {limit : Nat} {env : Attempts} {activations : List Activation} {outputs : List Output}

/-- When no future, undisturbed, ends in a failure no handler recovers, every schedule gives each
future the output it gives undisturbed. -/
theorem outputs_perm_of_recovered (h : DispatchedIn limit env activations outputs)
    (hrec : ∀ a ∈ activations, (a.output env).result.any a.unrecovered = false) :
    outputs.Perm (activations.map (·.output env)) := by
  obtain ⟨failed, hrun⟩ := h
  have hf := Pool.Undisturbed.run_of_recovered hrun hrec
  obtain ⟨resolved, hres, hperm⟩ := (Pool.Undisturbed.run hrun hf).finished
  simp only [Pool.held, List.map_nil, List.append_nil] at hperm hres
  rw [hres]
  exact hperm.map _

/-- **When no failure goes unrecovered in one schedule, every schedule gives each future the output
it gives undisturbed.** -/
theorem outputs_perm (h : DispatchedIn limit env activations outputs)
    (hok : ∀ a ∈ activations, ∀ out ∈ outputs, ∀ error, out.name = a.name →
      out.result = some (.error error) → a.recoverable) :
    outputs.Perm (activations.map (·.output env)) := by
  obtain ⟨failed, hrun⟩ := h
  have hf : failed = false := by
    rw [← Bool.not_eq_true]
    intro hf
    obtain ⟨a, ha, out, hout, error, hname, hrec, hres⟩ := (Pool.Sound.run hrun).1.failed hf
    simp [hok a ha out hout error hname hres] at hrec
  obtain ⟨resolved, hres, hperm⟩ := (Pool.Undisturbed.run hrun hf).finished
  simp only [Pool.held, List.map_nil, List.append_nil] at hperm hres
  rw [hres]
  exact hperm.map _

theorem returned (h : DispatchedIn limit env activations outputs) {out : Output}
    (hout : out ∈ outputs) {output : NodeOutput} (hok : out.result = some (.ok output)) :
    ∃ a ∈ activations, out.name = a.name ∧ ∃ tick, (a.attempt env tick).1 = .ok output := by
  obtain ⟨failed, hrun⟩ := h
  exact Pool.returned hrun out hout output hok

end DispatchedIn

namespace Dispatched

variable {limit : Nat} {activations : List Activation} {outputs : List Output}

/-- **Every future resolves exactly once.** -/
theorem names_perm (h : Dispatched limit activations outputs) :
    (outputs.map (·.name)).Perm (activations.map (·.name)) := by
  obtain ⟨env, failed, hrun⟩ := h
  simpa [Pool.names] using (Pool.Sound.run hrun).2

/-- **A future that did not start gave way to a failure that no handler recovers.** -/
theorem started (h : Dispatched limit activations outputs) {out : Output} (hout : out ∈ outputs)
    (hnone : out.result = none) :
    ∃ a ∈ activations, ∃ out ∈ outputs, ∃ error,
      out.name = a.name ∧ a.recoverable = false ∧ out.result = some (.error error) := by
  obtain ⟨env, failed, hrun⟩ := h
  have hs := (Pool.Sound.run hrun).1
  exact hs.failed (hs.started out hout hnone)

end Dispatched

/-! ## One schedule -/

/-- The outputs when each future resolves before the next one is admitted. -/
def sequential (env : Attempts) : Bool → List Activation → List Output
  | _, [] => []
  | true, a :: rest =>
    { name := a.name, result := none, attempts := a.spent } :: sequential env true rest
  | false, a :: rest =>
    a.output env :: sequential env ((a.output env).result.any a.unrecovered) rest

namespace Pool

/-- A future alone in the pool ends with what it settles on. -/
theorem run_settle {limit : Nat} {env : Attempts} {p : Pool} {a : Activation}
    {attempts tick : Nat} (ha : p.active = [(a, .attempting attempts tick)])
    (hf : p.failed = false) :
    Run limit env p
      (p.resolve [] [] a (some (a.settle env (a.budget attempts) attempts tick).1)
        (a.settle env (a.budget attempts) attempts tick).2) := by
  generalize hb : a.budget attempts = fuel
  induction fuel generalizing p attempts tick with
  | zero =>
    refine .single (.finish [] [] ha (.inl ?_))
    rw [← Bool.not_eq_true]
    exact fun h => absurd (Activation.budget_of_retries h) (by rw [Activation.budget_succ, hb]; simp)
  | succ fuel ih =>
    rw [← hb]
    cases hr : a.retries (attempts + 1) (a.attempt env tick).1 with
    | false =>
      rw [Activation.settle_done hr]
      exact .single (.finish [] [] ha (.inl hr))
    | true =>
      have he : ∃ error, (a.attempt env tick).1 = .error error := by
        cases h : (a.attempt env tick).1 with
        | ok out => simp [h, Activation.retries] at hr
        | error error => exact ⟨error, rfl⟩
      obtain ⟨error, he⟩ := he
      rw [Activation.settle_retry hr, Activation.budget_succ, hb, Nat.add_sub_cancel]
      refine .head (.backOff [] [] ha he hr hf) ?_
      refine .head (.wake [] [] rfl) ?_
      exact ih (p := (p.move [] [] a _).move [] [] a _) rfl hf
        (by rw [Activation.budget_succ, hb, Nat.add_sub_cancel])

theorem run_sequential {limit : Nat} (hl : 0 < limit) (env : Attempts) (p : Pool)
    (ha : p.active = []) :
    ∃ failed, Run limit env p
      { queue := [], finished := p.finished ++ sequential env p.failed p.queue, failed } := by
  obtain ⟨queue, active, finished, failed⟩ := p
  obtain rfl : active = [] := ha
  induction queue generalizing finished failed with
  | nil => exact ⟨failed, by simpa [sequential] using Relation.ReflTransGen.refl⟩
  | cons a rest ih =>
    have hadmit : Step limit env { queue := a :: rest, active := [], finished, failed }
        { queue := rest, active := [(a, .admitted)], finished, failed } :=
      .enter (p := { queue := a :: rest, active := [], finished, failed }) rfl hl
    cases failed with
    | true =>
      obtain ⟨failed, h⟩ := ih (finished ++ [{ name := a.name, result := none, attempts := a.spent }])
        true
      refine ⟨failed, .head hadmit (.head (.skip [] [] rfl rfl) ?_)⟩
      simpa [sequential, Pool.resolve] using h
    | false =>
      obtain ⟨failed, h⟩ := ih (finished ++ [a.output env]) ((a.output env).result.any a.unrecovered)
      refine ⟨failed, .head hadmit (.head (.start [] [] rfl rfl) ?_)⟩
      refine .trans (run_settle (a := a) rfl rfl) ?_
      simpa [sequential, Pool.resolve, Pool.move, Activation.output] using h

end Pool

/-- **The futures can always resolve, one after another.** -/
theorem sequential_dispatched {limit : Nat} (hl : 0 < limit) (env : Attempts)
    (activations : List Activation) :
    DispatchedIn limit env activations (sequential env false activations) := by
  obtain ⟨failed, h⟩ := Pool.run_sequential hl env { queue := activations } rfl
  exact ⟨failed, by simpa using h⟩

end Adk
