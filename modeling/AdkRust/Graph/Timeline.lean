import AdkRust.Graph.Determinism
import AdkRust.Graph.Resume
import AdkRust.Lib.Path

/-!
# The timeline of a thread

What a run does, super-step by super-step, with its pauses and failures and the runs that resume
them. A `Point` is an executor between two super-steps; `Step` leads from one point to the next, and
its `Event` says which super-step ran and what its fan-in nodes received and released. A timeline
starts at the entry nodes (`Starts`).

Nothing here is new behaviour: the steps are made of the functions `run` and `run_stream` are made
of.
-/

namespace Adk

/-- How a run is observed. -/
inductive Style where
  /-- `PregelExecutor::run`. -/
  | invoke
  /-- `PregelExecutor::run_stream`. -/
  | stream (mode : StreamMode)
deriving DecidableEq

namespace Style

/-- Whether the nodes run in the loop of the message stream. -/
def isMessages : Style → Bool
  | .stream .messages => true
  | _ => false

/-- A message stream clears the pending writes once the step is over. -/
def settle (style : Style) (e : Exec) : Exec :=
  if style.isMessages then { e with pendingWrites := ∅ } else e

end Style

namespace Timeline

variable (g : CompiledGraph)

/-- A super-step as a run of a style executes it, whatever its nodes meet in the world. -/
inductive Executes (style : Style) (config : ExecutionConfig) (e : Exec) :
    Exec → Except GraphError SuperStepResult → Prop where
  | step {env : Attempts} {recorded : List (String × Value)} {outputs : List Output} {e' : Exec}
      {result : Except GraphError SuperStepResult} (hm : style.isMessages = false)
      (h : Exec.SuperStepIn g config ∅ env recorded e outputs (e', result)) :
    Executes style config e e' result
  | messages {env : Attempts} {recorded : List (String × Value)} {yielded : List StreamEvent}
      {e' : Exec} {result : Except MessagesFailure SuperStepResult} (hm : style.isMessages = true)
      (h : Exec.messagesSuperStep g config env recorded e = (yielded, e', result)) :
    Executes style config e e' (result.mapError MessagesFailure.error)

/-- An executor between two super-steps. A run that paused or failed goes on by being resumed. -/
structure Point where
  exec : Exec
  running : Bool := true

/-- What became of a super-step. -/
inductive Outcome where
  | started
  | completed
  | paused
  | failed
  | lost
  | resumed
deriving DecidableEq

structure Event where
  outcome : Outcome
  /-- The nodes that were to run. -/
  frontier : List String := []
  result : SuperStepResult := {}
  /-- The routes the executed nodes took. -/
  routes : List Route := []
  /-- What the fan-in nodes received and released. -/
  journal : List FanInEvent := []

/-- The nodes that finished. -/
def Event.executed (event : Event) : List String := event.result.executedNodes

/-- The routes a step took. A step that stopped at a gate takes none. -/
def routesOf (e : Exec) (result : SuperStepResult) : List Route :=
  match result.interrupts, Exec.nextFrontier g e result.executedNodes result.goto with
  | (_, .before _) :: _, _ => []
  | _, .ok (_, routes) => routes
  | _, .error _ => []

inductive Step : Point → Event → Point → Prop where
  /-- A super-step in which nothing paused. -/
  | complete {style config e e₁ e₂ result now journal} (hp : e.pendingNodes ≠ [])
      (hx : Executes g style config e e₁ (.ok result)) (hi : result.interrupts = [])
      (hc : Exec.completeStep g e₁ result now = .ok e₂) (hj : e₂.journal = e.journal ++ journal) :
    Step { exec := e }
      { outcome := .completed, frontier := e.pendingNodes, result
        routes := routesOf g e₁ result, journal }
      { exec := style.settle e₂ }
  | pause {style config e e₁ e₂ result now journal} (hp : e.pendingNodes ≠ [])
      (hx : Executes g style config e e₁ (.ok result)) (hi : result.interrupts ≠ [])
      (hc : Exec.pauseFrontier g e₁ result now = .ok e₂) (hj : e₂.journal = e.journal ++ journal) :
    Step { exec := e }
      { outcome := .paused, frontier := e.pendingNodes, result
        routes := routesOf g e₁ result, journal }
      { exec := style.settle e₂, running := false }
  | fail {style config e e₁ error} (hp : e.pendingNodes ≠ [])
      (hx : Executes g style config e e₁ (.error error)) :
    Step { exec := e } { outcome := .failed, frontier := e.pendingNodes }
      { exec := e₁, running := false }
  /-- A super-step that ran and left nothing: the run ended before it was saved, for one because its
  routes could not be followed. -/
  | lost {style config e e₁ result} (hp : e.pendingNodes ≠ [])
      (hx : Executes g style config e e₁ (.ok result)) :
    Step { exec := e }
      { outcome := .lost, frontier := e.pendingNodes, result, routes := routesOf g e₁ result }
      { exec := e, running := false }
  /-- Another run continues from the checkpoint of this point. -/
  | resume {saved config : ExecutionConfig} {e e' : Exec} {running : Bool} {now now' : Clock}
      {id : String} {createdAt : Utc} {head : Nat} {input : State}
      (hr : Exec.restore g config false (Exec.checkpoint saved e now id createdAt) head input now' {} =
        .ok e') :
    Step { exec := e, running } { outcome := .resumed } { exec := e' }

/-- The entry nodes of a run, and what its fan-in nodes did before the first super-step. -/
inductive Starts : Event → Point → Prop where
  | start {state : State} {base e : Exec} {now : Clock} (hd : base.pendingDeferred = ∅)
      (ha : base.abandonedArrivals = ∅) (hw : base.pendingWrites = ∅) (hj : base.journal = [])
      (h : Exec.start g state now base = .ok e) :
    Starts { outcome := .started, journal := e.journal } { exec := e }

/-- **The timelines of a graph**: the events so far and the point reached. -/
inductive Reaches : List Event → Point → Prop where
  | start {event : Event} {p : Point} (h : Starts g event p) : Reaches [event] p
  | step {events : List Event} {p q : Point} {event : Event} (h : Reaches events p)
      (hs : Step g p event q) : Reaches (events ++ [event]) q

/-- The timelines of a graph that go on from a point. -/
abbrev Goes : Point → List Event → Point → Prop := Path (Step g)

variable {g}

theorem Reaches.append {events events' : List Event} {p q : Point} (h : Reaches g events p)
    (hs : Goes g p events' q) : Reaches g (events ++ events') q := by
  induction hs generalizing events with
  | nil => simpa using h
  | cons hstep _ ih => simpa using ih (h.step hstep)

/-- What holds at the start and is preserved by every step holds at every point of a timeline. -/
theorem Reaches.inv {P : List Event → Point → Prop}
    (hsta : ∀ event p, Starts g event p → P [event] p)
    (hstep : ∀ events p event q, P events p → Step g p event q → P (events ++ [event]) q)
    {events : List Event} {p : Point} (h : Reaches g events p) : P events p := by
  induction h with
  | start hs => exact hsta _ _ hs
  | step _ hs ih => exact hstep _ _ _ _ ih hs

theorem Reaches.events {P : Event → Prop} (hsta : ∀ event p, Starts g event p → P event)
    (hstep : ∀ events p event q, Reaches g events p → Step g p event q → P event)
    {events : List Event} {p : Point} (h : Reaches g events p) : ∀ event ∈ events, P event := by
  induction h with
  | start hs =>
    intro event he
    obtain rfl := List.mem_singleton.mp he
    exact hsta _ _ hs
  | step hr hs ih =>
    intro event he
    rcases List.mem_append.mp he with he | he
    · exact ih event he
    · obtain rfl := List.mem_singleton.mp he
      exact hstep _ _ _ _ hr hs

/-- A timeline comes apart at every point after its first event. -/
theorem Reaches.cut {pre post : List Event} {p : Point} (h : Reaches g (pre ++ post) p)
    (hpre : pre ≠ []) : ∃ q, Reaches g pre q ∧ Goes g q post p := by
  generalize he : pre ++ post = events at h
  induction h generalizing post with
  | @start event p hs =>
    cases pre with
    | nil => exact absurd rfl hpre
    | cons a pre =>
      obtain ⟨rfl, hnil⟩ := List.cons.inj he
      obtain ⟨rfl, rfl⟩ := List.append_eq_nil_iff.mp hnil
      exact ⟨p, .start hs, .nil p⟩
  | @step events p q last hr hs ih =>
    rcases List.eq_nil_or_concat post with rfl | ⟨post', last', rfl⟩
    · rw [List.append_nil] at he
      exact ⟨q, he ▸ hr.step hs, .nil q⟩
    · rw [List.concat_eq_append, ← List.append_assoc] at he
      obtain ⟨h₁, h₂⟩ := List.append_inj' he rfl
      obtain ⟨r, hrea, hgoes⟩ := ih h₁
      obtain rfl : last' = last := by simpa using h₂
      refine ⟨r, hrea, ?_⟩
      rw [List.concat_eq_append]
      exact hgoes.append (.single hs)

end Timeline

end Adk
