import AdkRust.Graph.Joins

/-!
# Timelines that can be computed

`play` runs a graph through a script of super-steps and resumes, with the nodes of a super-step one
after another and nothing else happening in the world. What it computes is a timeline
(`run_reaches`), so a property of it can be evaluated.
-/

namespace Adk
namespace Timeline

open Exec

variable (g : CompiledGraph)

/-- What happens next on a thread. -/
inductive Command where
  /-- The run executes a super-step. -/
  | step (style : Style)
  /-- Another run resumes the thread with an input. -/
  | resume (input : State)

/-- The world of a computed timeline: every execution of a node happens at the same moment. -/
def quiet : Attempts := fun _ _ => { moment := 0 }

def still : Clock := { instant := 0, utc := 0 }

/-- The runs of a computed timeline are configured alike. -/
def played : ExecutionConfig := { threadId := "thread" }

def execute (style : Style) (e : Exec) : Exec × Except GraphError SuperStepResult :=
  if style.isMessages then
    let (_, e', result) := messagesSuperStep g played quiet [] e
    (e', result.mapError MessagesFailure.error)
  else
    match gateBefore g e e.pendingNodes with
    | some gate => (e, .ok { interrupts := [gate] })
    | none => collectSuperStep g ∅ (sequential quiet false (toDispatch g played ∅ e)) [] e

/-- One step of the timeline; `none` when it cannot be taken. -/
def playOne (p : Point) : Command → Option (Event × Point)
  | .step style =>
    if p.exec.pendingNodes = [] ∨ p.running = false then none
    else
      match execute g style p.exec with
      | (e₁, .error _) =>
        some ({ outcome := .failed, frontier := p.exec.pendingNodes }, { exec := e₁, running := false })
      | (e₁, .ok result) =>
        let event (outcome : Outcome) (e₂ : Exec) : Event :=
          { outcome, frontier := p.exec.pendingNodes, result, routes := routesOf g e₁ result
            journal := e₂.journal.drop p.exec.journal.length }
        if result.interrupts = [] then
          match completeStep g e₁ result still with
          | .ok e₂ => some (event .completed e₂, { exec := style.settle e₂ })
          | .error _ => none
        else
          match pauseFrontier g e₁ result still with
          | .ok e₂ => some (event .paused e₂, { exec := style.settle e₂, running := false })
          | .error _ => none
  | .resume input =>
    match restore g played false (checkpoint played p.exec still "" 0) 0 input still {} with
    | .ok e => some ({ outcome := .resumed }, { exec := e })
    | .error _ => none

/-- Plays a script; a step that cannot be taken is left out. -/
def play : List Command → Point → List Event × Point
  | [], p => ([], p)
  | command :: script, p =>
    match playOne g p command with
    | none => play script p
    | some (event, q) => (event :: (play script q).1, (play script q).2)

/-- The executor of a fresh run. -/
def begun (state : State) : Exec :=
  match Exec.start g state still {} with
  | .ok e => e
  | .error _ => {}

def run (state : State) (script : List Command) : List Event × Point :=
  let e := begun g state
  ({ outcome := .started, journal := e.journal } :: (play g script { exec := e }).1,
    (play g script { exec := e }).2)

variable {g}

theorem execute_executes (style : Style) (e : Exec) :
    Executes g style played e (execute g style e).1 (execute g style e).2 := by
  unfold execute
  cases hm : style.isMessages with
  | true => exact @Executes.messages g style played e quiet [] _ _ _ hm rfl
  | false =>
    cases hg : gateBefore g e e.pendingNodes with
    | some gate =>
      refine @Executes.step g style played e quiet [] [] _ _ hm ?_
      simp only [SuperStepIn, hg, Bool.false_eq_true, if_false, and_self]
    | none =>
      let outputs := sequential quiet false (toDispatch g played ∅ e)
      have hd : DispatchedIn (concurrency g ∅ e) quiet (toDispatch g played ∅ e) outputs :=
        sequential_dispatched (Nat.lt_of_lt_of_le Nat.zero_lt_one (Nat.le_max_right _ _)) _ _
      refine @Executes.step g style played e quiet [] outputs _ _ hm ?_
      simp only [SuperStepIn, hg, Bool.false_eq_true, if_false]
      exact ⟨hd, rfl⟩

/-- The frontier's advance only adds to the journal. -/
private theorem journal_drop {e e' : Exec} (h : ∃ journal, e'.journal = e.journal ++ journal) :
    e'.journal = e.journal ++ e'.journal.drop e.journal.length := by
  obtain ⟨journal, hj⟩ := h
  simp [hj]

theorem completeStep_journal {e e₁ e₂ : Exec} {result : SuperStepResult} {now : Clock}
    (h₁ : e₁.journal = e.journal) (hk : ∀ n ∈ e₁.pendingDeferred, n ∈ g.deferredConfigs)
    (h : completeStep g e₁ result now = .ok e₂) : ∃ journal, e₂.journal = e.journal ++ journal := by
  obtain ⟨e₃, frontier, ha, hs, -⟩ := completeStep_spec h
  obtain ⟨_, _, -, hadv⟩ := advanceFrontier_spec (by simpa using hk) ha
  obtain ⟨journal, hj⟩ := hadv.moves.journal
  exact ⟨journal, by rw [hs.journal, ← h₁]; simpa using hj⟩

theorem pauseFrontier_journal {e e₁ e₂ : Exec} {result : SuperStepResult} {now : Clock}
    (h₁ : e₁.journal = e.journal) (hk : ∀ n ∈ e₁.pendingDeferred, n ∈ g.deferredConfigs)
    (hi : result.interrupts ≠ []) (h : pauseFrontier g e₁ result now = .ok e₂) :
    ∃ journal, e₂.journal = e.journal ++ journal := by
  rcases pauseFrontier_spec hi h with ⟨-, hs, -⟩ | ⟨-, paused, e₃, frontier, ha, -, hs, -⟩
  · exact ⟨[], by rw [hs.journal, h₁, List.append_nil]⟩
  · obtain ⟨_, _, -, hadv⟩ := advanceFrontier_spec hk ha
    obtain ⟨journal, hj⟩ := hadv.moves.journal
    exact ⟨journal, by rw [hs.journal, ← h₁]; exact hj⟩

theorem playOne_step {p q : Point} {command : Command} {event : Event}
    (hk : ∀ n ∈ p.exec.pendingDeferred, n ∈ g.deferredConfigs)
    (h : playOne g p command = some (event, q)) : Step g p event q := by
  obtain ⟨e, running⟩ := p
  cases command with
  | step style =>
    rw [playOne] at h
    split at h
    · cases h
    · rename_i hrun
      obtain ⟨hp, hrunn⟩ := not_or.mp hrun
      obtain rfl : running = true := by simpa using hrunn
      have hx := execute_executes (g := g) style e
      generalize execute g style e = outcome at h hx
      obtain ⟨e₁, result⟩ := outcome
      have hsame := SameJoins.of_flow hx.flow
      have hk₁ : ∀ n ∈ e₁.pendingDeferred, n ∈ g.deferredConfigs := by
        rw [hsame.pendingDeferred]
        exact hk
      cases result with
      | error error =>
        cases h
        exact .fail hp hx
      | ok result =>
        dsimp only at h
        split at h
        · rename_i hi
          split at h
          · rename_i e₂ hc
            cases h
            exact .complete hp hx hi hc (journal_drop (completeStep_journal hsame.journal hk₁ hc))
          · cases h
        · rename_i hi
          split at h
          · rename_i e₂ hc
            cases h
            exact .pause hp hx hi hc
              (journal_drop (pauseFrontier_journal hsame.journal hk₁ hi hc))
          · cases h
  | resume input =>
    rw [playOne] at h
    split at h
    · rename_i e' hr
      cases h
      exact .resume hr
    · cases h

/-- What a script computes goes on from where it starts. -/
theorem Reaches.play {events : List Event} {p : Point} (h : Reaches g events p)
    (script : List Command) : Reaches g (events ++ (play g script p).1) (play g script p).2 := by
  induction script generalizing events p with
  | nil => simpa [Timeline.play] using h
  | cons command script ih =>
    rw [Timeline.play]
    cases hone : playOne g p command with
    | none => exact ih h
    | some next =>
      obtain ⟨event, q⟩ := next
      obtain ⟨past, -, hc⟩ := h.consistent
      simpa using ih (h.step (playOne_step hc.ledger.deferred hone))

theorem begun_eq {state : State} (hs : (Exec.start g state still {}).isOk = true) :
    Exec.start g state still {} = .ok (begun g state) := by
  unfold begun
  cases h : Exec.start g state still {} with
  | ok e => rfl
  | error error =>
    rw [h] at hs
    cases hs

/-- **A script computes a timeline from the start.** -/
theorem run_reaches {state : State} (hs : (Exec.start g state still {}).isOk = true)
    (script : List Command) : Reaches g (run g state script).1 (run g state script).2 :=
  (Reaches.start (.start rfl rfl rfl rfl (begun_eq hs))).play script

/-! ## Small graphs to play -/

def marker (name : String) : Node where
  name := name
  execute := fun _ _ => .ok { updates := Dict.ofList [(name, .string name)] }

def markers (names : List String) : Dict Node := Dict.ofList (names.map fun name => (name, marker name))

theorem nodup_a : ["a"].Nodup := by decide

theorem nodup_ab : ["a", "b"].Nodup := by decide

/-- What of a fan-in event can be compared. -/
inductive Trace where
  | arrived (join source : String)
  | ignored (join source : String)
  | released (join : String) (rule : ReleaseRule)
deriving DecidableEq

def traceOf : FanInEvent → Trace
  | .arrived join source _ => .arrived join source
  | .ignored join source => .ignored join source
  | .released join rule _ => .released join rule

theorem exists_arrived {event : FanInEvent} {join source : String}
    (h : traceOf event = .arrived join source) : ∃ output, event = .arrived join source output := by
  cases event <;> simp_all [traceOf]

theorem exists_released {event : FanInEvent} {join : String} {rule : ReleaseRule}
    (h : traceOf event = .released join rule) : ∃ tracker, event = .released join rule tracker := by
  cases event <;> simp_all [traceOf]

end Timeline
end Adk
