import Mathlib.Data.List.Basic

/-!
# Paths of a labelled transition system

`Path step s events t`: the system can go from `s` to `t`, the events of its steps being `events`.

* `Path.inv`: what every step preserves holds at the end of a path.
* `Path.inv_events`: the same for a property that also speaks of the events so far.
-/

namespace Adk

variable {σ ε : Type}

/-- Steps one after another. -/
inductive Path (step : σ → ε → σ → Prop) : σ → List ε → σ → Prop where
  | nil (s : σ) : Path step s [] s
  | cons {s t u : σ} {event : ε} {events : List ε} (h : step s event t)
      (rest : Path step t events u) : Path step s (event :: events) u

namespace Path

variable {step : σ → ε → σ → Prop}

theorem single {s t : σ} {event : ε} (h : step s event t) : Path step s [event] t :=
  .cons h (.nil t)

theorem append {s t u : σ} {events events' : List ε} (h : Path step s events t)
    (h' : Path step t events' u) : Path step s (events ++ events') u := by
  induction h with
  | nil => exact h'
  | cons hs _ ih => exact .cons hs (ih h')

/-- A path that has a given event at some place comes apart there. -/
theorem split {s u : σ} {pre post : List ε} {event : ε}
    (h : Path step s (pre ++ event :: post) u) :
    ∃ t t', Path step s pre t ∧ step t event t' ∧ Path step t' post u := by
  induction pre generalizing s with
  | nil =>
    cases h with
    | cons hs rest => exact ⟨s, _, .nil s, hs, rest⟩
  | cons e pre ih =>
    cases h with
    | cons hs rest =>
      obtain ⟨t, t', h₁, h₂, h₃⟩ := ih rest
      exact ⟨t, t', .cons hs h₁, h₂, h₃⟩

/-- What every step preserves holds at the end of a path. -/
theorem inv {P : σ → Prop} (hstep : ∀ s event t, P s → step s event t → P t) {s t : σ}
    {events : List ε} (h : Path step s events t) (h0 : P s) : P t := by
  induction h with
  | nil => exact h0
  | cons hs _ ih => exact ih (hstep _ _ _ h0 hs)

/-- What every step preserves, the events so far included, holds at the end of a path. -/
theorem inv_events {P : List ε → σ → Prop}
    (hstep : ∀ past s event t, P past s → step s event t → P (past ++ [event]) t) {s t : σ}
    {past events : List ε} (h : Path step s events t) (h0 : P past s) : P (past ++ events) t := by
  induction h generalizing past with
  | nil => simpa using h0
  | cons hs _ ih => simpa using ih (hstep _ _ _ _ h0 hs)

end Path

end Adk
