import Mathlib.Order.Lattice
import Mathlib.Data.List.Pairwise

/-!
# Ticks

A strictly increasing sequence of moments, given by the first of them after any moment.

* `Ticks`, `Ticks.IsTick`: the sequence, and its moments.
* `Ticks.elapsed`: the ticks after one moment and up to another, as far as a cap allows.
* `Ticks.elapsed_sorted`, `Ticks.mem_elapsed`: **they are in order, and all of them where the cap does not cut them off.**
-/

namespace Adk

/-- Moments in increasing order, by the first one after each moment. -/
structure Ticks (α : Type) [LinearOrder α] where
  after : α → Option α
  lt : ∀ c t, after c = some t → c < t
  /-- There is no moment between another one and the first after it. -/
  first : ∀ c d t, after c = some t → c ≤ d → d < t → after d = some t
  last : ∀ c d, after c = none → c ≤ d → after d = none

namespace Ticks

variable {α : Type} [LinearOrder α] (ticks : Ticks α)

/-- One of the moments. -/
def IsTick (t : α) : Prop := ∃ c, ticks.after c = some t

/-- The ticks after one moment and up to another, and whether a cap cut them off. -/
def elapsed (cursor now : α) : Nat → List α × Bool
  | 0 =>
    match ticks.after cursor with
    | some tick => ([], decide (tick ≤ now))
    | none => ([], false)
  | cap + 1 =>
    match ticks.after cursor with
    | some tick =>
      if tick ≤ now then
        let (rest, truncated) := elapsed tick now cap
        (tick :: rest, truncated)
      else ([], false)
    | none => ([], false)

variable {ticks} {cursor now tick : α} {cap : Nat}

theorem isTick_of_after (h : ticks.after cursor = some tick) : ticks.IsTick tick := ⟨cursor, h⟩

theorem le_of_isTick {first : α} (h : ticks.after cursor = some first) (htick : ticks.IsTick tick) (hlt : cursor < tick) :
    first ≤ tick := by
  obtain ⟨c, hc⟩ := htick
  by_contra hless
  have hless : tick < first := lt_of_not_ge hless
  rcases le_total c cursor with hle | hle
  · -- the first tick after the earlier moment is still to come
    have hsame := ticks.first c cursor tick hc hle hlt
    rw [h] at hsame
    exact absurd (Option.some.inj hsame) (ne_of_gt hless)
  · have hcless : c < first := lt_trans (ticks.lt c tick hc) hless
    have hsame := ticks.first cursor c first h hle hcless
    rw [hc] at hsame
    exact absurd (Option.some.inj hsame) (ne_of_lt hless)

theorem not_isTick_of_none (h : ticks.after cursor = none) (hlt : cursor < tick) : ¬ ticks.IsTick tick := by
  rintro ⟨c, hc⟩
  rcases le_total c cursor with hle | hle
  · have hsame := ticks.first c cursor tick hc hle hlt
    rw [h] at hsame
    cases hsame
  · have hnone := ticks.last cursor c h hle
    rw [hc] at hnone
    cases hnone

/-- The ticks that elapsed are ticks after the one moment and up to the other. -/
theorem of_mem_elapsed (h : tick ∈ (ticks.elapsed cursor now cap).1) :
    ticks.IsTick tick ∧ cursor < tick ∧ tick ≤ now := by
  induction cap generalizing cursor with
  | zero =>
    unfold elapsed at h
    cases haft : ticks.after cursor with
    | none =>
      rw [haft] at h
      cases h
    | some first =>
      rw [haft] at h
      cases h
  | succ cap ih =>
    unfold elapsed at h
    cases haft : ticks.after cursor with
    | none =>
      rw [haft] at h
      cases h
    | some first =>
      rw [haft] at h
      dsimp only at h
      by_cases hle : first ≤ now
      · rw [if_pos hle] at h
        rcases List.mem_cons.mp h with rfl | hrest
        · exact ⟨isTick_of_after haft, ticks.lt _ _ haft, hle⟩
        · obtain ⟨htick, hlt, hend⟩ := ih hrest
          exact ⟨htick, lt_trans (ticks.lt _ _ haft) hlt, hend⟩
      · rw [if_neg hle] at h
        cases h

theorem elapsed_sorted : (ticks.elapsed cursor now cap).1.Pairwise (· < ·) := by
  induction cap generalizing cursor with
  | zero =>
    unfold elapsed
    cases ticks.after cursor with
    | none => exact .nil
    | some first => exact .nil
  | succ cap ih =>
    unfold elapsed
    cases ticks.after cursor with
    | none => exact .nil
    | some first =>
      dsimp only
      by_cases hle : first ≤ now
      · rw [if_pos hle]
        exact List.pairwise_cons.mpr ⟨fun later hlat => (of_mem_elapsed hlat).2.1, ih⟩
      · rw [if_neg hle]
        exact .nil

/-- **All of them elapsed where the cap does not cut them off.** -/
theorem mem_elapsed (huct : (ticks.elapsed cursor now cap).2 = false) (htick : ticks.IsTick tick)
    (hlt : cursor < tick) (hle : tick ≤ now) : tick ∈ (ticks.elapsed cursor now cap).1 := by
  induction cap generalizing cursor with
  | zero =>
    unfold elapsed at huct
    cases haft : ticks.after cursor with
    | none => exact absurd htick (not_isTick_of_none haft hlt)
    | some first =>
      rw [haft] at huct
      have hfst := le_of_isTick haft htick hlt
      exact absurd (le_trans hfst hle) (of_decide_eq_false huct)
  | succ cap ih =>
    unfold elapsed at huct ⊢
    cases haft : ticks.after cursor with
    | none => exact absurd htick (not_isTick_of_none haft hlt)
    | some first =>
      rw [haft] at huct
      dsimp only at huct ⊢
      have hfst := le_of_isTick haft htick hlt
      rw [if_pos (le_trans hfst hle)] at huct ⊢
      rcases eq_or_lt_of_le hfst with rfl | hlat
      · exact List.mem_cons_self
      · exact List.mem_cons_of_mem _ (ih huct hlat)

theorem elapsed_nil (h : (ticks.elapsed cursor now (cap + 1)).1 = []) : (ticks.elapsed cursor now (cap + 1)).2 = false := by
  unfold elapsed at h ⊢
  cases haft : ticks.after cursor with
  | none => rfl
  | some first =>
    rw [haft] at h
    dsimp only at h ⊢
    by_cases hle : first ≤ now
    · rw [if_pos hle] at h
      cases h
    · rw [if_neg hle]

end Ticks

end Adk
