import Mathlib.Algebra.Ring.Nat
import Mathlib.Data.List.Basic

/-!
# Reachability by a worklist

`reachable succ blocked verts sources` searches depth first from `sources` along `succ`, never
entering a node that `blocked` rejects. `verts` lists the nodes that have successors; it bounds
the search.

* `source_mem_reachable`: every source is reached.
* `reachable_closed`: a successor of a reached node that is not blocked is reached.
-/

namespace Adk
namespace Reach

variable {α : Type} [DecidableEq α] (succ : α → List α) (blocked : α → Bool)

/-- Pops nodes off the stack until it is empty or `fuel` runs out. -/
def search : Nat → List α → List α → List α
  | 0, _, seen => seen
  | _ + 1, [], seen => seen
  | fuel + 1, n :: stack, seen =>
    if n ∈ seen then search fuel stack seen
    else
      let next := (succ n).filter fun m => !blocked m && decide (m ∉ n :: seen)
      search fuel (next.reverse ++ stack) (n :: seen)

/-- The edges that leave the nodes not seen yet. -/
def weight (verts seen : List α) : Nat :=
  ((verts.filter (· ∉ seen)).map fun n => (succ n).length).sum

/-- The nodes reachable from `sources`, the sources included. -/
def reachable (verts sources : List α) : List α :=
  search succ blocked (sources.length + weight succ verts []) sources.reverse []

variable {succ blocked}

/-- Seeing a node takes its edges off the weight. -/
theorem weight_cons {verts seen : List α} {n : α} (hn : n ∉ seen)
    (hu : n ∈ verts ∨ succ n = []) :
    weight succ verts (n :: seen) + (succ n).length ≤ weight succ verts seen := by
  have hle : ∀ us : List α, weight succ us (n :: seen) ≤ weight succ us seen := by
    intro us
    induction us with
    | nil => exact Nat.le_refl _
    | cons u us ih => unfold weight at *; grind
  rcases hu with hu | hu
  · induction verts with
    | nil => simp at hu
    | cons u us ih =>
      by_cases he : u = n
      · subst he
        have := hle us
        simp only [weight, List.filter_cons, List.mem_cons, true_or, not_true_eq_false,
          decide_false, hn, not_false_eq_true, decide_true, ite_true, List.map_cons,
          List.sum_cons] at *
        grind
      · have := ih (by grind)
        unfold weight at *
        grind
  · rw [hu]; exact hle verts

theorem search_closed {verts : List α} (hu : ∀ n, n ∈ verts ∨ succ n = [])
    {fuel : Nat} {stack seen : List α} (hfuel : stack.length + weight succ verts seen ≤ fuel)
    (hseen : ∀ a ∈ seen, ∀ b ∈ succ a, blocked b = false → b ∈ seen ∨ b ∈ stack) :
    (∀ a, a ∈ seen ∨ a ∈ stack → a ∈ search succ blocked fuel stack seen) ∧
      ∀ a ∈ search succ blocked fuel stack seen, ∀ b ∈ succ a, blocked b = false →
        b ∈ search succ blocked fuel stack seen := by
  induction fuel generalizing stack seen with
  | zero =>
    obtain rfl : stack = [] := List.length_eq_zero_iff.mp (by omega)
    simp only [search, List.not_mem_nil, or_false] at *
    exact ⟨fun _ h => h, hseen⟩
  | succ fuel ih =>
    cases stack with
    | nil =>
      simp only [search, List.not_mem_nil, or_false] at *
      exact ⟨fun _ h => h, hseen⟩
    | cons n stack =>
      rw [search]
      split
      · rename_i hn
        obtain ⟨hmem, hcl⟩ := @ih stack seen
          (by simp only [List.length_cons] at hfuel; omega) (by grind)
        exact ⟨by grind, hcl⟩
      · rename_i hn
        have hw := weight_cons hn (hu n)
        have hlen := List.length_filter_le (fun m => !blocked m && decide (m ∉ n :: seen)) (succ n)
        obtain ⟨hmem, hcl⟩ := @ih
          (((succ n).filter fun m => !blocked m && decide (m ∉ n :: seen)).reverse ++ stack)
          (n :: seen)
          (by simp only [List.length_cons, List.length_append, List.length_reverse] at *; omega)
          (by grind)
        exact ⟨by grind, hcl⟩

theorem source_mem_reachable {verts sources : List α} (hu : ∀ n, n ∈ verts ∨ succ n = [])
    {a : α} (ha : a ∈ sources) : a ∈ reachable succ blocked verts sources :=
  (search_closed hu (by simp) (by simp)).1 a (.inr (List.mem_reverse.mpr ha))

theorem reachable_closed {verts sources : List α} (hu : ∀ n, n ∈ verts ∨ succ n = [])
    {a b : α} (ha : a ∈ reachable succ blocked verts sources) (hb : b ∈ succ a)
    (hn : blocked b = false) : b ∈ reachable succ blocked verts sources :=
  (search_closed hu (by simp) (by simp)).2 a ha b hb hn

end Reach
end Adk
