import Mathlib.Data.List.Basic
import Mathlib.Data.List.Forall2

/-!
# Computations that can fail

How a computation in `Except` that ended comes apart: a bind into its two parts
(`bind_eq_ok`), and a fold into its steps, by an invariant of the items left (`foldlM_ok_inv`). A fold
that failed did so at a step the invariant had held up to (`foldlM_error_inv`). `Ends` says both how a
computation may end and how it may fail.
-/

namespace Adk

variable {ε α β : Type}

variable {x : Except ε α} {f : β → α → Except ε β} {items : List α} {acc : β} {P : α → Prop}
  {E : ε → Prop}

/-- A bind succeeded when both parts did. -/
theorem bind_eq_ok {f : α → Except ε β} {b : β} :
    (x >>= f) = .ok b ↔ ∃ a, x = .ok a ∧ f a = .ok b := by
  cases x with
  | error e => simp [bind, Except.bind]
  | ok a => simp [bind, Except.bind]

/-- What every successful step of a fold preserves, it preserves. `P` also speaks of the items that
are left. -/
theorem foldlM_ok_inv (P : List α → β → Prop)
    (hstep : ∀ a items acc acc', P (a :: items) acc → f acc a = .ok acc' → P items acc')
    {acc' : β} (h0 : P items acc) (h : items.foldlM f acc = .ok acc') :
    P [] acc' := by
  induction items generalizing acc with
  | nil => cases h; exact h0
  | cons a items ih =>
    rw [List.foldlM_cons, bind_eq_ok] at h
    obtain ⟨acc₁, h₁, h₂⟩ := h
    exact ih (hstep a items acc acc₁ h0 h₁) h₂

/-- A fold that failed did so at one of its steps, up to which the invariant holds. -/
theorem foldlM_error_inv (P : List α → β → Prop) {Q : ε → Prop}
    (hstep : ∀ a items acc acc', P (a :: items) acc → f acc a = .ok acc' → P items acc')
    (herr : ∀ a items acc e, P (a :: items) acc → f acc a = .error e → Q e)
    {e : ε} (h0 : P items acc) (h : items.foldlM f acc = .error e) :
    Q e := by
  induction items generalizing acc with
  | nil => cases h
  | cons a items ih =>
    rw [List.foldlM_cons] at h
    cases hf : f acc a with
    | error e' =>
      rw [hf] at h
      cases h
      exact herr a items acc e h0 hf
    | ok acc₁ =>
      rw [hf] at h
      exact ih (hstep a items acc acc₁ h0 hf) h

/-- What every step of a fold preserves, it preserves. -/
theorem foldl_inv {f : β → α → β} (P : List α → β → Prop)
    (hstep : ∀ a items acc, P (a :: items) acc → P items (f acc a))
    (h0 : P items acc) : P [] (items.foldl f acc) := by
  induction items generalizing acc with
  | nil => exact h0
  | cons a items ih => exact ih (hstep a items acc h0)

/-! ## How a computation ends -/

/-- How a computation ends: `P` holds of its result, or `E` of its error. -/
def Ends (P : α → Prop) (E : ε → Prop) : Except ε α → Prop
  | .ok a => P a
  | .error e => E e

theorem Ends.result {a : α} (h : Ends P E x) (hx : x = .ok a) : P a := by
  subst hx
  exact h

theorem Ends.failure {e : ε} (h : Ends P E x) (hx : x = .error e) : E e := by
  subst hx
  exact h

theorem Ends.imp {Q : α → Prop} (h : Ends P E x) (hP : ∀ a, P a → Q a) :
    Ends Q E x := by
  cases x with
  | error e => exact h
  | ok a => exact hP a h

/-- One computation after another. -/
theorem Ends.bind {Q : β → Prop} {f : α → Except ε β} (h : Ends P E x) (hf : ∀ a, P a → Ends Q E (f a)) :
    Ends Q E (x >>= f) := by
  cases x with
  | error e => exact h
  | ok a => exact hf a h

/-- A fold whose steps keep `P`. -/
theorem ends_foldlM {P : β → Prop} (hstep : ∀ acc a, P acc → Ends P E (f acc a)) (h0 : P acc) :
    Ends P E (items.foldlM f acc) := by
  induction items generalizing acc with
  | nil => exact h0
  | cons a items ih =>
    rw [List.foldlM_cons]
    exact (hstep acc a h0).bind fun acc' h' => ih h'

/-- A fold whose steps keep `P`, which also speaks of the items that are left. -/
theorem ends_foldlM_left {P : List α → β → Prop}
    (hstep : ∀ a items acc, P (a :: items) acc → Ends (P items) E (f acc a))
    (h0 : P items acc) : Ends (P []) E (items.foldlM f acc) := by
  induction items generalizing acc with
  | nil => exact h0
  | cons a items ih =>
    rw [List.foldlM_cons]
    exact (hstep a items acc h0).bind fun acc' h' => ih h'

theorem ends_mapM {f : α → Except ε β} {R : α → β → Prop}
    (hstep : ∀ a ∈ items, Ends (R a) E (f a)) : Ends (List.Forall₂ R items) E (items.mapM f) := by
  induction items with
  | nil => exact .nil
  | cons a items ih =>
    rw [List.mapM_cons]
    rw [List.forall_mem_cons] at hstep
    refine hstep.1.bind fun b hb => (ih hstep.2).bind fun results hress => ?_
    exact .cons hb hress

end Adk
