import Mathlib.Logic.Relation

/-!
# Programs in a world that moves

A `Prog` asks its world for answers, one operation at a time. Between two of its operations the world
may move by itself. `Prog.Holds` is the weakest precondition: an assertion that holds at every operation
and at the return, whatever the world answers and however it moves in between.

* `Prog.holds_bind`, `Prog.Holds.mono`: the rules of the logic.
* `Prog.Ensures`: the same for a program that may fail and ends at the first failure.
* `Prog.Holds.reaches`: what holds of a program holds of everything it reaches.
-/

namespace Adk

variable {Op : Type} {Ret : Op → Type} {W α β ε : Type}

/-- A program that asks for answers. -/
inductive Prog (Op : Type) (Ret : Op → Type) (α : Type) : Type where
  | pure (a : α)
  | ask (o : Op) (next : Ret o → Prog Op Ret α)

/-- How a world answers an operation, and how it moves by itself. -/
structure Laws (Op : Type) (Ret : Op → Type) (W : Type) where
  answers : (o : Op) → W → Ret o → W → Prop
  moves : W → W → Prop

namespace Prog

/-- One program after another. -/
protected def bind : Prog Op Ret α → (α → Prog Op Ret β) → Prog Op Ret β
  | .pure a, f => f a
  | .ask o next, f => .ask o fun r => (next r).bind f

instance : Monad (Prog Op Ret) where
  pure := .pure
  bind := Prog.bind

def perform (o : Op) : Prog Op Ret (Ret o) := .ask o .pure

/-- A program that is stuck in no operation, and its world. -/
abbrev State (Op : Type) (Ret : Op → Type) (W α : Type) : Type := Prog Op Ret α × W

/-- One step of a program in its world. -/
inductive Step (laws : Laws Op Ret W) : State Op Ret W α → State Op Ret W α → Prop where
  | answer {o : Op} {next : Ret o → Prog Op Ret α} {w w' : W} {r : Ret o}
      (h : laws.answers o w r w') : Step laws (.ask o next, w) (next r, w')
  | move {p : Prog Op Ret α} {w w' : W} (h : laws.moves w w') : Step laws (p, w) (p, w')

/-- What a program and its world can become. -/
abbrev Reaches (laws : Laws Op Ret W) : State Op Ret W α → State Op Ret W α → Prop :=
  Relation.ReflTransGen (Step laws)

/-- **The weakest precondition** of a program: `pre` holds at every operation, and `post` at the
return. -/
def Holds (laws : Laws Op Ret W) (pre : Op → W → Prop) (post : α → W → Prop) :
    Prog Op Ret α → W → Prop
  | .pure a, w => ∀ w', Relation.ReflTransGen laws.moves w w' → post a w'
  | .ask o next, w => ∀ w', Relation.ReflTransGen laws.moves w w' →
    pre o w' ∧ ∀ r w'', laws.answers o w' r w'' → Holds laws pre post (next r) w''

variable {laws : Laws Op Ret W} {pre : Op → W → Prop} {post : α → W → Prop} {w w' : W}

@[simp] theorem pure_eq (a : α) : (Pure.pure a : Prog Op Ret α) = .pure a := rfl

@[simp] theorem bind_eq (p : Prog Op Ret α) (f : α → Prog Op Ret β) : (p >>= f) = p.bind f := rfl

@[simp] theorem pure_bind (a : α) (f : α → Prog Op Ret β) : (Prog.pure a).bind f = f a := rfl

@[simp] theorem ask_bind (o : Op) (next : Ret o → Prog Op Ret α) (f : α → Prog Op Ret β) :
    (Prog.ask o next).bind f = .ask o fun r => (next r).bind f := rfl

theorem Holds.move {p : Prog Op Ret α} (h : p.Holds laws pre post w)
    (hmov : Relation.ReflTransGen laws.moves w w') : p.Holds laws pre post w' := by
  cases p with
  | pure a =>
    intro w'' hw
    exact h w'' (hmov.trans hw)
  | ask o next =>
    intro w'' hw
    exact h w'' (hmov.trans hw)

/-- A weaker return. -/
theorem Holds.mono {post' : α → W → Prop} {p : Prog Op Ret α} (h : p.Holds laws pre post w)
    (hpost : ∀ a w, post a w → post' a w) : p.Holds laws pre post' w := by
  induction p generalizing w with
  | pure a => exact fun w' hw => hpost a w' (h w' hw)
  | ask o next ih =>
    intro w' hw
    obtain ⟨hpre, hnext⟩ := h w' hw
    exact ⟨hpre, fun r w'' hr => ih r (hnext r w'' hr)⟩

/-- The rule for one program after another. -/
theorem holds_bind {p : Prog Op Ret α} {f : α → Prog Op Ret β} {post : β → W → Prop}
    (h : p.Holds laws pre (fun a w => (f a).Holds laws pre post w) w) :
    (p.bind f).Holds laws pre post w := by
  induction p generalizing w with
  | pure a => exact h w .refl
  | ask o next ih =>
    intro w' hw
    obtain ⟨hpre, hnext⟩ := h w' hw
    exact ⟨hpre, fun r w'' hr => ih r (hnext r w'' hr)⟩

/-- The rule for a return: the return is kept by the moves of the world. -/
theorem holds_pure {a : α} (h : ∀ w', Relation.ReflTransGen laws.moves w w' → post a w') :
    (Prog.pure a).Holds laws pre post w := h

/-- **What holds of a program holds of all it reaches.** -/
theorem Holds.reaches {s s' : State Op Ret W α} (h : s.1.Holds laws pre post s.2)
    (hrea : Reaches laws s s') : s'.1.Holds laws pre post s'.2 := by
  induction hrea with
  | refl => exact h
  | tail _ hstep ih =>
    cases hstep with
    | answer hr => exact (ih _ .refl).2 _ _ hr
    | move hmove => exact ih.move (.single hmove)

theorem Holds.returns {p : Prog Op Ret α} {a : α} (h : p.Holds laws pre post w)
    (hrea : Reaches laws (p, w) (.pure a, w')) : post a w' :=
  h.reaches hrea w' .refl

/-! ## What the moves of the world keep -/

/-- What every move of the world keeps. -/
def Stable (laws : Laws Op Ret W) (inv : W → Prop) : Prop := ∀ w w', laws.moves w w' → inv w → inv w'

variable {p : ExceptT ε (Prog Op Ret) α} {inv : W → Prop}

theorem Stable.moves (h : Stable laws inv)
    (hmov : Relation.ReflTransGen laws.moves w w') (hw : inv w) : inv w' := by
  induction hmov with
  | refl => exact hw
  | tail _ hmove ih => exact h _ _ hmove ih

/-- The rule for an operation, from an assertion that the world keeps. -/
theorem Stable.holds_ask (hstb : Stable laws inv) (hw : inv w) {o : Op}
    {next : Ret o → Prog Op Ret α} (h : ∀ w, inv w → pre o w ∧ ∀ r w', laws.answers o w r w' →
      (next r).Holds laws pre post w') : (Prog.ask o next).Holds laws pre post w :=
  fun w' hmov => h w' (hstb.moves hmov hw)

/-- The rule for a return, from an assertion that the world keeps. -/
theorem Stable.holds_pure (hstb : Stable laws inv) (hw : inv w) {a : α}
    (h : ∀ w, inv w → post a w) : (Prog.pure a).Holds laws pre post w :=
  fun w' hmov => h w' (hstb.moves hmov hw)

/-! ## Programs that may fail -/

/-- **The weakest precondition of a program that may fail** and ends at the first failure: `post` holds
at a return and `err` at a failure. -/
def Ensures (laws : Laws Op Ret W) (pre : Op → W → Prop) (err : ε → W → Prop) (post : α → W → Prop)
    (p : ExceptT ε (Prog Op Ret) α) (w : W) : Prop :=
  p.run.Holds laws pre (fun r w => match r with
    | .ok a => post a w
    | .error e => err e w) w

variable {err : ε → W → Prop}

/-- A weaker return and a weaker failure. -/
theorem Ensures.mono {post' : α → W → Prop} {err' : ε → W → Prop}
    (h : Ensures laws pre err post p w) (hpost : ∀ a w, post a w → post' a w)
    (herr : ∀ e w, err e w → err' e w) : Ensures laws pre err' post' p w := by
  refine Holds.mono h fun r w hr => ?_
  cases r with
  | ok a => exact hpost a w hr
  | error e => exact herr e w hr

/-- The rule for one program after another. -/
theorem Ensures.bind {M : α → W → Prop} {post : β → W → Prop}
    {f : α → ExceptT ε (Prog Op Ret) β} (h : Ensures laws pre err M p w)
    (hf : ∀ a w, M a w → Ensures laws pre err post (f a) w) :
    Ensures laws pre err post (p >>= f) w := by
  obtain ⟨q, hq⟩ : ∃ q, q = p.run := ⟨_, rfl⟩
  have hrun : (p >>= f).run = q.bind (ExceptT.bindCont f) := by
    rw [hq]
    rfl
  unfold Ensures at h ⊢
  rw [hrun]
  rw [← hq] at h
  clear hq hrun
  induction q generalizing w with
  | pure r =>
    cases r with
    | ok a => exact hf a w (h w .refl)
    | error e => exact h
  | ask o next ih =>
    intro w' hw
    obtain ⟨hpre, hnext⟩ := h w' hw
    exact ⟨hpre, fun r w'' hr => ih r (hnext r w'' hr)⟩

theorem Ensures.tryCatch {E : ε → W → Prop}
    {handler : ε → ExceptT ε (Prog Op Ret) α} (h : Ensures laws pre E post p w)
    (hhand : ∀ e w, E e w → Ensures laws pre err post (handler e) w) :
    Ensures laws pre err post (tryCatch p handler) w := by
  obtain ⟨q, hq⟩ : ∃ q, q = p.run := ⟨_, rfl⟩
  have hrun : (MonadExcept.tryCatch p handler).run = q.bind fun r => match r with
      | .ok a => .pure (.ok a)
      | .error e => (handler e).run := by
    rw [hq]
    show Prog.bind p.run _ = Prog.bind p.run _
    congr 1
    funext r
    cases r with
    | ok a => rfl
    | error e => rfl
  unfold Ensures at h ⊢
  rw [hrun]
  rw [← hq] at h
  clear hq hrun
  induction q generalizing w with
  | pure r =>
    cases r with
    | ok a => exact h
    | error e => exact hhand e w (h w .refl)
  | ask o next ih =>
    intro w' hw
    obtain ⟨hpre, hnext⟩ := h w' hw
    exact ⟨hpre, fun r w'' hr => ih r (hnext r w'' hr)⟩

/-- The rule for a program that cannot fail. -/
theorem Ensures.lift {p : Prog Op Ret α} (h : p.Holds laws pre post w) :
    Ensures laws pre err post (ExceptT.lift p) w := by
  unfold Ensures
  have hrun : (ExceptT.lift p : ExceptT ε (Prog Op Ret) α).run = p.bind fun a => .pure (.ok a) := rfl
  rw [hrun]
  induction p generalizing w with
  | pure a => exact h
  | ask o next ih =>
    intro w' hw
    obtain ⟨hpre, hnext⟩ := h w' hw
    exact ⟨hpre, fun r w'' hr => ih r (hnext r w'' hr) rfl⟩

section Stable

variable {inv : W → Prop} (hstb : Stable laws inv) (hw : inv w)
include hstb hw

theorem Stable.ensures_pure {a : α} (h : ∀ w, inv w → post a w) :
    Ensures laws pre err post (Pure.pure a : ExceptT ε (Prog Op Ret) α) w :=
  hstb.holds_pure hw h

theorem Stable.ensures_throw {e : ε} (h : ∀ w, inv w → err e w) :
    Ensures laws pre err post (throw e : ExceptT ε (Prog Op Ret) α) w :=
  hstb.holds_pure hw h

/-- The rule for an operation, from an assertion that the world keeps to one that it keeps. -/
theorem Stable.ensures_perform {o : Op} {R : Ret o → W → Prop} (hpre : ∀ w, inv w → pre o w)
    (h : ∀ w r w', inv w → laws.answers o w r w' → R r w')
    (hR : ∀ r, Stable laws (R r)) :
    Ensures laws pre err R (ExceptT.lift (perform o) : ExceptT ε (Prog Op Ret) (Ret o)) w :=
  hstb.holds_ask hw fun w' hw' => ⟨hpre w' hw', fun r w'' hr =>
    (hR r).holds_pure (h w' r w'' hw' hr) fun _ h => h⟩

end Stable

/-- What holds at every operation of a program, at its return and at its failure holds of all it
reaches. -/
theorem Ensures.always (h : Ensures laws (fun _ => inv) (fun _ => inv) (fun _ => inv) p w)
    {q : Prog Op Ret (Except ε α)} (hrea : Reaches laws (p.run, w) (q, w')) : inv w' := by
  have hq := Holds.reaches (s := (p.run, w)) h hrea
  cases q with
  | ask o next => exact (hq w' .refl).1
  | pure r =>
    have := hq w' .refl
    cases r with
    | ok a => exact this
    | error e => exact this

theorem Ensures.returned (h : Ensures laws pre err post p w) {a : α}
    (hrea : Reaches laws (p.run, w) (.pure (.ok a), w')) : post a w' :=
  Holds.returns (p := p.run) h hrea

theorem Ensures.failed (h : Ensures laws pre err post p w) {e : ε}
    (hrea : Reaches laws (p.run, w) (.pure (.error e), w')) : err e w' :=
  Holds.returns (p := p.run) h hrea

end Prog

end Adk
