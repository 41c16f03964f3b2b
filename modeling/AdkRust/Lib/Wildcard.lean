import Mathlib.Data.List.Infix

/-!
# Matching with one wildcard

A pattern is matched against a word from left to right. A symbol that `meets` the next letter takes it; else a star is
passed and remembered, else the latest star takes one letter more and the match goes on behind it.

* `State.step`: one turn of that loop, `State.run`: the loop.
* `Splits`: the word is split into one run for each symbol of the pattern.
* `Reading meets star`: how the loop reads a pattern: a symbol that meets the next letter takes just this letter, else
  a star takes any run.
* `run_start`: **the loop accepts exactly the words that split that way**; it drops no split when it forgets the stars
  before the latest.
-/

namespace Adk

namespace Wildcard

variable {α β : Type}

/-- A word is split into runs, one for each symbol of the pattern. `reads symbol rest run` says that a symbol can take
`run` where `rest` is left of the word. -/
inductive Splits (reads : α → List β → List β → Prop) : List α → List β → Prop where
  | nil : Splits reads [] []
  | cons {symbol : α} {pattern : List α} {run rest : List β} :
    reads symbol (run ++ rest) run → Splits reads pattern rest → Splits reads (symbol :: pattern) (run ++ rest)

variable {reads : α → List β → List β → Prop} {word : List β} {pattern : List α}

theorem splits_nil : Splits reads [] word ↔ word = [] := by
  constructor
  · intro h
    cases h
    rfl
  · rintro rfl
    exact .nil

theorem splits_cons {symbol : α} :
    Splits reads (symbol :: pattern) word ↔
      ∃ run rest, word = run ++ rest ∧ reads symbol word run ∧ Splits reads pattern rest := by
  constructor
  · intro h
    generalize hword : word = whole at h
    cases h with
    | @cons _ _ run rest hrd hrest => exact ⟨run, rest, rfl, hrd, hrest⟩
  · rintro ⟨run, rest, rfl, hrd, hrest⟩
    exact .cons hrd hrest

/-- The split as the list of its runs, where what a symbol takes does not depend on the rest of the word. -/
theorem splits_iff_runs {takes : α → List β → Prop} :
    Splits (fun symbol _ run => takes symbol run) pattern word ↔
      ∃ runs : List (List β), runs.flatten = word ∧ List.Forall₂ takes pattern runs := by
  constructor
  · intro h
    induction h with
    | nil => exact ⟨[], rfl, .nil⟩
    | @cons _ _ run _ hrd _ ih =>
      obtain ⟨runs, rfl, hruns⟩ := ih
      exact ⟨run :: runs, rfl, .cons hrd hruns⟩
  · rintro ⟨runs, rfl, hruns⟩
    induction hruns with
    | nil => exact .nil
    | cons htks _ ih => exact .cons htks ih

theorem Splits.mono {reads' : α → List β → List β → Prop}
    (h : ∀ symbol word run, reads symbol word run → reads' symbol word run)
    (hspls : Splits reads pattern word) : Splits reads' pattern word := by
  induction hspls with
  | nil => exact .nil
  | cons hrd _ ih => exact .cons (h _ _ _ hrd) ih

variable (meets : α → β → Bool) (star : α → Bool)

/-- A symbol that meets the next letter takes just this letter, else a star takes any run. -/
def Reading (symbol : α) (word run : List β) : Prop :=
  (∃ letter, word.head? = some letter ∧ meets symbol letter = true ∧ run = [letter]) ∨
    (∀ letter, word.head? = some letter → meets symbol letter = false) ∧ star symbol = true

/-- Symbols took letters one by one from the first pair to the second. -/
inductive Walked : List α → List β → List α → List β → Prop where
  | refl {pattern : List α} {word : List β} : Walked pattern word pattern word
  | meet {symbol : α} {letter : β} {pattern pattern' : List α} {word word' : List β} :
    meets symbol letter = true → Walked pattern word pattern' word' →
      Walked (symbol :: pattern) (letter :: word) pattern' word'

theorem Walked.snoc {pattern' : List α} {word' : List β} {symbol : α} {letter : β}
    (h : Walked meets pattern word (symbol :: pattern') (letter :: word')) (hmts : meets symbol letter = true) :
    Walked meets pattern word pattern' word' := by
  generalize hpat : symbol :: pattern' = here at h
  generalize hword : letter :: word' = left at h
  induction h with
  | refl =>
    subst hpat hword
    exact .meet hmts .refl
  | meet hmts' _ ih => exact .meet hmts' (ih hpat hword)

theorem Walked.length_le {pattern' : List α} {word' : List β}
    (h : Walked meets pattern word pattern' word') : pattern'.length ≤ pattern.length ∧ word'.length ≤ word.length := by
  induction h with
  | refl => exact ⟨Nat.le_refl _, Nat.le_refl _⟩
  | meet _ _ ih => exact ⟨Nat.le_succ_of_le ih.1, Nat.le_succ_of_le ih.2⟩

/-- The loop: what is left of the pattern and of the word, and behind the latest star, what was left when the star had
taken its letters. -/
structure State where
  pattern : List α
  word : List β
  backtrack : Option (List α × List β) := none
  walked : ∀ latest ∈ backtrack, Walked meets latest.1 latest.2 pattern word

namespace State

variable {meets}

def start (pattern : List α) (word : List β) : State meets where
  pattern
  word
  walked := by simp

/-- The latest star takes one letter more. Without one there is no match. -/
def retry (s : State meets) : Bool ⊕ State meets :=
  match s.backtrack with
  | some (pattern, word) => .inr {
      pattern
      word := word.tail
      backtrack := some (pattern, word.tail)
      walked := by
        rintro latest hlatest
        cases hlatest
        exact .refl }
  | none => .inl false

/-- One turn of the loop, or its result. -/
def step (s : State meets) : Bool ⊕ State meets :=
  match hword : s.word with
  | [] => .inl (s.pattern.all star)
  | letter :: word =>
    match hpattern : s.pattern with
    | [] => s.retry
    | symbol :: pattern =>
      if hmeets : meets symbol letter = true then .inr {
        pattern
        word
        backtrack := s.backtrack
        walked := by
          intro latest hlatest
          have hwalked := s.walked latest hlatest
          rw [hword, hpattern] at hwalked
          exact hwalked.snoc meets hmeets }
      else if star symbol then .inr {
        pattern
        word := s.word
        backtrack := some (pattern, s.word)
        walked := by
          rintro latest hlatest
          cases hlatest
          exact .refl }
      else s.retry

/-- What a turn makes smaller: the pattern behind the latest star, then the word there, then the word. -/
def size (s : State meets) : Nat × Nat × Nat :=
  match s.backtrack with
  | some (pattern, word) => (pattern.length, word.length, s.word.length)
  | none => (s.pattern.length + 1, 0, s.word.length)

/-- What a result or a turn has to do with a state: the result says whether the state is accepted, and a turn is to a
smaller state that is accepted where this one is. -/
def Follows (accepts : State meets → Prop) (s : State meets) : Bool ⊕ State meets → Prop
  | .inl result => result = true ↔ accepts s
  | .inr next => (accepts s ↔ accepts next) ∧ Prod.Lex (· < ·) (Prod.Lex (· < ·) (· < ·)) next.size s.size

end State

section Accepts

variable {meets : α → β → Bool} {star : α → Bool}

def Somewhere (meets : α → β → Bool) (star : α → Bool) (pattern : List α) (word : List β) : Prop :=
  ∃ rest, rest <:+ word ∧ Splits (Reading meets star) pattern rest

variable {symbol : α} {pattern : List α} {word : List β}

theorem splits_meet {letter : β} (hmts : meets symbol letter = true) :
    Splits (Reading meets star) (symbol :: pattern) (letter :: word) ↔ Splits (Reading meets star) pattern word := by
  rw [splits_cons]
  constructor
  · rintro ⟨run, rest, hword, hrd, hrest⟩
    rcases hrd with ⟨letter', hhead, -, rfl⟩ | ⟨hnone, -⟩
    · rw [List.singleton_append] at hword
      rwa [(List.cons.inj hword).2]
    · rw [hnone letter rfl] at hmts
      cases hmts
  · intro h
    exact ⟨[letter], word, rfl, .inl ⟨letter, rfl, hmts, rfl⟩, h⟩

theorem splits_star
    (hmts : ∀ letter, word.head? = some letter → meets symbol letter = false) (hstar : star symbol = true) :
    Splits (Reading meets star) (symbol :: pattern) word ↔ Somewhere meets star pattern word := by
  rw [splits_cons]
  constructor
  · rintro ⟨run, rest, rfl, -, hrest⟩
    exact ⟨rest, List.suffix_append .., hrest⟩
  · rintro ⟨rest, ⟨run, rfl⟩, hrest⟩
    exact ⟨run, rest, rfl, .inr ⟨hmts, hstar⟩, hrest⟩

theorem not_splits
    (hmts : ∀ letter, word.head? = some letter → meets symbol letter = false) (hstar : star symbol = false) :
    ¬ Splits (Reading meets star) (symbol :: pattern) word := by
  rw [splits_cons]
  rintro ⟨run, rest, -, hrd, -⟩
  rcases hrd with ⟨letter, hhead, hmts', -⟩ | ⟨-, hstar'⟩
  · rw [hmts letter hhead] at hmts'
    cases hmts'
  · rw [hstar] at hstar'
    cases hstar'

theorem splits_empty (pattern : List α) : Splits (Reading meets star) pattern [] ↔ pattern.all star = true := by
  induction pattern with
  | nil => exact ⟨fun _ => rfl, fun _ => .nil⟩
  | cons symbol pattern ih =>
    cases hstar : star symbol with
    | true =>
      rw [splits_star (by simp) hstar, List.all_cons, hstar, Bool.true_and, ← ih]
      exact ⟨fun ⟨rest, hrest, h⟩ => List.suffix_nil.mp hrest ▸ h, fun h => ⟨[], List.suffix_rfl, h⟩⟩
    | false =>
      rw [List.all_cons, hstar]
      exact ⟨fun h => absurd h (not_splits (by simp) hstar), fun h => by cases h⟩

/-- A split found behind a star gives one at what the symbols after it did not take: a symbol that met a letter takes no
less of the word when it starts later. -/
theorem Walked.somewhere {pattern' : List α} {word' : List β}
    (h : Walked meets pattern word pattern' word') (hsome : Somewhere meets star pattern word) :
    Somewhere meets star pattern' word' := by
  induction h with
  | refl => exact hsome
  | @meet symbol letter pattern pattern' word word' hmts hwalked ih =>
    apply ih
    obtain ⟨rest, hrest, hspls⟩ := hsome
    rcases List.suffix_cons_iff.mp hrest with rfl | hrest
    · exact ⟨word, List.suffix_rfl, (splits_meet hmts).mp hspls⟩
    · obtain ⟨run, later, rfl, -, hlat⟩ := splits_cons.mp hspls
      exact ⟨later, (List.suffix_append ..).trans hrest, hlat⟩

theorem Walked.splits_iff {pattern' : List α} {word' : List β} (h : Walked meets pattern word pattern' word') :
    Splits (Reading meets star) pattern word ↔ Splits (Reading meets star) pattern' word' := by
  induction h with
  | refl => exact Iff.rfl
  | meet hmts _ ih => rw [splits_meet hmts, ih]

/-- What the loop accepts from a state: what is left splits, or the latest star finds a split further on. -/
def State.Accepts (star : α → Bool) (s : State meets) : Prop :=
  Splits (Reading meets star) s.pattern s.word ∨
    ∃ latest ∈ s.backtrack, Somewhere meets star latest.1 latest.2

theorem follows_retry (s : State meets) (hword : s.word ≠ [])
    (hnone : ¬ Splits (Reading meets star) s.pattern s.word) : State.Follows (State.Accepts star) s s.retry := by
  unfold State.retry
  cases hback : s.backtrack with
  | none =>
    refine ⟨fun h => (by cases h), ?_⟩
    rintro (h | ⟨latest, hltst, -⟩)
    · exact absurd h hnone
    · rw [hback] at hltst
      cases hltst
  | some latest =>
    obtain ⟨pattern, word⟩ := latest
    have hwalked := s.walked _ hback
    obtain ⟨letter, rest, rfl⟩ : ∃ letter rest, word = letter :: rest := by
      have hle := hwalked.length_le.2
      cases word with
      | nil => exact absurd (List.length_eq_zero_iff.mp (Nat.le_zero.mp hle)) hword
      | cons letter rest => exact ⟨letter, rest, rfl⟩
    constructor
    · constructor
      · rintro (h | ⟨latest, hltst, rest', hrest', hspls⟩)
        · exact absurd h hnone
        · rw [hback] at hltst
          cases hltst
          rcases List.suffix_cons_iff.mp hrest' with rfl | hrest'
          · exact absurd (hwalked.splits_iff.mp hspls) hnone
          · exact .inr ⟨_, rfl, rest', hrest', hspls⟩
      · rintro (h | ⟨latest, hltst, rest', hrest', hspls⟩)
        · exact .inr ⟨_, hback, rest, List.suffix_cons .., h⟩
        · cases hltst
          exact .inr ⟨_, hback, rest', hrest'.trans (List.suffix_cons ..), hspls⟩
    · simp only [State.size, hback]
      exact .right _ (.left _ _ (by simp))

/-- A turn of the loop. -/
theorem follows_step (s : State meets) : State.Follows (State.Accepts star) s (s.step star) := by
  obtain ⟨pattern, word, backtrack, hwalked⟩ := s
  cases word with
  | nil =>
    refine Iff.trans (@splits_empty _ _ meets _ pattern).symm ⟨.inl, ?_⟩
    rintro (h | ⟨latest, hltst, hsome⟩)
    · exact h
    · obtain ⟨rest, hrest, hspls⟩ := (hwalked latest hltst).somewhere hsome
      exact List.suffix_nil.mp hrest ▸ hspls
  | cons letter word =>
    cases pattern with
    | nil => exact follows_retry _ (by simp) fun h => by cases splits_nil.mp h
    | cons symbol pattern =>
      unfold State.step
      dsimp only
      by_cases hmts : meets symbol letter = true
      · rw [dif_pos hmts]
        constructor
        · exact or_congr (splits_meet hmts) Iff.rfl
        · cases backtrack with
          | none => exact .left _ _ (Nat.lt_succ_self _)
          | some latest => exact .right _ (.right _ (Nat.lt_succ_self _))
      · rw [dif_neg hmts]
        have hnone : ∀ letter', (letter :: word).head? = some letter' → meets symbol letter' = false := by
          intro letter' hhead
          cases hhead
          exact Bool.eq_false_iff.mpr hmts
        by_cases hstar : star symbol = true
        · rw [if_pos hstar]
          constructor
          · -- the stars before this one find no more than it does
            have hspls := @splits_star _ _ meets _ _ pattern _ hnone hstar
            constructor
            · rintro (h | ⟨latest, hltst, hsome⟩)
              · exact .inr ⟨_, rfl, hspls.mp h⟩
              · obtain ⟨rest, hrest, h⟩ := (hwalked latest hltst).somewhere hsome
                obtain ⟨run, later, rfl, -, hlat⟩ := splits_cons.mp h
                exact .inr ⟨_, rfl, later, (List.suffix_append ..).trans hrest, hlat⟩
            · rintro (h | ⟨latest, hltst, hsome⟩)
              · exact .inl (hspls.mpr ⟨_, List.suffix_rfl, h⟩)
              · cases hltst
                exact .inl (hspls.mpr hsome)
          · cases backtrack with
            | none =>
              apply Prod.Lex.left
              simp only [List.length_cons]
              omega
            | some latest =>
              exact .left _ _ (Nat.lt_of_lt_of_le (Nat.lt_succ_self _) (hwalked latest rfl).length_le.1)
        · rw [if_neg hstar]
          exact follows_retry _ (by simp) (not_splits hnone (Bool.eq_false_iff.mpr hstar))

/-- A turn makes the state smaller. -/
theorem size_lt {s next : State meets} (h : s.step star = .inr next) :
    Prod.Lex (· < ·) (Prod.Lex (· < ·) (· < ·)) next.size s.size := by
  have hfol := @follows_step _ _ _ star s
  rw [h] at hfol
  exact hfol.2

end Accepts

/-- The loop. -/
def State.run {meets : α → β → Bool} (star : α → Bool) (s : State meets) : Bool :=
  match _ : s.step star with
  | .inl result => result
  | .inr next => next.run star
termination_by s.size
decreasing_by exact size_lt ‹_›

section Run

variable {meets : α → β → Bool} {star : α → Bool}

theorem run_iff (s : State meets) : s.run star = true ↔ s.Accepts star := by
  induction s using State.run.induct star with
  | case1 s result hstep =>
    have hfol := @follows_step _ _ _ star s
    rw [hstep] at hfol
    unfold State.run
    split
    · next result' hstep' =>
      cases hstep.symm.trans hstep'
      exact hfol
    · next next' hstep' => cases hstep.symm.trans hstep'
  | case2 s next hstep ih =>
    have hfol := @follows_step _ _ _ star s
    rw [hstep] at hfol
    unfold State.run
    split
    · next result' hstep' => cases hstep.symm.trans hstep'
    · next next' hstep' =>
      cases hstep.symm.trans hstep'
      rw [ih]
      exact hfol.1.symm

/-- **The loop accepts exactly the words that the pattern splits.** -/
theorem run_start (pattern : List α) (word : List β) :
    (State.start pattern word : State meets).run star = true ↔ Splits (Reading meets star) pattern word := by
  rw [run_iff]
  constructor
  · rintro (h | ⟨latest, hltst, -⟩)
    · exact h
    · cases hltst
  · exact .inl

end Run

end Wildcard

end Adk
