import AdkRust.Lib.Text
import Mathlib.Data.List.Infix

/-!
# Occurrences of a pattern

Where a pattern occurs in a text that is put together from parts, and what is left of it when every occurrence is
replaced.

* `infix_append_cases`: an occurrence is in one part, or across both.
* `Foreign`, `infix_across`: no occurrence reaches into a text that has nothing of the pattern.
* `replaceAll_notInfix`, `replaceAll_notInfix_other`: **after it is replaced by a foreign text a pattern does not occur,
  and none that did not occur before.**
* `OccursOnce`: a pattern that occurs in one place.
-/

namespace Adk

variable {α : Type} {pattern xs ys : List α}

/-- An occurrence is in one part, or begins in the first and ends in the second. -/
theorem infix_append_cases (h : pattern <:+: xs ++ ys) :
    pattern <:+: xs ∨ pattern <:+: ys ∨ ∃ a b, a ≠ [] ∧ b ≠ [] ∧ pattern = a ++ b ∧ a <:+ xs ∧ b <+: ys := by
  obtain ⟨s, t, h⟩ := h
  rw [List.append_assoc] at h
  rcases List.append_eq_append_iff.mp h with ⟨front, rfl, hfrt⟩ | ⟨back, rfl, rfl⟩
  · rcases List.append_eq_append_iff.mp hfrt with ⟨middle, rfl, rfl⟩ | ⟨middle, rfl, rfl⟩
    · exact .inl ⟨s, middle, by rw [List.append_assoc]⟩
    · by_cases hfst : front = []
      · exact .inr (.inl ⟨[], t, by simp [hfst]⟩)
      · by_cases hmiddle : middle = []
        · exact .inl ⟨s, [], by simp [hmiddle]⟩
        · exact .inr (.inr ⟨front, middle, hfst, hmiddle, rfl, ⟨s, rfl⟩, ⟨t, rfl⟩⟩)
  · exact .inr (.inl ⟨back, t, by rw [List.append_assoc]⟩)

/-- No occurrence has a character that the pattern does not have. -/
theorem infix_append_cons {c : α} (hc : c ∉ pattern) (h : pattern <:+: xs ++ c :: ys) :
    pattern <:+: xs ∨ pattern <:+: ys := by
  rcases infix_append_cases h with h | h | ⟨a, b, -, hb, rfl, -, hpre⟩
  · exact .inl h
  · rcases List.infix_cons_iff.mp h with hpre | h
    · cases pattern with
      | nil => exact .inl (List.nil_infix)
      | cons d rest =>
        obtain ⟨rfl, -⟩ := List.cons_prefix_cons.mp hpre
        exact absurd List.mem_cons_self hc
    · exact .inr h
  · cases b with
    | nil => exact absurd rfl hb
    | cons d rest =>
      obtain ⟨rfl, -⟩ := List.cons_prefix_cons.mp hpre
      exact absurd (List.mem_append_right _ List.mem_cons_self) hc

/-! ## Foreign texts -/

/-- No end of the pattern is a beginning of the text and no beginning an end, and neither is in the other. -/
structure Foreign (pattern text : List α) : Prop where
  ends : ∀ part ∈ pattern.tails, part ≠ [] → ¬part <+: text
  begins : ∀ part ∈ pattern.inits, part ≠ [] → ¬part <:+ text
  inside : ¬text <:+: pattern
  outside : ¬pattern <:+: text

/-- An occurrence beside a foreign text is on one side of it. -/
theorem infix_across {text : List α} (hfor : Foreign pattern text) (h : pattern <:+: xs ++ (text ++ ys)) :
    pattern <:+: xs ∨ pattern <:+: ys := by
  rcases infix_append_cases h with h | h | ⟨a, b, ha, hb, rfl, -, hpre⟩
  · exact .inl h
  · rcases infix_append_cases h with h | h | ⟨a, b, ha, hb, rfl, hsuffix, -⟩
    · exact absurd h hfor.outside
    · exact .inr h
    · exact absurd hsuffix (hfor.begins a ((List.mem_inits a _).mpr (List.prefix_append a b)) ha)
  · rcases List.prefix_or_prefix_of_prefix hpre (List.prefix_append text ys) with hpre | hpre
    · exact absurd hpre (hfor.ends b ((List.mem_tails b _).mpr (List.suffix_append a b)) hb)
    · exact absurd (List.infix_append_of_infix_right hpre.isInfix) hfor.inside

/-! ## Replacing -/

/-- A text with every occurrence of a pattern replaced, from the first one on (`str::replace`). -/
def replaceFrom (pattern replacement : List Char) : Nat → List Char → List Char
  | _, [] => []
  | skip + 1, _ :: rest => replaceFrom pattern replacement skip rest
  | 0, c :: rest =>
    if pattern.isPrefixOf (c :: rest) then replacement ++ replaceFrom pattern replacement (pattern.length - 1) rest
    else c :: replaceFrom pattern replacement 0 rest

def replaceAll (pattern replacement text : List Char) : List Char := replaceFrom pattern replacement 0 text

section Replace

variable {pattern replacement other : List Char}

theorem replaceFrom_eq (pattern replacement : List Char) (skip : Nat) (text : List Char) :
    replaceFrom pattern replacement skip text = replaceAll pattern replacement (text.drop skip) := by
  induction text generalizing skip with
  | nil =>
    rw [List.drop_nil]
    cases skip <;> rfl
  | cons c rest ih =>
    cases skip with
    | zero => rfl
    | succ skip => exact ih skip

theorem replaceAll_cons (hpat : pattern ≠ []) (c : Char) (rest : List Char) :
    replaceAll pattern replacement (c :: rest) =
      if pattern <+: c :: rest then replacement ++ replaceAll pattern replacement ((c :: rest).drop pattern.length)
      else c :: replaceAll pattern replacement rest := by
  have hlen : (c :: rest).drop pattern.length = rest.drop (pattern.length - 1) := by
    cases pattern with
    | nil => exact absurd rfl hpat
    | cons d pattern => rfl
  have hpre : pattern.isPrefixOf (c :: rest) = true ↔ pattern <+: c :: rest := List.isPrefixOf_iff_prefix
  unfold replaceAll
  rw [replaceFrom, replaceFrom_eq _ _ (pattern.length - 1), ← hlen]
  exact if_congr hpre rfl rfl

/-- What is left has no occurrence of the pattern, where none began in front of it. -/
theorem replaceAll_gap (hpat : pattern ≠ []) (hfor : Foreign pattern replacement) (text gap : List Char)
    (hgap : ∀ a b, gap = a ++ b → b ≠ [] → ¬pattern <+: b ++ text) :
    ¬pattern <:+: gap ++ replaceAll pattern replacement text := by
  have hnone : ¬pattern <:+: gap := by
    rintro ⟨s, t, rfl⟩
    refine hgap s (pattern ++ t) (List.append_assoc _ _ _) (by simp [hpat]) ?_
    rw [List.append_assoc]
    exact List.prefix_append _ _
  match text with
  | [] =>
    rw [show replaceAll pattern replacement [] = [] from rfl, List.append_nil]
    exact hnone
  | c :: rest =>
    rw [replaceAll_cons hpat]
    split
    next hpre =>
      intro h
      rcases infix_across hfor h with h | h
      · exact hnone h
      · have hless : ((c :: rest).drop pattern.length).length < (c :: rest).length := by
          have := List.length_pos_iff.mpr hpat
          rw [List.length_drop, List.length_cons]
          omega
        have hrest := replaceAll_gap hpat hfor ((c :: rest).drop pattern.length) [] (by simp)
        exact hrest h
    next hpre =>
      have hrest := replaceAll_gap hpat hfor rest (gap ++ [c]) ?_
      · rwa [List.append_assoc] at hrest
      · intro a b hsp hb
        rcases List.eq_nil_or_concat b with rfl | ⟨front, last, rfl⟩
        · exact absurd rfl hb
        · rw [List.concat_eq_append, ← List.append_assoc] at hsp
          obtain ⟨rfl, hlast⟩ := List.append_inj' hsp rfl
          obtain rfl := List.singleton_inj.mp hlast
          rw [List.concat_eq_append, List.append_assoc]
          by_cases hfrt : front = []
          · rw [hfrt]
            exact hpre
          · exact hgap a front rfl hfrt
termination_by text.length
decreasing_by
  · exact Nat.lt_succ_self _
  · exact hless

theorem replaceAll_notInfix (hpat : pattern ≠ []) (hfor : Foreign pattern replacement) (text : List Char) :
    ¬pattern <:+: replaceAll pattern replacement text :=
  replaceAll_gap hpat hfor text [] (by simp)

theorem replaceAll_gap_other (hpat : pattern ≠ []) (hfor : Foreign other replacement) (text gap : List Char)
    (hgap : ¬other <:+: gap ++ text) : ¬other <:+: gap ++ replaceAll pattern replacement text := by
  match text with
  | [] => exact hgap
  | c :: rest =>
    rw [replaceAll_cons hpat]
    split
    next hpre =>
      intro h
      rcases infix_across hfor h with h | h
      · exact hgap (List.infix_append_of_infix_left h)
      · have hless : ((c :: rest).drop pattern.length).length < (c :: rest).length := by
          have := List.length_pos_iff.mpr hpat
          rw [List.length_drop, List.length_cons]
          omega
        have hrest := replaceAll_gap_other hpat hfor ((c :: rest).drop pattern.length) [] ?_
        · exact hrest h
        · intro hinfix
          refine hgap (List.infix_append_of_infix_right ?_)
          exact hinfix.trans (List.drop_suffix _ _).isInfix
    next hpre =>
      have hrest := replaceAll_gap_other hpat hfor rest (gap ++ [c]) ?_
      · rwa [List.append_assoc] at hrest
      · rwa [List.append_assoc]
termination_by text.length
decreasing_by
  · exact Nat.lt_succ_self _
  · exact hless

theorem replaceAll_notInfix_other (hpat : pattern ≠ []) (hfor : Foreign other replacement) {text : List Char}
    (h : ¬other <:+: text) : ¬other <:+: replaceAll pattern replacement text :=
  replaceAll_gap_other hpat hfor text [] h

end Replace

/-! ## One occurrence -/

def OccursOnce (pattern text : List α) : Prop :=
  ∃ before after, text = before ++ pattern ++ after ∧
    ∀ before' after', text = before' ++ pattern ++ after' → before' = before ∧ after' = after

/-- No end of the pattern is also a beginning of it, but for the whole. -/
def Borderless (pattern : List α) : Prop := ∀ part ∈ pattern.tails, part ≠ [] → part <+: pattern → part = pattern

/-- Two occurrences that overlap are one. -/
theorem eq_of_overlap {front back after : List α} (hborderless : Borderless pattern)
    (h : pattern ++ back = front ++ pattern ++ after) (hsht : front.length < pattern.length) :
    front = [] ∧ after = back := by
  rw [List.append_assoc] at h
  rcases List.append_eq_append_iff.mp h with ⟨rest, hfrt, -⟩ | ⟨middle, hpat, hback⟩
  · have hlen := congrArg List.length hfrt
    rw [List.length_append] at hlen
    omega
  · have hlen := congrArg List.length hpat
    rw [List.length_append] at hlen
    have hne : middle ≠ [] := by
      rintro rfl
      rw [List.length_nil] at hlen
      omega
    have hbegin : middle <+: pattern :=
      List.prefix_of_prefix_length_le (List.prefix_append middle back) ⟨after, hback⟩ (by omega)
    have hwh := hborderless middle ((List.mem_tails _ _).mpr ⟨front, hpat.symm⟩) hne hbegin
    have hnil : front = [] := by
      rw [hwh] at hlen
      exact List.length_eq_zero_iff.mp (by omega)
    rw [hwh] at hback
    exact ⟨hnil, List.append_cancel_left hback⟩

theorem occursOnce_append (hborderless : Borderless pattern) (hx : ¬pattern <:+: xs) (hy : ¬pattern <:+: ys) :
    OccursOnce pattern (xs ++ pattern ++ ys) := by
  refine ⟨xs, ys, rfl, fun before after h => ?_⟩
  rw [List.append_assoc, List.append_assoc] at h
  rcases List.append_eq_append_iff.mp h with ⟨front, rfl, hfrt⟩ | ⟨front, rfl, hfrt⟩
  · -- the other occurrence begins no earlier
    rw [← List.append_assoc] at hfrt
    by_cases hsht : front.length < pattern.length
    · obtain ⟨rfl, rfl⟩ := eq_of_overlap hborderless hfrt hsht
      exact ⟨List.append_nil _, rfl⟩
    · exfalso
      rw [List.append_assoc] at hfrt
      rcases List.append_eq_append_iff.mp hfrt with ⟨rest, rfl, hrest⟩ | ⟨rest, hpat, hrest⟩
      · exact hy ⟨rest, after, by rw [List.append_assoc]; exact hrest.symm⟩
      · have hlen := congrArg List.length hpat
        rw [List.length_append] at hlen
        have hnil : rest = [] := List.length_eq_zero_iff.mp (by omega)
        rw [hnil, List.nil_append] at hrest
        exact hy ⟨[], after, hrest⟩
  · -- the other occurrence begins no later
    rw [← List.append_assoc] at hfrt
    by_cases hsht : front.length < pattern.length
    · obtain ⟨rfl, rfl⟩ := eq_of_overlap hborderless hfrt hsht
      exact ⟨(List.append_nil _).symm, rfl⟩
    · exfalso
      rw [List.append_assoc] at hfrt
      rcases List.append_eq_append_iff.mp hfrt with ⟨rest, rfl, hrest⟩ | ⟨rest, hpat, hrest⟩
      · exact hx ⟨before, rest, by rw [List.append_assoc]⟩
      · have hlen := congrArg List.length hpat
        rw [List.length_append] at hlen
        have hnil : rest = [] := List.length_eq_zero_iff.mp (by omega)
        rw [hnil, List.append_nil] at hpat
        rw [← hpat] at hx
        exact hx ⟨before, [], List.append_nil _⟩

end Adk
