import AdkRust.Core.InstructionTemplate

/-!
# Every placeholder of a template, once

A template reads as characters and placeholders (`Reading`): a brace opens a placeholder unless `$`, `\` or a brace is in
front of it, and a name of the grammar and the closing brace follow.

* `findFrom_reads`: what the scanner of bytes finds is the next opening, and no placeholder is in front of it.
* `replaceMatch_content`: a content that is no name of the grammar is put back.
* `injectSessionState_reads`: **a template is filled exactly at its placeholders, and fails exactly for one of them.**
-/

namespace Adk

namespace InstructionTemplate

/-! ## The grammar -/

def IsIdentifier (name : List Char) : Prop := isIdentifier name = true

def IsStateName (name : List Char) : Prop :=
  IsIdentifier name ∨ ∃ scope ∈ stateScopes, ∃ ident, name = scope ++ ':' :: ident ∧ IsIdentifier ident

/-- What a template may hold a place for. -/
inductive Placeholder where
  | state (name : List Char) (optional : Bool)
  | artifact (file : List Char) (optional : Bool)

namespace Placeholder

def Valid : Placeholder → Prop
  | state name _ => IsStateName name
  | artifact file _ => ∀ c ∈ file, isIdentBody c = true

def name : Placeholder → List Char
  | state name _ => name
  | artifact file _ => "artifact.".toList ++ file

def isOptional : Placeholder → Bool
  | state _ optional | artifact _ optional => optional

/-- What is between the braces. -/
def content (p : Placeholder) : List Char := p.name ++ if p.isOptional then ['?'] else []

/-- How a placeholder is written. -/
def source (p : Placeholder) : List Char := '{' :: p.content ++ ['}']

def value (ctx : TemplateContext) : Placeholder → Except AdkError (List Char)
  | state name optional => loadVariable ctx name optional
  | artifact file optional => loadArtifact ctx file optional

end Placeholder

inductive Piece where
  | literal (c : Char)
  | placeholder (p : Placeholder)

namespace Piece

def source : Piece → List Char
  | literal c => [c]
  | placeholder p => p.source

def value (ctx : TemplateContext) : Piece → Except AdkError (List Char)
  | literal c => .ok [c]
  | placeholder p => p.value ctx

end Piece

/-- A character in front of a brace that does not keep it from opening a placeholder. -/
def Free (previous : Option Char) : Prop := previous ≠ some '$' ∧ previous ≠ some '\\' ∧ previous ≠ some '{'

/-- A placeholder is written at the start of a text, behind a character. -/
structure Opens (previous : Option Char) (text : List Char) (p : Placeholder) (after : List Char) : Prop where
  valid : p.Valid
  text_eq : text = p.source ++ after
  free : Free previous

inductive Reading : Option Char → List Char → List Piece → Prop where
  | done (previous : Option Char) : Reading previous [] []
  | literal {previous : Option Char} {c : Char} {rest : List Char} {pieces : List Piece}
      (h : ∀ p after, ¬Opens previous (c :: rest) p after) (hrest : Reading (some c) rest pieces) :
      Reading previous (c :: rest) (.literal c :: pieces)
  | placeholder {previous : Option Char} {text after : List Char} {p : Placeholder} {pieces : List Piece}
      (h : Opens previous text p after) (hrest : Reading (some '}') after pieces) :
      Reading previous text (.placeholder p :: pieces)

variable {previous : Option Char} {text after : List Char} {pieces : List Piece} {c : Char} {p : Placeholder}

theorem Reading.source (h : Reading previous text pieces) : pieces.flatMap Piece.source = text := by
  induction h with
  | done => rfl
  | literal _ _ ih => rw [List.flatMap_cons, ih]; rfl
  | placeholder hops _ ih => rw [List.flatMap_cons, ih, hops.text_eq]; rfl

/-! ## Contents -/

/-- What the scanner takes for the content of a placeholder. -/
structure IsContent (content : List Char) : Prop where
  parts : ∃ first body mark, content = first :: body ++ mark ∧ isIdentStart first = true ∧
    (∀ c ∈ body, isIdentBody c = true) ∧ (mark = [] ∨ mark = ['?'])

theorem isAlphanum_code (h : c.isAlphanum = true) : 48 ≤ c.toNat ∧ c.toNat < 128 := by
  change ((decide ('A'.val ≤ c.val ∧ c.val ≤ 'Z'.val) || decide ('a'.val ≤ c.val) && decide (c.val ≤ 'z'.val)) ||
    decide ('0'.val ≤ c.val) && decide (c.val ≤ '9'.val)) = true at h
  simp only [Bool.or_eq_true, Bool.and_eq_true, decide_eq_true_eq, UInt32.le_iff_toNat_le] at h
  have hcode : c.toNat = c.val.toNat := rfl
  have hA : 'A'.val.toNat = 65 := rfl
  have hZ : 'Z'.val.toNat = 90 := rfl
  have ha : 'a'.val.toNat = 97 := rfl
  have hz : 'z'.val.toNat = 122 := rfl
  have hzero : '0'.val.toNat = 48 := rfl
  have hnine : '9'.val.toNat = 57 := rfl
  omega

theorem isIdentBody_code (h : isIdentBody c = true) : 46 ≤ c.toNat ∧ c.toNat < 128 := by
  simp only [isIdentBody, Bool.or_eq_true, decide_eq_true_eq] at h
  rcases h with ((h | rfl) | rfl) | rfl
  · have := isAlphanum_code h
    omega
  · decide
  · decide
  · decide

theorem isIdentBody_ascii (h : isIdentBody c = true) : c.toNat < 128 := (isIdentBody_code h).2

theorem isIdentBody_of_isIdentStart (h : isIdentStart c = true) : isIdentBody c = true := by
  have halphanum : c.isAlphanum = (c.isAlpha || c.isDigit) := rfl
  simp only [isIdentStart, isIdentBody, halphanum, Bool.or_eq_true, decide_eq_true_eq] at h ⊢
  rcases h with h | rfl
  · exact .inl (.inl (.inl (.inl h)))
  · exact .inl (.inl (.inr rfl))

theorem isContent_ascii {content : List Char} (h : IsContent content) : ∀ c ∈ content, c.toNat < 128 := by
  obtain ⟨first, body, mark, rfl, hfst, hbody, hmark⟩ := h
  intro c hc
  simp only [List.cons_append, List.mem_cons, List.mem_append] at hc
  rcases hc with rfl | hc | hc
  · exact isIdentBody_ascii (isIdentBody_of_isIdentStart hfst)
  · exact isIdentBody_ascii (hbody c hc)
  · rcases hmark with rfl | rfl
    · cases hc
    · obtain rfl := List.mem_singleton.mp hc
      decide

/-! ### Names -/

theorem IsIdentifier.parts {name : List Char} (h : IsIdentifier name) : ∃ first body, name = first :: body ∧
    isIdentStart first = true ∧ ∀ c ∈ name, isIdentBody c = true ∧ c ≠ ':' ∧ c ≠ '.' := by
  have hbody {c : Char} (hc : (c.isAlphanum || c = '_') = true) : isIdentBody c = true ∧ c ≠ ':' ∧ c ≠ '.' := by
    refine ⟨by simp only [isIdentBody, hc, Bool.true_or], ?_, ?_⟩
    · rintro rfl
      exact absurd hc (by decide)
    · rintro rfl
      exact absurd hc (by decide)
  cases name with
  | nil => cases h
  | cons first body =>
    unfold IsIdentifier isIdentifier at h
    rw [Bool.and_eq_true, List.all_eq_true] at h
    refine ⟨first, body, rfl, h.1, fun c hc => ?_⟩
    rcases List.mem_cons.mp hc with rfl | hc
    · have halphanum : c.isAlphanum = (c.isAlpha || c.isDigit) := rfl
      refine hbody ?_
      have hsta := h.1
      rw [Bool.or_eq_true] at hsta ⊢
      rw [halphanum, Bool.or_eq_true]
      exact hsta.imp_left .inl
    · exact hbody (h.2 c hc)

theorem notMem_scope {scope : List Char} (h : scope ∈ stateScopes) :
    ':' ∉ scope ∧ '.' ∉ scope ∧ ∃ first body, scope = first :: body ∧ isIdentStart first = true ∧
      body.all isIdentBody = true := by
  simp only [stateScopes, List.mem_cons, List.not_mem_nil, or_false] at h
  rcases h with rfl | rfl | rfl
  · exact ⟨by decide, by decide, 'a', ['p', 'p'], rfl, by decide, by decide⟩
  · exact ⟨by decide, by decide, 'u', ['s', 'e', 'r'], rfl, by decide, by decide⟩
  · exact ⟨by decide, by decide, 't', ['e', 'm', 'p'], rfl, by decide, by decide⟩

/-- **The names of the state** are those of the grammar. -/
theorem isValidStateName_iff {name : List Char} : isValidStateName name = true ↔ IsStateName name := by
  constructor
  · intro h
    have hjoin := @List.intercalate_splitOn Char name _ _ ':'
    unfold isValidStateName at h
    split at h
    · exact .inl h
    · next scope ident hsp =>
      rw [Bool.and_eq_true] at h
      rw [hsp, List.intercalate_cons_cons, List.intercalate_singleton, List.append_assoc] at hjoin
      exact .inr ⟨scope, List.contains_iff_mem.mp h.1, ident, hjoin.symm, h.2⟩
    · cases h
  · rintro (h | ⟨scope, hscp, ident, rfl, h⟩)
    · obtain ⟨-, -, -, -, hch⟩ := h.parts
      have hcol : ':' ∉ name := fun hmem => (hch _ hmem).2.1 rfl
      unfold isValidStateName
      rw [List.splitOn_eq_singleton hcol]
      exact h
    · obtain ⟨-, -, -, -, hch⟩ := h.parts
      have hcol : ':' ∉ ident := fun hmem => (hch _ hmem).2.1 rfl
      unfold isValidStateName
      rw [List.splitOn_append_cons_self, List.splitOn_eq_singleton (notMem_scope hscp).1,
        List.splitOn_eq_singleton hcol]
      exact (Bool.and_eq_true _ _).mpr ⟨List.contains_iff_mem.mpr hscp, h⟩

theorem IsStateName.parts {name : List Char} (h : IsStateName name) : ∃ first body, name = first :: body ∧
    isIdentStart first = true ∧ (∀ c ∈ body, isIdentBody c = true) ∧ '.' ∉ name := by
  rcases h with h | ⟨scope, hscp, ident, rfl, h⟩
  · obtain ⟨first, body, rfl, hfst, hch⟩ := h.parts
    exact ⟨first, body, rfl, hfst, fun c hc => (hch c (List.mem_cons_of_mem _ hc)).1, fun hmem => (hch _ hmem).2.2 rfl⟩
  · obtain ⟨-, -, -, -, hch⟩ := h.parts
    obtain ⟨-, hdot, first, body, rfl, hfst, hbody⟩ := notMem_scope hscp
    refine ⟨first, body ++ ':' :: ident, rfl, hfst, fun c hc => ?_, fun hmem => ?_⟩
    · rcases List.mem_append.mp hc with hc | hc
      · exact List.all_eq_true.mp hbody c hc
      · rcases List.mem_cons.mp hc with rfl | hc
        · decide
        · exact (hch c hc).1
    · rcases List.mem_append.mp hmem with hmem | hmem
      · exact hdot hmem
      · rcases List.mem_cons.mp hmem with heq | hmem
        · exact absurd heq (by decide)
        · exact (hch _ hmem).2.2 rfl

theorem artifactFile_eq_some {name file : List Char} :
    artifactFile name = some file ↔ name = "artifact.".toList ++ file := by
  unfold artifactFile
  constructor
  · intro h
    split at h
    · next hsta =>
      obtain ⟨rest, rfl⟩ := List.isPrefixOf_iff_prefix.mp hsta
      obtain rfl := Option.some.inj h
      rfl
    · cases h
  · rintro rfl
    rw [if_pos (List.isPrefixOf_iff_prefix.mpr (List.prefix_append _ _))]
    rfl

theorem Placeholder.Valid.parts (h : p.Valid) : ∃ first body, p.name = first :: body ∧
    isIdentStart first = true ∧ ∀ c ∈ body, isIdentBody c = true := by
  cases p with
  | state name isOptional =>
    obtain ⟨first, body, hname, hfst, hbody, -⟩ := IsStateName.parts h
    exact ⟨first, body, hname, hfst, hbody⟩
  | artifact file isOptional =>
    refine ⟨'a', "rtifact.".toList ++ file, rfl, by decide, fun c hc => ?_⟩
    rcases List.mem_append.mp hc with hc | hc
    · have hpre : "rtifact.".toList.all isIdentBody = true := by decide
      exact List.all_eq_true.mp hpre c hc
    · exact h c hc

theorem Placeholder.Valid.isContent (h : p.Valid) : IsContent p.content := by
  obtain ⟨first, body, hname, hfst, hbody⟩ := h.parts
  refine ⟨first, body, if p.isOptional then ['?'] else [], ?_, hfst, hbody, ?_⟩
  · rw [Placeholder.content, hname]
  · cases p.isOptional
    · exact .inl rfl
    · exact .inr rfl

/-! ### Contents -/

/-- The mark in front of the closing brace, and what is behind it. -/
def closing (text : List Char) : Option (List Char × List Char) :=
  if text.head? = some '?' then if text.tail.head? = some '}' then some (['?'], text.tail.tail) else none
  else if text.head? = some '}' then some ([], text.tail) else none

theorem closing_eq_some {mark : List Char} :
    closing text = some (mark, after) ↔ text = mark ++ '}' :: after ∧ (mark = [] ∨ mark = ['?']) := by
  constructor
  · intro h
    unfold closing at h
    split at h
    · next hqn =>
      obtain ⟨rest, rfl⟩ := List.head?_eq_some_iff.mp hqn
      split at h
      · next hbr =>
        obtain ⟨behind, hbehind⟩ := List.head?_eq_some_iff.mp hbr
        obtain ⟨rfl, rfl⟩ := Prod.mk.inj (Option.some.inj h)
        rw [List.tail_cons] at hbehind ⊢
        exact ⟨by rw [hbehind]; rfl, .inr rfl⟩
      · cases h
    · split at h
      · next hbr =>
        obtain ⟨behind, rfl⟩ := List.head?_eq_some_iff.mp hbr
        obtain ⟨rfl, rfl⟩ := Prod.mk.inj (Option.some.inj h)
        exact ⟨rfl, .inl rfl⟩
      · cases h
  · rintro ⟨rfl, rfl | rfl⟩ <;> rfl

/-- The content in front of the closing brace, and what is behind it. -/
def rawContent : List Char → Option (List Char × List Char)
  | [] => none
  | first :: more =>
    if isIdentStart first then (closing (more.dropWhile isIdentBody)).map fun closed =>
      (first :: more.takeWhile isIdentBody ++ closed.1, closed.2)
    else none

theorem rawContent_eq_some {content : List Char} :
    rawContent text = some (content, after) ↔ text = content ++ '}' :: after ∧ IsContent content := by
  constructor
  · intro h
    cases text with
    | nil => cases h
    | cons first more =>
      simp only [rawContent] at h
      split at h
      · next hfst =>
        obtain ⟨⟨mark, behind⟩, hclosing, heq⟩ := Option.map_eq_some_iff.mp h
        obtain ⟨rfl, rfl⟩ := Prod.mk.inj heq
        obtain ⟨haft, hmark⟩ := closing_eq_some.mp hclosing
        refine ⟨?_, first, more.takeWhile isIdentBody, mark, rfl, hfst, fun c hc => List.mem_takeWhile_imp hc, hmark⟩
        rw [List.cons_append, List.cons_append, List.append_assoc, ← haft, List.takeWhile_append_dropWhile]
      · cases h
  · rintro ⟨rfl, first, body, mark, rfl, hfst, hbody, hmark⟩
    have hstop : isIdentBody '?' = false ∧ isIdentBody '}' = false := by decide
    have hbehind : (mark ++ '}' :: after).takeWhile isIdentBody = [] ∧
        (mark ++ '}' :: after).dropWhile isIdentBody = mark ++ '}' :: after := by
      rcases hmark with rfl | rfl <;> simp [hstop]
    have htake : (body ++ (mark ++ '}' :: after)).takeWhile isIdentBody = body := by
      rw [List.takeWhile_append_of_pos hbody, hbehind.1, List.append_nil]
    have hdrop : (body ++ (mark ++ '}' :: after)).dropWhile isIdentBody = mark ++ '}' :: after := by
      rw [List.dropWhile_append_of_pos hbody, hbehind.2]
    have hclosing : closing (mark ++ '}' :: after) = some (mark, after) := closing_eq_some.mpr ⟨rfl, hmark⟩
    show rawContent (first :: (body ++ mark) ++ '}' :: after) = _
    rw [List.cons_append, List.append_assoc, rawContent, if_pos hfst, htake, hdrop, hclosing]
    rfl

theorem closing_utf8Bytes (text : List Char) :
    (if ((utf8Bytes text).drop (if (utf8Bytes text).head? = some (byteOf '?') then 1 else 0)).head? = some (byteOf '}') then
      some (if (utf8Bytes text).head? = some (byteOf '?') then 1 else 0) else none) =
    (closing text).map (·.1.length) := by
  have hqn : (utf8Bytes text).head? = some (byteOf '?') ↔ text.head? = some '?' := head?_utf8Bytes (by decide)
  unfold closing
  by_cases h : text.head? = some '?'
  · obtain ⟨rest, rfl⟩ : ∃ rest, text = '?' :: rest := by
      cases text with
      | nil => cases h
      | cons c rest => exact ⟨rest, by rw [Option.some.inj h]⟩
    have hbyt : (utf8Bytes ('?' :: rest)).drop 1 = utf8Bytes rest := rfl
    have hbr : (utf8Bytes rest).head? = some (byteOf '}') ↔ rest.head? = some '}' := head?_utf8Bytes (by decide)
    rw [if_pos h, if_pos (hqn.mpr h), hbyt, List.tail_cons]
    by_cases hcl : rest.head? = some '}'
    · rw [if_pos (hbr.mpr hcl), if_pos hcl]
      rfl
    · rw [if_neg fun heq => hcl (hbr.mp heq), if_neg hcl]
      rfl
  · have hbr : (utf8Bytes text).head? = some (byteOf '}') ↔ text.head? = some '}' := head?_utf8Bytes (by decide)
    rw [if_neg h, if_neg fun heq => h (hqn.mp heq), List.drop_zero]
    by_cases hcl : text.head? = some '}'
    · rw [if_pos (hbr.mpr hcl), if_pos hcl]
      rfl
    · rw [if_neg fun heq => hcl (hbr.mp heq), if_neg hcl]
      rfl

theorem contentLength_utf8Bytes (text : List Char) :
    contentLength (utf8Bytes text) = (rawContent text).map fun found => found.1.length := by
  cases text with
  | nil => rfl
  | cons first more =>
    rcases ascii_or_high first with ⟨hfst, hbyt⟩ | ⟨hfst, hbyt⟩
    · rw [utf8Bytes_cons, hbyt, List.singleton_append, contentLength, rawContent, byteChar_byteOf hfst]
      by_cases hsta : isIdentStart first = true
      · have hbody : ∀ c ∈ more.takeWhile isIdentBody, c.toNat < 128 := fun c hc =>
          isIdentBody_ascii (List.mem_takeWhile_imp hc)
        have hlen : (utf8Bytes (more.takeWhile isIdentBody)).length = (more.takeWhile isIdentBody).length := by
          rw [length_utf8Bytes, byteLength_of_ascii hbody]
        rw [if_pos hsta, if_pos hsta]
        dsimp only
        rw [takeWhile_utf8Bytes (fun _ => isIdentBody_ascii), dropWhile_utf8Bytes (fun _ => isIdentBody_ascii), hlen]
        have hclosing := closing_utf8Bytes (more.dropWhile isIdentBody)
        generalize (if (utf8Bytes (more.dropWhile isIdentBody)).head? = some (byteOf '?') then 1 else 0) = mark
          at hclosing ⊢
        split
        · next hbr =>
          rw [if_pos hbr] at hclosing
          obtain ⟨closed, hcl, hmark⟩ := Option.map_eq_some_iff.mp hclosing.symm
          rw [hcl, ← hmark, Option.map_some, Option.map_some, List.cons_append, List.length_cons, List.length_append]
          congr 1
          omega
        · next hbr =>
          rw [if_neg hbr] at hclosing
          rw [Option.map_eq_none_iff.mp hclosing.symm]
          rfl
      · rw [if_neg hsta, if_neg hsta]
        rfl
    · have hsta : isIdentStart first = false := Bool.eq_false_iff.mpr fun h => by
        have := isIdentBody_ascii (isIdentBody_of_isIdentStart h)
        omega
      obtain ⟨byte, bytes, hcons⟩ := List.exists_cons_of_ne_nil (String.utf8EncodeChar_ne_nil (c := first))
      have hbyte : isIdentStart (byteChar byte) = false :=
        class_high (fun c h => isIdentBody_ascii (isIdentBody_of_isIdentStart h)) (hbyt byte (hcons ▸ List.mem_cons_self))
      rw [utf8Bytes_cons, hcons, List.cons_append, contentLength, rawContent, hbyte, hsta]
      rfl

theorem IsContent.name {content : List Char} (h : IsContent content) : ∃ name optional,
    content = name ++ (if optional = true then ['?'] else []) ∧ '?' ∉ name ∧ ∀ c ∈ name, isIdentBody c = true := by
  obtain ⟨first, body, mark, rfl, hfst, hbody, hmark⟩ := h
  have hch : ∀ c ∈ first :: body, isIdentBody c = true :=
    List.forall_mem_cons.mpr ⟨isIdentBody_of_isIdentStart hfst, hbody⟩
  have hqn : '?' ∉ first :: body := fun hmem => absurd (hch _ hmem) (by decide)
  rcases hmark with rfl | rfl
  · exact ⟨first :: body, false, rfl, hqn, hch⟩
  · exact ⟨first :: body, true, rfl, hqn, hch⟩

theorem name_of_content {name name' : List Char} {optional optional' : Bool} (h : '?' ∉ name) (h' : '?' ∉ name')
    (heq : name ++ (if optional = true then ['?'] else []) = name' ++ (if optional' = true then ['?'] else [])) :
    name = name' ∧ optional = optional' := by
  have hemp (xs ys : List Char) (hmem : '?' ∉ xs) (heq : xs ++ [] = ys ++ ['?']) : False := by
    rw [List.append_nil] at heq
    exact hmem (by simp [heq])
  cases optional <;> cases optional'
  · exact ⟨by simpa using heq, rfl⟩
  · exact (hemp _ _ h heq).elim
  · exact (hemp _ _ h' heq.symm).elim
  · exact ⟨List.append_cancel_right heq, rfl⟩

theorem Placeholder.Valid.question (h : p.Valid) : '?' ∉ p.name := by
  obtain ⟨first, body, hname, hfst, hbody⟩ := h.parts
  rw [hname]
  intro hmem
  rcases List.mem_cons.mp hmem with rfl | hmem
  · exact absurd hfst (by decide)
  · exact absurd (hbody _ hmem) (by decide)

theorem Placeholder.Valid.eq {p' : Placeholder} (h : p.Valid) (h' : p'.Valid) (heq : p.content = p'.content) : p = p' := by
  obtain ⟨hname, hoptional⟩ := name_of_content h.question h'.question heq
  have hdot {file : List Char} : '.' ∈ "artifact.".toList ++ file := List.mem_append_left _ (by decide)
  cases p with
  | state name optional =>
    cases p' with
    | state name' optional' =>
      obtain rfl : name = name' := hname
      obtain rfl : optional = optional' := hoptional
      rfl
    | artifact file optional' =>
      obtain rfl : name = "artifact.".toList ++ file := hname
      obtain ⟨-, -, -, -, -, hno⟩ := IsStateName.parts h
      exact absurd hdot hno
  | artifact file optional =>
    cases p' with
    | state name' optional' =>
      obtain rfl : "artifact.".toList ++ file = name' := hname
      obtain ⟨-, -, -, -, -, hno⟩ := IsStateName.parts h'
      exact absurd hdot hno
    | artifact file' optional' =>
      obtain rfl : file = file' := List.append_cancel_left hname
      obtain rfl : optional = optional' := hoptional
      rfl

theorem replaceMatch_name (ctx : TemplateContext) {name : List Char} (optional : Bool) (hqn : '?' ∉ name)
    (hch : ∀ c ∈ name, isIdentBody c = true) :
    replaceMatch ctx (name ++ if optional = true then ['?'] else []) = (artifactFile name).elim
      (if isValidStateName name = true then loadVariable ctx name optional
        else .ok ('{' :: (name ++ if optional = true then ['?'] else []) ++ ['}']))
      fun file => loadArtifact ctx file optional := by
  have hspace : ∀ c ∈ name ++ (if optional = true then ['?'] else []), isWhiteSpace c = false := by
    intro c hc
    rcases List.mem_append.mp hc with hc | hc
    · have hcode := isIdentBody_code (hch c hc)
      simp only [isWhiteSpace, decide_eq_false_iff_not]
      omega
    · cases optional with
      | false => cases hc
      | true =>
        obtain rfl := List.mem_singleton.mp hc
        decide
  unfold replaceMatch
  rw [trimmed_eq hspace]
  cases optional with
  | true =>
    have hlast : (name ++ ['?']).getLast? = some '?' := by simp
    simp [hlast]
  | false =>
    have hlast : name.getLast? ≠ some '?' := fun h => hqn (List.mem_of_getLast? h)
    simp [hlast]

/-- **A content is that of one placeholder, or it is put back.** -/
theorem replaceMatch_content (ctx : TemplateContext) {content : List Char} (h : IsContent content) :
    (∃ p : Placeholder, p.Valid ∧ p.content = content ∧ replaceMatch ctx content = p.value ctx) ∨
    ((∀ p : Placeholder, p.Valid → p.content ≠ content) ∧ replaceMatch ctx content = .ok ('{' :: content ++ ['}'])) := by
  obtain ⟨name, optional, rfl, hqn, hch⟩ := h.name
  rw [replaceMatch_name ctx optional hqn hch]
  cases hfile : artifactFile name with
  | some file =>
    obtain rfl := artifactFile_eq_some.mp hfile
    exact .inl ⟨.artifact file optional, fun c hc => hch c (List.mem_append_right _ hc), rfl, rfl⟩
  | none =>
    by_cases hst : isValidStateName name = true
    · refine .inl ⟨.state name optional, isValidStateName_iff.mp hst, rfl, ?_⟩
      rw [Option.elim_none, if_pos hst]
      rfl
    · refine .inr ⟨fun p hvld heq => ?_, ?_⟩
      · obtain ⟨hsame, -⟩ := name_of_content hvld.question hqn heq
        cases p with
        | state name' optional' =>
          obtain rfl : name' = name := hsame
          exact hst (isValidStateName_iff.mpr hvld)
        | artifact file optional' =>
          rw [artifactFile_eq_some.mpr hsame.symm] at hfile
          cases hfile
      · rw [Option.elim_none, if_neg hst]

/-! ## What the scanner finds -/

/-- A byte is seen as the character in front is: either is an ASCII character, if the other is. -/
def Sees (byte : Option UInt8) (c : Option Char) : Prop :=
  ∀ d : Char, d.toNat < 128 → (byte = some (byteOf d) ↔ c = some d)

/-- A scanner passes what opens no placeholder, up to a brace that may open one and a content behind it. -/
inductive Finds : Option Char → Nat → List Char → Option (Nat × Nat) → Prop where
  | nothing (previous : Option Char) (offset : Nat) : Finds previous offset [] none
  | pass {previous : Option Char} {offset : Nat} {c : Char} {rest : List Char} {found : Option (Nat × Nat)}
      (h : ∀ p after, ¬Opens previous (c :: rest) p after) (hrest : Finds (some c) (offset + c.utf8Size) rest found) :
      Finds previous offset (c :: rest) found
  | here {previous : Option Char} {content after : List Char} (offset : Nat) (hfree : Free previous)
      (hcontent : IsContent content) :
      Finds previous offset ('{' :: (content ++ '}' :: after)) (some (offset, offset + content.length + 2))

theorem Opens.rawContent {rest : List Char}
    (h : Opens previous (c :: rest) p after) : c = '{' ∧ rawContent rest = some (p.content, after) := by
  obtain ⟨hvld, heq, -⟩ := h
  rw [Placeholder.source, List.cons_append, List.cons_append, List.append_assoc] at heq
  obtain ⟨rfl, rfl⟩ := List.cons.inj heq
  exact ⟨rfl, rawContent_eq_some.mpr ⟨rfl, hvld.isContent⟩⟩

/-- The scanner passes the bytes of a character that is not ASCII. -/
theorem findFrom_high {bytes : List UInt8} (hbyt : ∀ byte ∈ bytes, 128 ≤ byte.toNat) (hne : bytes ≠ [])
    (skipping : Bool) (previous : Option UInt8) (offset : Nat) (rest : List UInt8) :
    ∃ last, 128 ≤ last.toNat ∧
      findFrom skipping previous offset (bytes ++ rest) = findFrom false (some last) (offset + bytes.length) rest := by
  induction bytes generalizing skipping previous offset with
  | nil => exact absurd rfl hne
  | cons byte bytes ih =>
    have hbyte : byte ≠ byteOf '{' := ne_byteOf (hbyt byte List.mem_cons_self) (by decide)
    rw [List.cons_append, findFrom, if_neg hbyte]
    by_cases hlast : bytes = []
    · subst hlast
      exact ⟨byte, hbyt byte List.mem_cons_self, rfl⟩
    · obtain ⟨last, hhigh, heq⟩ := ih (fun b hb => hbyt b (List.mem_cons_of_mem _ hb)) hlast false (some byte) (offset + 1)
      refine ⟨last, hhigh, heq.trans ?_⟩
      rw [List.length_cons]
      congr 1
      omega

/-- The scanner passes a character that is no brace. -/
theorem findFrom_other (hc : c ≠ '{') (skipping : Bool) (byte : Option UInt8) (offset : Nat) (rest : List Char) :
    ∃ last, Sees (some last) (some c) ∧ findFrom skipping byte offset (utf8Bytes (c :: rest)) =
      findFrom false (some last) (offset + c.utf8Size) (utf8Bytes rest) := by
  rcases ascii_or_high c with ⟨hascii, hbyt⟩ | ⟨hhigh, hbyt⟩
  · refine ⟨byteOf c, fun d hd => ?_, ?_⟩
    · rw [Option.some_inj, Option.some_inj, byteOf_inj hascii hd]
    · have hbyte : byteOf c ≠ byteOf '{' := fun h => hc ((byteOf_inj hascii (by decide)).mp h)
      rw [utf8Bytes_cons, hbyt, List.singleton_append, findFrom, if_neg hbyte, utf8Size_of_ascii hascii]
  · obtain ⟨last, hlast, heq⟩ := findFrom_high hbyt String.utf8EncodeChar_ne_nil skipping byte offset (utf8Bytes rest)
    refine ⟨last, fun d hd => ?_, ?_⟩
    · rw [Option.some_inj, Option.some_inj]
      exact iff_of_false (ne_byteOf hlast hd) (by rintro rfl; omega)
    · rw [utf8Bytes_cons, heq, String.length_utf8EncodeChar]

/-- **What the scanner of bytes finds.** In a run of braces it skips all of them. -/
theorem findFrom_reads (text : List Char) (skipping : Bool) (byte : Option UInt8) (previous : Option Char) (offset : Nat)
    (hsees : Sees byte previous) (hskipping : text.head? = some '{' → (skipping = true ↔ previous = some '{')) :
    Finds previous offset text (findFrom skipping byte offset (utf8Bytes text)) := by
  induction text generalizing skipping byte previous offset with
  | nil => exact .nothing previous offset
  | cons c rest ih =>
    by_cases hc : c = '{'
    · subst hc
      have hsize : ('{' : Char).utf8Size = 1 := rfl
      have hbr : Sees (some (byteOf '{')) (some '{') := fun d hd => by
        rw [Option.some_inj, Option.some_inj, byteOf_inj (by decide) hd]
      have hbyt : utf8Bytes ('{' :: rest) = byteOf '{' :: utf8Bytes rest := rfl
      have hnext : (utf8Bytes rest).head? = some (byteOf '{') ↔ rest.head? = some '{' := head?_utf8Bytes (by decide)
      rw [hbyt, findFrom, if_pos rfl]
      dsimp only
      have hcond : (skipping || (decide (byte = some (byteOf '$')) || decide (byte = some (byteOf '\\'))) ||
          decide ((utf8Bytes rest).head? = some (byteOf '{'))) = true ↔
          (skipping = true ∨ previous = some '$' ∨ previous = some '\\') ∨ rest.head? = some '{' := by
        rw [Bool.or_eq_true, Bool.or_eq_true, Bool.or_eq_true, decide_eq_true_eq, decide_eq_true_eq, decide_eq_true_eq,
          hsees '$' (by decide), hsees '\\' (by decide), hnext]
      by_cases hrun : (skipping = true ∨ previous = some '$' ∨ previous = some '\\') ∨ rest.head? = some '{'
      · -- a brace of a run, or behind a character that keeps it
        rw [if_pos (hcond.mpr hrun)]
        refine .pass (fun p after hops => ?_) (hsize ▸ ih true _ (some '{') _ hbr fun _ => iff_of_true rfl rfl)
        obtain ⟨hdollar, hsl, hfrt⟩ := hops.free
        rcases hrun with (hrun | hrun | hrun) | hrun
        · exact hfrt ((hskipping rfl).mp hrun)
        · exact hdollar hrun
        · exact hsl hrun
        · obtain ⟨first, body, mark, hcont, hfst, -⟩ := hops.valid.isContent
          have heq := (rawContent_eq_some.mp hops.rawContent.2).1
          rw [hcont] at heq
          obtain rfl : first = '{' := by
            rw [heq] at hrun
            exact Option.some.inj hrun
          exact absurd hfst (by decide)
      · rw [if_neg fun h => hrun (hcond.mp h)]
        simp only [not_or] at hrun
        obtain ⟨⟨hskip, hdollar, hsl⟩, hbeside⟩ := hrun
        have hfree : Free previous := ⟨hdollar, hsl, fun hfrt => hskip ((hskipping rfl).mpr hfrt)⟩
        rw [contentLength_utf8Bytes]
        cases hcont : rawContent rest with
        | none =>
          refine .pass (fun p after hops => ?_) (hsize ▸ ih false _ (some '{') _ hbr fun h => absurd h hbeside)
          rw [hops.rawContent.2] at hcont
          cases hcont
        | some found =>
          obtain ⟨content, after⟩ := found
          obtain ⟨rfl, hpts⟩ := rawContent_eq_some.mp hcont
          exact .here offset hfree hpts
    · obtain ⟨last, hlast, heq⟩ := findFrom_other hc skipping byte offset rest
      rw [heq]
      refine .pass (fun p after hops => hc hops.rawContent.1) (ih false (some last) (some c) _ hlast fun _ => ?_)
      simp [hc]

/-! ## The pieces of a template -/

theorem Reading.literals {chars rest : List Char} (hch : '{' ∉ chars)
    (h : Reading (chars.getLast?.or previous) rest pieces) :
    Reading previous (chars ++ rest) (chars.map .literal ++ pieces) := by
  induction chars generalizing previous with
  | nil => exact h
  | cons c chars ih =>
    rw [List.mem_cons, not_or] at hch
    refine .literal (fun p after hops => hch.1 hops.rawContent.1.symm) (ih hch.2 ?_)
    rw [List.getLast?_cons] at h
    cases hlast : chars.getLast? with
    | none => rwa [hlast] at h
    | some last => rwa [hlast] at h

theorem Finds.none_reads {offset : Nat} (h : Finds previous offset text none) :
    Reading previous text (text.map .literal) := by
  generalize hfnd : (none : Option (Nat × Nat)) = found at h
  induction h with
  | nothing previous => exact .done previous
  | pass hops _ ih => exact .literal hops (ih hfnd)
  | here => cases hfnd

/-- What a scanner found, and what it passed in front of it. -/
theorem Finds.some_reads {offset : Nat} {place : Nat × Nat}
    (h : Finds previous offset text (some place)) : ∃ before content after,
      text = before ++ '{' :: (content ++ '}' :: after) ∧ IsContent content ∧
      place = (offset + byteLength before, offset + byteLength before + content.length + 2) ∧
      Free (before.getLast?.or previous) ∧
      ∀ pieces, Reading (before.getLast?.or previous) ('{' :: (content ++ '}' :: after)) pieces →
        Reading previous text (before.map .literal ++ pieces) := by
  generalize hfnd : some place = found at h
  induction h with
  | nothing => cases hfnd
  | @pass previous offset c rest found hops _ ih =>
    obtain ⟨before, content, after, rfl, hcont, hpl, hfree, hrd⟩ := ih hfnd
    have hlast : ((c :: before).getLast?.or previous) = before.getLast?.or (some c) := by
      rw [List.getLast?_cons]
      cases before.getLast? <;> rfl
    have hlen : byteLength (c :: before) = c.utf8Size + byteLength before := rfl
    refine ⟨c :: before, content, after, rfl, hcont, ?_, ?_, fun pieces hpieces => ?_⟩
    · rw [hpl, hlen, Nat.add_assoc]
    · rwa [hlast]
    · rw [hlast] at hpieces
      exact .literal hops (hrd pieces hpieces)
  | @here previous content after offset hfree hcont =>
    exact ⟨[], content, after, rfl, hcont, Option.some.inj hfnd, hfree, fun _ h => h⟩

theorem Reading.putBack {content : List Char}
    (hcont : IsContent content) (hno : ∀ p : Placeholder, p.Valid → p.content ≠ content)
    (h : Reading (some '}') after pieces) : Reading previous ('{' :: (content ++ '}' :: after))
      (('{' :: content ++ ['}']).map .literal ++ pieces) := by
  have hraw : rawContent (content ++ '}' :: after) = some (content, after) := rawContent_eq_some.mpr ⟨rfl, hcont⟩
  have hbr : '{' ∉ content ++ ['}'] := by
    intro hmem
    rcases List.mem_append.mp hmem with hmem | hmem
    · obtain ⟨name, optional, rfl, -, hch⟩ := hcont.name
      rcases List.mem_append.mp hmem with hmem | hmem
      · exact absurd (hch _ hmem) (by decide)
      · cases optional with
        | false => cases hmem
        | true => exact absurd hmem (by decide)
    · exact absurd hmem (by decide)
  have hrest : Reading (some '{') ((content ++ ['}']) ++ after) ((content ++ ['}']).map .literal ++ pieces) :=
    Reading.literals hbr (by simpa using h)
  rw [List.append_assoc] at hrest
  refine .literal (fun p behind hops => hno p hops.valid ?_) hrest
  have hfnd := hops.rawContent.2
  rw [hraw] at hfnd
  exact (congrArg Prod.fst (Option.some.inj hfnd)).symm

def render (ctx : TemplateContext) : List Piece → Except AdkError (List Char)
  | [] => .ok []
  | piece :: pieces => do
    let value ← piece.value ctx
    let rest ← render ctx pieces
    return value ++ rest

theorem render_literals (ctx : TemplateContext) (chars : List Char) (pieces : List Piece) :
    render ctx (chars.map .literal ++ pieces) = (render ctx pieces).map (chars ++ ·) := by
  induction chars with
  | nil =>
    rw [List.map_nil, List.nil_append]
    cases render ctx pieces <;> rfl
  | cons c chars ih =>
    rw [List.map_cons, List.cons_append, render, ih]
    cases render ctx pieces <;> rfl

/-! ## The loop -/

theorem slice_append (before between after : List Char) :
    slice (byteLength before) (byteLength (before ++ between)) (before ++ between ++ after) = .ok between := by
  unfold slice
  rw [splitBytes_append]
  show Except.mapError _ ((splitBytes (byteLength before) (before ++ between)).map (·.2)) = _
  rw [splitBytes_append]
  rfl

theorem drop_utf8Bytes (done rest : List Char) :
    (utf8Bytes (done ++ rest)).drop (byteLength done) = utf8Bytes rest := by
  rw [utf8Bytes_append, ← length_utf8Bytes, List.drop_left]

/-- The byte in front of the end of a placeholder is its brace. -/
theorem sees_brace (done rest : List Char) :
    Sees (if byteLength (done ++ ['}']) = 0 then none
      else (utf8Bytes (done ++ ['}'] ++ rest))[byteLength (done ++ ['}']) - 1]?) (some '}') := by
  have hlen : byteLength (done ++ ['}']) = byteLength done + 1 := byteLength_append done ['}']
  have hbyt : utf8Bytes (done ++ ['}'] ++ rest) = utf8Bytes done ++ byteOf '}' :: utf8Bytes rest := by
    rw [utf8Bytes_append, utf8Bytes_append, List.append_assoc]
    rfl
  rw [hlen, if_neg (Nat.succ_ne_zero _), Nat.add_sub_cancel, hbyt, ← length_utf8Bytes,
    List.getElem?_append_right (Nat.le_refl _), Nat.sub_self, List.getElem?_cons_zero]
  intro d hd
  rw [Option.some_inj, Option.some_inj, byteOf_inj (by decide) hd]

/-- The loop renders what is behind the last placeholder. -/
theorem injectFrom_reads (ctx : TemplateContext) (fuel : Nat) (done rest result : List Char) (previous : Option Char)
    (hfuel : rest.length < fuel) (hprevious : previous ≠ some '{')
    (hsees : Sees (if byteLength done = 0 then none else (utf8Bytes (done ++ rest))[byteLength done - 1]?) previous) :
    ∃ pieces, Reading previous rest pieces ∧ injectFrom ctx (done ++ rest) fuel (byteLength done) result =
      ((render ctx pieces).map (result ++ ·)).mapError .error := by
  induction fuel generalizing done rest result previous with
  | zero => omega
  | succ fuel ih =>
    have hfinds := findFrom_reads rest false _ previous (byteLength done) hsees
      fun _ => iff_of_false Bool.false_ne_true hprevious
    unfold injectFrom findNextPlaceholder
    rw [drop_utf8Bytes]
    cases hfnd : findFrom false (if byteLength done = 0 then none
        else (utf8Bytes (done ++ rest))[byteLength done - 1]?) (byteLength done) (utf8Bytes rest) with
    | none =>
      rw [hfnd] at hfinds
      have hslice := slice_append done rest []
      rw [List.append_nil] at hslice
      have hrender := render_literals ctx rest []
      rw [List.append_nil] at hrender
      refine ⟨_, hfinds.none_reads, ?_⟩
      rw [Option.elim_none, hslice, hrender, render]
      show Except.ok (result ++ rest) = Except.ok (result ++ (rest ++ []))
      rw [List.append_nil]
    | some place =>
      rw [hfnd] at hfinds
      obtain ⟨before, content, after, rfl, hcont, rfl, hfree, hrd⟩ := hfinds.some_reads
      have hcontentLength : byteLength content = content.length := byteLength_of_ascii (isContent_ascii hcont)
      have htemplate : done ++ (before ++ '{' :: (content ++ '}' :: after)) =
          done ++ before ++ '{' :: content ++ ['}'] ++ after := by simp
      have hend : byteLength done + byteLength before + content.length + 2 =
          byteLength (done ++ before ++ '{' :: content ++ ['}']) := by
        have hbraces : byteLength ('{' :: content) = 1 + byteLength content := rfl
        have hclosing : byteLength ['}'] = 1 := rfl
        rw [byteLength_append, byteLength_append, byteLength_append, hbraces, hclosing, hcontentLength]
        omega
      have hslice : slice (byteLength done + byteLength before + 1)
          (byteLength done + byteLength before + content.length + 2 - 1)
          (done ++ (before ++ '{' :: (content ++ '}' :: after))) = .ok content := by
        have hcut := slice_append (done ++ before ++ ['{']) content ('}' :: after)
        have hbr : byteLength ['{'] = 1 := rfl
        rw [byteLength_append, byteLength_append, byteLength_append, byteLength_append, byteLength_append, hbr,
          hcontentLength] at hcut
        convert hcut using 2
        · omega
        · simp
      have hbetween : slice (byteLength done) (byteLength done + byteLength before)
          (done ++ (before ++ '{' :: (content ++ '}' :: after))) = .ok before := by
        have hcut := slice_append done before ('{' :: (content ++ '}' :: after))
        rwa [byteLength_append, List.append_assoc] at hcut
      have hnext (result : List Char) : ∃ pieces, Reading (some '}') after pieces ∧
          injectFrom ctx (done ++ (before ++ '{' :: (content ++ '}' :: after))) fuel
            (byteLength done + byteLength before + content.length + 2) result =
          ((render ctx pieces).map (result ++ ·)).mapError .error := by
        have hlen : after.length < fuel := by
          simp only [List.length_append, List.length_cons] at hfuel
          omega
        rw [htemplate, hend]
        exact ih (done ++ before ++ '{' :: content ++ ['}']) after result (some '}') hlen (by simp)
          (sees_brace (done ++ before ++ '{' :: content) after)
      rw [Option.elim_some]
      dsimp only
      rw [hslice, hbetween]
      show ∃ pieces, _ ∧ ((replaceMatch ctx content).mapError TemplateStop.error >>= fun replacement =>
        injectFrom ctx _ fuel _ (result ++ before ++ replacement)) = _
      rcases replaceMatch_content ctx hcont with ⟨p, hvld, rfl, hval⟩ | ⟨hno, hput⟩
      · have hops : Opens (before.getLast?.or previous) ('{' :: (p.content ++ '}' :: after)) p after :=
          ⟨hvld, by simp [Placeholder.source], hfree⟩
        cases hp : p.value ctx with
        | error e =>
          obtain ⟨pieces, hpieces, -⟩ := hnext []
          refine ⟨_, hrd _ (.placeholder hops hpieces), ?_⟩
          rw [render_literals, render, Piece.value, hval, hp]
          rfl
        | ok text =>
          obtain ⟨pieces, hpieces, hrun⟩ := hnext (result ++ before ++ text)
          refine ⟨_, hrd _ (.placeholder hops hpieces), ?_⟩
          rw [render_literals, render, Piece.value, hval, hp]
          refine hrun.trans ?_
          cases render ctx pieces with
          | error e => rfl
          | ok rest =>
            show Except.ok (result ++ before ++ text ++ rest) = Except.ok (result ++ (before ++ (text ++ rest)))
            simp
      · obtain ⟨pieces, hpieces, hrun⟩ := hnext (result ++ before ++ ('{' :: content ++ ['}']))
        refine ⟨_, hrd _ (.putBack hcont hno hpieces), ?_⟩
        rw [render_literals, render_literals, hput]
        refine hrun.trans ?_
        cases render ctx pieces with
        | error e => rfl
        | ok rest =>
          show Except.ok (result ++ before ++ ('{' :: content ++ ['}']) ++ rest) =
            Except.ok (result ++ (before ++ ('{' :: content ++ ['}'] ++ rest)))
          simp

/-! ## Every placeholder, once -/

theorem Opens.unique {after' : List Char} {p' : Placeholder}
    (h : Opens previous text p after) (h' : Opens previous text p' after') : p = p' ∧ after = after' := by
  obtain ⟨c, rest, rfl⟩ : ∃ c rest, text = c :: rest := ⟨_, _, h.text_eq⟩
  have hraw := h.rawContent.2
  rw [h'.rawContent.2] at hraw
  obtain ⟨hcont, haft⟩ := Prod.mk.inj (Option.some.inj hraw)
  exact ⟨h.valid.eq h'.valid hcont.symm, haft.symm⟩

theorem Reading.unique {pieces' : List Piece}
    (h : Reading previous text pieces) (h' : Reading previous text pieces') : pieces = pieces' := by
  induction h generalizing pieces' with
  | done =>
    cases h' with
    | done => rfl
    | placeholder hops _ => cases hops.text_eq
  | literal hno _ ih =>
    cases h' with
    | literal _ hrest => rw [ih hrest]
    | placeholder hops _ => exact absurd hops (hno _ _)
  | placeholder hops _ ih =>
    cases h' with
    | done => cases hops.text_eq
    | literal hno _ => exact absurd hops (hno _ _)
    | placeholder hops' hrest =>
      obtain ⟨rfl, rfl⟩ := hops.unique hops'
      rw [ih hrest]

/-- The placeholders of a template are of the grammar. -/
theorem Reading.valid (h : Reading previous text pieces) (hp : .placeholder p ∈ pieces) : p.Valid := by
  induction h with
  | done => cases hp
  | literal _ _ ih =>
    rcases List.mem_cons.mp hp with heq | hp
    · cases heq
    · exact ih hp
  | placeholder hops _ ih =>
    rcases List.mem_cons.mp hp with heq | hp
    · obtain rfl := Piece.placeholder.inj heq
      exact hops.valid
    · exact ih hp

/-- A placeholder that a call fails for. An optional artifact needs a service and the name of a file too. -/
def Placeholder.Fails (ctx : TemplateContext) : Placeholder → Prop
  | state name optional => optional = false ∧ ctx.state (String.ofList name) = none
  | artifact file optional => file = [] ∨ ['.', '.'] <:+: file ∨
      ∀ load, ctx.artifacts = some load → optional = false ∧ ∃ e, load (String.ofList file) = .error e

def Placeholder.shown (ctx : TemplateContext) : Placeholder → List Char
  | state name _ => ((ctx.state (String.ofList name)).map (valueText ctx)).getD []
  | artifact file _ => ctx.artifacts.elim [] fun load =>
      (((load (String.ofList file)).toOption.bind (·.asText)).map String.toList).getD []

def Piece.shown (ctx : TemplateContext) : Piece → List Char
  | literal c => [c]
  | placeholder p => p.shown ctx

/-- **The value of a placeholder.** -/
theorem Placeholder.Valid.value_eq (h : p.Valid) (ctx : TemplateContext) :
    (p.Fails ctx ∧ ∃ e, p.value ctx = .error e) ∨ (¬p.Fails ctx ∧ p.value ctx = .ok (p.shown ctx)) := by
  cases p with
  | state name optional =>
    show ((optional = false ∧ ctx.state (String.ofList name) = none) ∧ ∃ e, loadVariable ctx name optional = .error e) ∨
      (¬(optional = false ∧ ctx.state (String.ofList name) = none) ∧ loadVariable ctx name optional =
        .ok (((ctx.state (String.ofList name)).map (valueText ctx)).getD []))
    unfold loadVariable
    cases ctx.state (String.ofList name) with
    | some value => exact .inr ⟨fun h => (nomatch h.2), rfl⟩
    | none =>
      cases optional with
      | true => exact .inr ⟨fun h => (nomatch h.1), rfl⟩
      | false => exact .inl ⟨⟨rfl, rfl⟩, _, rfl⟩
  | artifact file optional =>
    have hsl : '/' ∉ file := fun hmem => absurd (h _ hmem) (by decide)
    have hback : '\\' ∉ file := fun hmem => absurd (h _ hmem) (by decide)
    show (_ ∧ ∃ e, loadArtifact ctx file optional = .error e) ∨ (_ ∧ loadArtifact ctx file optional =
      .ok (ctx.artifacts.elim [] fun load =>
        (((load (String.ofList file)).toOption.bind (·.asText)).map String.toList).getD []))
    simp only [Placeholder.Fails]
    unfold loadArtifact
    by_cases hemp : file = []
    · rw [if_pos hemp]
      exact .inl ⟨.inl hemp, _, rfl⟩
    · rw [if_neg hemp]
      by_cases hdots : ['.', '.'] <:+: file
      · rw [if_pos (.inl hdots)]
        exact .inl ⟨.inr (.inl hdots), _, rfl⟩
      · rw [if_neg (by simp [hdots, hsl, hback])]
        cases hart : ctx.artifacts with
        | none => exact .inl ⟨.inr (.inr fun load hload => (nomatch hload)), _, rfl⟩
        | some load =>
          simp only [hemp, hdots, false_or, Option.some_inj, forall_eq', Option.elim_some]
          cases load (String.ofList file) with
          | ok part => exact .inr ⟨fun h => (nomatch h.2), rfl⟩
          | error e =>
            cases optional with
            | true => exact .inr ⟨fun h => (nomatch h.1), rfl⟩
            | false => exact .inl ⟨⟨rfl, e, rfl⟩, _, rfl⟩

theorem render_eq (ctx : TemplateContext) (hvld : ∀ p, .placeholder p ∈ pieces → p.Valid) :
    ((∃ p, .placeholder p ∈ pieces ∧ p.Fails ctx) ∧ ∃ e, render ctx pieces = .error e) ∨
    ((∀ p, .placeholder p ∈ pieces → ¬p.Fails ctx) ∧ render ctx pieces = .ok (pieces.flatMap (·.shown ctx))) := by
  induction pieces with
  | nil => exact .inr ⟨fun p hp => (nomatch hp), rfl⟩
  | cons piece pieces ih =>
    have hpiece : ((∃ p, piece = .placeholder p ∧ p.Fails ctx) ∧ ∃ e, piece.value ctx = .error e) ∨
        ((∀ p, piece = .placeholder p → ¬p.Fails ctx) ∧ piece.value ctx = .ok (piece.shown ctx)) := by
      cases piece with
      | literal c => exact .inr ⟨fun p hp => (nomatch hp), rfl⟩
      | placeholder p =>
        rcases (hvld p List.mem_cons_self).value_eq ctx with ⟨hfls, e, hval⟩ | ⟨hhol, hval⟩
        · exact .inl ⟨⟨p, rfl, hfls⟩, e, hval⟩
        · refine .inr ⟨fun p' hp' => ?_, hval⟩
          obtain rfl := Piece.placeholder.inj hp'
          exact hhol
    rcases hpiece with ⟨⟨p, rfl, hfls⟩, e, hval⟩ | ⟨hhol, hval⟩
    · refine .inl ⟨⟨p, List.mem_cons_self, hfls⟩, e, ?_⟩
      rw [render, hval]
      rfl
    · rcases ih fun p hp => hvld p (List.mem_cons_of_mem _ hp) with ⟨⟨p, hp, hfls⟩, e, hrender⟩ | ⟨hrest, hrender⟩
      · refine .inl ⟨⟨p, List.mem_cons_of_mem _ hp, hfls⟩, e, ?_⟩
        rw [render, hval, hrender]
        rfl
      · refine .inr ⟨fun p hp => ?_, ?_⟩
        · rcases List.mem_cons.mp hp with heq | hp
          · exact hhol p heq.symm
          · exact hrest p hp
        · rw [render, hval, hrender, List.flatMap_cons]
          rfl

theorem injectSessionState_renders (ctx : TemplateContext) (template : List Char) : ∃ pieces,
    Reading none template pieces ∧ injectSessionState ctx template = (render ctx pieces).mapError .error := by
  obtain ⟨pieces, hrd, hrun⟩ := injectFrom_reads ctx (template.length + 1) [] template [] none (Nat.lt_succ_self _)
    (by simp) (fun d _ => by simp [byteLength])
  refine ⟨pieces, hrd, hrun.trans ?_⟩
  cases render ctx pieces <;> rfl

/-- **A template is filled at its placeholders, once.** Every template has one reading. Where no placeholder of it fails,
the result is the template with what is shown of each in its place and nothing else touched; else the call fails, and it
fails in no other way. -/
theorem injectSessionState_reads (ctx : TemplateContext) (template : List Char) :
    ∃ pieces, Reading none template pieces ∧ (∀ pieces', Reading none template pieces' → pieces' = pieces) ∧
      pieces.flatMap (·.source) = template ∧
      ((∀ p, .placeholder p ∈ pieces → ¬p.Fails ctx) →
        injectSessionState ctx template = .ok (pieces.flatMap (·.shown ctx))) ∧
      ((∃ stop, injectSessionState ctx template = .error stop) ↔ ∃ p, .placeholder p ∈ pieces ∧ p.Fails ctx) ∧
      ∀ stop, injectSessionState ctx template = .error stop → ∃ e, stop = .error e := by
  obtain ⟨pieces, hreads, hinject⟩ := injectSessionState_renders ctx template
  refine ⟨pieces, hreads, fun pieces' h => h.unique hreads, hreads.source, ?_⟩
  rw [hinject]
  rcases render_eq ctx fun p => hreads.valid with ⟨⟨p, hp, hfails⟩, e, hrender⟩ | ⟨hholds, hrender⟩
  · rw [hrender]
    refine ⟨fun hno => absurd hfails (hno p hp), iff_of_true ⟨_, rfl⟩ ⟨p, hp, hfails⟩, fun stop h => ?_⟩
    exact ⟨e, (Except.error.inj h).symm⟩
  · rw [hrender]
    refine ⟨fun _ => rfl, iff_of_false ?_ ?_, ?_⟩
    · rintro ⟨stop, h⟩
      cases h
    · rintro ⟨p, hp, hfails⟩
      exact hholds p hp hfails
    · rintro stop h
      cases h

/-- A call fails for an artifact that is optional, where there is no service for artifacts. -/
theorem not_fails_only_for_required : ¬∀ (ctx : TemplateContext) (template : List Char) (pieces : List Piece),
    Reading none template pieces → ((∃ stop, injectSessionState ctx template = .error stop) ↔
      ∃ p, .placeholder p ∈ pieces ∧ p.isOptional = false ∧ ∃ e, p.value ctx = .error e) := by
  intro h
  let ctx : TemplateContext := { state := fun _ => none, artifacts := none, display := fun _ => "" }
  have hreading : Reading none "{artifact.x?}".toList [.placeholder (.artifact ['x'] true)] :=
    .placeholder ⟨List.forall_mem_singleton.mpr (by decide), rfl, by simp [Free]⟩ (.done _)
  obtain ⟨pieces, hreads, hrun⟩ := injectSessionState_renders ctx "{artifact.x?}".toList
  obtain rfl := hreads.unique hreading
  obtain ⟨p, hp, hoptional, -⟩ := (h ctx _ _ hreading).mp ⟨_, hrun⟩
  obtain rfl := Piece.placeholder.inj (List.mem_singleton.mp hp)
  cases hoptional

end InstructionTemplate

end Adk
