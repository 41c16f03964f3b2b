import Mathlib.Algebra.Order.BigOperators.Group.List
import Mathlib.Algebra.Order.Ring.Nat
import Mathlib.Data.List.Basic
import Mathlib.Data.List.TakeWhile

/-!
# Texts and numbers

Texts that are put together from parts, and how the parts are found again.

* `append_cons_inj`: a text splits in one way at the last of its separators.
* `toDigits_inj`, `pad_inj`: the digits of a number tell the number.
* `longerThan`: a text that is none of some texts.
* `startsWith`: a text begins with another.
* `trimmed`, `splitOnce`: a text without the white space around it, and one that is cut at a pattern.
* `cutAt`, `rsplitOnce`: a text that is cut before the first character of a kind, or at the last of one.
* `flatMap_inj`: a text is told from the codes of its characters.
* `readI64_intText`: an integer is read back from its text.
-/

namespace Adk

/-- White space (Unicode `White_Space`). -/
def isWhiteSpace (c : Char) : Bool :=
  (9 ≤ c.toNat ∧ c.toNat ≤ 13) ∨ c.toNat = 0x20 ∨ c.toNat = 0x85 ∨ c.toNat = 0xa0 ∨ c.toNat = 0x1680 ∨
  (0x2000 ≤ c.toNat ∧ c.toNat ≤ 0x200a) ∨ c.toNat = 0x2028 ∨ c.toNat = 0x2029 ∨ c.toNat = 0x202f ∨
  c.toNat = 0x205f ∨ c.toNat = 0x3000

/-- Whether a text trims to nothing. -/
def isBlank (text : String) : Bool := text.toList.all isWhiteSpace

/-- A text without the white space around it. -/
def trimmed (text : List Char) : List Char :=
  ((text.dropWhile isWhiteSpace).reverse.dropWhile isWhiteSpace).reverse

variable {text before after : List Char} {n : Nat} {c : Char} {p : Char → Bool}

theorem trimmed_eq (h : ∀ c ∈ text, isWhiteSpace c = false) : trimmed text = text := by
  have hdrop : ∀ chars : List Char, (∀ c ∈ chars, isWhiteSpace c = false) → chars.dropWhile isWhiteSpace = chars := by
    intro chars hch
    cases chars with
    | nil => rfl
    | cons c chars =>
      apply List.dropWhile_cons_of_neg
      rw [hch c List.mem_cons_self]
      exact Bool.false_ne_true
  unfold trimmed
  rw [hdrop text h, hdrop text.reverse fun c hc => h c (List.mem_reverse.mp hc), List.reverse_reverse]

/-- The words of a text (`str::split_whitespace`). -/
def wordsFrom : List Char → List Char → List (List Char)
  | word, [] => if word = [] then [] else [word]
  | word, c :: rest =>
    if isWhiteSpace c then if word = [] then wordsFrom [] rest else word :: wordsFrom [] rest
    else wordsFrom (word ++ [c]) rest

def splitWhitespace (text : List Char) : List (List Char) := wordsFrom [] text

/-- What is before and after the first place of a pattern. -/
def splitOnce (pattern : List Char) : List Char → Option (List Char × List Char)
  | [] => none
  | c :: rest =>
    if pattern.isPrefixOf (c :: rest) then some ([], (c :: rest).drop pattern.length)
    else (splitOnce pattern rest).map fun (before, after) => (c :: before, after)

theorem splitOnce_eq {pattern : List Char} (h : splitOnce pattern text = some (before, after)) :
    text = before ++ pattern ++ after := by
  induction text generalizing before with
  | nil => cases h
  | cons c rest ih =>
    unfold splitOnce at h
    split at h
    next hpre =>
      obtain ⟨rfl, rfl⟩ := Prod.mk.inj (Option.some.inj h)
      obtain ⟨after, haft⟩ := List.isPrefixOf_iff_prefix.mp hpre
      rw [← haft, List.drop_left]
      rfl
    next =>
      obtain ⟨⟨before', after'⟩, hsp, heq⟩ := Option.map_eq_some_iff.mp h
      obtain ⟨rfl, rfl⟩ := Prod.mk.inj heq
      rw [ih hsp]
      rfl

/-- Whether a text begins with another. -/
def startsWith (text start : String) : Bool := start.toList.isPrefixOf text.toList

theorem startsWith_iff {text start : String} : startsWith text start = true ↔ ∃ rest, text = start ++ rest := by
  unfold startsWith
  rw [List.isPrefixOf_iff_prefix]
  constructor
  · rintro ⟨rest, hrest⟩
    refine ⟨String.ofList rest, ?_⟩
    apply String.toList_injective
    rw [String.toList_append, String.toList_ofList, hrest]
  · rintro ⟨rest, rfl⟩
    exact ⟨rest.toList, (String.toList_append ..).symm⟩

/-- What follows the beginning of a text. -/
def stripPrefix (start text : String) : Option String :=
  if startsWith text start then some (String.ofList (text.toList.drop start.toList.length)) else none

theorem stripPrefix_eq_some {start text rest : String} : stripPrefix start text = some rest ↔ text = start ++ rest := by
  unfold stripPrefix
  constructor
  · intro h
    split at h
    next hsta =>
      obtain ⟨rest', rfl⟩ := startsWith_iff.mp hsta
      obtain rfl := Option.some.inj h
      rw [String.toList_append, List.drop_left, String.ofList_toList]
    next => cases h
  · rintro rfl
    rw [if_pos (startsWith_iff.mpr ⟨rest, rfl⟩), String.toList_append, List.drop_left, String.ofList_toList]

def longerThan (texts : List String) : String :=
  String.ofList (List.replicate ((texts.map String.length).sum + 1) 'r')

theorem longerThan_notMem (texts : List String) : longerThan texts ∉ texts := by
  intro hmem
  have hle := List.single_le_sum (fun _ _ => Nat.zero_le _) _ (List.mem_map_of_mem (f := String.length) hmem)
  have hlen : (longerThan texts).length = (texts.map String.length).sum + 1 := by
    unfold longerThan
    rw [String.length_ofList, List.length_replicate]
  omega

/-- A list splits in one way at the last of its separators. -/
theorem append_cons_inj {α : Type} {a : α} {xs ys xs' ys' : List α} (hx : a ∉ ys) (hy : a ∉ ys')
    (h : xs ++ a :: ys = xs' ++ a :: ys') : xs = xs' ∧ ys = ys' := by
  rcases List.append_eq_append_iff.mp h with ⟨zs, rfl, hz⟩ | ⟨zs, rfl, hz⟩
  · cases zs with
    | nil => simpa using hz
    | cons z zs =>
      obtain ⟨-, rfl⟩ := List.cons_eq_cons.mp hz
      simp at hx
  · cases zs with
    | nil => simpa [eq_comm] using hz
    | cons z zs =>
      obtain ⟨-, rfl⟩ := List.cons_eq_cons.mp hz
      simp at hy

theorem toDigits_inj {m : Nat} (h : Nat.toDigits 10 m = Nat.toDigits 10 n) : m = n := by
  rw [← @Nat.ofDigitChars_ten_toDigits m, h, Nat.ofDigitChars_ten_toDigits]

theorem not_mem_toDigits (hc : c.isDigit = false) : c ∉ Nat.toDigits 10 n := by
  intro h
  rw [Nat.isDigit_of_mem_toDigits (by omega) (by omega) h] at hc
  cases hc

/-- The last digits of a number, so many of them. -/
def pad : Nat → Nat → List Char
  | 0, _ => []
  | width + 1, n => pad width (n / 10) ++ [Nat.digitChar (n % 10)]

@[simp] theorem length_pad (width : Nat) : ∀ n, (pad width n).length = width := by
  induction width with
  | zero => simp [pad]
  | succ width ih => simp [pad, ih]

theorem ofDigitChars_pad (width : Nat) : ∀ n, Nat.ofDigitChars 10 (pad width n) 0 = n % 10 ^ width := by
  induction width with
  | zero => simp [pad, Nat.mod_one]
  | succ width ih =>
    intro n
    rw [pad, Nat.ofDigitChars_append, ih, Nat.ofDigitChars_cons_digitChar_of_lt_ten (Nat.mod_lt _ (by omega)),
      Nat.ofDigitChars_nil, Nat.pow_succ, Nat.mul_comm (10 ^ width), Nat.mod_mul]
    omega

/-- Digits of one width tell a number that fits. -/
theorem pad_inj {width m : Nat} (hm : m < 10 ^ width) (hn : n < 10 ^ width) (h : pad width m = pad width n) :
    m = n := by
  rw [← Nat.mod_eq_of_lt hm, ← ofDigitChars_pad, h, ofDigitChars_pad, Nat.mod_eq_of_lt hn]

theorem not_mem_pad {width : Nat} (hc : c.isDigit = false) : ∀ n, c ∉ pad width n := by
  induction width with
  | zero => simp [pad]
  | succ width ih =>
    intro n hmem
    rw [pad, List.mem_append, List.mem_singleton] at hmem
    rcases hmem with hmem | rfl
    · exact ih _ hmem
    · rw [Nat.isDigit_digitChar] at hc
      have := Nat.mod_lt n (by omega : 10 > 0)
      simp [this] at hc

/-! ## Integers -/

def intText : Int → List Char
  | .ofNat n => Nat.toDigits 10 n
  | .negSucc n => '-' :: Nat.toDigits 10 (n + 1)

def parseDigits (text : List Char) : Option Nat :=
  if text ≠ [] ∧ text.all Char.isDigit then some (Nat.ofDigitChars 10 text 0) else none

/-- An integer that fits 64 bits, with or without a sign (`parse::<i64>`). -/
def readI64 (text : List Char) : Option Int :=
  let value : Option Int := match text with
    | '-' :: digits => (parseDigits digits).map fun n => -n
    | '+' :: digits => (parseDigits digits).map fun n => n
    | digits => (parseDigits digits).map fun n => n
  value.filter fun n => -9223372036854775808 ≤ n && n ≤ 9223372036854775807

theorem parseDigits_toDigits (n : Nat) : parseDigits (Nat.toDigits 10 n) = some n := by
  unfold parseDigits
  rw [if_pos, Nat.ofDigitChars_ten_toDigits]
  refine ⟨Nat.toDigits_ne_nil, List.all_eq_true.mpr fun c hc => ?_⟩
  exact Nat.isDigit_of_mem_toDigits (by omega) (by omega) hc

theorem readI64_intText {n : Int} (hmin : -9223372036854775808 ≤ n) (hmax : n ≤ 9223372036854775807) :
    readI64 (intText n) = some n := by
  have hvl : (match intText n with
      | '-' :: digits => (parseDigits digits).map fun n => -(n : Int)
      | '+' :: digits => (parseDigits digits).map fun n => (n : Int)
      | digits => (parseDigits digits).map fun n => (n : Int)) = some n := by
    cases n with
    | negSucc n =>
      simp only [intText, parseDigits_toDigits]
      rfl
    | ofNat n =>
      have hdig : ∀ c ∈ Nat.toDigits 10 n, c.isDigit = true := fun c hc =>
        Nat.isDigit_of_mem_toDigits (by omega) (by omega) hc
      have hpar := parseDigits_toDigits n
      simp only [intText]
      generalize Nat.toDigits 10 n = digits at hdig hpar
      split
      · exact absurd (hdig '-' List.mem_cons_self) (by decide)
      · exact absurd (hdig '+' List.mem_cons_self) (by decide)
      · simp [hpar]
  unfold readI64
  rw [hvl]
  simp [hmin, hmax]

theorem not_mem_intText {n : Int} (hc : c.isDigit = false) (hminus : c ≠ '-') : c ∉ intText n := by
  cases n with
  | ofNat n => exact not_mem_toDigits hc
  | negSucc n =>
    intro hmem
    rcases List.mem_cons.mp hmem with rfl | hmem
    · exact hminus rfl
    · exact not_mem_toDigits hc hmem

/-- A text is cut at the first place of a pattern, whose first character does not stand before. -/
theorem splitOnce_append_pattern (pattern after : List Char) (h : c ∉ before) :
    splitOnce (c :: pattern) (before ++ (c :: pattern ++ after)) = some (before, after) := by
  induction before with
  | nil =>
    have hsta : (c :: pattern).isPrefixOf (c :: (pattern ++ after)) = true :=
      List.isPrefixOf_iff_prefix.mpr ⟨after, rfl⟩
    rw [List.nil_append, List.cons_append, splitOnce, if_pos hsta, ← List.cons_append, List.drop_left]
  | cons d before ih =>
    obtain ⟨hne, hmem⟩ := not_or.mp (mt List.mem_cons.mpr h)
    have hsta : (c :: pattern).isPrefixOf (d :: (before ++ (c :: pattern ++ after))) = false := by
      simp [List.isPrefixOf, hne]
    rw [List.cons_append, splitOnce, hsta, ih hmem]
    rfl

/-- A text is cut at the first of its separators. -/
theorem splitOnce_append (after : List Char) (h : c ∉ before) :
    splitOnce [c] (before ++ c :: after) = some (before, after) := splitOnce_append_pattern [] after h

/-! ## Cuts -/

/-- What is before the first character of a kind, and the rest from there on. -/
def cutAt (p : Char → Bool) (text : List Char) : List Char × List Char := (text.takeWhile (!p ·), text.dropWhile (!p ·))

theorem cutAt_append_eq (h : cutAt p text = (before, after)) :
    text = before ++ after := by
  obtain ⟨rfl, rfl⟩ := Prod.mk.inj h
  exact List.takeWhile_append_dropWhile.symm

theorem cutAt_before (h : cutAt p text = (before, after)) :
    ∀ c ∈ before, p c = false := by
  obtain ⟨rfl, rfl⟩ := Prod.mk.inj h
  intro c hc
  simpa using List.mem_takeWhile_imp hc

/-- The rest is empty or starts with a character of that kind. -/
theorem cutAt_after (h : cutAt p text = (before, after)) :
    after = [] ∨ ∃ c rest, after = c :: rest ∧ p c = true := by
  obtain ⟨rfl, rfl⟩ := Prod.mk.inj h
  cases haft : text.dropWhile (!p ·) with
  | nil => exact .inl rfl
  | cons c rest =>
    refine .inr ⟨c, rest, rfl, ?_⟩
    have hhead := List.head?_dropWhile_not (fun c => !p c) text
    rw [haft] at hhead
    simpa using hhead

theorem cutAt_append (hbef : ∀ c ∈ before, p c = false)
    (haft : after = [] ∨ ∃ c rest, after = c :: rest ∧ p c = true) : cutAt p (before ++ after) = (before, after) := by
  have hall : ∀ c ∈ before, (!p c) = true := fun c hc => by rw [hbef c hc]; rfl
  unfold cutAt
  rw [List.takeWhile_append_of_pos hall, List.dropWhile_append_of_pos hall]
  rcases haft with rfl | ⟨c, rest, rfl, hc⟩
  · simp
  · simp [hc]

/-- What is before and after the last place of a character. -/
def rsplitOnce (c : Char) (text : List Char) : Option (List Char × List Char) :=
  (splitOnce [c] text.reverse).map fun (after, before) => (before.reverse, after.reverse)

theorem splitOnce_of_notMem (h : c ∉ text) : splitOnce [c] text = none := by
  induction text with
  | nil => rfl
  | cons d text ih =>
    obtain ⟨hne, hmem⟩ := not_or.mp (mt List.mem_cons.mpr h)
    have hsta : [c].isPrefixOf (d :: text) = false := by simp [List.isPrefixOf, hne]
    rw [splitOnce, hsta, ih hmem]
    rfl

theorem notMem_of_splitOnce (h : splitOnce [c] text = none) : c ∉ text := by
  intro hmem
  obtain ⟨before, after, htext, hbef⟩ := List.eq_append_cons_of_mem hmem
  rw [htext, splitOnce_append _ hbef] at h
  cases h

/-- What is before the first place of a character does not hold it. -/
theorem splitOnce_before (h : splitOnce [c] text = some (before, after)) :
    c ∉ before := by
  have hmem : c ∈ text := by
    rw [splitOnce_eq h]
    simp
  obtain ⟨before', after', htext, hbef⟩ := List.eq_append_cons_of_mem hmem
  rw [htext, splitOnce_append _ hbef] at h
  obtain ⟨rfl, -⟩ := Prod.mk.inj (Option.some.inj h)
  exact hbef

theorem rsplitOnce_of_notMem (h : c ∉ text) : rsplitOnce c text = none := by
  unfold rsplitOnce
  rw [splitOnce_of_notMem (mt List.mem_reverse.mp h)]
  rfl

/-- A text is cut at the last of its separators. -/
theorem rsplitOnce_append (before : List Char) (h : c ∉ after) :
    rsplitOnce c (before ++ c :: after) = some (before, after) := by
  have hreverse : (before ++ c :: after).reverse = after.reverse ++ c :: before.reverse := by simp
  unfold rsplitOnce
  rw [hreverse, splitOnce_append _ (mt List.mem_reverse.mp h)]
  simp

theorem rsplitOnce_eq (h : rsplitOnce c text = some (before, after)) :
    text = before ++ c :: after := by
  obtain ⟨⟨after', before'⟩, hsp, heq⟩ := Option.map_eq_some_iff.mp h
  obtain ⟨rfl, rfl⟩ := Prod.mk.inj heq
  have htext := splitOnce_eq hsp
  rw [← List.reverse_reverse text, htext]
  simp

/-! ## Bytes -/

def byteLength (text : List Char) : Nat := (text.map Char.utf8Size).sum

theorem utf8Size_of_ascii (h : c.toNat < 128) : c.utf8Size = 1 := by
  unfold Char.utf8Size
  rw [if_pos]
  rw [UInt32.le_iff_toNat_le]
  have hval : c.val.toNat = c.toNat := rfl
  have h127 : (UInt32.ofNatLT 127 (by decide)).toNat = 127 := rfl
  omega

theorem byteLength_of_ascii (h : ∀ c ∈ text, c.toNat < 128) : byteLength text = text.length := by
  induction text with
  | nil => rfl
  | cons c text ih =>
    have hrest := ih fun d hd => h d (List.mem_cons_of_mem _ hd)
    have hsize := utf8Size_of_ascii (h c List.mem_cons_self)
    unfold byteLength at hrest ⊢
    rw [List.map_cons, List.sum_cons, hrest, hsize, List.length_cons]
    omega

theorem byteLength_of_digits (h : ∀ c ∈ text, c.isDigit = true) : byteLength text = text.length := by
  apply byteLength_of_ascii
  intro c hc
  have hdgt := h c hc
  simp only [Char.isDigit, Bool.and_eq_true, decide_eq_true_eq, UInt32.le_iff_toNat_le, ge_iff_le] at hdgt
  have hval : c.val.toNat = c.toNat := rfl
  have h9 : '9'.val.toNat = 57 := rfl
  omega

theorem utf8ByteSize_ofList (text : List Char) : (String.ofList text).utf8ByteSize = byteLength text := by
  induction text with
  | nil => rfl
  | cons c text ih =>
    have hcons : String.ofList (c :: text) = String.singleton c ++ String.ofList text := by simp [← String.toList_inj]
    rw [hcons, String.utf8ByteSize_append, String.utf8ByteSize_singleton, ih]
    rfl

/-! ## Codes -/

/-- Texts are told from their codes, if no code of a character begins with another's. -/
theorem flatMap_inj {α β : Type} {code : α → List β} (hne : ∀ c, code c ≠ [])
    (hcode : ∀ c d rest, code c ++ rest = code d → c = d) : Function.Injective (List.flatMap code) := by
  intro xs
  induction xs with
  | nil =>
    intro ys h
    cases ys with
    | nil => rfl
    | cons d ys =>
      rw [List.flatMap_nil, List.flatMap_cons, eq_comm, List.append_eq_nil_iff] at h
      exact absurd h.1 (hne d)
  | cons c xs ih =>
    intro ys h
    cases ys with
    | nil =>
      rw [List.flatMap_nil, List.flatMap_cons, List.append_eq_nil_iff] at h
      exact absurd h.1 (hne c)
    | cons d ys =>
      rw [List.flatMap_cons, List.flatMap_cons] at h
      obtain rfl : c = d := by
        rcases List.append_eq_append_iff.mp h with ⟨rest, hd, -⟩ | ⟨rest, hc, -⟩
        · exact hcode c d rest hd.symm
        · exact (hcode d c rest hc.symm).symm
      rw [ih (List.append_cancel_left h)]

/-- The parts of two lines are the same. -/
theorem append_inj_of_line {x y s t : List Char} (hx : '\n' ∉ x) (hy : '\n' ∉ y)
    (hs : s = [] ∨ ∃ rest, s = '\n' :: rest) (ht : t = [] ∨ ∃ rest, t = '\n' :: rest) (h : x ++ s = y ++ t) :
    x = y ∧ s = t := by
  have hcut : ∀ {before after : List Char}, '\n' ∉ before → (after = [] ∨ ∃ rest, after = '\n' :: rest) →
      cutAt (· = '\n') (before ++ after) = (before, after) := by
    intro before after hbef haft
    apply cutAt_append
    · intro c hc
      have hne : c ≠ '\n' := fun heq => hbef (heq ▸ hc)
      simpa using hne
    · rcases haft with rfl | ⟨rest, rfl⟩
      · exact .inl rfl
      · exact .inr ⟨'\n', rest, rfl, by simp⟩
  have heq := hcut hx hs
  rw [h, hcut hy ht] at heq
  obtain ⟨rfl, rfl⟩ := Prod.mk.inj heq
  exact ⟨rfl, rfl⟩

end Adk
