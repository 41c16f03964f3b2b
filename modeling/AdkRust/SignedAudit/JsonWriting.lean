import AdkRust.Lib.Except
import AdkRust.SignedAudit.JsonReading
import Mathlib.Data.List.TakeWhile

/-!
# JSON texts read back

A writer of JSON with its own texts of numbers and its own order of members (`jsonText`). What it writes is read back as
the value it wrote, with the members in the order of their names again and each number as its text is read.

* `readString_writeString`: strings.
* `readValue_jsonText`: values, in front of any text that no number goes on in.
* `mem_jsonText`: there is no control character in what is written.
-/

namespace Adk.SignedAudit

open Binary64

/-! ## Strings -/

theorem hexValue_digitChar : ∀ n < 16, hexValue (Nat.digitChar n) = some n := by decide

variable {c : Char} {text rest : List Char}

theorem hexChar_control (h : c.toNat < 0x20) :
    hexChar '0' '0' (Nat.digitChar (c.toNat / 16)) (Nat.digitChar (c.toNat % 16)) = some c := by
  have hzero : hexValue '0' = some 0 := by decide
  have hval : c.toNat / 16 * 16 + c.toNat % 16 = c.toNat := by omega
  have hvld : c.toNat.isValidChar := c.valid
  simp [hexChar, hzero, hexValue_digitChar (c.toNat / 16) (by omega), hexValue_digitChar (c.toNat % 16) (by omega),
    hval, hvld]

theorem readString_writeChar (c : Char) (rest : List Char) :
    readString ((writeChar c).toList ++ rest) = (readString rest).map fun text => (c :: text.1, text.2) := by
  unfold writeChar
  split
  case h_8 hquote hsl _ _ _ _ _ =>
    split
    next hctl =>
      simp only [String.toList_append, String.toList_ofList]
      change readString ('\\' :: 'u' :: '0' :: '0' :: _ :: _ :: rest) = _
      rw [readString, hexChar_control hctl]
      rfl
    next hctl =>
      rw [String.toList_singleton, List.singleton_append, readString.eq_def]
      split <;> simp_all
  all_goals
    simp [readString, escapedChar]

theorem readString_chars (text rest : List Char) :
    readString (text.flatMap (fun c => (writeChar c).toList) ++ '"' :: rest) = some (text, rest) := by
  induction text with
  | nil => simp [readString]
  | cons c text ih => rw [List.flatMap_cons, List.append_assoc, readString_writeChar, ih, Option.map_some]

theorem toList_writeString (text : String) :
    (writeString text).toList = '"' :: (text.toList.flatMap (fun c => (writeChar c).toList) ++ ['"']) := by
  unfold writeString
  simp [String.toList_join, List.flatMap_map]

theorem readString_writeString (text : String) (rest : List Char) :
    ∃ body, (writeString text).toList ++ rest = '"' :: body ∧ readString body = some (text.toList, rest) := by
  refine ⟨text.toList.flatMap (fun c => (writeChar c).toList) ++ '"' :: rest, ?_, readString_chars text.toList rest⟩
  rw [toList_writeString]
  simp

/-! ## Numbers -/

theorem asInteger_eq_some {text : String} {n : Int} : asInteger text = some n ↔ text = toString n ∧ FitsWord n := by
  unfold asInteger
  rw [Option.filter_eq_some_iff]
  constructor
  · rintro ⟨_, h⟩
    rw [decide_eq_true_eq] at h
    exact ⟨h.1.symm, h.2⟩
  · rintro ⟨rfl, hfits⟩
    exact ⟨by rw [Int.toString_eq_repr, Int.toInt?_repr], by simpa using hfits⟩

theorem isNumberChar_of_isDigit (h : c.isDigit = true) : isNumberChar c = true := by
  simp [isNumberChar, h]

/-- A text that a number may be: characters of numbers, at least one of them. -/
structure Numeric (text : List Char) : Prop where
  ne_nil : text ≠ []
  chars : ∀ c ∈ text, isNumberChar c = true

theorem numeric_toDigits (n : Nat) : Numeric (Nat.toDigits 10 n) where
  ne_nil := Nat.toDigits_ne_nil
  chars c hc := isNumberChar_of_isDigit (Nat.isDigit_of_mem_toDigits (by decide) (by decide) hc)

theorem numeric_toString (n : Int) : Numeric (toString n).toList := by
  rw [Int.toString_eq_repr]
  cases n with
  | ofNat n =>
    have : (Int.repr (.ofNat n)).toList = Nat.toDigits 10 n := by simp [Int.repr, Nat.repr]
    rw [this]
    exact numeric_toDigits n
  | negSucc n =>
    have : (Int.repr (.negSucc n)).toList = '-' :: Nat.toDigits 10 (n + 1) := by simp [Int.repr, Nat.repr]
    rw [this]
    exact ⟨List.cons_ne_nil _ _, List.forall_mem_cons.mpr ⟨rfl, (numeric_toDigits (n + 1)).chars⟩⟩

def Skips (text rest : List Char) : Prop := ∃ part, text = part ++ rest ∧ ∀ c ∈ part, isNumberChar c = true

theorem Skips.refl (text : List Char) : Skips text text := ⟨[], rfl, by simp⟩

theorem Skips.cons (hc : isNumberChar c = true) (h : Skips text rest) :
    Skips (c :: text) rest := by
  obtain ⟨part, rfl, hpart⟩ := h
  exact ⟨c :: part, rfl, List.forall_mem_cons.mpr ⟨hc, hpart⟩⟩

theorem Skips.trans {mid : List Char} (h : Skips text mid) (h' : Skips mid rest) : Skips text rest := by
  obtain ⟨part, rfl, hpart⟩ := h
  obtain ⟨other, rfl, hoth⟩ := h'
  exact ⟨part ++ other, by simp, fun c hc => (List.mem_append.mp hc).elim (hpart c) (hoth c)⟩

theorem skips_of_skipDigits (h : skipDigits text = some rest) : Skips text rest := by
  unfold skipDigits at h
  split at h
  next => cases h
  next =>
    cases h
    refine ⟨text.takeWhile Char.isDigit, List.takeWhile_append_dropWhile.symm, fun c hc => ?_⟩
    exact isNumberChar_of_isDigit (List.mem_takeWhile_imp hc)

theorem skips_of_skipInteger (h : skipInteger text = some rest) :
    text ≠ [] ∧ Skips text rest := by
  unfold skipInteger at h
  split at h
  next text =>
    cases h
    exact ⟨List.cons_ne_nil _ _, (Skips.refl _).cons rfl⟩
  next =>
    refine ⟨?_, skips_of_skipDigits h⟩
    rintro rfl
    cases h

theorem skips_of_skipFraction (h : skipFraction text = some rest) : Skips text rest := by
  unfold skipFraction at h
  split at h
  next => exact (skips_of_skipDigits h).cons rfl
  next =>
    cases h
    exact .refl _

theorem skips_of_skipExponent (h : skipExponent text = some rest) : Skips text rest := by
  unfold skipExponent at h
  split at h
  next c text =>
    split at h
    next hc =>
      have hchar : isNumberChar c = true := by rcases hc with rfl | rfl <;> rfl
      refine Skips.cons hchar ?_
      split at h
      next => exact (skips_of_skipDigits h).cons rfl
      next => exact (skips_of_skipDigits h).cons rfl
      next => exact skips_of_skipDigits h
    next =>
      cases h
      exact .refl _
  next =>
    cases h
    exact .refl _

/-- A number of JSON is made of the characters of numbers. -/
theorem numeric_of_isDecimal (h : isDecimal text = true) : Numeric text := by
  unfold isDecimal at h
  obtain ⟨exponent, hexp, h⟩ := Option.bind_eq_some_iff.mp (of_decide_eq_true h)
  obtain ⟨fraction, hfrac, hexp⟩ := Option.bind_eq_some_iff.mp hexp
  obtain ⟨hne, hinteger⟩ := skips_of_skipInteger hfrac
  have hskips := (hinteger.trans (skips_of_skipFraction hexp)).trans (skips_of_skipExponent h)
  obtain ⟨part, hpart, hch⟩ := hskips
  rw [List.append_nil] at hpart
  subst hpart
  cases text with
  | nil => exact absurd rfl hne
  | cons c text =>
    rw [List.head?_cons, List.tail_cons] at hch
    refine ⟨List.cons_ne_nil _ _, ?_⟩
    split at hch
    next hminus =>
      obtain rfl := Option.some.inj hminus
      exact List.forall_mem_cons.mpr ⟨rfl, hch⟩
    next => exact hch

/-! ## Values -/

section Writing

variable (numberText : Number → String) (before : String → String → Prop) [DecidableRel before]

mutual

def jsonText : Value → String
  | .null => "null"
  | .bool true => "true"
  | .bool false => "false"
  | .number n => numberText n
  | .string text => writeString text
  | .array items => "[" ++ ",".intercalate (itemTexts items) ++ "]"
  | .object members =>
    let sorted := (memberTexts members).insertionSort fun a b => before a.1 b.1
    "\x7b" ++ ",".intercalate (sorted.map fun member => writeString member.1 ++ ":" ++ member.2) ++ "\x7d"

def itemTexts : List Value → List String
  | [] => []
  | item :: items => jsonText item :: itemTexts items

def memberTexts : List (String × Value) → List (String × String)
  | [] => []
  | (name, member) :: members => (name, jsonText member) :: memberTexts members

end

/-- The members in the order in which they are written. -/
def ordered (members : List (String × Value)) : List (String × Value) :=
  members.insertionSort fun a b => before a.1 b.1

theorem itemTexts_eq (items : List Value) : itemTexts numberText before items = items.map (jsonText numberText before) := by
  induction items with
  | nil => rfl
  | cons item items ih => exact congrArg (jsonText numberText before item :: ·) ih

theorem memberTexts_eq (members : List (String × Value)) :
    memberTexts numberText before members = members.map fun member => (member.1, jsonText numberText before member.2) := by
  induction members with
  | nil => rfl
  | cons member members ih => exact congrArg ((member.1, jsonText numberText before member.2) :: ·) ih

/-- Texts with commas between: the first one, and each of the others after a comma. -/
theorem toList_commas (text : String) (texts : List String) :
    (",".intercalate (text :: texts)).toList = text.toList ++ texts.flatMap fun other => ',' :: other.toList := by
  induction texts generalizing text with
  | nil => simp
  | cons other texts ih =>
    rw [String.intercalate_cons_cons, String.toList_append, ih]
    simp

theorem toList_array (items : List Value) :
    (jsonText numberText before (.array items)).toList =
      '[' :: ((",".intercalate (items.map (jsonText numberText before))).toList ++ [']']) := by
  simp [jsonText, itemTexts_eq]

def memberText (member : String × Value) : String :=
  writeString member.1 ++ ":" ++ jsonText numberText before member.2

theorem toList_object (members : List (String × Value)) :
    (jsonText numberText before (.object members)).toList =
      '\x7b' :: ((",".intercalate ((ordered before members).map (memberText numberText before))).toList ++ ['\x7d']) := by
  have hsort : (memberTexts numberText before members).insertionSort (fun a b => before a.1 b.1) =
      (ordered before members).map fun member => (member.1, jsonText numberText before member.2) := by
    rw [memberTexts_eq]
    exact (List.map_insertionSort (fun a b => before a.1 b.1) (fun a b => before a.1 b.1)
      (fun member : String × Value => (member.1, jsonText numberText before member.2)) members
      fun a _ b _ => Iff.rfl).symm
  simp only [jsonText, hsort, List.map_map]
  simp [Function.comp_def, memberText]

end Writing

/-- No number goes on in a text. -/
def Stops (rest : List Char) : Prop := ∀ c ∈ rest.head?, isNumberChar c = false

theorem stops_nil : Stops [] := by simp [Stops]

theorem stops_cons {c : Char} (h : isNumberChar c = false) (rest : List Char) : Stops (c :: rest) := by
  simpa [Stops] using h

/-- The entries of a map in the order of their names, whatever the order they came in. -/
theorem toList_ofList_of_perm {α : Type} {entries fields : List (String × α)} (hp : entries.Perm fields)
    (hsrt : (fields.map Prod.fst).Pairwise (· < ·)) : (Dict.ofList entries).toList = fields := by
  rw [List.pairwise_map] at hsrt
  have hfields : (fields.map Prod.fst).Nodup := by
    rw [List.Nodup, List.pairwise_map]
    exact hsrt.imp fun h => ne_of_lt h
  have hents : (entries.map Prod.fst).Nodup := (hp.map Prod.fst).nodup_iff.mpr hfields
  have hmap : (Dict.ofList entries).toList.Pairwise fun a b => a.1 < b.1 :=
    Std.ExtTreeMap.ordered_keys_toList.imp fun h => compare_lt_iff_lt.mp h
  refine List.Perm.eq_of_pairwise (fun a b _ _ hab hba => absurd (lt_trans hab hba) (lt_irrefl _)) hmap hsrt ?_
  rw [List.perm_ext_iff_of_nodup (List.Nodup.of_map _ (Dict.nodup_keys _)) (List.Nodup.of_map _ hfields)]
  rintro ⟨name, a⟩
  rw [Std.ExtTreeMap.mem_toList_iff_getElem?_eq_some, Dict.getElem?_ofList hents,
    Dict.lookup_eq_some_iff hents, hp.mem_iff]

/-! ### No control characters -/

theorem code_of_all {text : List Char} (h : text.all (fun c => 0x20 ≤ c.toNat) = true) {x : Char} (hx : x ∈ text) :
    0x20 ≤ x.toNat := by
  simpa using List.all_eq_true.mp h x hx

theorem mem_writeChar {c x : Char} (h : x ∈ (writeChar c).toList) : 0x20 ≤ x.toNat := by
  have hhex : ∀ n < 16, 0x20 ≤ (Nat.digitChar n).toNat := by decide
  unfold writeChar at h
  split at h
  case h_8 =>
    split at h
    next hctl =>
      simp only [String.toList_append, String.toList_ofList, List.mem_append, List.mem_cons, List.not_mem_nil,
        or_false] at h
      rcases h with h | rfl | rfl
      · exact code_of_all (by decide) h
      · exact hhex _ (by omega)
      · exact hhex _ (by omega)
    next hctl =>
      rw [String.toList_singleton, List.mem_singleton] at h
      subst h
      omega
  all_goals exact code_of_all (by decide) h

theorem mem_writeString {text : String} {x : Char} (h : x ∈ (writeString text).toList) : 0x20 ≤ x.toNat := by
  rw [toList_writeString, List.mem_cons, List.mem_append, List.mem_flatMap, List.mem_singleton] at h
  rcases h with rfl | ⟨c, -, hc⟩ | rfl
  · decide
  · exact mem_writeChar hc
  · decide

theorem mem_commas {texts : List String} {x : Char} (h : x ∈ (",".intercalate texts).toList)
    (htexts : ∀ text ∈ texts, ∀ x ∈ text.toList, 0x20 ≤ x.toNat) : 0x20 ≤ x.toNat := by
  cases texts with
  | nil => simp at h
  | cons text texts =>
    rw [List.forall_mem_cons] at htexts
    rw [toList_commas, List.mem_append, List.mem_flatMap] at h
    rcases h with h | ⟨other, hoth, h⟩
    · exact htexts.1 x h
    · rcases List.mem_cons.mp h with rfl | h
      · decide
      · exact htexts.2 other hoth x h

theorem isNumberChar_le {c : Char} (h : isNumberChar c = true) : 0x20 ≤ c.toNat := by
  unfold isNumberChar at h
  simp only [Bool.or_eq_true, beq_iff_eq] at h
  rcases h with ((((h | rfl) | rfl) | rfl) | rfl) | rfl
  · have hdgt : 48 ≤ c.toNat := (Char.isDigit_iff_toNat.mp h).1
    omega
  all_goals decide

/-- There is no control character below the blank in what is written. -/
theorem mem_jsonText {numberText : Number → String} {before : String → String → Prop} [DecidableRel before]
    {q : List String → Prop} {value : Value} (h : value.All (fun n => Numeric (numberText n).toList) q) {x : Char}
    (hx : x ∈ (jsonText numberText before value).toList) : 0x20 ≤ x.toNat := by
  induction value using Value.induct generalizing x with
  | null =>
    rw [jsonText] at hx
    exact code_of_all (by decide) hx
  | bool b =>
    cases b <;> rw [jsonText] at hx <;> exact code_of_all (by decide) hx
  | number n => exact isNumberChar_le (Numeric.chars h x hx)
  | string text => exact mem_writeString hx
  | array items ih =>
    rw [toList_array, List.mem_cons, List.mem_append, List.mem_singleton] at hx
    rcases hx with rfl | hx | rfl
    · decide
    · refine mem_commas hx fun text htext => ?_
      obtain ⟨item, hitem, rfl⟩ := List.mem_map.mp htext
      exact fun x hx => ih item hitem (Value.all_array.mp h item hitem) hx
    · decide
  | object members ih =>
    rw [toList_object, List.mem_cons, List.mem_append, List.mem_singleton] at hx
    rcases hx with rfl | hx | rfl
    · decide
    · refine mem_commas hx fun text htext => ?_
      obtain ⟨member, hmemb, rfl⟩ := List.mem_map.mp htext
      have hmem := (List.perm_insertionSort _ members).mem_iff.mp hmemb
      intro x hx
      simp only [memberText, String.toList_append, List.mem_append] at hx
      rcases hx with (hx | hx) | hx
      · exact mem_writeString hx
      · exact code_of_all (by decide) hx
      · exact ih member hmem ((Value.all_object.mp h).2 member hmem) hx
    · decide

section ReadBack

variable [FloatReading] {numberText : Number → String} {before : String → String → Prop} [DecidableRel before]
  {reread : Number → Number}

theorem readNumber_int {n : Int} (h : FitsWord n) : readNumber (toString n).toList = some (.int n) := by
  unfold readNumber
  rw [String.ofList_toList, asInteger_eq_some.mpr ⟨rfl, h⟩]

structure ReadsAs (numberText : Number → String) (reread : Number → Number) (n : Number) : Prop where
  read : readNumber (numberText n).toList = some (reread n)
  numeric : Numeric (numberText n).toList

/-- What can be read back: every number, and members in the order of their names. -/
def Readable (numberText : Number → String) (reread : Number → Number) (value : Value) : Prop :=
  value.All (ReadsAs numberText reread) fun names => names.Pairwise (· < ·)

def ReadBack (text : String) (value : Value) : Prop :=
  ∀ fuel rest, text.toList.length ≤ fuel → Stops rest → readValue fuel (text.toList ++ rest) = some (value, rest)

theorem readValue_number {n : Number} (h : ReadsAs numberText reread n) :
    ReadBack (numberText n) (.number (reread n)) := by
  intro fuel rest hfuel hrest
  obtain ⟨hread, hne, hch⟩ := h.read, h.numeric
  have htake : ((numberText n).toList ++ rest).takeWhile isNumberChar = (numberText n).toList := by
    rw [List.takeWhile_append_of_pos hch]
    cases rest with
    | nil => simp
    | cons c rest => simp [hrest c rfl]
  have hdrop : ((numberText n).toList ++ rest).dropWhile isNumberChar = rest := by
    rw [List.dropWhile_append_of_pos hch]
    cases rest with
    | nil => rfl
    | cons c rest => simp [hrest c rfl]
  obtain ⟨c, text, hcons⟩ := List.exists_cons_of_ne_nil hne
  have hc : isNumberChar c = true := hch c (by simp [hcons])
  rw [hcons, List.cons_append] at htake hdrop ⊢
  cases fuel with
  | zero => simp [hcons] at hfuel
  | succ fuel => rw [readValue, if_pos hc, htake, ← hcons, hread, hdrop, Option.map_some]

theorem readValue_string (text : String) : ReadBack (writeString text) (.string text) := by
  intro fuel rest hfuel _
  obtain ⟨body, heq, hbody⟩ := readString_writeString text rest
  cases fuel with
  | zero => simp [toList_writeString] at hfuel
  | succ fuel =>
    rw [heq, readValue, if_neg (by decide), if_pos rfl, hbody, Option.map_some, String.ofList_toList]

/-- The items after the first one. -/
theorem readTail_texts {items : List Value} {values : List Value}
    (h : List.Forall₂ (fun item value => ReadBack (jsonText numberText before item) value) items values) (fuel : Nat)
    (rest : List Char)
    (hfuel : ((items.map (jsonText numberText before)).flatMap fun text => ',' :: text.toList).length < fuel) :
    readTail fuel (((items.map (jsonText numberText before)).flatMap fun text => ',' :: text.toList) ++ ']' :: rest) =
      some (values, rest) := by
  induction h generalizing fuel with
  | nil =>
    cases fuel with
    | zero => simp at hfuel
    | succ fuel => simp [readTail]
  | @cons item value items values hitem hits ih =>
    cases fuel with
    | zero => simp at hfuel
    | succ fuel =>
      simp only [List.map_cons, List.flatMap_cons, List.length_append, List.length_cons] at hfuel
      rw [List.map_cons, List.flatMap_cons, List.cons_append, List.cons_append, List.append_assoc, readTail,
        if_neg (by decide), if_pos rfl]
      have hstops : Stops (((items.map (jsonText numberText before)).flatMap fun text => ',' :: text.toList) ++
          ']' :: rest) := by
        cases items <;> exact stops_cons (by decide) _
      rw [hitem fuel _ (by omega) hstops, Option.bind_some, ih fuel (by omega), Option.map_some]

theorem readMember_text {member : String × Value} {value : Value}
    (h : ReadBack (jsonText numberText before member.2) value) (fuel : Nat) (rest : List Char)
    (hfuel : (memberText numberText before member).toList.length ≤ fuel) (hrest : Stops rest) :
    readMember fuel ((memberText numberText before member).toList ++ rest) = some ((member.1, value), rest) := by
  have htext : (memberText numberText before member).toList =
      (writeString member.1).toList ++ ':' :: (jsonText numberText before member.2).toList := by
    simp [memberText, String.toList_append]
  rw [htext, List.length_append, List.length_cons] at hfuel
  obtain ⟨body, heq, hbody⟩ :=
    readString_writeString member.1 (':' :: (jsonText numberText before member.2).toList ++ rest)
  cases fuel with
  | zero => omega
  | succ fuel =>
    rw [htext, List.append_assoc, List.cons_append, ← List.cons_append, heq, readMember, if_pos rfl, hbody,
      Option.bind_some]
    simp only [List.cons_append, afterColon, Option.bind_some]
    rw [h fuel rest (by omega) hrest, Option.map_some, String.ofList_toList]

/-- The members after the first one. -/
theorem readMembersTail_texts {members values : List (String × Value)}
    (h : List.Forall₂ (fun member value => member.1 = value.1 ∧
      ReadBack (jsonText numberText before member.2) value.2) members values) (fuel : Nat) (rest : List Char)
    (hfuel : ((members.map (memberText numberText before)).flatMap fun text => ',' :: text.toList).length < fuel) :
    readMembersTail fuel
        (((members.map (memberText numberText before)).flatMap fun text => ',' :: text.toList) ++ '\x7d' :: rest) =
      some (values, rest) := by
  induction h generalizing fuel with
  | nil =>
    cases fuel with
    | zero => simp at hfuel
    | succ fuel => simp [readMembersTail]
  | @cons member value members values hmemb hmems ih =>
    cases fuel with
    | zero => simp at hfuel
    | succ fuel =>
      simp only [List.map_cons, List.flatMap_cons, List.length_append, List.length_cons] at hfuel
      rw [List.map_cons, List.flatMap_cons, List.cons_append, List.cons_append, List.append_assoc, readMembersTail,
        if_neg (by decide), if_pos rfl]
      have hstops : Stops (((members.map (memberText numberText before)).flatMap fun text => ',' :: text.toList) ++
          '\x7d' :: rest) := by
        cases members <;> exact stops_cons (by decide) _
      rw [readMember_text hmemb.2 fuel _ (by omega) hstops, Option.bind_some, ih fuel (by omega), Option.map_some,
        hmemb.1]

theorem readValue_bracket (fuel : Nat) (rest : List Char) : readValue fuel (']' :: rest) = none := by
  cases fuel with
  | zero => rw [readValue]
  | succ fuel =>
    rw [readValue, if_neg (by decide), if_neg (by decide), if_neg (by decide), if_neg (by decide)]
    rfl

theorem readValue_array {items values : List Value}
    (h : List.Forall₂ (fun item value => ReadBack (jsonText numberText before item) value) items values) :
    ReadBack (jsonText numberText before (.array items)) (.array values) := by
  intro fuel rest hfuel hrest
  rw [toList_array, List.length_cons, List.length_append] at hfuel
  rw [toList_array, List.cons_append, List.append_assoc]
  cases fuel with
  | zero => omega
  | succ fuel =>
    rw [readValue, if_neg (by decide), if_neg (by decide), if_pos rfl]
    cases h with
    | nil => simp
    | @cons item value items values hitem hits =>
      rw [List.map_cons, toList_commas] at hfuel ⊢
      rw [List.length_append] at hfuel
      have hstops : Stops (((items.map (jsonText numberText before)).flatMap fun text => ',' :: text.toList) ++
          ']' :: rest) := by
        cases items <;> exact stops_cons (by decide) _
      have hfst := hitem fuel _ (by simp only [List.length_singleton] at hfuel; omega) hstops
      rw [List.append_assoc, List.singleton_append]
      have hhead : ((jsonText numberText before item).toList ++
          (((items.map (jsonText numberText before)).flatMap fun text => ',' :: text.toList) ++ ']' :: rest)).head? ≠
          some ']' := by
        intro hhead
        obtain ⟨tail, htail⟩ := List.head?_eq_some_iff.mp hhead
        rw [htail, readValue_bracket] at hfst
        cases hfst
      rw [if_neg hhead, hfst, Option.bind_some,
        readTail_texts hits fuel rest (by simp only [List.length_singleton] at hfuel; omega), Option.map_some]

theorem readValue_object {members values : List (String × Value)}
    (h : List.Forall₂ (fun member value => member.1 = value.1 ∧
      ReadBack (jsonText numberText before member.2) value.2) (ordered before members) values) :
    ReadBack (jsonText numberText before (.object members)) (.ofDict (.ofList values)) := by
  intro fuel rest hfuel hrest
  rw [toList_object, List.length_cons, List.length_append] at hfuel
  rw [toList_object, List.cons_append, List.append_assoc]
  cases fuel with
  | zero => omega
  | succ fuel =>
    rw [readValue, if_neg (by decide), if_neg (by decide), if_neg (by decide), if_pos rfl]
    cases hordd : ordered before members with
    | nil =>
      rw [hordd] at h
      cases h
      simp [Value.ofDict, Dict.ofList]
    | cons member rest' =>
      rw [hordd] at h hfuel
      cases h with
      | @cons _ value _ values hmemb hmems =>
        rw [List.map_cons, toList_commas] at hfuel ⊢
        rw [List.length_append] at hfuel
        have hstops : Stops (((rest'.map (memberText numberText before)).flatMap fun text => ',' :: text.toList) ++
            '\x7d' :: rest) := by
          cases rest' <;> exact stops_cons (by decide) _
        rw [List.append_assoc, List.singleton_append]
        have hhead : ((memberText numberText before member).toList ++
            (((rest'.map (memberText numberText before)).flatMap fun text => ',' :: text.toList) ++
              '\x7d' :: rest)).head? ≠ some '\x7d' := by
          simp [memberText, toList_writeString]
        rw [if_neg hhead, readMember_text hmemb.2 fuel _ (by simp only [List.length_singleton] at hfuel; omega) hstops,
          Option.bind_some,
          readMembersTail_texts hmems fuel rest (by simp only [List.length_singleton] at hfuel; omega),
          Option.map_some, hmemb.1]

theorem readValue_jsonText {value : Value} (h : Readable numberText reread value) :
    ReadBack (jsonText numberText before value) (value.mapNumbers reread) := by
  induction value using Value.induct with
  | null =>
    intro fuel rest hfuel _
    cases fuel with
    | zero => simp [jsonText] at hfuel
    | succ fuel => simp [jsonText, readValue, readWord, isNumberChar, Value.mapNumbers]
  | bool b =>
    intro fuel rest hfuel _
    cases fuel with
    | zero => cases b <;> simp [jsonText] at hfuel
    | succ fuel => cases b <;> simp [jsonText, readValue, readWord, isNumberChar, Value.mapNumbers]
  | number n => exact readValue_number h
  | string text => exact readValue_string text
  | array items ih =>
    rw [Value.mapNumbers_array]
    refine readValue_array (List.forall₂_map_right_iff.mpr (List.forall₂_same.mpr fun item hitem => ?_))
    exact ih item hitem (Value.all_array.mp h item hitem)
  | object members ih =>
    obtain ⟨hsrt, hmems⟩ := Value.all_object.mp h
    rw [Value.mapNumbers_object]
    have hperm : (ordered before members).Perm members := List.perm_insertionSort _ _
    have hdict : (Dict.ofList ((ordered before members).map fun member =>
        (member.1, member.2.mapNumbers reread))).toList =
        members.map fun member => (member.1, member.2.mapNumbers reread) := by
      refine toList_ofList_of_perm (hperm.map _) ?_
      rw [List.map_map]
      exact hsrt
    rw [← hdict]
    refine readValue_object (List.forall₂_map_right_iff.mpr (List.forall₂_same.mpr fun member hmemb => ⟨rfl, ?_⟩))
    have hmem := hperm.mem_iff.mp hmemb
    exact ih member hmem (hmems member hmem)

theorem readJson_jsonText {value : Value} (h : Readable numberText reread value) :
    readJson (jsonText numberText before value) = some (value.mapNumbers reread) := by
  unfold readJson
  have hback : ReadBack (jsonText numberText before value) (value.mapNumbers reread) := readValue_jsonText h
  have hread := hback _ [] (Nat.le_refl _) stops_nil
  rw [List.append_nil] at hread
  rw [hread]
  rfl

end ReadBack

end Adk.SignedAudit
