import AdkRust.Lib.Text

/-!
# URI references and address literals

* `Reference`: the five parts of a URI reference; `Reference.text` writes them and `Reference.Valid` says what each
  part may hold.
* `resolve`: what a reference names from a base, with the path cleaned as the caller says; `removeDotSegments` is the
  cleaning of the standard.
* `isIpv6`: the texts of the IPv6 addresses.
-/

namespace Adk

/-! ## References -/

/-- The parts of a URI reference. -/
structure Reference where
  scheme : Option (List Char)
  authority : Option (List Char)
  path : List Char
  query : Option (List Char)
  fragment : Option (List Char)
  deriving DecidableEq, Repr

namespace Reference

def part (sign : List Char) (value : Option (List Char)) : List Char := value.elim [] (sign ++ ·)

def suffix (query fragment : Option (List Char)) : List Char := part ['?'] query ++ part ['#'] fragment

def text (r : Reference) : List Char :=
  r.scheme.elim [] (· ++ [':']) ++ part ['/', '/'] r.authority ++ r.path ++ suffix r.query r.fragment

/-- What each part may hold, so that the parts are found again. -/
structure Valid (r : Reference) : Prop where
  scheme_chars : ∀ scheme, r.scheme = some scheme → ∀ c ∈ scheme, c.isAlphanum = true ∨ c = '+' ∨ c = '-' ∨ c = '.'
  authority_chars : ∀ authority, r.authority = some authority → ∀ c ∈ authority, c ≠ '/' ∧ c ≠ '?' ∧ c ≠ '#'
  path_chars : ∀ c ∈ r.path, c ≠ '?' ∧ c ≠ '#'
  /-- After an authority the path is empty or absolute. -/
  rooted : r.authority.isSome = true → r.path = [] ∨ ['/'] <+: r.path
  /-- Without one it does not look like an authority. -/
  single : r.authority = none → ¬['/', '/'] <+: r.path
  /-- Without a scheme the first segment does not look like one. -/
  segment : r.scheme = none → r.authority = none → ':' ∉ (cutAt (· = '/') r.path).1
  query_chars : ∀ query, r.query = some query → '#' ∉ query
  no_space : ∀ c ∈ r.text, isWhiteSpace c = false

/-- The path of a reference set into the directory of the base's. -/
def merge (base : Reference) (path : List Char) : List Char :=
  if base.authority.isSome ∧ base.path = [] then '/' :: path
  else match rsplitOnce '/' base.path with
    | some (directory, _) => directory ++ '/' :: path
    | none => path

def resolve (clean : List Char → List Char) (base r : Reference) : Reference :=
  match r.scheme, r.authority with
  | some scheme, authority => ⟨some scheme, authority, clean r.path, r.query, r.fragment⟩
  | none, some authority => ⟨base.scheme, some authority, clean r.path, r.query, r.fragment⟩
  | none, none =>
    if r.path = [] then ⟨base.scheme, base.authority, base.path, r.query.or base.query, r.fragment⟩
    else if ['/'].isPrefixOf r.path then ⟨base.scheme, base.authority, clean r.path, r.query, r.fragment⟩
    else ⟨base.scheme, base.authority, clean (base.merge r.path), r.query, r.fragment⟩

end Reference

/-- What is before the last `/`. -/
def withoutSegment (output : List Char) : List Char := ((rsplitOnce '/' output).map Prod.fst).getD []

def removeDotSegmentsFrom : Nat → List Char → List Char → List Char
  | 0, _, output => output
  | fuel + 1, input, output =>
    match input with
    | [] => output
    | '.' :: '.' :: '/' :: rest => removeDotSegmentsFrom fuel rest output
    | '.' :: '/' :: rest => removeDotSegmentsFrom fuel rest output
    | '/' :: '.' :: '/' :: rest => removeDotSegmentsFrom fuel ('/' :: rest) output
    | ['/', '.'] => removeDotSegmentsFrom fuel ['/'] output
    | '/' :: '.' :: '.' :: '/' :: rest => removeDotSegmentsFrom fuel ('/' :: rest) (withoutSegment output)
    | ['/', '.', '.'] => removeDotSegmentsFrom fuel ['/'] (withoutSegment output)
    | ['.'] => removeDotSegmentsFrom fuel [] output
    | ['.', '.'] => removeDotSegmentsFrom fuel [] output
    | c :: rest =>
      let (segment, rest) := cutAt (· = '/') rest
      removeDotSegmentsFrom fuel rest (output ++ c :: segment)

def removeDotSegments (path : List Char) : List Char := removeDotSegmentsFrom path.length path []

example : removeDotSegments "/a/b/c/./../../g".toList = "/a/g".toList := by decide +kernel

/-! ## Address literals -/

def isHexDigit (c : Char) : Bool := c.isDigit || ('a' ≤ c && c ≤ 'f') || ('A' ≤ c && c ≤ 'F')

/-- What follows a group of at most four hexadecimal digits. -/
def readGroup (text : List Char) : Option (List Char) :=
  let (digits, rest) := cutAt (!isHexDigit ·) text
  if digits = [] ∨ 4 < digits.length then none else some rest

/-- What follows a decimal number below 256 without a leading zero. -/
def readOctet (text : List Char) : Option (List Char) :=
  let (digits, rest) := cutAt (!Char.isDigit ·) text
  if digits = [] ∨ 3 < digits.length ∨ (digits.head? = some '0' ∧ 1 < digits.length) ∨
      255 < Nat.ofDigitChars 10 digits 0 then none
  else some rest

def readAfter (separator : Char) (first : Bool) (read : List Char → Option (List Char)) (text : List Char) :
    Option (List Char) :=
  if first then read text
  else match text with
    | [] => none
    | c :: rest => if c = separator then read rest else none

/-- What follows a dotted IPv4 address. -/
def readIpv4 (text : List Char) : Option (List Char) := do
  let text ← readAfter '.' true readOctet text
  let text ← readAfter '.' false readOctet text
  let text ← readAfter '.' false readOctet text
  readAfter '.' false readOctet text

/-- How many groups stand in the text, whether the last two are an IPv4 address, and what follows. -/
def readGroups : Nat → Bool → List Char → Nat × Bool × List Char
  | 0, _, text => (0, false, text)
  | slots + 1, first, text =>
    match if 0 < slots then readAfter ':' first readIpv4 text else none with
    | some rest => (2, true, rest)
    | none =>
      match readAfter ':' first readGroup text with
      | some rest =>
        let (size, ipv4, rest) := readGroups slots false rest
        (size + 1, ipv4, rest)
      | none => (0, false, text)

/-- Whether a text is an IPv6 address: eight groups, or a `::` for some of them. -/
def isIpv6 (text : List Char) : Bool :=
  let (head, ipv4, rest) := readGroups 8 true text
  if head = 8 then rest.isEmpty
  else if ipv4 then false
  else match rest with
    | ':' :: ':' :: rest => (readGroups (7 - head) true rest).2.2.isEmpty
    | _ => false

example : ["::1", "2001:db8::", "::ffff:10.0.0.1", "1:2:3:4:5:6:7:8"].all (isIpv6 ·.toList) ∧
    ["", ":::", "1:2:3", "10.0.0.1::", "::10.0.0.256", "12345::"].all (!isIpv6 ·.toList) := by decide +kernel

theorem readGroup_subset {text rest : List Char} (h : readGroup text = some rest) : rest ⊆ text := by
  unfold readGroup at h
  generalize hcut : cutAt (!isHexDigit ·) text = cut at h
  obtain ⟨digits, after⟩ := cut
  dsimp only at h
  split at h
  · cases h
  · obtain rfl := Option.some.inj h
    rw [cutAt_append_eq hcut]
    exact List.subset_append_right _ _

/-- No group follows the first without a colon. -/
theorem readGroups_of_notMem {slots : Nat} {text : List Char} (h : ':' ∉ text) :
    readGroups slots false text = (0, false, text) := by
  have hnone : ∀ read : List Char → Option (List Char), readAfter ':' false read text = none := by
    intro read
    cases text with
    | nil => rfl
    | cons c rest =>
      obtain ⟨hne, -⟩ := not_or.mp (mt List.mem_cons.mpr h)
      exact if_neg (Ne.symm hne)
  cases slots with
  | zero => rfl
  | succ slots =>
    simp only [readGroups, hnone, ite_self]

/-- Without a colon there is one group at most, or an IPv4 address. -/
theorem readGroups_first {slots head : Nat} {ipv4 : Bool} {text rest : List Char} (h : ':' ∉ text)
    (hread : readGroups (slots + 1) true text = (head, ipv4, rest)) :
    ipv4 = true ∧ head = 2 ∨ ipv4 = false ∧ head ≤ 1 ∧ rest ⊆ text := by
  rw [readGroups] at hread
  split at hread
  next =>
    obtain ⟨rfl, rfl, rfl⟩ := by simpa using hread
    exact .inl ⟨rfl, rfl⟩
  next =>
    split at hread
    next after hgroup =>
      have hsub : after ⊆ text := readGroup_subset hgroup
      rw [readGroups_of_notMem (mt (@hsub ':') h)] at hread
      obtain ⟨rfl, rfl, rfl⟩ := by simpa using hread
      exact .inr ⟨rfl, by omega, hsub⟩
    next =>
      obtain ⟨rfl, rfl, rfl⟩ := by simpa using hread
      exact .inr ⟨rfl, by omega, List.Subset.refl _⟩

/-- Every address has a colon. -/
theorem colon_mem_of_isIpv6 {text : List Char} (h : isIpv6 text = true) : ':' ∈ text := by
  by_contra hcol
  unfold isIpv6 at h
  generalize hread : readGroups 8 true text = read at h
  obtain ⟨head, ipv4, rest⟩ := read
  rcases readGroups_first hcol hread with ⟨rfl, rfl⟩ | ⟨rfl, hhead, hrest⟩
  · simp at h
  · dsimp only at h
    rw [if_neg (by omega), if_neg (by decide)] at h
    split at h
    · exact hcol (hrest List.mem_cons_self)
    · cases h

end Adk
