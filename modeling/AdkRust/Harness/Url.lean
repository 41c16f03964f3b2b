import AdkRust.Core.Principal
import AdkRust.Lib.Except
import AdkRust.Lib.Uri
import Mathlib.Data.List.Induction

/-!
# URLs of the web tools

The grammar a URL is read by, and the text it is written as.

* `parse`: a URL whose host could be read in two ways is refused.
* `parse_iff`: a URL that is accepted is a scheme, an authority that is accepted, and a tail.
* `parse_asString`: the text of a URL is read as the same URL.
-/

namespace Adk

/-! ## The grammar -/

inductive UrlRefusal where
  | notHttp
  | userInfo
  | backslash
  | percentEncodedHost
  | emptyHost
  | invalidHost (host : List Char)
  | invalidPort
  | whitespace
deriving DecidableEq, Repr

def UrlRefusal.display : UrlRefusal → List Char
  | .notHttp => "only http and https URLs are fetched".toList
  | .userInfo => "a URL with user information is refused".toList
  | .backslash => "a URL with a backslash in its authority is refused".toList
  | .percentEncodedHost => "a percent-encoded host is refused".toList
  | .emptyHost => "the URL has no host".toList
  | .invalidHost host =>
    "host '".toList ++ host ++ "' is refused: only lowercase ASCII letters, digits, '.' and '-' are accepted ".toList ++
      "(write an internationalized name as punycode)".toList
  | .invalidPort => "the URL's port is not a number below 65536".toList
  | .whitespace => "a URL with whitespace or control characters is refused".toList

structure ParsedUrl where
  https : Bool
  /-- The lowercase host, an IPv6 literal without its brackets. -/
  host : List Char
  /-- The port, explicit or the scheme's default. -/
  port : Nat
  explicitPort : Bool
  /-- The path, `/` when absent. -/
  path : List Char
  query : Option (List Char)
  fragment : Option (List Char)
deriving DecidableEq, Repr

namespace ParsedUrl

def parsePort (port : List Char) : Except UrlRefusal Nat :=
  if port = [] ∨ 5 < byteLength port ∨ port.all Char.isDigit = false then .error .invalidPort
  else if Nat.ofDigitChars 10 port 0 < 65536 then .ok (Nat.ofDigitChars 10 port 0)
  else .error .invalidPort

/-- The host, its brackets included, and the port. -/
def splitAuthority (authority : List Char) : Except UrlRefusal (List Char × Option Nat) :=
  match splitOnce [']'] authority with
  | some (host, rest) =>
    if authority.head? ≠ some '[' then .error (.invalidHost authority)
    else match rest with
      | [] => .ok (host ++ [']'], none)
      | c :: port => do
        if c ≠ ':' then throw (.invalidHost authority)
        let port ← parsePort port
        pure (host ++ [']'], some port)
  | none =>
    match rsplitOnce ':' authority with
    | some (host, port) => do
      let port ← parsePort port
      pure (host, some port)
    | none => .ok (authority, none)

def isNameChar (c : Char) : Bool := c.isLower || c.isDigit || c = '.' || c = '-'

def validateName (host : List Char) : Except UrlRefusal Unit :=
  if host = [] then .error .emptyHost
  else if 253 < byteLength host then .error (.invalidHost host)
  else if host.all isNameChar = false then .error (.invalidHost host)
  else if (host.splitOn '.').any (fun label => label = [] ∨ 63 < byteLength label) then .error (.invalidHost host)
  else .ok ()

/-- An address in brackets, or a name without the last dot. -/
def readHost (host : List Char) : Except UrlRefusal (List Char) :=
  if host.head? = some '[' ∧ host.getLast? = some ']' then
    if isIpv6 host.tail.dropLast then .ok host.tail.dropLast else .error (.invalidHost host)
  else do
    let host := if host.getLast? = some '.' then host.dropLast else host
    validateName host
    pure host

/-- The host in lower case and the port, if it is written. -/
def readAuthority (authority : List Char) : Except UrlRefusal (List Char × Option Nat) :=
  if '@' ∈ authority then .error .userInfo
  else if '%' ∈ authority then .error .percentEncodedHost
  else if '\\' ∈ authority then .error .backslash
  else do
    let (host, port) ← splitAuthority authority
    if host = [] then throw .emptyHost
    let host ← readHost (host.map Char.toLower)
    pure (host, port)

def readScheme (scheme : List Char) : Except UrlRefusal Bool :=
  if scheme.map Char.toLower = "https".toList then .ok true
  else if scheme.map Char.toLower = "http".toList then .ok false
  else .error .notHttp

def endsAuthority (c : Char) : Bool := c = '/' || c = '?' || c = '#' || c = '\\'

/-- A query without its `?`. -/
def queryOf : List Char → Option (List Char)
  | '?' :: query => some query
  | _ => none

def splitQuery (afterPath : List Char) : Option (List Char) × Option (List Char) :=
  match splitOnce ['#'] afterPath with
  | some (query, fragment) => (queryOf query, some fragment)
  | none => (queryOf afterPath, none)

/-- The path, the query and the fragment. -/
def splitTail (tail : List Char) : List Char × Option (List Char) × Option (List Char) :=
  let (path, afterPath) := cutAt (fun c => c = '?' || c = '#') tail
  (if path = [] then ['/'] else path, splitQuery afterPath)

def defaultPort (https : Bool) : Nat := if https then 443 else 80

def assembled (https : Bool) (host : List Char) (port : Option Nat) (tail : List Char) : ParsedUrl :=
  { https, host
    port := port.getD (defaultPort https)
    explicitPort := port.isSome
    path := (splitTail tail).1
    query := (splitTail tail).2.1
    fragment := (splitTail tail).2.2 }

/-- A character that no URL holds. -/
def isRefused (c : Char) : Bool := isWhiteSpace c || AgentId.isControl c

def parse (url : List Char) : Except UrlRefusal ParsedUrl :=
  if url.any isRefused then .error .whitespace
  else match splitOnce "://".toList url with
    | none => .error .notHttp
    | some (scheme, rest) => do
      let https ← readScheme scheme
      let (authority, tail) := cutAt endsAuthority rest
      if tail.head? = some '\\' then throw .backslash
      let (host, port) ← readAuthority authority
      pure (assembled https host port tail)

example : parse "HTTPS://Docs.rs:443/crate/adk-core?q=1#top".toList =
    .ok ⟨true, "docs.rs".toList, 443, true, "/crate/adk-core".toList, some "q=1".toList, some "top".toList⟩ := by
  decide +kernel

def schemeText (https : Bool) : List Char := if https then "https".toList else "http".toList

/-- A host with the brackets of an address literal. -/
def hostText (host : List Char) : List Char := if ':' ∈ host then '[' :: (host ++ [']']) else host

/-- The port, if it is not the scheme's. -/
def portToWrite (url : ParsedUrl) : Option Nat := if url.port = defaultPort url.https then none else some url.port

def authorityText (host : List Char) (port : Option Nat) : List Char :=
  hostText host ++ Reference.part [':'] (port.map (Nat.toDigits 10))

/-- The scheme and the authority, the default port omitted. -/
def origin (url : ParsedUrl) : List Char :=
  schemeText url.https ++ "://".toList ++ authorityText url.host url.portToWrite

/-- The URL as text, normalized. -/
def asString (url : ParsedUrl) : List Char := url.origin ++ url.path ++ Reference.suffix url.query url.fragment

/-! ## URLs that are accepted -/

/-- What may follow an authority. -/
def IsTail (tail : List Char) : Prop := tail = [] ∨ ∃ c rest, tail = c :: rest ∧ (c = '/' ∨ c = '?' ∨ c = '#')

variable {tail scheme host : List Char} {https : Bool} {c : Char} {u : ParsedUrl} {port : Option Nat}
  {query : Option (List Char)}

theorem isTail_iff :
    IsTail tail ↔ (tail = [] ∨ ∃ c rest, tail = c :: rest ∧ endsAuthority c = true) ∧ tail.head? ≠ some '\\' := by
  cases tail with
  | nil => simp [IsTail]
  | cons c rest =>
    simp only [IsTail, endsAuthority, List.cons.injEq, List.head?_cons, reduceCtorEq, false_or, Option.some.injEq,
      Bool.or_eq_true, decide_eq_true_eq, ne_eq]
    constructor
    · rintro ⟨d, _, ⟨rfl, rfl⟩, rfl | rfl | rfl⟩ <;> simp
    · rintro ⟨⟨d, _, ⟨rfl, rfl⟩, hd⟩, hne⟩
      exact ⟨c, rest, ⟨rfl, rfl⟩, by tauto⟩

theorem readScheme_eq_ok :
    readScheme scheme = .ok https ↔ scheme.map Char.toLower = schemeText https := by
  constructor
  · intro h
    unfold readScheme at h
    split at h
    next hhttps =>
      obtain rfl := Except.ok.inj h
      exact hhttps
    next =>
      split at h
      next hhttp =>
        obtain rfl := Except.ok.inj h
        exact hhttp
      next => cases h
  · intro hlow
    unfold readScheme
    rw [hlow]
    cases https <;> decide

/-- Only letters stand in the scheme. -/
theorem notMem_scheme (h : scheme.map Char.toLower = schemeText https)
    (hc : c.toLower ∉ "https".toList) : c ∉ scheme := by
  intro hmem
  have hlow : c.toLower ∈ schemeText https := h ▸ List.mem_map_of_mem hmem
  have hsub : ∀ b, schemeText b ⊆ "https".toList := by
    intro b
    cases b <;> decide
  exact hc (hsub https hlow)

theorem colon_notMem_scheme (h : scheme.map Char.toLower = schemeText https) :
    ':' ∉ scheme := notMem_scheme h (by decide)

theorem parse_iff {url : List Char} :
    parse url = .ok u ↔ ∃ scheme https authority tail host port,
      url = scheme ++ ("://".toList ++ (authority ++ tail)) ∧ (∀ c ∈ url, isRefused c = false) ∧
      readScheme scheme = .ok https ∧ (∀ c ∈ authority, endsAuthority c = false) ∧ IsTail tail ∧
      readAuthority authority = .ok (host, port) ∧ u = assembled https host port tail := by
  constructor
  · intro h
    unfold parse at h
    split at h
    next => cases h
    next hcln =>
      split at h
      next => cases h
      next scheme rest hsp =>
        obtain ⟨https, hsch, h⟩ := bind_eq_ok.mp h
        generalize hcut : cutAt endsAuthority rest = cut at h
        obtain ⟨authority, tail⟩ := cut
        dsimp only at h
        split at h
        next => cases h
        next hsl =>
          obtain ⟨⟨host, port⟩, hread, h⟩ := bind_eq_ok.mp h
          have hall : ∀ c ∈ url, isRefused c = false := by
            intro c hc
            by_contra href
            exact hcln (List.any_eq_true.mpr ⟨c, hc, by simpa using href⟩)
          refine ⟨scheme, https, authority, tail, host, port, ?_, hall, hsch, cutAt_before hcut,
            isTail_iff.mpr ⟨cutAt_after hcut, hsl⟩, hread, (Except.ok.inj h).symm⟩
          rw [splitOnce_eq hsp, cutAt_append_eq hcut, List.append_assoc]
  · rintro ⟨scheme, https, authority, tail, host, port, rfl, hcln, hsch, hauth, htail, hread, rfl⟩
    obtain ⟨haft, hsl⟩ := isTail_iff.mp htail
    have hsp : splitOnce "://".toList (scheme ++ ("://".toList ++ (authority ++ tail))) =
        some (scheme, authority ++ tail) :=
      splitOnce_append_pattern _ _ (colon_notMem_scheme (readScheme_eq_ok.mp hsch))
    have hany : ¬(scheme ++ ("://".toList ++ (authority ++ tail))).any isRefused = true := by
      rw [List.any_eq_true]
      rintro ⟨c, hc, href⟩
      rw [hcln c hc] at href
      cases href
    unfold parse
    rw [if_neg hany, hsp]
    dsimp only
    rw [hsch, cutAt_append hauth haft]
    dsimp only [Bind.bind, Except.bind]
    rw [if_neg hsl]
    dsimp only [pure, Except.pure]
    rw [hread]

/-! ### Hosts -/

/-- A character that may stand in an accepted host. -/
def IsPlain (c : Char) : Prop :=
  endsAuthority c = false ∧ c ≠ '@' ∧ c ≠ '%' ∧ isRefused c = false

/-- What an accepted host is: a name, or an IPv6 address in lower case. -/
structure NormalHost (host : List Char) : Prop where
  plain : ∀ c ∈ host, IsPlain c
  kind : validateName host = .ok () ∨ isIpv6 host = true ∧ ']' ∉ host ∧ host.map Char.toLower = host

theorem isLower_iff : c.isLower = true ↔ 97 ≤ c.toNat ∧ c.toNat ≤ 122 := by
  change (decide ('a'.val ≤ c.val) && decide (c.val ≤ 'z'.val)) = true ↔ _
  rw [Bool.and_eq_true, decide_eq_true_eq, decide_eq_true_eq, UInt32.le_iff_toNat_le, UInt32.le_iff_toNat_le]
  exact Iff.rfl

theorem isNameChar_iff : isNameChar c = true ↔
    (97 ≤ c.toNat ∧ c.toNat ≤ 122) ∨ (48 ≤ c.toNat ∧ c.toNat ≤ 57) ∨ c.toNat = 46 ∨ c.toNat = 45 := by
  have hdot : c = '.' ↔ c.toNat = 46 := Char.ext_iff.trans UInt32.toNat_inj.symm
  have hdash : c = '-' ↔ c.toNat = 45 := Char.ext_iff.trans UInt32.toNat_inj.symm
  simp only [isNameChar, Bool.or_eq_true, isLower_iff, decide_eq_true_eq, Char.isDigit, Bool.and_eq_true,
    UInt32.le_iff_toNat_le, ge_iff_le, hdot, hdash, or_assoc]
  exact Iff.rfl

theorem isPlain_of_isNameChar (h : isNameChar c = true) : IsPlain c := by
  have hcases := isNameChar_iff.mp h
  have hne : ∀ d : Char, d.toNat ≠ c.toNat → c ≠ d := by
    rintro d hd rfl
    exact hd rfl
  refine ⟨?_, hne '@' (by simp; omega), hne '%' (by simp; omega), ?_⟩
  · simp only [endsAuthority, Bool.or_eq_false_iff, decide_eq_false_iff_not]
    exact ⟨⟨⟨hne '/' (by simp; omega), hne '?' (by simp; omega)⟩, hne '#' (by simp; omega)⟩,
      hne '\\' (by simp; omega)⟩
  · simp only [isRefused, isWhiteSpace, AgentId.isControl, Bool.or_eq_false_iff, Bool.and_eq_false_iff,
      decide_eq_false_iff_not]
    omega

theorem toLower_cases (c : Char) : c.toLower = c ∨ isNameChar c.toLower = true := by
  unfold Char.toLower
  split
  next hupper =>
    right
    simp only [ge_iff_le, UInt32.le_iff_toNat_le] at hupper
    have hA : 'A'.val.toNat = 65 := rfl
    have hZ : 'Z'.val.toNat = 90 := rfl
    have hdiff : ('a'.val - 'A'.val).toNat = 32 := rfl
    rw [isNameChar_iff]
    change 97 ≤ (c.val + ('a'.val - 'A'.val)).toNat ∧ (c.val + ('a'.val - 'A'.val)).toNat ≤ 122 ∨ _
    rw [UInt32.toNat_add]
    omega
  next => exact .inl rfl

/-- Lower case keeps a character of a kind that the characters of names are of. -/
theorem IsPlain.toLower (h : IsPlain c) : IsPlain c.toLower := by
  rcases toLower_cases c with heq | hname
  · rwa [heq]
  · exact isPlain_of_isNameChar hname

theorem toLower_of_isNameChar (h : isNameChar c = true) : c.toLower = c := by
  unfold Char.toLower
  rw [dif_neg]
  intro hupper
  simp only [ge_iff_le, UInt32.le_iff_toNat_le] at hupper
  have hcases := isNameChar_iff.mp h
  have hA : 'A'.val.toNat = 65 := rfl
  have hZ : 'Z'.val.toNat = 90 := rfl
  have hcode : c.val.toNat = c.toNat := rfl
  omega

theorem toLower_idem (c : Char) : c.toLower.toLower = c.toLower := by
  rcases toLower_cases c with heq | hname
  · rw [heq, heq]
  · exact toLower_of_isNameChar hname

theorem validateName_eq_ok (h : validateName host = .ok ()) :
    host ≠ [] ∧ (∀ c ∈ host, isNameChar c = true) ∧ [] ∉ host.splitOn '.' := by
  unfold validateName at h
  split at h
  next => cases h
  next hne =>
    split at h
    next => cases h
    next =>
      split at h
      next => cases h
      next hall =>
        split at h
        next => cases h
        next hlabels =>
          refine ⟨hne, List.all_eq_true.mp (by simpa using hall), fun hmem => hlabels ?_⟩
          exact List.any_eq_true.mpr ⟨[], hmem, by simp⟩

theorem getLast?_of_validateName (h : validateName host = .ok ()) : host.getLast? ≠ some '.' := by
  intro hlast
  obtain ⟨-, -, hlabels⟩ := validateName_eq_ok h
  obtain ⟨labels, rfl⟩ := List.getLast?_eq_some_iff.mp hlast
  apply hlabels
  rw [List.splitOn_append_cons_self]
  exact List.mem_append_right _ (by simp)

theorem colon_notMem_of_validateName (h : validateName host = .ok ()) : ':' ∉ host := by
  intro hmem
  have hname := (validateName_eq_ok h).2.1 ':' hmem
  revert hname
  decide

theorem parsePort_lt {text : List Char} {port : Nat} (h : parsePort text = .ok port) : port < 65536 := by
  unfold parsePort at h
  split at h
  · cases h
  · split at h
    next hlt =>
      obtain rfl := Except.ok.inj h
      exact hlt
    next => cases h

theorem splitAuthority_spec {authority : List Char} (h : splitAuthority authority = .ok (host, port)) :
    host ⊆ authority ∧ (∀ p, port = some p → p < 65536) ∧ ']' ∉ host.dropLast := by
  unfold splitAuthority at h
  split at h
  next before rest hsp =>
    have hauth := splitOnce_eq hsp
    have hbef := splitOnce_before hsp
    split at h
    next => cases h
    next =>
      have hsub : before ++ [']'] ⊆ authority := by
        rw [hauth]
        exact List.subset_append_left _ _
      cases rest with
      | nil =>
        obtain ⟨rfl, rfl⟩ := Prod.mk.inj (Except.ok.inj h)
        exact ⟨hsub, by simp, by simpa using hbef⟩
      | cons c text =>
        dsimp only at h
        split at h
        next => cases h
        next =>
          obtain ⟨p, hport, h⟩ := bind_eq_ok.mp h
          obtain ⟨rfl, rfl⟩ := Prod.mk.inj (Except.ok.inj h)
          refine ⟨hsub, ?_, by simpa using hbef⟩
          rintro _ ⟨⟩
          exact parsePort_lt hport
  next hnone =>
    have hbrk : ']' ∉ authority := notMem_of_splitOnce hnone
    split at h
    next before text hsp =>
      have hsub : before ⊆ authority := by
        rw [rsplitOnce_eq hsp]
        exact List.subset_append_left _ _
      obtain ⟨p, hport, h⟩ := bind_eq_ok.mp h
      obtain ⟨rfl, rfl⟩ := Prod.mk.inj (Except.ok.inj h)
      refine ⟨hsub, ?_, fun hmem => hbrk (hsub (List.dropLast_subset _ hmem))⟩
      rintro _ ⟨⟩
      exact parsePort_lt hport
    next =>
      obtain ⟨rfl, rfl⟩ := Prod.mk.inj (Except.ok.inj h)
      exact ⟨List.Subset.refl _, by simp, fun hmem => hbrk (List.dropLast_subset _ hmem)⟩

theorem eq_of_toLower_eq_bracket (h : c.toLower = ']') : c = ']' := by
  rcases toLower_cases c with hsame | hname
  · rw [← hsame, h]
  · rw [h] at hname
    exact absurd hname (by decide)

theorem readHost_spec {written : List Char} (hpln : ∀ c ∈ written, IsPlain c) (hbrk : ']' ∉ written.dropLast)
    (h : readHost (written.map Char.toLower) = .ok host) : NormalHost host := by
  unfold readHost at h
  split at h
  next =>
    -- an address in brackets
    rw [← List.map_tail, ← List.map_dropLast] at h
    split at h
    next hipv6 =>
      obtain rfl := Except.ok.inj h
      refine ⟨?_, .inr ⟨hipv6, ?_, ?_⟩⟩
      · intro c hc
        obtain ⟨d, hd, rfl⟩ := List.mem_map.mp hc
        exact (hpln d (List.mem_of_mem_tail (List.dropLast_subset _ hd))).toLower
      · intro hmem
        obtain ⟨d, hd, heq⟩ := List.mem_map.mp hmem
        rw [← List.tail_dropLast, eq_of_toLower_eq_bracket heq] at hd
        exact hbrk (List.mem_of_mem_tail hd)
      · rw [List.map_map]
        exact List.map_congr_left fun c _ => toLower_idem c
    next => cases h
  next =>
    obtain ⟨⟨⟩, hval, h⟩ := bind_eq_ok.mp h
    obtain rfl := Except.ok.inj h
    exact ⟨fun c hc => isPlain_of_isNameChar ((validateName_eq_ok hval).2.1 c hc), .inl hval⟩

theorem readAuthority_spec {authority : List Char}
    (hch : ∀ c ∈ authority, endsAuthority c = false ∧ isRefused c = false)
    (h : readAuthority authority = .ok (host, port)) : NormalHost host ∧ ∀ p, port = some p → p < 65536 := by
  unfold readAuthority at h
  split at h
  next => cases h
  next hat =>
    split at h
    next => cases h
    next hpercent =>
      split at h
      next => cases h
      next =>
        obtain ⟨⟨written, port'⟩, hsp, h⟩ := bind_eq_ok.mp h
        obtain ⟨hsub, hport, hbrk⟩ := splitAuthority_spec hsp
        dsimp only at h
        split at h
        next => cases h
        next =>
          obtain ⟨host', hread, h⟩ := bind_eq_ok.mp h
          obtain ⟨rfl, rfl⟩ := Prod.mk.inj (Except.ok.inj h)
          have hpln : ∀ c ∈ written, IsPlain c := by
            intro c hc
            obtain ⟨hend, href⟩ := hch c (hsub hc)
            exact ⟨hend, fun heq => hat (heq ▸ hsub hc), fun heq => hpercent (heq ▸ hsub hc), href⟩
          exact ⟨readHost_spec hpln hbrk hread, hport⟩

/-! ### The text of an authority -/

theorem parsePort_toDigits {port : Nat} (h : port < 65536) : parsePort (Nat.toDigits 10 port) = .ok port := by
  have hdig : ∀ c ∈ Nat.toDigits 10 port, c.isDigit = true := fun c hc =>
    Nat.isDigit_of_mem_toDigits (by omega) (by omega) hc
  have hlen : (Nat.toDigits 10 port).length ≤ 5 :=
    (Nat.length_toDigits_le_iff (by omega) (by omega)).mpr (by omega)
  unfold parsePort
  rw [if_neg, Nat.ofDigitChars_ten_toDigits, if_pos h]
  rw [byteLength_of_digits hdig]
  rintro (hnil | hlong | hall)
  · exact Nat.toDigits_ne_nil hnil
  · omega
  · rw [List.all_eq_true.mpr hdig] at hall
    cases hall

theorem portText_chars (h : c ∈ Reference.part [':'] (port.map (Nat.toDigits 10))) :
    c = ':' ∨ c.isDigit = true := by
  cases port with
  | none => cases h
  | some port =>
    rcases List.mem_cons.mp h with rfl | hmem
    · exact .inl rfl
    · exact .inr (Nat.isDigit_of_mem_toDigits (by omega) (by omega) hmem)

theorem NormalHost.ne_nil (h : NormalHost host) : host ≠ [] := by
  rintro rfl
  rcases h.kind with hname | ⟨hipv6, -, -⟩
  · exact (validateName_eq_ok hname).1 rfl
  · cases colon_mem_of_isIpv6 hipv6

theorem NormalHost.hostText_cases (h : NormalHost host) :
    (isIpv6 host = true ∧ ']' ∉ host ∧ host.map Char.toLower = host ∧ hostText host = '[' :: (host ++ [']'])) ∨
    validateName host = .ok () ∧ ':' ∉ host ∧ hostText host = host := by
  rcases h.kind with hname | ⟨hipv6, hbrk, hlow⟩
  · have hcol := colon_notMem_of_validateName hname
    exact .inr ⟨hname, hcol, if_neg hcol⟩
  · exact .inl ⟨hipv6, hbrk, hlow, if_pos (colon_mem_of_isIpv6 hipv6)⟩

theorem splitAuthority_authorityText (h : NormalHost host)
    (hport : ∀ p, port = some p → p < 65536) : splitAuthority (authorityText host port) = .ok (hostText host, port) := by
  unfold splitAuthority authorityText
  rcases h.hostText_cases with ⟨hipv6, hbrk, -, htext⟩ | ⟨hname, hcol, htext⟩
  · have hsp : ∀ rest, splitOnce [']'] (hostText host ++ rest) = some ('[' :: host, rest) := by
      intro rest
      have hmem : ']' ∉ '[' :: host := by simpa using hbrk
      rw [htext, List.cons_append, List.append_assoc, ← List.cons_append]
      exact splitOnce_append rest hmem
    rw [hsp]
    dsimp only
    have hhead : ¬(hostText host ++ Reference.part [':'] (port.map (Nat.toDigits 10))).head? ≠ some '[' := by
      rw [htext]
      simp
    rw [if_neg hhead]
    cases port with
    | none =>
      rw [htext]
      rfl
    | some port =>
      simp only [Reference.part, Option.map_some, Option.elim_some, List.cons_append, List.nil_append]
      rw [parsePort_toDigits (hport port rfl), htext]
      rfl
  · have hch : ']' ∉ host := by
      intro hmem
      exact absurd ((validateName_eq_ok hname).2.1 _ hmem) (by decide)
    have hbrk : ']' ∉ hostText host ++ Reference.part [':'] (port.map (Nat.toDigits 10)) := by
      rw [htext, List.mem_append]
      rintro (hmem | hmem)
      · exact hch hmem
      · exact absurd (portText_chars hmem) (by decide)
    rw [splitOnce_of_notMem hbrk, htext]
    dsimp only
    cases port with
    | none =>
      rw [Option.map_none, Reference.part, Option.elim_none, List.append_nil, rsplitOnce_of_notMem hcol]
    | some port =>
      have hdig : ':' ∉ Nat.toDigits 10 port := not_mem_toDigits (by decide)
      have hrsplit := rsplitOnce_append host hdig
      simp only [Reference.part, Option.map_some, Option.elim_some, List.cons_append, List.nil_append, hrsplit]
      rw [parsePort_toDigits (hport port rfl)]
      rfl

theorem readHost_hostText (h : NormalHost host) :
    (hostText host).map Char.toLower = hostText host ∧ readHost (hostText host) = .ok host := by
  rcases h.hostText_cases with ⟨hipv6, -, hlow, htext⟩ | ⟨hname, -, htext⟩
  · rw [htext]
    constructor
    · rw [List.map_cons, List.map_append, hlow]
      rfl
    · have hinner : ('[' :: (host ++ [']'])).tail.dropLast = host := by simp
      have hends : ('[' :: (host ++ [']'])).head? = some '[' ∧ ('[' :: (host ++ [']'])).getLast? = some ']' := by
        constructor
        · rfl
        · rw [← List.cons_append, List.getLast?_append]
          rfl
      unfold readHost
      rw [if_pos hends, hinner, if_pos hipv6]
  · rw [htext]
    obtain ⟨hne, hch, -⟩ := validateName_eq_ok hname
    constructor
    · have hsame := List.map_congr_left fun c hc => toLower_of_isNameChar (hch c hc)
      rw [hsame, List.map_id']
    · have hhead : ¬(host.head? = some '[' ∧ host.getLast? = some ']') := by
        rintro ⟨hhead, -⟩
        exact absurd (hch _ (List.mem_of_mem_head? hhead)) (by decide)
      unfold readHost
      rw [if_neg hhead, if_neg (getLast?_of_validateName hname)]
      dsimp only
      rw [hname]
      rfl

theorem authorityText_plain (port : Option Nat) (h : NormalHost host) :
    ∀ c ∈ authorityText host port, IsPlain c := by
  intro c hc
  rcases List.mem_append.mp hc with hc | hc
  · rcases h.hostText_cases with ⟨-, -, -, htext⟩ | ⟨-, -, htext⟩
    · rw [htext, List.mem_cons, List.mem_append, List.mem_singleton] at hc
      rcases hc with rfl | hc | rfl
      · unfold IsPlain
        decide
      · exact h.plain c hc
      · unfold IsPlain
        decide
    · exact h.plain c (htext ▸ hc)
  · rcases portText_chars hc with rfl | hdgt
    · unfold IsPlain
      decide
    · exact isPlain_of_isNameChar (by simp [isNameChar, hdgt])

theorem readAuthority_authorityText (h : NormalHost host)
    (hport : ∀ p, port = some p → p < 65536) : readAuthority (authorityText host port) = .ok (host, port) := by
  have hpln := authorityText_plain port h
  have hne : hostText host ≠ [] := by
    rcases h.hostText_cases with ⟨-, -, -, htext⟩ | ⟨-, -, htext⟩
    · rw [htext]
      simp
    · rw [htext]
      exact h.ne_nil
  unfold readAuthority
  rw [if_neg fun hmem => (hpln _ hmem).2.1 rfl, if_neg fun hmem => (hpln _ hmem).2.2.1 rfl,
    if_neg fun hmem => absurd (hpln _ hmem).1 (by decide), splitAuthority_authorityText h hport]
  obtain ⟨hlow, hread⟩ := readHost_hostText h
  dsimp only [Bind.bind, Except.bind]
  rw [if_neg hne, hlow]
  dsimp only [pure, Except.pure]
  rw [hread]

/-! ### Tails -/

/-- What is written after a path is read and written again. -/
theorem suffix_splitQuery {afterPath : List Char}
    (h : afterPath = [] ∨ ∃ c rest, afterPath = c :: rest ∧ (c = '?' || c = '#') = true) :
    Reference.suffix (splitQuery afterPath).1 (splitQuery afterPath).2 = afterPath ∧
    ∀ query, (splitQuery afterPath).1 = some query → '#' ∉ query := by
  unfold splitQuery
  rcases h with rfl | ⟨c, rest, rfl, hc⟩
  · exact ⟨rfl, by simp [splitOnce, queryOf]⟩
  · cases hsp : splitOnce ['#'] (c :: rest) with
    | none =>
      have hmem := notMem_of_splitOnce hsp
      obtain rfl | rfl : c = '?' ∨ c = '#' := by simpa using hc
      · refine ⟨by simp [Reference.suffix, Reference.part, queryOf], ?_⟩
        rintro query ⟨⟩
        exact fun hq => hmem (List.mem_cons_of_mem _ hq)
      · exact absurd List.mem_cons_self hmem
    | some parts =>
      obtain ⟨query, fragment⟩ := parts
      have htext := splitOnce_eq hsp
      have hbef := splitOnce_before hsp
      cases query with
      | nil =>
        obtain ⟨rfl, rfl⟩ : c = '#' ∧ rest = fragment := by simpa using htext
        exact ⟨rfl, by simp [queryOf]⟩
      | cons d query =>
        obtain ⟨rfl, rfl⟩ : c = d ∧ rest = query ++ '#' :: fragment := by simpa using htext
        obtain rfl : c = '?' := by
          rcases (by simpa using hc : c = '?' ∨ c = '#') with rfl | rfl
          · rfl
          · exact absurd List.mem_cons_self hbef
        refine ⟨by simp [Reference.suffix, Reference.part, queryOf], ?_⟩
        rintro query' ⟨⟩
        exact fun hq => hbef (List.mem_cons_of_mem _ hq)

theorem splitQuery_suffix {fragment : Option (List Char)} (h : ∀ q, query = some q → '#' ∉ q) :
    splitQuery (Reference.suffix query fragment) = (query, fragment) := by
  have hqry : ∀ q, query = some q → '#' ∉ '?' :: q := fun q hq => by simpa using h q hq
  unfold splitQuery Reference.suffix Reference.part
  cases query with
  | none =>
    cases fragment with
    | none => rfl
    | some f => rfl
  | some q =>
    cases fragment with
    | none =>
      simp only [Option.elim_some, Option.elim_none, List.append_nil, List.cons_append, List.nil_append]
      rw [splitOnce_of_notMem (hqry q rfl)]
      rfl
    | some f =>
      simp only [Option.elim_some, List.cons_append, List.nil_append]
      have hcut := splitOnce_append f (hqry q rfl)
      rw [List.cons_append] at hcut
      rw [hcut]
      rfl

theorem suffix_cases (query fragment : Option (List Char)) :
    Reference.suffix query fragment = [] ∨
    ∃ c rest, Reference.suffix query fragment = c :: rest ∧ (c = '?' || c = '#') = true := by
  cases query with
  | some query => exact .inr ⟨'?', _, rfl, rfl⟩
  | none =>
    cases fragment with
    | some fragment => exact .inr ⟨'#', _, rfl, rfl⟩
    | none => exact .inl rfl

/-- A path and a query that are read back from their text. -/
structure IsWritten (path : List Char) (query : Option (List Char)) : Prop where
  rooted : ∃ rest, path = '/' :: rest
  path_chars : ∀ c ∈ path, (c = '?' || c = '#') = false
  query_chars : ∀ q, query = some q → '#' ∉ q

theorem splitTail_spec (h : IsTail tail) :
    IsWritten (splitTail tail).1 (splitTail tail).2.1 ∧
    ((splitTail tail).1 ++ Reference.suffix (splitTail tail).2.1 (splitTail tail).2.2 = tail ∨
      (splitTail tail).1 ++ Reference.suffix (splitTail tail).2.1 (splitTail tail).2.2 = '/' :: tail) := by
  unfold splitTail
  generalize hcut : cutAt (fun c => c = '?' || c = '#') tail = cut
  obtain ⟨path, afterPath⟩ := cut
  obtain ⟨hsuffix, hqry⟩ := suffix_splitQuery (cutAt_after hcut)
  have htail := cutAt_append_eq hcut
  dsimp only
  rw [hsuffix]
  by_cases hpath : path = []
  · subst hpath
    rw [if_pos rfl]
    exact ⟨⟨⟨[], rfl⟩, by simp, hqry⟩, .inr (by rw [htail]; rfl)⟩
  · rw [if_neg hpath]
    refine ⟨⟨?_, cutAt_before hcut, hqry⟩, .inl htail.symm⟩
    obtain ⟨c, rest, rfl⟩ := List.exists_cons_of_ne_nil hpath
    have hc := cutAt_before hcut c List.mem_cons_self
    rw [htail] at h
    obtain ⟨d, others, heq, hd⟩ := h.resolve_left (by simp)
    obtain ⟨rfl, -⟩ := List.cons_eq_cons.mp heq
    refine ⟨rest, ?_⟩
    rcases hd with rfl | rfl | rfl
    · rfl
    · cases hc
    · cases hc

theorem splitTail_append {path : List Char} {fragment : Option (List Char)} (h : IsWritten path query) :
    splitTail (path ++ Reference.suffix query fragment) = (path, query, fragment) := by
  obtain ⟨rest, hrooted⟩ := h.rooted
  unfold splitTail
  rw [cutAt_append h.path_chars (suffix_cases query fragment)]
  dsimp only
  rw [if_neg (by rw [hrooted]; simp), splitQuery_suffix h.query_chars]

/-! ### Round trips -/

structure Accepted (u : ParsedUrl) : Prop where
  host : NormalHost u.host
  port : u.port < 65536
  written : IsWritten u.path u.query
  clean : ∀ c ∈ u.path ++ Reference.suffix u.query u.fragment, isRefused c = false

theorem parse_accepted {url : List Char} (h : parse url = .ok u) : u.Accepted := by
  obtain ⟨scheme, https, authority, tail, host, port, rfl, hcln, -, hauth, htail, hread, rfl⟩ := parse_iff.mp h
  have hch : ∀ c ∈ authority, endsAuthority c = false ∧ isRefused c = false := fun c hc =>
    ⟨hauth c hc, hcln c (by simp [hc])⟩
  obtain ⟨hhost, hport⟩ := readAuthority_spec hch hread
  obtain ⟨hwrtn, htext⟩ := splitTail_spec htail
  refine ⟨hhost, ?_, hwrtn, ?_⟩
  · cases port with
    | none =>
      change defaultPort https < 65536
      unfold defaultPort
      split <;> omega
    | some port => exact hport port rfl
  · intro c hc
    change c ∈ (splitTail tail).1 ++ Reference.suffix (splitTail tail).2.1 (splitTail tail).2.2 at hc
    rcases htext with htext | htext
    · rw [htext] at hc
      exact hcln c (by simp [hc])
    · rw [htext] at hc
      rcases List.mem_cons.mp hc with rfl | hc
      · decide
      · exact hcln c (by simp [hc])

theorem Accepted.portToWrite_lt (h : u.Accepted) : ∀ p, u.portToWrite = some p → p < 65536 := by
  intro p hp
  unfold portToWrite at hp
  split at hp
  · cases hp
  · obtain rfl := Option.some.inj hp
    exact h.port

theorem portToWrite_getD (u : ParsedUrl) : u.portToWrite.getD (defaultPort u.https) = u.port := by
  unfold portToWrite
  split
  next heq => exact heq.symm
  next => rfl

theorem readScheme_schemeText (https : Bool) : readScheme (schemeText https) = .ok https :=
  readScheme_eq_ok.mpr (by cases https <;> decide)

theorem schemeText_clean (https : Bool) : ∀ c ∈ schemeText https ++ "://".toList, isRefused c = false := by
  have hall : ∀ https, (schemeText https ++ "://".toList).all (!isRefused ·) = true := by decide
  intro c hc
  simpa using List.all_eq_true.mp (hall https) c hc

/-- A tail is read after the scheme and the authority of a URL that is accepted. -/
theorem parse_origin (h : u.Accepted) (htail : IsTail tail) (hcln : ∀ c ∈ tail, isRefused c = false) :
    parse (u.origin ++ tail) = .ok (assembled u.https u.host u.portToWrite tail) := by
  have hpln := authorityText_plain u.portToWrite h.host
  apply parse_iff.mpr
  refine ⟨schemeText u.https, u.https, authorityText u.host u.portToWrite, tail, u.host, u.portToWrite, ?_, ?_,
    readScheme_schemeText _, fun c hc => (hpln c hc).1, htail,
    readAuthority_authorityText h.host h.portToWrite_lt, rfl⟩
  · unfold origin
    simp only [List.append_assoc]
  · intro c hc
    unfold origin at hc
    rcases List.mem_append.mp hc with hc | hc
    · rcases List.mem_append.mp hc with hc | hc
      · exact schemeText_clean _ c hc
      · exact (hpln c hc).2.2.2
    · exact hcln c hc

theorem IsWritten.isTail {path : List Char} (h : IsWritten path query) (rest : List Char) : IsTail (path ++ rest) := by
  obtain ⟨others, rfl⟩ := h.rooted
  exact .inr ⟨'/', others ++ rest, rfl, .inl rfl⟩

/-- The text of a URL is read as the same URL; only whether the port was written may differ. -/
theorem parse_asString (h : u.Accepted) :
    parse u.asString = .ok { u with explicitPort := u.portToWrite.isSome } := by
  unfold asString
  rw [List.append_assoc, parse_origin h (h.written.isTail _) h.clean]
  unfold assembled
  rw [splitTail_append h.written, portToWrite_getD]

end ParsedUrl

end Adk
