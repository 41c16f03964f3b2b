import AdkRust.Harness.Url
import Mathlib.Data.List.Infix

/-!
# Redirects of the web tools

* `join`: where a location leads from a URL.
* `join_local`: a location without an authority is set behind the origin of the URL.
* `join_eq`: a redirect leads where the reference resolves to, its dot segments left in.
-/

namespace Adk

namespace ParsedUrl

/-- Resolves a location against a URL, as a redirect target. -/
def join (url : ParsedUrl) (location : List Char) : Except UrlRefusal ParsedUrl :=
  let location := trimmed location
  if "://".toList <:+: location then parse location
  else if "//".toList.isPrefixOf location then
    parse (schemeText url.https ++ ":".toList ++ "//".toList ++ location.drop 2)
  else
    let base := { url with path := [], query := none, fragment := none }
    if "/".toList.isPrefixOf location then parse (base.asString ++ location)
    else
      let dir := (rsplitOnce '/' url.path).elim ['/'] fun parts => parts.1 ++ ['/']
      parse (base.asString ++ dir ++ location)

def reference (u : ParsedUrl) : Reference :=
  ⟨some (schemeText u.https), some (authorityText u.host u.portToWrite), u.path, u.query, u.fragment⟩

/-- Two slashes before a query or a fragment are the path's. -/
theorem prefix_path {path : List Char} {query fragment : Option (List Char)}
    (h : ['/', '/'] <+: path ++ Reference.suffix query fragment) : ['/', '/'] <+: path := by
  have hsl : ∀ rest, ¬ '/' :: rest = Reference.suffix query fragment := by
    intro rest heq
    rcases suffix_cases query fragment with hnil | ⟨c, others, hcons, hc⟩
    · rw [hnil] at heq
      cases heq
    · rw [hcons] at heq
      obtain ⟨rfl, -⟩ := List.cons_eq_cons.mp heq
      cases hc
  obtain ⟨rest, hrest⟩ := h
  obtain _ | ⟨c, _ | ⟨d, others⟩⟩ := path
  · exact absurd hrest (hsl _)
  · obtain ⟨-, hrest⟩ := List.cons_eq_cons.mp hrest
    exact absurd hrest (hsl _)
  · obtain ⟨rfl, rfl, -⟩ : '/' = c ∧ '/' = d ∧ rest = others ++ Reference.suffix query fragment := by
      simpa using hrest
    exact ⟨others, rfl⟩

variable {r : Reference} {t u : ParsedUrl}

theorem authority_of_parse (hval : r.Valid) (hsch : r.scheme.isSome = true)
    (h : parse r.text = .ok t) : r.authority.isSome = true := by
  by_contra hnone
  obtain ⟨scheme, hsch⟩ := Option.isSome_iff_exists.mp hsch
  have hauth : r.authority = none := by simpa using hnone
  obtain ⟨scheme', https, authority, tail, host, port, htext, -, hread, -⟩ := parse_iff.mp h
  have hcol : ':' ∉ scheme := fun hmem => by
    have hchar := hval.scheme_chars scheme hsch ':' hmem
    revert hchar
    decide
  have hsp := splitOnce_append (r.path ++ Reference.suffix r.query r.fragment) hcol
  have hsp' := splitOnce_append ("//".toList ++ (authority ++ tail)) (colon_notMem_scheme (readScheme_eq_ok.mp hread))
  have heq : scheme ++ ':' :: (r.path ++ Reference.suffix r.query r.fragment) =
      scheme' ++ ':' :: ("//".toList ++ (authority ++ tail)) := by
    have hleft : r.text = scheme ++ ':' :: (r.path ++ Reference.suffix r.query r.fragment) := by
      simp [Reference.text, Reference.part, hsch, hauth]
    rw [← hleft, htext]
    rfl
  rw [heq, hsp'] at hsp
  obtain ⟨-, hpath⟩ := Prod.mk.inj (Option.some.inj hsp)
  exact hval.single hauth (prefix_path ⟨authority ++ tail, hpath⟩)

/-- A URL without its path, query and fragment is written as its origin. -/
theorem asString_base (u : ParsedUrl) : asString { u with path := [], query := none, fragment := none } = u.origin := by
  simp [asString, origin, Reference.suffix, Reference.part, portToWrite]

theorem rsplitOnce_path (h : u.Accepted) :
    ∃ dir file, rsplitOnce '/' u.path = some (dir, file) ∧ ∃ rest, dir ++ ['/'] = '/' :: rest := by
  obtain ⟨rest, hrooted⟩ := h.written.rooted
  cases hsp : rsplitOnce '/' u.path with
  | none =>
    have hmem : '/' ∈ u.path := by
      rw [hrooted]
      exact List.mem_cons_self
    have hnone := notMem_of_splitOnce (Option.map_eq_none_iff.mp hsp)
    exact absurd (List.mem_reverse.mpr hmem) hnone
  | some parts =>
    obtain ⟨dir, file⟩ := parts
    refine ⟨dir, file, rfl, ?_⟩
    have hpath := rsplitOnce_eq hsp
    rw [hrooted] at hpath
    cases dir with
    | nil => exact ⟨[], rfl⟩
    | cons c dir =>
      obtain ⟨rfl, -⟩ := List.cons_eq_cons.mp hpath
      exact ⟨dir ++ ['/'], rfl⟩

/-- Where a reference without a scheme and an authority leads, and how that is written. -/
theorem join_local (h : u.Accepted) (hval : r.Valid) (hsch : r.scheme = none)
    (hauth : r.authority = none) (hmark : ¬"://".toList <:+: r.text) :
    ∃ tail, IsTail tail ∧ join u r.text = parse (u.origin ++ tail) ∧
      (r.path ≠ [] → (Reference.resolve id u.reference r).text = u.origin ++ tail) := by
  have htext : r.text = r.path ++ Reference.suffix r.query r.fragment := by
    simp [Reference.text, Reference.part, hsch, hauth]
  have hdouble : ¬"//".toList.isPrefixOf r.text = true := by
    rw [List.isPrefixOf_iff_prefix, htext]
    exact fun hpre => hval.single hauth (prefix_path hpre)
  have hfst : "/".toList.isPrefixOf r.text = ['/'].isPrefixOf r.path := by
    rw [htext]
    cases r.path with
    | nil =>
      rcases suffix_cases r.query r.fragment with hnil | ⟨c, rest, hcons, hc⟩
      · rw [hnil]
        rfl
      · rw [List.nil_append, hcons]
        obtain rfl | rfl : c = '?' ∨ c = '#' := by simpa using hc
        · rfl
        · rfl
    | cons c rest => simp [List.isPrefixOf]
  have hjoin : join u r.text = if ['/'].isPrefixOf r.path = true then parse (u.origin ++ r.text)
      else parse (u.origin ++ ((rsplitOnce '/' u.path).elim ['/'] fun parts => parts.1 ++ ['/']) ++ r.text) := by
    unfold join
    rw [trimmed_eq hval.no_space]
    dsimp only
    rw [if_neg hmark, if_neg hdouble, asString_base, hfst]
  rw [hjoin]
  unfold Reference.resolve
  rw [hsch, hauth]
  dsimp only [id]
  by_cases hsl : ['/'].isPrefixOf r.path = true
  · rw [if_pos hsl]
    refine ⟨r.text, ?_, rfl, fun hpath => ?_⟩
    · obtain ⟨others, hoths⟩ := List.isPrefixOf_iff_prefix.mp hsl
      rw [htext, ← hoths]
      exact .inr ⟨'/', _, rfl, .inl rfl⟩
    · rw [if_neg hpath, if_pos hsl, htext]
      simp [reference, Reference.text, Reference.part, origin]
  · obtain ⟨dir, file, hsp, others, hdir⟩ := rsplitOnce_path h
    rw [if_neg hsl, hsp, Option.elim_some]
    refine ⟨dir ++ ['/'] ++ r.text, ?_, by rw [List.append_assoc], fun hpath => ?_⟩
    · rw [hdir]
      exact .inr ⟨'/', _, rfl, .inl rfl⟩
    · have hmerge : u.reference.merge r.path = dir ++ '/' :: r.path := by
        obtain ⟨rest, hrooted⟩ := h.written.rooted
        have hpath : rsplitOnce '/' u.reference.path = some (dir, file) := hsp
        unfold Reference.merge
        rw [if_neg, hpath]
        · rintro ⟨-, hnil⟩
          change u.path = [] at hnil
          rw [hrooted] at hnil
          cases hnil
      rw [if_neg hpath, if_neg hsl, hmerge, htext]
      simp [reference, Reference.text, Reference.part, origin]

theorem parse_local (hval : r.Valid) (hsch : r.scheme = none) (hauth : r.authority = none) : parse r.text ≠ .ok t := by
  intro hpar
  obtain ⟨scheme, https, authority, tail, host, port, htext, -, hread, -⟩ := parse_iff.mp hpar
  have hlow := readScheme_eq_ok.mp hread
  have hsl : '/' ∉ scheme ++ [':'] := by simpa using notMem_scheme (c := '/') hlow (by decide)
  have hcol : ':' ∉ (cutAt (· = '/') r.path).1 := hval.segment hsch hauth
  have heq : (scheme ++ [':']) ++ ("//".toList ++ (authority ++ tail)) =
      r.path ++ Reference.suffix r.query r.fragment := by
    have hleft : r.text = r.path ++ Reference.suffix r.query r.fragment := by
      simp [Reference.text, Reference.part, hsch, hauth]
    rw [← hleft, htext, List.append_assoc]
    rfl
  -- the scheme and its colon reach into the path only, or beyond it
  have hwin : ∀ others, r.path ≠ scheme ++ [':'] ++ others := by
    intro others hpath
    apply hcol
    rw [hpath]
    unfold cutAt
    rw [List.takeWhile_append_of_pos]
    · simp
    · intro c hc
      have hne : c ≠ '/' := fun heq => hsl (heq ▸ hc)
      simpa using hne
  rcases List.append_eq_append_iff.mp heq with ⟨others, hpath, -⟩ | ⟨others, hover, hsuffix⟩
  · exact hwin others hpath
  · cases others with
    | nil => exact hwin [] (by rw [hover]; simp)
    | cons c others =>
      obtain ⟨d, rest, hcons, hd⟩ := (suffix_cases r.query r.fragment).resolve_left (by rw [hsuffix]; simp)
      rw [hcons] at hsuffix
      obtain ⟨rfl, -⟩ := List.cons_eq_cons.mp hsuffix
      have hmem : d ∈ scheme ++ [':'] := by
        rw [hover]
        simp
      obtain rfl | rfl : d = '?' ∨ d = '#' := by simpa using hd
      · exact absurd (by simpa using hmem) (notMem_scheme (c := '?') hlow (by decide))
      · exact absurd (by simpa using hmem) (notMem_scheme (c := '#') hlow (by decide))

theorem join_origin (h : u.Accepted) (hval : r.Valid) (hsch : r.scheme = none)
    (hauth : r.authority = none) (hjoin : join u r.text = .ok t) :
    t.https = u.https ∧ t.host = u.host ∧ t.port = u.port := by
  by_cases hmark : "://".toList <:+: r.text
  · unfold join at hjoin
    rw [trimmed_eq hval.no_space] at hjoin
    dsimp only at hjoin
    rw [if_pos hmark] at hjoin
    exact absurd hjoin (parse_local hval hsch hauth)
  · obtain ⟨tail, htail, heq, -⟩ := join_local h hval hsch hauth hmark
    rw [heq] at hjoin
    obtain ⟨scheme, https, authority, tail', host, port, htext, hcln, -⟩ := parse_iff.mp hjoin
    rw [parse_origin h htail fun c hc => hcln c (List.mem_append_right _ hc)] at hjoin
    obtain rfl := Except.ok.inj hjoin
    exact ⟨rfl, rfl, portToWrite_getD u⟩

/-- A redirect leads where the reference resolves to, the dot segments left in: its text is that of the resolution. -/
theorem join_eq (h : u.Accepted) (hval : r.Valid)
    (hshape : r.scheme.isSome = true ∨ r.authority.isSome = true ∨ r.path ≠ [])
    (hmark : "://".toList <:+: r.text → r.scheme.isSome = true)
    (hpar : parse (Reference.resolve id u.reference r).text = .ok t) : join u r.text = .ok t := by
  cases hsch : r.scheme with
  | some scheme =>
    have hself : Reference.resolve id u.reference r = r := by
      unfold Reference.resolve
      rw [hsch]
      obtain ⟨_, authority, path, query, fragment⟩ := r
      obtain rfl := hsch
      rfl
    rw [hself] at hpar
    obtain ⟨authority, hauth⟩ := Option.isSome_iff_exists.mp
      (authority_of_parse hval (by rw [hsch]; rfl) hpar)
    have hinfix : "://".toList <:+: r.text := by
      refine ⟨scheme, authority ++ r.path ++ Reference.suffix r.query r.fragment, ?_⟩
      simp [Reference.text, Reference.part, hsch, hauth]
    unfold join
    rw [trimmed_eq hval.no_space]
    dsimp only
    rw [if_pos hinfix, hpar]
  | none =>
    have hnomark : ¬"://".toList <:+: r.text := by
      intro hinfix
      have hsome := hmark hinfix
      rw [hsch] at hsome
      cases hsome
    cases hauth : r.authority with
    | some authority =>
      have htext : r.text = "//".toList ++ (authority ++ r.path ++ Reference.suffix r.query r.fragment) := by
        simp [Reference.text, Reference.part, hsch, hauth]
      have hdouble : "//".toList.isPrefixOf r.text = true := List.isPrefixOf_iff_prefix.mpr ⟨_, htext.symm⟩
      have hresolve : (Reference.resolve id u.reference r).text =
          schemeText u.https ++ ":".toList ++ "//".toList ++ r.text.drop 2 := by
        unfold Reference.resolve
        rw [hsch, hauth, htext]
        simp [reference, Reference.text, Reference.part]
      unfold join
      rw [trimmed_eq hval.no_space]
      dsimp only
      rw [if_neg hnomark, if_pos hdouble, ← hresolve, hpar]
    | none =>
      have hpath : r.path ≠ [] := by
        rcases hshape with hsome | hsome | hpath
        · rw [hsch] at hsome
          cases hsome
        · rw [hauth] at hsome
          cases hsome
        · exact hpath
      obtain ⟨tail, -, hjoin, hresolve⟩ := join_local h hval hsch hauth hnomark
      rw [hjoin, ← hresolve hpath, hpar]

/-- The parts of a URL that tell where it leads. -/
def SameUrl (u t : ParsedUrl) : Prop :=
  t.https = u.https ∧ t.host = u.host ∧ t.port = u.port ∧ t.path = u.path ∧ t.query = u.query ∧ t.fragment = u.fragment

theorem valid_of_path {path : List Char} {query : Option (List Char)}
    (hpath : path.all (fun c => c ≠ '?' && c ≠ '#') = true) (hsingle : ¬['/', '/'] <+: path)
    (hsegment : ':' ∉ (cutAt (· = '/') path).1) (hqry : query.all (fun q => '#' ∉ q) = true)
    (hspace : (path ++ Reference.suffix query none).all (!isWhiteSpace ·) = true) :
    (Reference.mk none none path query none).Valid := by
  refine ⟨by simp, by simp, ?_, by simp, fun _ => hsingle, fun _ _ => hsegment, ?_, ?_⟩
  · simpa using hpath
  · intro q hq
    obtain rfl : query = some q := hq
    simpa using hqry
  · intro c hc
    have htext : (Reference.mk none none path query none).text = path ++ Reference.suffix query none := by
      simp [Reference.text, Reference.part]
    rw [htext] at hc
    simpa using List.all_eq_true.mp hspace c hc

/-- URLs survive normalisation, and redirects lead where they resolve to. -/
theorem redirected {url : List Char} {u : ParsedUrl} (h : parse url = .ok u) :
    (∃ t, parse u.asString = .ok t ∧ SameUrl u t) ∧
    ∀ r : Reference, r.Valid →
      (∀ t, r.scheme.isSome = true ∨ r.authority.isSome = true ∨ r.path ≠ [] →
        ("://".toList <:+: r.text → r.scheme.isSome = true) →
        parse (Reference.resolve id u.reference r).text = .ok t → join u r.text = .ok t) ∧
      (∀ t, r.scheme = none → r.authority = none → join u r.text = .ok t →
        t.https = u.https ∧ t.host = u.host ∧ t.port = u.port) := by
  have haccepted := parse_accepted h
  refine ⟨⟨_, parse_asString haccepted, rfl, rfl, rfl, rfl, rfl, rfl⟩, fun r hvalid => ⟨?_, ?_⟩⟩
  · intro t hshape hmark hparse
    exact join_eq haccepted hvalid hshape hmark hparse
  · intro t hscheme hauthority hjoin
    exact join_origin haccepted hvalid hscheme hauthority hjoin

theorem redirected_docs :
    (∃ t, parse (asString ⟨true, "docs.rs".toList, 443, false, "/a/b".toList, none, none⟩) = .ok t ∧
      SameUrl ⟨true, "docs.rs".toList, 443, false, "/a/b".toList, none, none⟩ t) ∧
    join ⟨true, "docs.rs".toList, 443, false, "/a/b".toList, none, none⟩ "c?x=1".toList =
      .ok ⟨true, "docs.rs".toList, 443, false, "/a/c".toList, some "x=1".toList, none⟩ := by
  have hparse : parse "https://docs.rs/a/b".toList =
      .ok ⟨true, "docs.rs".toList, 443, false, "/a/b".toList, none, none⟩ := by decide +kernel
  have hvalid : (Reference.mk none none "c".toList (some "x=1".toList) none).Valid := by
    apply valid_of_path <;> decide +kernel
  obtain ⟨hsame, hredirect⟩ := redirected hparse
  exact ⟨hsame, (hredirect _ hvalid).1 _ (.inr (.inr (by decide))) (by decide +kernel) (by decide +kernel)⟩

/-- A reference that resolves to a URL, where the redirect does not lead. -/
def Misses (u : ParsedUrl) (r : Reference) : Prop :=
  r.Valid ∧ ∃ t, parse (Reference.resolve removeDotSegments u.reference r).text = .ok t ∧
    ∀ t', join u r.text = .ok t' → ¬SameUrl t t'

theorem Misses.of_path {v : ParsedUrl} (hval : r.Valid)
    (hpar : parse (Reference.resolve removeDotSegments u.reference r).text = .ok t) (hjoin : join u r.text = .ok v)
    (hne : v.path ≠ t.path) : Misses u r := by
  refine ⟨hval, t, hpar, fun w hw hsame => ?_⟩
  obtain rfl := Except.ok.inj (hjoin.symm.trans hw)
  exact hne hsame.2.2.2.1

theorem Misses.of_error {e : UrlRefusal} (hval : r.Valid)
    (hpar : parse (Reference.resolve removeDotSegments u.reference r).text = .ok t) (hjoin : join u r.text = .error e) :
    Misses u r := by
  refine ⟨hval, t, hpar, fun v hv => ?_⟩
  rw [hjoin] at hv
  cases hv

/-- Dot segments stay, a `://` in a query is taken for a scheme's, and a query alone is set into the directory. -/
theorem redirected_astray : ∃ url u, parse url = .ok u ∧ Misses u ⟨none, none, "/b/../c".toList, none, none⟩ ∧
    Misses u ⟨none, none, "c".toList, some "to=http://d".toList, none⟩ ∧
    Misses u ⟨none, none, [], some "page=2".toList, none⟩ := by
  have hbase : parse "https://h/a/b".toList = .ok ⟨true, "h".toList, 443, false, "/a/b".toList, none, none⟩ := by
    decide +kernel
  refine ⟨_, _, hbase, ?_, ?_, ?_⟩
  · apply Misses.of_path (t := ⟨true, "h".toList, 443, false, "/c".toList, none, none⟩)
      (v := ⟨true, "h".toList, 443, false, "/b/../c".toList, none, none⟩)
    · apply valid_of_path <;> decide +kernel
    · decide +kernel
    · decide +kernel
    · decide +kernel
  · apply Misses.of_error (t := ⟨true, "h".toList, 443, false, "/a/c".toList, some "to=http://d".toList, none⟩)
      (e := .notHttp)
    · apply valid_of_path <;> decide +kernel
    · decide +kernel
    · decide +kernel
  · apply Misses.of_path (t := ⟨true, "h".toList, 443, false, "/a/b".toList, some "page=2".toList, none⟩)
      (v := ⟨true, "h".toList, 443, false, "/a/".toList, some "page=2".toList, none⟩)
    · apply valid_of_path <;> decide +kernel
    · decide +kernel
    · decide +kernel
    · decide +kernel

end ParsedUrl

end Adk
