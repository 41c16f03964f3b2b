import AdkRust.Lib.FileTree
import Mathlib.Data.List.Basic

/-!
# Paths of text

What the file tools and the approval rules do with a path before they look at what it names.

* `PathBuf.new`, `PathBuf.join`, `PathBuf.parent`: a path as its components.
* `PathBuf.normalize`, `PathBuf.lexical`: without `.` and `..`, and without `.` alone.
* `PathBuf.ancestor`: the deepest part of a path that exists.
* `PathBuf.normalize_absolute`: a path from the root is normalized to the path of a place.
* `PathBuf.normalize_eq_lexical`: both agree where nothing goes up.
* `PathBuf.ancestor_spec`: what is below the deepest part does not exist.
-/

namespace Adk

/-- The file names of an operating system, with their texts. -/
class OsStr (N : Type) where
  ofStr : String → N
  toStringLossy : N → String

instance : OsStr String where
  ofStr := id
  toStringLossy := id

variable {N : Type} [DecidableEq N] [OsStr N]

/-- The parts of a text between the characters of a kind. -/
def splitText (separator : Char → Bool) (text : String) : List String :=
  (text.toList.splitOnP separator).map String.ofList

/-- What a part of a path's text stands for, if it is not dropped. -/
def Component.ofText (part : String) : Option (Component N) :=
  if part = "" ∨ part = "." then none
  else if part = ".." then some .parentDir
  else some (.normal (OsStr.ofStr part))

def Component.text : Component N → String
  | .rootDir => ""
  | .curDir => "."
  | .parentDir => ".."
  | .normal name => OsStr.toStringLossy name

namespace PathBuf

/-- The components of a text. A `.` stays only where the path starts with it. -/
def new (text : String) : PathBuf N :=
  let parts := splitText (· = '/') text
  let start : PathBuf N :=
    if text.toList.head? = some '/' then [.rootDir] else if parts.head? = some "." then [.curDir] else []
  start ++ parts.filterMap Component.ofText

def isAbsolute (path : PathBuf N) : Bool := path.head? = some .rootDir

/-- A path after another, which is not empty. -/
def join (base path : PathBuf N) : PathBuf N :=
  if path.isAbsolute then path else base ++ path.filter (· ≠ .curDir)

def push (path : PathBuf N) (part : Component N) : PathBuf N :=
  match part with
  | .rootDir => [.rootDir]
  | part => path ++ [part]

omit [DecidableEq N] [OsStr N] in
/-- A path without its last component, unless that is the root. -/
def parent (path : PathBuf N) : Option (PathBuf N) :=
  match path.getLast? with
  | none => none
  | some .rootDir => none
  | some _ => some path.dropLast

def pop (path : PathBuf N) : PathBuf N := path.parent.getD path

def startsWith (path base : PathBuf N) : Bool := base.isPrefixOf path

def stripPrefix (path base : PathBuf N) : Option (PathBuf N) :=
  if path.startsWith base then some (path.drop base.length) else none

/-- The text of a relative path. -/
def toStringLossy (path : PathBuf N) : String := "/".intercalate (path.map Component.text)

def normalizePart (out : PathBuf N) (part : Component N) : PathBuf N :=
  match part with
  | .parentDir => out.pop
  | .curDir => out
  | other => out.push other

/-- A path without `.` and `..`, as written. -/
def normalize (path : PathBuf N) : PathBuf N := path.foldl normalizePart []

/-- One component of a path that keeps its `..`. -/
def lexicalPart (out : PathBuf N) (part : Component N) : PathBuf N :=
  match part with
  | .curDir => out
  | other => out.push other

/-- A path without `.`. -/
def lexical (path : PathBuf N) : PathBuf N := path.foldl lexicalPart []

def requested (root : PathBuf N) (text : String) : PathBuf N :=
  let path : PathBuf N := new text
  if path.isAbsolute then path else root.join path

/-- What the search for the deepest part of a path that exists ends with. -/
inductive Ancestor (N : Type) where
  | found (existing : PathBuf N) (canonical : List N)
  /-- An entry exists that does not canonicalize: a dangling or looping symlink. -/
  | blocked
  /-- Nothing exists below the root. -/
  | outside

variable {path rest : PathBuf N}

omit [DecidableEq N] [OsStr N] in
theorem length_of_parent {parent : PathBuf N} (h : path.parent = some parent) : parent.length < path.length := by
  unfold PathBuf.parent at h
  split at h
  · cases h
  · cases h
  · next hlast =>
    obtain rfl := Option.some.inj h
    have hne : path ≠ [] := by
      rintro rfl
      simp at hlast
    have := List.length_pos_iff.mpr hne
    rw [List.length_dropLast]
    omega

def ancestor (tree : FileTree N) (links : Nat) (root existing : PathBuf N) : Ancestor N :=
  match tree.canonicalize links existing with
  | some canonical => .found existing canonical
  | none =>
    if (tree.symlinkMetadata links existing).isSome then .blocked
    else
      match _h : existing.parent with
      | some parent => if parent.startsWith root then ancestor tree links root parent else .outside
      | none => .outside
termination_by existing.length
decreasing_by exact length_of_parent _h

/-! ## Components -/

omit [DecidableEq N] [OsStr N] in
@[simp] theorem push_normal (path : PathBuf N) (name : N) : path.push (.normal name) = path ++ [.normal name] := rfl

omit [DecidableEq N] [OsStr N] in
@[simp] theorem parent_concat (path : PathBuf N) (name : N) : parent (path ++ [.normal name]) = some path := by
  simp [parent]

omit [DecidableEq N] [OsStr N] in
@[simp] theorem pop_concat (path : PathBuf N) (name : N) : pop (path ++ [.normal name]) = path := by
  simp [pop]

omit [OsStr N] in
theorem startsWith_iff {base : PathBuf N} : path.startsWith base = true ↔ base <+: path :=
  List.isPrefixOf_iff_prefix

omit [OsStr N] in
theorem stripPrefix_eq_some {base : PathBuf N} : path.stripPrefix base = some rest ↔ path = base ++ rest := by
  unfold stripPrefix
  split
  · next h =>
    obtain ⟨back, rfl⟩ := startsWith_iff.mp h
    simp [eq_comm]
  · next h =>
    simp only [reduceCtorEq, false_iff]
    rintro rfl
    exact h (startsWith_iff.mpr (List.prefix_append _ _))

omit [OsStr N] in
theorem join_names (base : PathBuf N) (back : List N) : base.join (names back) = base ++ names back := by
  have habsolute : isAbsolute (names back) = false := by cases back <;> simp [isAbsolute]
  have hnames : (names back).filter (· ≠ .curDir) = names back := by simp [names]
  rw [join, habsolute, hnames]
  rfl

omit [DecidableEq N] in
theorem ofText_ne_rootDir {part : String} {component : Component N} (h : Component.ofText part = some component) :
    component ≠ .rootDir := by
  unfold Component.ofText at h
  split at h
  · cases h
  · split at h <;> obtain rfl := Option.some.inj h <;> simp

theorem requested_absolute (place : List N) (text : String) :
    ∃ rest, .rootDir ∉ rest ∧ requested (ofPlace place) text = .rootDir :: rest := by
  have hpts : ∀ parts : List String, (.rootDir : Component N) ∉ parts.filterMap Component.ofText := by
    intro parts hmem
    obtain ⟨part, -, hpart⟩ := List.mem_filterMap.mp hmem
    exact ofText_ne_rootDir hpart rfl
  unfold requested
  by_cases hsl : text.toList.head? = some '/'
  · refine ⟨(splitText (· = '/') text).filterMap Component.ofText, hpts _, ?_⟩
    simp [new, hsl, isAbsolute]
  · have hnew : (.rootDir : Component N) ∉ new text := by
      simp only [new, hsl, if_false, List.mem_append, not_or]
      refine ⟨?_, hpts _⟩
      split <;> simp
    have habsolute : (new text : PathBuf N).isAbsolute = false := by
      cases hpath : (new text : PathBuf N) with
      | nil => rfl
      | cons part rest =>
        rw [hpath] at hnew
        simpa [isAbsolute, eq_comm] using fun h => hnew (by simp [h])
    refine ⟨names place ++ (new text).filter (· ≠ .curDir), ?_, ?_⟩
    · simpa [names] using fun h => absurd h hnew
    · simp only [habsolute, Bool.false_eq_true, if_false, join]
      rfl

omit [DecidableEq N] [OsStr N] in
theorem normalize_absolute (path : PathBuf N) : ∃ place, normalize (.rootDir :: path) = ofPlace place := by
  suffices h : ∀ place, ∃ next, path.foldl normalizePart (ofPlace place) = ofPlace next from h []
  induction path with
  | nil => exact fun place => ⟨place, rfl⟩
  | cons part rest ih =>
    intro place
    rw [List.foldl_cons]
    cases part with
    | rootDir => exact ih []
    | curDir => exact ih place
    | parentDir =>
      have hpop : normalizePart (ofPlace place) .parentDir = ofPlace place.dropLast := by
        induction place using List.reverseRecOn with
        | nil => rfl
        | append_singleton front name _ => simp [normalizePart, ofPlace_append]
      rw [hpop]
      exact ih place.dropLast
    | normal name =>
      have hpush : normalizePart (ofPlace place) (.normal name) = ofPlace (place ++ [name]) := by
        simp [normalizePart, ofPlace_append]
      rw [hpush]
      exact ih (place ++ [name])

/-- Whether a component stays where nothing but `.` is dropped. -/
def stays : Component N → Bool
  | .normal _ => true
  | .parentDir => true
  | _ => false

omit [DecidableEq N] [OsStr N] in
theorem foldl_lexicalPart (hroot : .rootDir ∉ rest) :
    ∀ out : PathBuf N, rest.foldl lexicalPart out = out ++ rest.filter stays := by
  induction rest with
  | nil => simp
  | cons part rest ih =>
    intro out
    have hrest := ih fun h => hroot (List.mem_cons_of_mem _ h)
    rw [List.foldl_cons, hrest]
    cases part with
    | rootDir => simp at hroot
    | curDir => rw [List.filter_cons_of_neg (by simp [stays]), lexicalPart]
    | parentDir =>
      rw [List.filter_cons_of_pos rfl]
      simp [lexicalPart, push]
    | normal name =>
      rw [List.filter_cons_of_pos rfl]
      simp [lexicalPart]

omit [DecidableEq N] [OsStr N] in
theorem foldl_normalizePart (hroot : .rootDir ∉ rest) (hpar : .parentDir ∉ rest) :
    ∀ out : PathBuf N, rest.foldl normalizePart out = out ++ rest.filter stays := by
  induction rest with
  | nil => simp
  | cons part rest ih =>
    intro out
    have hrest := ih (fun h => hroot (List.mem_cons_of_mem _ h)) (fun h => hpar (List.mem_cons_of_mem _ h))
    rw [List.foldl_cons, hrest]
    cases part with
    | rootDir => simp at hroot
    | curDir => rw [List.filter_cons_of_neg (by simp [stays]), normalizePart]
    | parentDir => simp at hpar
    | normal name =>
      rw [List.filter_cons_of_pos rfl]
      simp [normalizePart]

omit [DecidableEq N] [OsStr N] in
theorem lexical_absolute (hroot : .rootDir ∉ rest) :
    lexical (.rootDir :: rest) = .rootDir :: rest.filter stays := foldl_lexicalPart hroot [.rootDir]

omit [DecidableEq N] [OsStr N] in
/-- Where nothing goes up, both ways to normalize agree. -/
theorem normalize_eq_lexical (hroot : .rootDir ∉ rest) (hpar : .parentDir ∉ lexical (.rootDir :: rest)) :
    normalize (.rootDir :: rest) = lexical (.rootDir :: rest) := by
  rw [lexical_absolute hroot] at hpar ⊢
  refine foldl_normalizePart hroot (fun h => hpar ?_) [.rootDir]
  simpa [stays] using h

omit [DecidableEq N] [OsStr N] in
@[simp] theorem lexical_ofPlace (place : List N) : lexical (ofPlace place) = ofPlace place := by
  have hroot : .rootDir ∉ names place := by simp [names]
  refine (lexical_absolute hroot).trans ?_
  simp [ofPlace, names, stays]

theorem join_new (root : PathBuf N) (text : String) : root.join (new text) = requested root text := by
  cases habsolute : (new text : PathBuf N).isAbsolute <;> simp [requested, join, habsolute]

omit [DecidableEq N] [OsStr N] in
theorem ofPlace_eq_append {place : List N} {front back : PathBuf N} (hfrt : front ≠ [])
    (h : ofPlace place = front ++ back) : ∃ above below, front = ofPlace above ∧ back = names below := by
  cases front with
  | nil => exact absurd rfl hfrt
  | cons part front =>
    obtain ⟨rfl, hnames⟩ := List.cons.inj h
    obtain ⟨above, below, -, habove, hbel⟩ := List.map_eq_append_iff.mp hnames
    exact ⟨above, below, by rw [← habove]; rfl, hbel.symm⟩

/-! ## The deepest part that exists -/

section Ancestor

variable {tree : FileTree N}

omit [OsStr N] in
/-- The search finds a part of the path below the root with nothing of the rest in it, or it is blocked. -/
theorem ancestor_spec (links : Nat) {root : List N} (hroot : tree.Settled root) (back : List N) :
    (∃ existing canonical missing, ancestor tree links (ofPlace root) (ofPlace (root ++ back)) =
        .found existing canonical ∧ ofPlace (root ++ back) = existing ++ names missing ∧
      tree.canonicalize links existing = some canonical ∧
      ∀ name rest, missing = name :: rest → tree.entry (canonical ++ [name]) = none) ∨
    ancestor tree links (ofPlace root) (ofPlace (root ++ back)) = .blocked := by
  induction back using List.reverseRecOn with
  | nil =>
    left
    refine ⟨ofPlace root, root, [], ?_, by simp, FileTree.canonicalize_ofPlace hroot, by simp⟩
    rw [List.append_nil, ancestor, FileTree.canonicalize_ofPlace hroot]
  | append_singleton front name ih =>
    rw [← List.append_assoc, ofPlace_append, names_cons, names_nil]
    cases hwh : tree.canonicalize links (ofPlace (root ++ front) ++ [.normal name]) with
    | some canonical =>
      left
      refine ⟨_, canonical, [], ?_, (List.append_nil _).symm, hwh, by simp⟩
      rw [ancestor, hwh]
    | none =>
      cases hent : tree.symlinkMetadata links (ofPlace (root ++ front) ++ [.normal name]) with
      | some entry =>
        right
        rw [ancestor, hwh]
        simp [hent]
      | none =>
        -- nothing is there, so the search goes up
        have hbel : (ofPlace (root ++ front)).startsWith (ofPlace root) = true :=
          startsWith_iff.mpr (ofPlace_prefix_iff.mpr (List.prefix_append _ _))
        have hup : ancestor tree links (ofPlace root) (ofPlace (root ++ front) ++ [.normal name]) =
            ancestor tree links (ofPlace root) (ofPlace (root ++ front)) := by
          rw [ancestor, hwh]
          simp only [hent, Option.isSome_none, Bool.false_eq_true, if_false]
          split
          · next parent hpar =>
            obtain rfl := Option.some.inj ((parent_concat _ _).symm.trans hpar)
            rw [if_pos hbel]
          · next hpar => simp at hpar
        rw [hup]
        rcases ih with ⟨existing, canonical, missing, hfnd, hpath, hcanon, hmis⟩ | hblk
        · left
          refine ⟨existing, canonical, missing ++ [name], hfnd, by simp [hpath], hcanon, fun first rest h => ?_⟩
          cases missing with
          | nil =>
            obtain ⟨rfl, -⟩ := List.cons.inj h
            rw [hpath, names_nil, List.append_nil, FileTree.symlinkMetadata_concat, hcanon] at hent
            exact hent
          | cons other missing =>
            obtain ⟨rfl, -⟩ := List.cons.inj h
            exact hmis other missing rfl
        · exact .inr hblk

end Ancestor

end PathBuf

end Adk
