import Mathlib.Data.List.Basic
import Mathlib.Data.List.Induction

/-!
# File trees

A `FileTree` has directories, files and symlinks. A path is a list of components; `resolve` walks one as a system
call does, with a limit on the symlinks it follows, and ends at a place: the names from `/` on, none of them a
symlink.

* `FileTree.canonicalize`, `FileTree.symlinkMetadata`: the two calls that programs check paths with.
* `FileTree.resolve_append`: a path resolves through each of its prefixes.
* `FileTree.Leads`: where a path leads, the names that do not exist yet included.
* `FileTree.Leads.unique`, `FileTree.Leads.prefix`, `FileTree.Leads.after`: it leads to one place, as do its
  prefixes, and plain names after it are appended.
-/

namespace Adk

variable {N : Type}

inductive Component (N : Type) where
  | rootDir
  /-- `.` -/
  | curDir
  /-- `..` -/
  | parentDir
  | normal (name : N)
deriving DecidableEq

abbrev PathBuf (N : Type) : Type := List (Component N)

def PathBuf.names (names : List N) : PathBuf N := names.map .normal

def PathBuf.ofPlace (place : List N) : PathBuf N := .rootDir :: PathBuf.names place

namespace PathBuf

@[simp] theorem names_nil : (names [] : PathBuf N) = [] := rfl

@[simp] theorem names_cons (name : N) (rest : List N) : names (name :: rest) = .normal name :: names rest := rfl

@[simp] theorem names_append (front back : List N) : names (front ++ back) = names front ++ names back :=
  List.map_append

@[simp] theorem length_names (place : List N) : (names place).length = place.length := List.length_map _

theorem names_injective {front back : List N} (h : names front = names back) : front = back :=
  List.map_injective_iff.mpr (fun _ _ hname => Component.normal.inj hname) h

theorem ofPlace_append (place back : List N) : ofPlace (place ++ back) = ofPlace place ++ names back := by
  simp [ofPlace]

@[simp] theorem length_ofPlace (place : List N) : (ofPlace place).length = place.length + 1 := by
  simp [ofPlace]

theorem ofPlace_injective {place other : List N} (h : ofPlace place = ofPlace other) : place = other :=
  names_injective (List.cons.inj h).2

/-- One place is below another if its path is. -/
theorem ofPlace_prefix_iff {place other : List N} : ofPlace place <+: ofPlace other ↔ place <+: other := by
  constructor
  · rintro ⟨back, hback⟩
    have htake := congrArg (List.take (place.length + 1)) hback
    rw [← length_ofPlace, List.take_left, length_ofPlace] at htake
    refine ⟨other.drop place.length, ?_⟩
    have hpl : place = other.take place.length := by
      apply ofPlace_injective
      rw [htake]
      simp [ofPlace, names, List.map_take]
    conv => lhs; lhs; rw [hpl]
    exact List.take_append_drop _ _
  · rintro ⟨back, rfl⟩
    exact ⟨names back, (ofPlace_append _ _).symm⟩

end PathBuf

/-- What is at a place. -/
inductive FileEntry (N : Type) where
  | file
  | dir
  /-- A symlink, with its target as a system call splits it: a separator at its end leaves a `.`. -/
  | symlink (target : PathBuf N)
deriving DecidableEq

/-- A tree of directories, files and symlinks: what is in it is in a directory. -/
structure FileTree (N : Type) where
  entry : List N → Option (FileEntry N)
  root_dir : entry [] = some .dir
  parent_dir : ∀ place name, entry (place ++ [name]) ≠ none → entry place = some .dir

namespace FileTree

def ofList [DecidableEq N] (entries : List (List N × FileEntry N))
    (h : ∀ pair ∈ entries, pair.1 ≠ [] ∧ (pair.1.dropLast = [] ∨ entries.lookup pair.1.dropLast = some .dir)) :
    FileTree N where
  entry place := if place = [] then some .dir else entries.lookup place
  root_dir := rfl
  parent_dir place name hentry := by
    rw [if_neg (by simp)] at hentry
    obtain ⟨entry, hlookup⟩ := Option.ne_none_iff_exists'.mp hentry
    obtain ⟨before, after, hmem, -⟩ := List.lookup_eq_some_iff.mp hlookup
    have hparent := (h (place ++ [name], entry) (by simp [hmem])).2
    rw [List.dropLast_concat] at hparent
    split
    · rfl
    · next hplace => exact hparent.resolve_left hplace

variable (tree : FileTree N)

def isDir (place : List N) : Bool :=
  match tree.entry place with
  | some .dir => true
  | _ => false

/-- Walks a path from a place, with `follow` from a symlink on. -/
def walk (follow : List N → PathBuf N → Option (List N)) : List N → PathBuf N → Option (List N)
  | here, [] => some here
  | _, .rootDir :: rest => walk follow [] rest
  | here, .curDir :: rest => if tree.isDir here then walk follow here rest else none
  | here, .parentDir :: rest => if tree.isDir here then walk follow here.dropLast rest else none
  | here, .normal name :: rest =>
    match tree.entry (here ++ [name]) with
    | none => none
    | some (.symlink target) => follow here (target ++ rest)
    | some _ => walk follow (here ++ [name]) rest

/-- Where a path leads from a place if everything on it exists, following so many symlinks at most. -/
def resolve : Nat → List N → PathBuf N → Option (List N)
  | 0 => tree.walk fun _ _ => none
  | links + 1 => tree.walk (resolve links)

variable (links : Nat)

/-- The place of an absolute path, if it exists. -/
def canonicalize (path : PathBuf N) : Option (List N) := tree.resolve links [] path

/-- What an absolute path names, itself not followed. -/
def symlinkMetadata (path : PathBuf N) : Option (FileEntry N) :=
  match path.getLast? with
  | some (.normal name) => (tree.canonicalize links path.dropLast).bind fun here => tree.entry (here ++ [name])
  | _ => (tree.canonicalize links path).bind tree.entry

def isSymlink (path : PathBuf N) : Bool :=
  match tree.symlinkMetadata links path with
  | some (.symlink _) => true
  | _ => false

/-- There is a directory or a file at a place. -/
def Settled (place : List N) : Prop := tree.entry place = some .dir ∨ tree.entry place = some .file

/-- Where an absolute path leads: the place of the part of it that exists, and the names after it. -/
def Leads (path : PathBuf N) (dest : List N) : Prop :=
  ∃ found missing here, path = found ++ PathBuf.names missing ∧ tree.canonicalize links found = some here ∧
    dest = here ++ missing ∧ ∀ name rest, missing = name :: rest → tree.entry (here ++ [name]) = none

variable {tree : FileTree N} {links : Nat}

/-! ## Walks -/

variable {place dest : List N} {path : PathBuf N} {name : N}

theorem isDir_iff : tree.isDir place = true ↔ tree.entry place = some .dir := by
  unfold isDir
  split <;> simp_all

/-- What is below a place shows that it is a directory. -/
theorem dir_above {back : List N} (hback : back ≠ []) (h : tree.entry (place ++ back) ≠ none) :
    tree.entry place = some .dir := by
  induction back using List.reverseRecOn with
  | nil => exact absurd rfl hback
  | append_singleton front name ih =>
    rw [← List.append_assoc] at h
    have hfrt := tree.parent_dir _ _ h
    cases front with
    | nil => simpa using hfrt
    | cons first rest =>
      apply ih (List.cons_ne_nil _ _)
      rw [hfrt]
      exact Option.some_ne_none _

@[simp] theorem resolve_nil (here : List N) : tree.resolve links here [] = some here := by
  cases links <;> rfl

@[simp] theorem resolve_rootDir (here : List N) (rest : PathBuf N) :
    tree.resolve links here (.rootDir :: rest) = tree.resolve links [] rest := by
  cases links <;> rfl

/-- The walk of one component and the rest: where the one leads, in one of the ways of a walk. -/
theorem resolve_cons {here : List N} {part : Component N} {rest : PathBuf N}
    (h : tree.resolve links here (part :: rest) = some dest) :
    (∃ next, (∀ l back, tree.resolve l here (part :: back) = tree.resolve l next back) ∧
      tree.resolve links next rest = some dest ∧ (tree.Settled here → tree.Settled next)) ∨
    ∃ name target l, part = .normal name ∧ tree.entry (here ++ [name]) = some (.symlink target) ∧ links = l + 1 ∧
      tree.resolve l here (target ++ rest) = some dest := by
  cases part with
  | rootDir =>
    rw [resolve_rootDir] at h
    exact .inl ⟨[], fun l back => resolve_rootDir here back, h, fun _ => .inl tree.root_dir⟩
  | curDir =>
    cases hdir : tree.isDir here with
    | false => cases links <;> simp [resolve, walk, hdir] at h
    | true =>
      have hnext : ∀ l back, tree.resolve l here (.curDir :: back) = tree.resolve l here back := by
        intro l back
        cases l <;> simp [resolve, walk, hdir]
      rw [hnext] at h
      exact .inl ⟨here, hnext, h, id⟩
  | parentDir =>
    cases hdir : tree.isDir here with
    | false => cases links <;> simp [resolve, walk, hdir] at h
    | true =>
      have hnext : ∀ l back, tree.resolve l here (.parentDir :: back) = tree.resolve l here.dropLast back := by
        intro l back
        cases l <;> simp [resolve, walk, hdir]
      rw [hnext] at h
      refine .inl ⟨here.dropLast, hnext, h, fun _ => .inl ?_⟩
      rw [isDir_iff] at hdir
      induction here using List.reverseRecOn with
      | nil => exact tree.root_dir
      | append_singleton front name _ =>
        rw [List.dropLast_concat]
        apply tree.parent_dir front name
        rw [hdir]
        exact Option.some_ne_none _
  | normal name =>
    cases hent : tree.entry (here ++ [name]) with
    | none => cases links <;> simp [resolve, walk, hent] at h
    | some entry =>
      cases entry with
      | symlink target =>
        cases links with
        | zero => simp [resolve, walk, hent] at h
        | succ l => exact .inr ⟨name, target, l, rfl, hent, rfl, by simpa [resolve, walk, hent] using h⟩
      | file =>
        have hnext : ∀ l back, tree.resolve l here (.normal name :: back) = tree.resolve l (here ++ [name]) back := by
          intro l back
          cases l <;> simp [resolve, walk, hent]
        rw [hnext] at h
        exact .inl ⟨here ++ [name], hnext, h, fun _ => .inr hent⟩
      | dir =>
        have hnext : ∀ l back, tree.resolve l here (.normal name :: back) = tree.resolve l (here ++ [name]) back := by
          intro l back
          cases l <;> simp [resolve, walk, hent]
        rw [hnext] at h
        exact .inl ⟨here ++ [name], hnext, h, fun _ => .inl hent⟩

/-- **A path resolves through its prefixes**, the rest with what is left of the limit. -/
theorem resolve_append : ∀ {here dest : List N} {back : PathBuf N},
    tree.resolve links here (path ++ back) = some dest →
      ∃ mid l, l ≤ links ∧ tree.resolve links here path = some mid ∧ tree.resolve l mid back = some dest := by
  induction links using Nat.strongRecOn generalizing path with
  | ind links ihlinks =>
    induction path with
    | nil =>
      intro here dest back h
      exact ⟨here, links, Nat.le_refl _, resolve_nil here, h⟩
    | cons part path ih =>
      intro here dest back h
      rw [List.cons_append] at h
      obtain ⟨next, hnext, hrest, -⟩ | ⟨name, target, l, rfl, hent, rfl, hrest⟩ := resolve_cons h
      · obtain ⟨mid, l, hl, hmid, hback⟩ := ih hrest
        exact ⟨mid, l, hl, by rw [hnext, hmid], hback⟩
      · -- a symlink: its target stands before the rest
        rw [← List.append_assoc] at hrest
        obtain ⟨mid, l', hl', hmid, hback⟩ := ihlinks l (Nat.lt_succ_self l) hrest
        refine ⟨mid, l', by omega, ?_, hback⟩
        simpa [resolve, walk, hent] using hmid

theorem resolve_append_of {back : PathBuf N} {mid : List N}
    (hback : ∀ l, tree.resolve l mid back = some dest) : ∀ {here : List N},
    tree.resolve links here path = some mid → tree.resolve links here (path ++ back) = some dest := by
  induction links using Nat.strongRecOn generalizing path with
  | ind links ihlinks =>
    induction path with
    | nil =>
      intro here h
      rw [resolve_nil] at h
      obtain rfl := Option.some.inj h
      exact hback links
    | cons part path ih =>
      intro here h
      rw [List.cons_append]
      obtain ⟨next, hnext, hrest, -⟩ | ⟨name, target, l, rfl, hent, rfl, hrest⟩ := resolve_cons h
      · rw [hnext]
        exact ih hrest
      · have hfollowed := ihlinks l (Nat.lt_succ_self l) hrest
        rw [List.append_assoc] at hfollowed
        simpa [resolve, walk, hent] using hfollowed

theorem resolve_settled : ∀ {here dest : List N}, tree.Settled here →
    tree.resolve links here path = some dest → tree.Settled dest := by
  induction links using Nat.strongRecOn generalizing path with
  | ind links ihlinks =>
    induction path with
    | nil =>
      intro here dest hhere h
      rw [resolve_nil] at h
      obtain rfl := Option.some.inj h
      exact hhere
    | cons part path ih =>
      intro here dest hhere h
      obtain ⟨next, -, hrest, hset⟩ | ⟨name, target, l, rfl, -, rfl, hrest⟩ := resolve_cons h
      · exact ih (hset hhere) hrest
      · exact ihlinks l (Nat.lt_succ_self l) hhere hrest

theorem resolve_names {names : List N} : ∀ {here : List N}, tree.Settled (here ++ names) →
    ∀ l, tree.resolve l here (PathBuf.names names) = some (here ++ names) := by
  induction names with
  | nil =>
    intro here _ l
    simp
  | cons name rest ih =>
    intro here h l
    have hent : tree.Settled (here ++ [name]) := by
      cases rest with
      | nil => exact h
      | cons next rest =>
        left
        apply dir_above (List.cons_ne_nil next rest)
        rw [List.append_assoc]
        rcases h with h | h <;> simp [h]
    have hrest : tree.resolve l (here ++ [name]) (PathBuf.names rest) = some (here ++ name :: rest) := by
      have hbel : tree.Settled (here ++ [name] ++ rest) := by simpa using h
      simpa using ih hbel l
    rcases hent with hent | hent <;> cases l <;> simpa [resolve, walk, hent] using hrest

theorem Settled.above {back : List N} (h : tree.Settled (place ++ back)) : tree.Settled place := by
  cases back with
  | nil => simpa using h
  | cons name rest =>
    left
    apply dir_above (List.cons_ne_nil name rest)
    rcases h with h | h <;> simp [h]

/-- The path of what exists is its own. -/
theorem canonicalize_ofPlace (h : tree.Settled place) :
    tree.canonicalize links (.ofPlace place) = some place := by
  have hbel : tree.Settled ([] ++ place) := h
  simpa [canonicalize, PathBuf.ofPlace] using resolve_names hbel links

theorem settled_of_canonicalize (h : tree.canonicalize links path = some place) :
    tree.Settled place := resolve_settled (.inl tree.root_dir) h

/-- A name after a path that resolves: what is there is no symlink, or it is not there, or it is one. -/
theorem canonicalize_concat (h : tree.canonicalize links path = some place) (hname : tree.Settled (place ++ [name])) :
    tree.canonicalize links (path ++ [.normal name]) = some (place ++ [name]) :=
  resolve_append_of (resolve_names hname) h

theorem canonicalize_absent {back : PathBuf N}
    (h : tree.canonicalize links path = some place) (habsent : tree.entry (place ++ [name]) = none) :
    tree.canonicalize links (path ++ .normal name :: back) ≠ some dest := by
  intro hdest
  obtain ⟨mid, l, -, hmid, hback⟩ := resolve_append hdest
  obtain rfl : place = mid := Option.some.inj (h.symm.trans hmid)
  obtain ⟨next, hnext, -, -⟩ | ⟨other, target, l', hoth, hent, -, -⟩ := resolve_cons hback
  · have := hnext 0 []
    simp [resolve, walk, habsent] at this
  · obtain rfl := Component.normal.inj hoth
    simp [habsent] at hent

theorem symlinkMetadata_concat : tree.symlinkMetadata links (path ++ [.normal name]) =
    (tree.canonicalize links path).bind fun here => tree.entry (here ++ [name]) := by
  simp [symlinkMetadata]

/-! ## Where a path leads -/

theorem leads_of_canonicalize (h : tree.canonicalize links path = some place) :
    tree.Leads links path place :=
  ⟨path, [], place, by simp, h, by simp, by simp⟩

/-- A longer part of a path resolves no further than what is missing after a shorter one. -/
theorem leads_same {found mid : PathBuf N} {missing missing' here here' : List N}
    (hfnd : tree.canonicalize links found = some here) (hlonger : tree.canonicalize links (found ++ mid) = some here')
    (hsp : PathBuf.names missing = mid ++ PathBuf.names missing')
    (hmis : ∀ name rest, missing = name :: rest → tree.entry (here ++ [name]) = none) :
    here ++ missing = here' ++ missing' := by
  cases mid with
  | nil =>
    rw [List.append_nil, hfnd] at hlonger
    rw [Option.some.inj hlonger, PathBuf.names_injective hsp]
  | cons part mid =>
    cases missing with
    | nil => simp at hsp
    | cons name rest =>
      obtain ⟨rfl, -⟩ := List.cons.inj hsp
      exact absurd hlonger (canonicalize_absent hfnd (hmis name rest rfl))

theorem Leads.unique {other : List N} (h : tree.Leads links path dest)
    (h' : tree.Leads links path other) : dest = other := by
  obtain ⟨found, missing, here, hpath, hfnd, rfl, hmis⟩ := h
  obtain ⟨found', missing', here', hpath', hfnd', rfl, hmis'⟩ := h'
  rw [hpath] at hpath'
  obtain ⟨mid, rfl, hback⟩ | ⟨mid, rfl, hback⟩ := List.append_eq_append_iff.mp hpath'
  · exact leads_same hfnd hfnd' hback hmis
  · exact (leads_same hfnd' hfnd hback hmis').symm

theorem Leads.no_symlink {front : List N} {target : PathBuf N}
    (h : tree.Leads links path dest) (hfrt : front <+: dest) : tree.entry front ≠ some (.symlink target) := by
  obtain ⟨found, missing, here, -, hfnd, rfl, hmis⟩ := h
  obtain ⟨back, hback⟩ := hfrt
  have hset := settled_of_canonicalize hfnd
  obtain ⟨mid, rfl, -⟩ | ⟨mid, rfl, hmid⟩ := List.append_eq_append_iff.mp hback
  · rcases hset.above with h | h <;> simp [h]
  · cases mid with
    | nil => rcases hset with h | h <;> simp [h]
    | cons name rest =>
      -- what is missing has nothing below it
      have habsent := hmis name (rest ++ back) (by simpa using hmid)
      intro hent
      cases rest with
      | nil => simp [habsent] at hent
      | cons other rest =>
        have hdir : tree.entry (here ++ [name]) = some .dir := by
          apply dir_above (List.cons_ne_nil other rest)
          simp [hent]
        simp [habsent] at hdir

theorem Leads.prefix {names : List N} (h : tree.Leads links (path ++ .names names) dest) :
    ∃ place, tree.Leads links path place := by
  obtain ⟨found, missing, here, hpath, hfnd, rfl, hmis⟩ := h
  obtain ⟨mid, rfl, hback⟩ | ⟨mid, rfl, hback⟩ := List.append_eq_append_iff.mp hpath
  · obtain ⟨place, -, -, hpl, -⟩ := resolve_append hfnd
    exact ⟨place, leads_of_canonicalize hpl⟩
  · obtain ⟨front, back, rfl, rfl, -⟩ := List.map_eq_append_iff.mp hback
    refine ⟨here ++ front, found, front, here, rfl, hfnd, rfl, fun name rest hfrt => ?_⟩
    exact hmis name (rest ++ back) (by simp [hfrt])

theorem Leads.concat (h : tree.Leads links path dest) (hpl : tree.Leads links (path ++ [.normal name]) place)
    (hpln : tree.isSymlink links (path ++ [.normal name]) = false) : place = dest ++ [name] := by
  apply hpl.unique
  obtain ⟨found, missing, here, rfl, hfnd, rfl, hmis⟩ := h
  cases missing with
  | nil =>
    simp only [PathBuf.names_nil, List.append_nil] at *
    rw [isSymlink, symlinkMetadata_concat, hfnd, Option.bind_some] at hpln
    cases hent : tree.entry (here ++ [name]) with
    | none =>
      refine ⟨found, [name], here, by simp, hfnd, rfl, fun other rest hoth => ?_⟩
      obtain ⟨rfl, -⟩ := List.cons.inj hoth
      exact hent
    | some entry =>
      cases entry with
      | symlink target => simp [hent] at hpln
      | file => exact leads_of_canonicalize (canonicalize_concat hfnd (.inr hent))
      | dir => exact leads_of_canonicalize (canonicalize_concat hfnd (.inl hent))
  | cons first rest =>
    refine ⟨found, first :: rest ++ [name], here, by simp, hfnd, by simp, fun other back hoth => ?_⟩
    obtain ⟨rfl, -⟩ := List.cons.inj hoth
    exact hmis first rest rfl

theorem Leads.after {names : List N} : ∀ {path : PathBuf N} {dest place : List N}, tree.Leads links path dest →
    tree.Leads links (path ++ .names names) place →
    (∀ front name, front ++ [name] <+: names → tree.isSymlink links (path ++ .names (front ++ [name])) = false) →
    place = dest ++ names := by
  induction names with
  | nil =>
    intro path dest place h hpl _
    rw [PathBuf.names_nil, List.append_nil] at hpl
    rw [List.append_nil]
    exact hpl.unique h
  | cons name rest ih =>
    intro path dest place h hpl hpln
    have hsp : path ++ .names (name :: rest) = path ++ [.normal name] ++ .names rest := by simp
    rw [hsp] at hpl
    obtain ⟨next, hnext⟩ := hpl.prefix
    obtain rfl := h.concat hnext (hpln [] name ⟨rest, rfl⟩)
    have hrest := ih hnext hpl (by
      rintro front other ⟨back, hback⟩
      have := hpln (name :: front) other ⟨back, by simp [← hback]⟩
      simpa using this)
    rw [hrest, List.append_assoc]
    rfl

end FileTree

end Adk
