import AdkRust.Workspace.Protected

/-!
# The path that is checked and the path that is written

The rules check a path (`isProtectedTarget`, `pathWithin`) and the tools resolve it again
(`Workspace.resolveTarget`), over one tree.

* `Checked.Kept`: what both say of a path agrees.
* `Checked.lastSymlink`: the last symlink on the way below a directory.
* `Checked.kept_iff`: they agree unless that symlink leads out of the directory of a rule.
-/

namespace Adk

namespace Checked

variable {N : Type}

def lastSymlink (isSymlink : PathBuf N → Bool) (path : PathBuf N) : List N → Option (PathBuf N × List N)
  | [] => none
  | name :: rest =>
    match lastSymlink isSymlink (path ++ [.normal name]) rest with
    | some found => some found
    | none => if isSymlink (path ++ [.normal name]) then some (path ++ [.normal name], rest) else none

theorem lastSymlink_eq_none {isSymlink : PathBuf N → Bool} {back : List N} : ∀ {path : PathBuf N},
    lastSymlink isSymlink path back = none →
      ∀ front name, front ++ [name] <+: back → isSymlink (path ++ .names (front ++ [name])) = false := by
  induction back with
  | nil =>
    intro path _ front name hfrt
    simp at hfrt
  | cons first rest ih =>
    intro path h front name hfrt
    simp only [lastSymlink] at h
    split at h
    · cases h
    next hrest =>
    split at h
    · cases h
    next hfst =>
    cases front with
    | nil =>
      obtain ⟨back, hback⟩ := hfrt
      obtain ⟨rfl, -⟩ := List.cons.inj hback
      simpa using hfst
    | cons other front =>
      obtain ⟨back, hback⟩ := hfrt
      obtain ⟨rfl, hrest'⟩ := List.cons.inj hback
      have := ih hrest front name ⟨back, hrest'⟩
      simpa using this

theorem lastSymlink_eq_some {isSymlink : PathBuf N → Bool} {back : List N} : ∀ {path link : PathBuf N} {after : List N},
    lastSymlink isSymlink path back = some (link, after) → path ++ PathBuf.names back = link ++ PathBuf.names after ∧
      ∀ front name, front ++ [name] <+: after → isSymlink (link ++ .names (front ++ [name])) = false := by
  induction back with
  | nil =>
    intro path link after h
    cases h
  | cons first rest ih =>
    intro path link after h
    simp only [lastSymlink] at h
    split at h
    · next found hfnd =>
      obtain rfl := Option.some.inj h
      obtain ⟨hpath, hpln⟩ := ih hfnd
      exact ⟨by rw [← hpath]; simp, hpln⟩
    next hrest =>
    split at h
    · obtain ⟨rfl, rfl⟩ := Prod.mk.inj (Option.some.inj h)
      exact ⟨by simp, lastSymlink_eq_none hrest⟩
    · cases h

section Kept

variable [DecidableEq N] [OsStr N] [UnicodeText] (tree : FileTree N) (links : Nat) (workspace : Workspace N)

/-- The directory of a rule, as written. -/
def dirPath (dir : String) : PathBuf N := ((PathBuf.ofPlace workspace.root).join (.new dir)).lexical

/-- The property at one path and one directory: **what is checked is what is written.** -/
structure Kept (raw dir : String) : Prop where
  /-- The target of what is not protected is in the root and not protected, and nothing else is opened. -/
  unprotected : ∀ normalized target, workspace.resolveTarget tree links raw = .ok (normalized, target) →
    isProtectedTarget tree links (.ofPlace workspace.root) raw = false →
    (∃ below, target = .ofPlace (workspace.root ++ below) ∧
      isProtectedPath (PathBuf.names below).toStringLossy = false) ∧
    ∀ place, workspace.writeContained tree target = .ok place ∨ workspace.readContained tree target = .ok place →
      target = .ofPlace place
  within : pathWithin tree links (.ofPlace workspace.root) raw dir = true →
    ∀ normalized target, workspace.resolveTarget tree links raw = .ok (normalized, target) →
    ∃ real, tree.Leads links (dirPath workspace dir) real ∧ PathBuf.ofPlace real <+: target

/-- The last symlink of a path below a directory, if there is one, leads to where the rest of the path is in the
real directory. -/
def StaysWithin (raw dir : String) : Prop :=
  ∀ back, (PathBuf.requested (.ofPlace workspace.root) raw).normalize = dirPath workspace dir ++ PathBuf.names back →
    ∀ link after, lastSymlink (tree.isSymlink links) (dirPath workspace dir) back = some (link, after) →
      ∃ real place, tree.Leads links (dirPath workspace dir) real ∧ tree.Leads links link place ∧
        real <+: place ++ after

variable {tree links workspace}

/-- **The path that was checked is the path that is written**, and it is within the directory of a rule exactly if
the last symlink below the directory leads there. -/
theorem kept_iff (hroot : tree.Settled workspace.root) (raw dir : String) :
    Kept tree links workspace raw dir ↔
      (pathWithin tree links (.ofPlace workspace.root) raw dir = true → StaysWithin tree links workspace raw dir) := by
  have hunprotected : ∀ normalized target, workspace.resolveTarget tree links raw = .ok (normalized, target) →
      isProtectedTarget tree links (.ofPlace workspace.root) raw = false →
      (∃ below, target = .ofPlace (workspace.root ++ below) ∧
        isProtectedPath (PathBuf.names below).toStringLossy = false) ∧
      ∀ place, workspace.writeContained tree target = .ok place ∨
        workspace.readContained tree target = .ok place → target = .ofPlace place := by
    intro normalized target hresolved hprotected
    refine ⟨?_, (Workspace.opened_target hroot hresolved).2⟩
    obtain ⟨-, below, -, hnormalized, htarget, hleads⟩ := Workspace.resolveTarget_spec hroot hresolved
    rw [← hnormalized] at hleads
    obtain ⟨other, hother, hclean⟩ := isProtectedTarget_spec hroot hprotected hleads
    obtain rfl := List.append_cancel_left hother
    exact ⟨below, htarget, hclean⟩
  constructor
  · intro hkept hwithin back hback link after hlast
    obtain ⟨-, -, ⟨normalized, target⟩, hresolved⟩ := pathWithin_spec hroot hwithin
    obtain ⟨real, hreal, hinside⟩ := hkept.within hwithin normalized target hresolved
    obtain ⟨-, below, -, rfl, rfl, hleads⟩ := Workspace.resolveTarget_spec hroot hresolved
    obtain ⟨hlink, hplain⟩ := lastSymlink_eq_some hlast
    rw [hback, hlink] at hleads
    obtain ⟨place, hplace⟩ := hleads.prefix
    refine ⟨real, place, hreal, hplace, ?_⟩
    rw [← hplace.after hleads hplain]
    exact PathBuf.ofPlace_prefix_iff.mp hinside
  · intro hstays
    refine ⟨hunprotected, fun hwithin normalized target hresolved => ?_⟩
    obtain ⟨-, ⟨back, hback⟩, -⟩ := pathWithin_spec hroot hwithin
    obtain ⟨-, below, -, rfl, rfl, hleads⟩ := Workspace.resolveTarget_spec hroot hresolved
    have hback' : (PathBuf.requested (.ofPlace workspace.root) raw).normalize =
      dirPath workspace dir ++ PathBuf.names back := hback
    cases hlast : lastSymlink (tree.isSymlink links) (dirPath workspace dir) back with
    | none =>
      rw [hback'] at hleads
      obtain ⟨real, hreal⟩ := hleads.prefix
      refine ⟨real, hreal, PathBuf.ofPlace_prefix_iff.mpr ?_⟩
      rw [hreal.after hleads (lastSymlink_eq_none hlast)]
      exact List.prefix_append _ _
    | some found =>
      obtain ⟨link, after⟩ := found
      obtain ⟨real, place, hreal, hplace, hinside⟩ := hstays hwithin back hback' link after hlast
      obtain ⟨hlink, hplain⟩ := lastSymlink_eq_some hlast
      rw [hback', hlink] at hleads
      refine ⟨real, hreal, PathBuf.ofPlace_prefix_iff.mpr ?_⟩
      rw [hplace.after hleads hplain]
      exact hinside

end Kept

/-! ## A link in a directory -/

section Docs

instance asciiText : UnicodeText where
  nfc := id
  toLowercase text := String.ofList (text.toList.map Char.toLower)

/-- A workspace with a link from `docs` to `src`. -/
def docs : FileTree String :=
  .ofList [(["w"], .dir), (["w", "docs"], .dir), (["w", "src"], .dir),
    (["w", "docs", "link"], .symlink [.parentDir, .normal "src"])] (by decide)

/-- A file of `docs` that does not exist is written in `docs`. -/
theorem kept_iff_docs : Kept docs 40 ⟨["w"]⟩ "docs/new/a.md" "docs" ∧
    pathWithin docs 40 (.ofPlace ["w"]) "docs/new/a.md" "docs" = true := by
  refine ⟨(kept_iff (.inl rfl) _ _).mpr fun _ back hback link after hlast => ?_, by decide +kernel⟩
  have hpath : (PathBuf.requested (.ofPlace ["w"]) "docs/new/a.md").normalize =
      dirPath ⟨["w"]⟩ "docs" ++ PathBuf.names ["new", "a.md"] := by decide +kernel
  obtain rfl := PathBuf.names_injective (List.append_cancel_left (hback.symm.trans hpath))
  have hnone : lastSymlink (docs.isSymlink 40) (dirPath ⟨["w"]⟩ "docs") ["new", "a.md"] = none := by decide +kernel
  rw [hnone] at hlast
  cases hlast

/-- A rule for `docs` covers a file that is written in `src`. -/
theorem not_kept_link : docs.Settled ["w"] ∧ ¬ Kept docs 40 ⟨["w"]⟩ "docs/link/a.rs" "docs" := by
  refine ⟨.inl rfl, fun hkept => ?_⟩
  have hwithin : pathWithin docs 40 (.ofPlace ["w"]) "docs/link/a.rs" "docs" = true := by decide +kernel
  have hresolved : (Workspace.mk ["w"]).resolveTarget docs 40 "docs/link/a.rs" =
      .ok (.ofPlace ["w", "docs", "link", "a.rs"], .ofPlace ["w", "src", "a.rs"]) := by decide +kernel
  obtain ⟨real, hreal, hinside⟩ := hkept.within hwithin _ _ hresolved
  have hdocs : docs.canonicalize 40 (dirPath ⟨["w"]⟩ "docs") = some ["w", "docs"] := by decide +kernel
  obtain rfl := hreal.unique (FileTree.leads_of_canonicalize hdocs)
  exact absurd hinside (by decide)

end Docs

end Checked

end Adk
