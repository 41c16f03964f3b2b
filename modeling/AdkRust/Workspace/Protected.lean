import AdkRust.Workspace.Resolve

/-!
# Protected paths

The path predicates of the approval rules (`approvals/matcher.rs`): each resolves a path by itself, against the
tree as it is.

* `isProtectedPath`, `isProtectedTarget`: whether a path is protected as written, or where a write would reach.
* `pathWithin`: whether a path lies within the directory of a rule.
* `isProtectedTarget_spec`: what is not protected leads into the root, to a path that is not protected.
* `pathWithin_spec`: what is within a directory is below it as written.
-/

namespace Adk

class UnicodeText where
  nfc : String → String
  toLowercase : String → String

section Protected

variable [UnicodeText]

def fold (component : String) : String := UnicodeText.toLowercase (UnicodeText.nfc component)

/-- Names of directories whose contents are protected at any depth. -/
def protectedDirs : List String := [".git", ".adk", ".skills", ".claude"]

def protectedFiles : List String :=
  ["agents.md", "agent.md", "claude.md", "memory.md", ".envrc", "lefthook.yml", "lefthook.yaml"]

/-- A path that is protected from the root, alone or with all that is below it. -/
structure RootPattern where
  path : String
  subtree : Bool := false

/-- The paths that are protected from the root. -/
def rootPatterns : List RootPattern :=
  [{ path := "adk-eval", subtree := true },
    { path := "adk-core/src/governance.rs" },
    { path := "adk-core/src/policy.rs" },
    { path := "adk-core/src/approval.rs" },
    { path := "adk-core/src/audit_log.rs" },
    { path := "adk-core/src/action_ledger.rs" },
    { path := "adk-core/src/spend.rs" },
    { path := "adk-core/src/budget.rs" },
    { path := "adk-harness/src/policy.rs" },
    { path := "adk-harness/src/approvals", subtree := true },
    { path := "adk-harness/src/selfimprove", subtree := true },
    { path := "adk-harness/tests/suite", subtree := true },
    { path := ".github", subtree := true },
    { path := "scripts", subtree := true },
    { path := "xtask", subtree := true },
    { path := "publish.sh" },
    { path := "Cargo.toml" },
    { path := "Cargo.lock" },
    { path := "rust-toolchain.toml" },
    { path := "CODEOWNERS" },
    { path := ".adk/selfimprove", subtree := true }]

def rootProtected (components : List String) : Bool :=
  rootPatterns.any fun pattern =>
    let parts := (splitText (· = '/') pattern.path).map fold
    parts.isPrefixOf components && (pattern.subtree || components.length = parts.length)

def isSeparator (c : Char) : Bool := c = '/' || c = '\\'

def isProtectedPath (path : String) : Bool :=
  let components := ((splitText isSeparator path).filter fun part => part ≠ "" && part ≠ ".").map fold
  components.any protectedDirs.contains ||
    (components.getLast?.any protectedFiles.contains || rootProtected components) ||
    (components.zip components.tail).any fun pair =>
      pair.1 = ".cargo" && (pair.2 = "config.toml" || pair.2 = "config")

variable {N : Type} [DecidableEq N] [OsStr N] (tree : FileTree N) (links : Nat)

/-- The root with its symlinks resolved. -/
def canonicalRoot (root : PathBuf N) : PathBuf N :=
  match tree.canonicalize links root with
  | some place => .ofPlace place
  | none => root

/-- Whether a path is protected as written or where a write would reach. -/
def isProtectedTarget (root : PathBuf N) (raw : String) : Bool :=
  if raw = "" || raw.toList.contains '\x00' then true
  else
    let normalized := (PathBuf.requested root raw).normalize
    match normalized.stripPrefix root with
    | none => true
    | some relative =>
      if isProtectedPath relative.toStringLossy then true
      else
        match PathBuf.ancestor tree links root normalized with
        | .found existing canonical =>
          let target := (PathBuf.ofPlace canonical).join (normalized.drop existing.length)
          match target.stripPrefix (canonicalRoot tree links root) with
          | some relative => isProtectedPath relative.toStringLossy
          | none => true
        -- a write through a dangling or looping symlink creates a target that is not seen here
        | .blocked => true
        | .outside => false

/-- Whether the deepest part of a path that exists is inside the root. -/
def containedAfterSymlinks (root path : PathBuf N) : Bool :=
  match PathBuf.ancestor tree links root path with
  | .found _ canonical => (PathBuf.ofPlace canonical).startsWith (canonicalRoot tree links root)
  | .blocked => false
  | .outside => true

def hasParent (text : String) : Bool := (splitText isSeparator text).contains ".."

/-- Whether a path lies within a directory and is not protected. -/
def pathWithin (root : PathBuf N) (raw dir : String) : Bool :=
  if raw = "" || raw.toList.contains '\x00' || dir.toList.contains '\x00' then false
  else if hasParent raw || hasParent dir || (PathBuf.new dir : PathBuf N).isAbsolute then false
  else
    let normalized := (PathBuf.requested root raw).lexical
    let root := root.lexical
    match normalized.stripPrefix root with
    | none => false
    | some relative =>
      if relative.contains .parentDir then false
      else if isProtectedPath relative.toStringLossy || isProtectedTarget tree links root raw then false
      else if !containedAfterSymlinks tree links root normalized then false
      else normalized.startsWith (root.join (.new dir)).lexical

/-! ## Where checked paths lead -/

variable {tree links}

/-- **What is not protected leads into the root**, to a path that is not protected. -/
theorem isProtectedTarget_spec {root : List N} (hroot : tree.Settled root) {raw : String}
    (h : isProtectedTarget tree links (.ofPlace root) raw = false) {dest : List N}
    (hleads : tree.Leads links (PathBuf.requested (.ofPlace root) raw).normalize dest) :
    ∃ below, dest = root ++ below ∧ isProtectedPath (PathBuf.names below).toStringLossy = false := by
  unfold isProtectedTarget at h
  split at h
  · cases h
  · obtain ⟨rest, -, hrest⟩ := PathBuf.requested_absolute root raw
    obtain ⟨place, hpl⟩ := PathBuf.normalize_absolute rest
    rw [hrest, hpl] at hleads
    simp only [hrest, hpl] at h
    split at h
    · cases h
    · next relative hrelative =>
      have hins := PathBuf.ofPlace_prefix_iff.mp ⟨relative, (PathBuf.stripPrefix_eq_some.mp hrelative).symm⟩
      obtain ⟨back, rfl⟩ := hins
      split at h
      · cases h
      · rcases PathBuf.ancestor_spec links hroot back with
          ⟨existing, canonical, missing, hfnd, hpath, hcanon, hmis⟩ | hblk
        · have hdrop : (PathBuf.ofPlace (root ++ back)).drop existing.length = PathBuf.names missing := by
            rw [hpath, List.drop_left]
          have hcanonicalRoot : canonicalRoot tree links (.ofPlace root) = .ofPlace root := by
            rw [canonicalRoot, FileTree.canonicalize_ofPlace hroot]
          rw [hfnd] at h
          simp only [hdrop, hcanonicalRoot, PathBuf.join_names, ← PathBuf.ofPlace_append] at h
          obtain rfl : dest = canonical ++ missing :=
            hleads.unique ⟨existing, missing, canonical, hpath, hcanon, rfl, hmis⟩
          split at h
          · next below hbel =>
            have hbel' := PathBuf.stripPrefix_eq_some.mp hbel
            obtain ⟨names, hnames⟩ := PathBuf.ofPlace_prefix_iff.mp ⟨below, hbel'.symm⟩
            rw [← hnames, PathBuf.ofPlace_append] at hbel'
            obtain rfl := List.append_cancel_left hbel'
            exact ⟨names, hnames.symm, h⟩
          · cases h
        · rw [hblk] at h
          cases h

theorem pathWithin_spec {root : List N} (hroot : tree.Settled root) {raw dir : String}
    (h : pathWithin tree links (.ofPlace root) raw dir = true) :
    isProtectedTarget tree links (.ofPlace root) raw = false ∧
    (∃ rest, (PathBuf.requested (.ofPlace root) raw).normalize =
      ((PathBuf.ofPlace root).join (.new dir)).lexical ++ PathBuf.names rest) ∧
    ∃ resolved, (Workspace.mk root).resolveTarget tree links raw = .ok resolved := by
  unfold pathWithin at h
  split at h
  · cases h
  split at h
  · cases h
  obtain ⟨parts, hpts, hrequested⟩ := PathBuf.requested_absolute root raw
  simp only [PathBuf.lexical_ofPlace] at h
  split at h
  · cases h
  next relative hrelative =>
  split at h
  · cases h
  next hpar =>
  split at h
  · cases h
  next hprotected =>
  split at h
  · cases h
  next hcontd =>
  rw [Bool.or_eq_true, not_or, Bool.not_eq_true, Bool.not_eq_true] at hprotected
  have hlexical := PathBuf.stripPrefix_eq_some.mp hrelative
  -- nothing goes up, so both ways to normalize agree
  have hnormal : (PathBuf.requested (.ofPlace root) raw).normalize =
      (PathBuf.requested (.ofPlace root) raw).lexical := by
    rw [hrequested] at hlexical ⊢
    apply PathBuf.normalize_eq_lexical hpts
    rw [hlexical, List.mem_append, not_or]
    refine ⟨by simp [PathBuf.ofPlace, PathBuf.names], ?_⟩
    simpa using hpar
  obtain ⟨place, hpl⟩ : ∃ place, (PathBuf.requested (.ofPlace root) raw).normalize = .ofPlace place := by
    rw [hrequested]
    exact PathBuf.normalize_absolute parts
  rw [← hnormal, hpl] at hlexical h hcontd
  obtain ⟨back, rfl⟩ := PathBuf.ofPlace_prefix_iff.mp ⟨relative, hlexical.symm⟩
  refine ⟨hprotected.2, ?_, ?_⟩
  · obtain ⟨rest, hrest⟩ := PathBuf.startsWith_iff.mp h
    have hdir : ((PathBuf.ofPlace root).join (.new dir)).lexical ≠ [] := by
      obtain ⟨other, hoth, habsolute⟩ := PathBuf.requested_absolute root dir
      rw [PathBuf.join_new, habsolute, PathBuf.lexical_absolute hoth]
      exact List.cons_ne_nil _ _
    obtain ⟨-, below, -, rfl⟩ := PathBuf.ofPlace_eq_append hdir hrest.symm
    exact ⟨below, by rw [hpl, hrest]⟩
  · have hcanonicalRoot : canonicalRoot tree links (.ofPlace root) = .ofPlace root := by
      rw [canonicalRoot, FileTree.canonicalize_ofPlace hroot]
    have hstarts : (PathBuf.ofPlace (root ++ back)).startsWith (.ofPlace root) = true :=
      PathBuf.startsWith_iff.mpr (PathBuf.ofPlace_prefix_iff.mpr (List.prefix_append _ _))
    rw [Bool.not_eq_true, Bool.not_eq_false', containedAfterSymlinks, hcanonicalRoot] at hcontd
    simp only [Workspace.resolveTarget, Workspace.containedTarget, hpl, hstarts]
    rcases PathBuf.ancestor_spec links hroot back with
      ⟨existing, canonical, missing, hfnd, -, -, -⟩ | hblk
    · rw [hfnd] at hcontd ⊢
      simp only at hcontd
      simp [hcontd, Except.map]
    · rw [hblk] at hcontd
      cases hcontd

end Protected

end Adk
