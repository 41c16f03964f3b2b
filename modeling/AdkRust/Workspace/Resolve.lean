import AdkRust.Workspace.Paths

/-!
# The workspace of the file tools

How the tools of `workspace.rs` find the file that a path names and open it beneath the root.

* `Workspace.resolveTarget`: the target of a path, checked to be inside the root.
* `Workspace.writeContained`, `Workspace.readContained`: what is opened at a target.
* `Workspace.resolveTarget_spec`: the target is where the path leads, and in the root.
* `Workspace.opened_target`: the tools open the target, and no symlink refuses them.
-/

namespace Adk

/-- The system errors of an open. -/
inductive IoErrorKind where
  | notFound
  | notADirectory
  | isADirectory
  | invalidInput
  /-- A symlink on the path. -/
  | loop
deriving DecidableEq

/-- The errors of the file tools. -/
inductive DevToolError where
  | pathEscape (path : String)
  | io (kind : IoErrorKind)
deriving DecidableEq

def DevToolError.escapeMessage (path : String) : String := s!"path '{path}' escapes the workspace root"

/-- A workspace, with its canonical root. -/
structure Workspace (N : Type) where
  root : List N

namespace Workspace

variable {N : Type} [DecidableEq N] [OsStr N] (tree : FileTree N) (links : Nat) (workspace : Workspace N)

/-- The canonical target of a path, which may not exist yet. -/
def containedTarget (normalized : PathBuf N) (requested : String) : Except DevToolError (PathBuf N) :=
  match PathBuf.ancestor tree links (.ofPlace workspace.root) normalized with
  | .found existing canonical =>
    let canonical : PathBuf N := .ofPlace canonical
    if ¬canonical.startsWith (.ofPlace workspace.root) then .error (.pathEscape requested)
    else
      -- what lies below the deepest existing ancestor does not exist yet
      let missing := (normalized.stripPrefix existing).getD []
      .ok (if missing = [] then canonical else canonical.join missing)
  | .blocked => .error (.pathEscape requested)
  | .outside => .ok normalized

/-- A path against the root, as written and where it leads. -/
def resolveTarget (path : String) : Except DevToolError (PathBuf N × PathBuf N) :=
  let normalized := (PathBuf.requested (.ofPlace workspace.root) path).normalize
  if ¬normalized.startsWith (.ofPlace workspace.root) then .error (.pathEscape path)
  else (workspace.containedTarget tree links normalized path).map (normalized, ·)

def display (path : PathBuf N) : String :=
  ((path.stripPrefix (.ofPlace workspace.root)).getD path).toStringLossy

def beneathRoot (target : PathBuf N) : Except DevToolError (PathBuf N) :=
  match target.stripPrefix (.ofPlace workspace.root) with
  | some relative => .ok relative
  | none => .error (.pathEscape (workspace.display target))

def openError (target : PathBuf N) : IoErrorKind → DevToolError
  | .loop => .pathEscape (workspace.display target)
  | kind => .io kind

/-- Opens a directory below another, following no symlink; `create` makes what is missing. -/
def openDir (create : Bool) (here : List N) : PathBuf N → Except IoErrorKind (List N)
  | [] => .ok here
  | .normal name :: rest =>
    match tree.entry (here ++ [name]) with
    | none => if create then openDir create (here ++ [name]) rest else .error .notFound
    | some (.symlink _) => .error .loop
    | some .file => .error .notADirectory
    | some .dir => openDir create (here ++ [name]) rest
  | _ :: _ => .error .invalidInput

/-- Opens the file of a directory, following no symlink. -/
def openEntry (create : Bool) (here : List N) (name : N) : Except IoErrorKind (List N) :=
  match tree.entry (here ++ [name]) with
  | none => if create then .ok (here ++ [name]) else .error .notFound
  | some (.symlink _) => .error .loop
  | some .dir => .error .isADirectory
  | some .file => .ok (here ++ [name])

/-- The file that is opened below the root. -/
def openBeneath (create : Bool) (relative : PathBuf N) : Except IoErrorKind (List N) :=
  match relative.getLast? with
  | some (.normal name) => do
    let here ← openDir tree create workspace.root relative.dropLast
    openEntry tree create here name
  | _ => .error .isADirectory

/-- The file that a write of a target creates or truncates. -/
def writeContained (target : PathBuf N) : Except DevToolError (List N) := do
  let relative ← workspace.beneathRoot target
  (workspace.openBeneath tree true relative).mapError (workspace.openError target)

def readContained (target : PathBuf N) : Except DevToolError (List N) := do
  let relative ← workspace.beneathRoot target
  (workspace.openBeneath tree false relative).mapError (workspace.openError target)

/-! ## Where a target is -/

variable {tree links workspace}

omit [OsStr N] in
theorem containedTarget_spec (hroot : tree.Settled workspace.root) {back : List N} {requested : String}
    {target : PathBuf N}
    (h : workspace.containedTarget tree links (.ofPlace (workspace.root ++ back)) requested = .ok target) :
    ∃ below, target = .ofPlace (workspace.root ++ below) ∧
      tree.Leads links (.ofPlace (workspace.root ++ back)) (workspace.root ++ below) := by
  unfold containedTarget at h
  rcases PathBuf.ancestor_spec links hroot back with
    ⟨existing, canonical, missing, hfnd, hpath, hcanon, hmis⟩ | hblk
  · rw [hfnd] at h
    simp only at h
    split at h
    · cases h
    · next hins =>
      rw [Decidable.not_not, PathBuf.startsWith_iff, PathBuf.ofPlace_prefix_iff] at hins
      obtain ⟨below, rfl⟩ := hins
      have hstrip : (PathBuf.ofPlace (workspace.root ++ back)).stripPrefix existing = some (.names missing) :=
        PathBuf.stripPrefix_eq_some.mpr hpath
      rw [hstrip, Option.getD_some, PathBuf.join_names, ← PathBuf.ofPlace_append] at h
      have htarget : target = .ofPlace (workspace.root ++ below ++ missing) := by
        obtain rfl := Except.ok.inj h
        cases missing with
        | nil => simp
        | cons name rest => simp
      refine ⟨below ++ missing, by rw [htarget, List.append_assoc], existing, missing, _, hpath, hcanon,
        (List.append_assoc _ _ _).symm, hmis⟩
  · rw [hblk] at h
    cases h

/-- **A target is where its path leads**, which is in the root. -/
theorem resolveTarget_spec (hroot : tree.Settled workspace.root) {path : String} {normalized target : PathBuf N}
    (h : workspace.resolveTarget tree links path = .ok (normalized, target)) :
    ∃ back below, normalized = .ofPlace (workspace.root ++ back) ∧
      (PathBuf.requested (.ofPlace workspace.root) path).normalize = normalized ∧
      target = .ofPlace (workspace.root ++ below) ∧ tree.Leads links normalized (workspace.root ++ below) := by
  unfold resolveTarget at h
  obtain ⟨rest, -, hrest⟩ := PathBuf.requested_absolute workspace.root path
  obtain ⟨place, hpl⟩ := PathBuf.normalize_absolute rest
  rw [hrest, hpl] at h ⊢
  dsimp only at h
  split at h
  · cases h
  · next hins =>
    rw [Decidable.not_not, PathBuf.startsWith_iff, PathBuf.ofPlace_prefix_iff] at hins
    obtain ⟨back, rfl⟩ := hins
    cases hcontd : workspace.containedTarget tree links (.ofPlace (workspace.root ++ back)) path with
    | error error =>
      rw [hcontd] at h
      cases h
    | ok found =>
      rw [hcontd] at h
      obtain ⟨rfl, rfl⟩ := Prod.mk.inj (Except.ok.inj h)
      obtain ⟨below, htarget, hleads⟩ := containedTarget_spec hroot hcontd
      exact ⟨back, below, rfl, rfl, htarget, hleads⟩

/-! ## What is opened -/

omit [DecidableEq N] [OsStr N] in
theorem openDir_names (create : Bool) {back : List N} : ∀ {here : List N},
    (∀ front, front ≠ [] → front <+: back → ∀ target, tree.entry (here ++ front) ≠ some (.symlink target)) →
    openDir tree create here (.names back) ≠ .error .loop ∧
      ∀ place, openDir tree create here (.names back) = .ok place → place = here ++ back := by
  induction back with
  | nil =>
    intro here _
    refine ⟨(fun h => by cases h), fun place h => ?_⟩
    obtain rfl := Except.ok.inj h
    simp
  | cons name rest ih =>
    intro here hpln
    have hname := hpln [name] (List.cons_ne_nil _ _) ⟨rest, rfl⟩
    have hbel : ∀ front, front ≠ [] → front <+: rest → ∀ target,
        tree.entry (here ++ [name] ++ front) ≠ some (.symlink target) := by
      rintro front - ⟨back, rfl⟩
      have := hpln (name :: front) (List.cons_ne_nil _ _) ⟨back, rfl⟩
      simpa using this
    have hrest := ih hbel
    rw [PathBuf.names_cons, openDir]
    cases hent : tree.entry (here ++ [name]) with
    | none =>
      cases create with
      | false => exact ⟨(fun h => by cases h), fun place h => by cases h⟩
      | true => simpa using hrest
    | some entry =>
      cases entry with
      | symlink target => exact absurd hent (hname target)
      | file => exact ⟨(fun h => by cases h), fun place h => by cases h⟩
      | dir => simpa using hrest

omit [DecidableEq N] [OsStr N] in
/-- Where no symlink is on the way, a file is opened at its own place. -/
theorem openBeneath_names (create : Bool) {back : List N}
    (hpln : ∀ front, front ≠ [] → front <+: back → ∀ target,
      tree.entry (workspace.root ++ front) ≠ some (.symlink target)) :
    workspace.openBeneath tree create (.names back) ≠ .error .loop ∧
      ∀ place, workspace.openBeneath tree create (.names back) = .ok place → place = workspace.root ++ back := by
  unfold openBeneath
  induction back using List.reverseRecOn with
  | nil => exact ⟨(fun h => by cases h), fun place h => by cases h⟩
  | append_singleton front name _ =>
    have hlast : (PathBuf.names (front ++ [name])).getLast? = some (.normal name) := by simp
    have hpar : (PathBuf.names (front ++ [name])).dropLast = PathBuf.names front := by simp
    rw [hlast, hpar]
    have hfrt : ∀ before, before ≠ [] → before <+: front → ∀ target,
        tree.entry (workspace.root ++ before) ≠ some (.symlink target) :=
      fun before hne hbef => hpln before hne (hbef.trans (List.prefix_append _ _))
    have hdir := openDir_names create hfrt
    have hname := hpln (front ++ [name]) (by simp) (List.prefix_refl _)
    cases hopened : openDir tree create workspace.root (.names front) with
    | error error =>
      rw [hopened] at hdir
      simpa [bind, Except.bind] using hdir.1
    | ok here =>
      obtain rfl := hdir.2 here hopened
      rw [← List.append_assoc] at hname ⊢
      simp only [bind, Except.bind, openEntry]
      split
      · cases create <;> simp [eq_comm]
      · next target hent => exact absurd hent (hname target)
      · simp
      · simp [eq_comm]

/-- **The tools open the target and nothing else**: a write or a read of a target opens the file at it, and no
symlink refuses it. -/
theorem opened_target (hroot : tree.Settled workspace.root) {path : String} {normalized target : PathBuf N}
    (h : workspace.resolveTarget tree links path = .ok (normalized, target)) :
    (∀ text, workspace.writeContained tree target ≠ .error (.pathEscape text) ∧
      workspace.readContained tree target ≠ .error (.pathEscape text)) ∧
    ∀ place, workspace.writeContained tree target = .ok place ∨ workspace.readContained tree target = .ok place →
      target = .ofPlace place := by
  obtain ⟨back, below, -, -, rfl, hleads⟩ := resolveTarget_spec hroot h
  have hpln : ∀ front, front ≠ [] → front <+: below → ∀ target,
      tree.entry (workspace.root ++ front) ≠ some (.symlink target) := by
    rintro front - ⟨rest, rfl⟩ target
    exact hleads.no_symlink ⟨rest, by simp⟩
  have hbeneath : workspace.beneathRoot (.ofPlace (workspace.root ++ below)) = .ok (.names below) := by
    unfold beneathRoot
    rw [PathBuf.stripPrefix_eq_some.mpr (PathBuf.ofPlace_append _ _)]
  have hopened : ∀ create, (∀ text, ((workspace.openBeneath tree create (.names below)).mapError
        (workspace.openError (.ofPlace (workspace.root ++ below)))) ≠ .error (.pathEscape text)) ∧
      ∀ place, ((workspace.openBeneath tree create (.names below)).mapError
        (workspace.openError (.ofPlace (workspace.root ++ below)))) = .ok place →
        PathBuf.ofPlace (workspace.root ++ below) = .ofPlace place := by
    intro create
    obtain ⟨hloop, hpl⟩ := openBeneath_names create hpln
    cases hopen : workspace.openBeneath tree create (.names below) with
    | ok place =>
      refine ⟨(fun text h => by cases h), fun other h => ?_⟩
      obtain rfl := Except.ok.inj h
      rw [hpl place hopen]
    | error kind =>
      refine ⟨fun text h => ?_, fun other h => by cases h⟩
      cases kind with
      | loop => exact hloop hopen
      | notFound => cases h
      | notADirectory => cases h
      | isADirectory => cases h
      | invalidInput => cases h
  unfold writeContained readContained
  rw [hbeneath]
  refine ⟨fun text => ⟨(hopened true).1 text, (hopened false).1 text⟩, fun place hpl => ?_⟩
  rcases hpl with hpl | hpl
  · exact (hopened true).2 place hpl
  · exact (hopened false).2 place hpl

end Workspace

end Adk
