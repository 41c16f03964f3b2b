import AdkRust.Core.Error
import AdkRust.Core.Time
import AdkRust.Lib.ProcPool
import Mathlib.Algebra.Order.Ring.Nat

/-!
# Harness modes

The mode of a session and the writes that change it (`mode.rs`): a write reads the record of the session, decides
whether the change loosens the mode, and stores a new record.

* `HarnessMode`, `ModeRecord.modeForInvocation`: what a record says of an invocation.
* `writeModeChange`: the write, over `ModeOp`.
* `modeSystem`: any writes on one session, one access at a time.
* `ModeRun.modes_kept`: what a stored record is to the record its write read.
-/

namespace Adk

/-! ## Modes -/

/-- What the harness lets a session do without asking. -/
inductive HarnessMode where
  /-- Reads and todos only. -/
  | readOnly
  /-- Reads, todos and `exit_plan_mode`; nothing that changes the workspace. -/
  | plan
  /-- Edits and the shell need approval unless a standing rule allows them. -/
  | ask
  /-- Edits run without approval; the host shell still needs approval. -/
  | auto
deriving DecidableEq

namespace HarnessMode

/-- The wire name. -/
def asStr : HarnessMode → String
  | .readOnly => "read_only"
  | .plan => "plan"
  | .ask => "ask"
  | .auto => "auto"

/-- Rank in the mode lattice: higher is stricter. -/
def strictness : HarnessMode → Nat
  | .readOnly => 3
  | .plan => 2
  | .ask => 1
  | .auto => 0

/-- Whether a mode permits strictly less than another. -/
def isStricterThan (mode other : HarnessMode) : Bool := other.strictness < mode.strictness

theorem isStricterThan_iff {mode other : HarnessMode} :
    mode.isStricterThan other = true ↔ other.strictness < mode.strictness := decide_eq_true_iff

end HarnessMode

inductive ModeSource where
  | default
  /-- A person. -/
  | user
  /-- An approved `exit_plan_mode` call. -/
  | planApproval
  /-- The operator's configuration. -/
  | operator
  /-- The harness tightened the mode itself. -/
  | systemTighten
deriving DecidableEq

/-- The wire name of a source. -/
def ModeSource.asStr : ModeSource → String
  | .default => "default"
  | .user => "user"
  | .planApproval => "plan_approval"
  | .operator => "operator"
  | .systemTighten => "system_tighten"

/-- A session's mode as a store keeps it. -/
structure ModeRecord where
  mode : HarnessMode
  /-- Incremented on every change. -/
  revision : Nat
  setBy : ModeSource
  at_ : Utc
  /-- The invocation that loosened the mode, which itself keeps running under the stricter mode. -/
  effectiveFrom : Option String
deriving DecidableEq

/-- The mode of the invocation that a record names, whatever the record's own. -/
def ModeSource.held (source : ModeSource) : HarnessMode := if source = .planApproval then .plan else .readOnly

def ModeRecord.modeForInvocation (record : ModeRecord) (invocationId : String) : HarnessMode :=
  if record.effectiveFrom = some invocationId then
    if record.mode.isStricterThan record.setBy.held then record.mode else record.setBy.held
  else record.mode

/-- How a requested change relates to the current mode. -/
inductive ModeChange where
  | same
  | tighten
  | loosen
deriving DecidableEq

def ModeChange.between (current target : HarnessMode) : ModeChange :=
  if current = target then .same else if target.isStricterThan current then .tighten else .loosen

def mayLoosen (source : ModeSource) : Bool := source = .user || source = .planApproval

theorem between_loosen {current target : HarnessMode} :
    ModeChange.between current target = .loosen ↔ current.isStricterThan target = true := by
  cases current <;> cases target <;> decide

/-! ## The write -/

/-- The accesses of a write. -/
inductive ModeOp where
  | get
  | set (record : ModeRecord)
  /-- Writes an audit record. -/
  | audit (action : String) (ext : Value)
  | now

abbrev ModeOp.Ret : ModeOp → Type
  | .get => Except AdkError (Option ModeRecord)
  | .set _ => Except AdkError Unit
  | .audit .. => Except AdkError Unit
  | .now => Utc

abbrev ModeProg : Type → Type := ExceptT AdkError (Prog ModeOp ModeOp.Ret)

def ModeProg.perform (op : ModeOp) : ModeProg op.Ret := ExceptT.lift (Prog.perform op)

/-- The result of an access that may fail. -/
def ModeProg.ofResult {α : Type} : Except AdkError α → ModeProg α
  | .ok a => pure a
  | .error error => throw error

/-- A requested change. -/
structure ModeWrite where
  to_ : HarnessMode
  source : ModeSource
  effectiveFrom : Option String := none
  audited : Bool := false
  cancelledCallIds : List String := []

/-- Why a change is refused. -/
def looseningRefused (current target : HarnessMode) : AdkError where
  component := .agent
  category := .forbidden
  code := "harness.mode.loosening_refused"
  message := s!"changing the mode from {current.asStr} to {target.asStr} loosens it; only Harness::set_mode or an " ++
    "approved exit_plan_mode may do that"

/-- The audit fields of a change that is refused. -/
def refusedExt (current : HarnessMode) (write : ModeWrite) : Value :=
  .object [("from", .string current.asStr), ("initiator", .string write.source.asStr),
    ("reason", .string "only Harness::set_mode or an approved exit_plan_mode loosens a mode"),
    ("to", .string write.to_.asStr)]

/-- The audit fields of a change. -/
def changedExt (current : HarnessMode) (write : ModeWrite) (revision : Nat) : Value :=
  .object [("cancelledHeldCallIds", .array (write.cancelledCallIds.map .string)),
    ("effectiveFrom", (write.effectiveFrom.map Value.string).getD .null), ("from", .string current.asStr),
    ("initiator", .string write.source.asStr), ("revision", .number (.int revision)),
    ("to", .string write.to_.asStr)]

def auditMode (write : ModeWrite) (action : String) (ext : Value) : ModeProg Unit :=
  if write.audited then do
    ModeProg.ofResult (← ModeProg.perform (.audit action ext))
  else pure ()

def currentMode (defaultMode : HarnessMode) (current : Option ModeRecord) : HarnessMode :=
  (current.map (·.mode)).getD defaultMode

def writeModeChange (defaultMode : HarnessMode) (write : ModeWrite) : ModeProg ModeRecord := do
  let current ← ModeProg.ofResult (← ModeProg.perform .get)
  let from_ := currentMode defaultMode current
  if ModeChange.between from_ write.to_ = .loosen ∧ mayLoosen write.source = false then
    auditMode write "harness.mode.refused" (refusedExt from_ write)
    throw (looseningRefused from_ write.to_)
  let at_ ← ModeProg.perform .now
  let record : ModeRecord := {
    mode := write.to_
    revision := (current.map fun record => record.revision + 1).getD 1
    setBy := write.source
    at_
    effectiveFrom := write.effectiveFrom }
  auditMode write "harness.mode.changed" (changedExt from_ write record.revision)
  ModeProg.ofResult (← ModeProg.perform (.set record))
  return record

/-! ## The writes of a session -/

/-- The records of a session, in the order they were stored. -/
structure ModeWorld where
  stored : List ModeRecord := []

namespace ModeWorld

def current (w : ModeWorld) : Option ModeRecord := w.stored.getLast?

/-- A read answers the record, and a store replaces it; each may fail and then changes nothing. The clock and the
audit trail answer anything. -/
def laws : Laws ModeOp ModeOp.Ret ModeWorld where
  answers
    | .get, w, r, w' => w' = w ∧ ((∃ error, r = .error error) ∨ r = .ok w.current)
    | .set record, w, r, w' =>
      (∃ error, r = .error error) ∧ w' = w ∨ r = .ok () ∧ w' = { stored := w.stored ++ [record] }
    | .audit .., w, _, w' => w' = w
    | .now, w, _, w' => w' = w
  moves _ _ := False

end ModeWorld

/-- A write in progress, or one that has returned. -/
abbrev ModeProc : Type := Proc (fun _ : ModeWrite => Except AdkError ModeRecord) ModeOp.Ret ModeWorld

/-- The store and the writes. -/
abbrev ModePool : Type := ProcPool (fun _ : ModeWrite => Except AdkError ModeRecord) ModeOp.Ret ModeWorld

def modeSystem (defaultMode : HarnessMode) :
    System (fun _ : ModeWrite => Except AdkError ModeRecord) ModeOp.Ret ModeWorld where
  laws := ModeWorld.laws
  program write := (writeModeChange defaultMode write).run

namespace ModeRun

open ProcPool

abbrev ModeEntry : Type := Entry ModeOp.Ret ModeWorld

/-- What a record is to the record its write read: only a person loosens the mode, also that of an invocation
which the record before did not hold back; and the invocation that a record names is held back by it. -/
structure Follows (defaultMode : HarnessMode) (current : Option ModeRecord) (record : ModeRecord) : Prop where
  mode : (currentMode defaultMode current).isStricterThan record.mode = true → mayLoosen record.setBy = true
  revision : record.revision = (current.map (·.revision)).getD 0 + 1
  invocation : ∀ invocationId, (∀ before, current = some before → before.effectiveFrom ≠ some invocationId) →
    (currentMode defaultMode current).isStricterThan (record.modeForInvocation invocationId) = true →
    mayLoosen record.setBy = true
  named : ∀ invocationId, record.effectiveFrom = some invocationId →
    record.setBy.held.isStricterThan (record.modeForInvocation invocationId) = false

/-- The write read what a world had, and made a record from it. -/
def Made (defaultMode : HarnessMode) (record : ModeRecord) (log : List ModeEntry) : Prop :=
  ∃ w, ⟨w, .get, .ok w.current⟩ ∈ log ∧ Follows defaultMode w.current record

def Before (defaultMode : HarnessMode) (_ : ModeWrite) (op : ModeOp) (log : List ModeEntry) : Prop :=
  match op with
  | .set record => Made defaultMode record log
  | _ => True

variable {defaultMode : HarnessMode} {write : ModeWrite} {log : List ModeEntry}

variable {record : ModeRecord} {proc : ModeProc}

theorem strict_modeFor {invocationId : String} :
    record.mode.strictness ≤ (record.modeForInvocation invocationId).strictness := by
  unfold ModeRecord.modeForInvocation
  split
  · split
    · exact Nat.le_refl _
    next hnot =>
      rw [HarnessMode.isStricterThan_iff] at hnot
      omega
  · exact Nat.le_refl _

/-- **The record that a write makes follows the one it read.** -/
theorem follows_made {current : Option ModeRecord} {at_ : Utc}
    (hall : ¬(ModeChange.between (currentMode defaultMode current) write.to_ = .loosen ∧
      mayLoosen write.source = false)) :
    Follows defaultMode current {
      mode := write.to_
      revision := (current.map fun record => record.revision + 1).getD 1
      setBy := write.source
      at_
      effectiveFrom := write.effectiveFrom } := by
  have hmode : (currentMode defaultMode current).isStricterThan write.to_ = true → mayLoosen write.source = true := by
    intro hloosens
    by_contra hmay
    exact hall ⟨between_loosen.mpr hloosens, Bool.eq_false_iff.mpr hmay⟩
  constructor
  case mode => exact hmode
  case revision =>
    cases current with
    | none => rfl
    | some record => rfl
  case invocation =>
    intro invocationId _ hloosens
    rw [HarnessMode.isStricterThan_iff] at hloosens
    apply hmode
    rw [HarnessMode.isStricterThan_iff]
    have hlt := Nat.lt_of_le_of_lt strict_modeFor hloosens
    exact hlt
  case named =>
    intro invocationId hnmd
    unfold ModeRecord.modeForInvocation
    rw [if_pos hnmd]
    split
    next hstricter =>
      rw [HarnessMode.isStricterThan_iff] at hstricter
      apply Bool.eq_false_iff.mpr
      rw [ne_eq, HarnessMode.isStricterThan_iff]
      omega
    · apply Bool.eq_false_iff.mpr
      rw [ne_eq, HarnessMode.isStricterThan_iff]
      exact Nat.lt_irrefl _

/-- Auditing keeps what was read. -/
theorem audit_local {action : String} {ext : Value} {P : List ModeEntry → Prop} (h : P log)
    (hmore : ∀ log entry, P log → P (log ++ [entry])) :
    Prog.Ensures (recording ModeWorld.laws) (Before defaultMode write) (fun _ _ => True) (fun _ log => P log)
      (auditMode write action ext) log := by
  unfold auditMode
  by_cases haudited : write.audited = true
  · rw [if_pos haudited]
    refine Prog.Ensures.bind (M := fun _ log => P log) ?_ ?_
    · exact ensures_perform trivial fun _ _ _ _ => hmore _ _ h
    · intro result log hlog
      cases result with
      | ok a => exact ensures_pure hlog
      | error error => exact ensures_throw trivial
  · rw [if_neg haudited]
    exact ensures_pure h

/-- **A write stores only a record that it made from what it read.** -/
theorem write_local (write : ModeWrite) :
    Prog.Ensures (recording ModeWorld.laws) (Before defaultMode write) (fun _ _ => True) (fun _ _ => True)
      (writeModeChange defaultMode write) [] := by
  unfold writeModeChange
  -- the read
  refine Prog.Ensures.bind (M := fun result log => ∀ current, result = .ok current →
    ∃ w, ⟨w, .get, .ok w.current⟩ ∈ log ∧ current = w.current) ?_ ?_
  · refine ensures_perform trivial fun w result w' hr current hcurrent => ?_
    obtain ⟨-, ⟨error, rfl⟩ | rfl⟩ := hr
    · cases hcurrent
    · obtain rfl := Except.ok.inj hcurrent
      exact ⟨w, List.mem_singleton_self _, rfl⟩
  intro result log hread
  refine Prog.Ensures.bind (M := fun current log =>
    ∃ w, ⟨w, .get, .ok w.current⟩ ∈ log ∧ current = w.current) ?_ ?_
  · cases result with
    | ok current => exact ensures_pure (hread current rfl)
    | error error => exact ensures_throw trivial
  rintro current log ⟨w, hread, rfl⟩
  have hmore : ∀ (log : List ModeEntry) (entry : ModeEntry), ⟨w, .get, .ok w.current⟩ ∈ log →
      ⟨w, .get, .ok w.current⟩ ∈ log ++ [entry] := fun _ _ h => List.mem_append_left _ h
  dsimp only
  split
  · refine Prog.Ensures.bind (M := fun _ _ => True) ?_ fun _ _ _ => ensures_throw trivial
    exact (audit_local (P := fun _ => True) trivial fun _ _ _ => trivial)
  next hall =>
    refine Prog.Ensures.bind (M := fun _ log => ⟨w, .get, .ok w.current⟩ ∈ log) ?_ ?_
    · exact ensures_perform trivial fun _ _ _ _ => hmore _ _ hread
    intro at_ log hread
    refine Prog.Ensures.bind (M := fun _ log => ⟨w, .get, .ok w.current⟩ ∈ log) (audit_local hread hmore) ?_
    intro _ log hread
    refine Prog.Ensures.bind (M := fun _ _ => True) ?_ ?_
    · exact ensures_perform ⟨w, hread, follows_made hall⟩ fun _ _ _ _ => trivial
    intro result log _
    refine Prog.Ensures.bind (M := fun _ _ => True) ?_ fun _ _ _ => ensures_pure trivial
    cases result with
    | ok _ => exact ensures_pure trivial
    | error error => exact ensures_throw trivial

/-! ## What is stored -/

/-- A write stored a record after so many others, and made it from what was there after the first `n` of them. -/
def Stored (defaultMode : HarnessMode) (stored : List ModeRecord) (n k : Nat) (record : ModeRecord)
    (proc : ModeProc) : Prop :=
  ∃ read ∈ proc.log, ∃ entry ∈ proc.log, read.op = .get ∧ read.world.stored = stored.take n ∧
    entry.op = .set record ∧ entry.world.stored = stored.take k ∧
    Follows defaultMode (stored.take n).getLast? record

/-- **Every stored record follows the one that its write read**, which is the one it replaced or an older one. -/
def ModesKept (defaultMode : HarnessMode) (s : ModePool) : Prop :=
  ∀ k record, s.world.stored[k]? = some record → ∃ (j : Nat) (proc : ModeProc) (n : Nat),
    s.procs[j]? = some proc ∧ n ≤ k ∧ Stored defaultMode s.world.stored n k record proc

theorem Stored.more {stored : List ModeRecord} {n k : Nat} {last : ModeRecord}
    (h : Stored defaultMode stored n k record proc) (hn : n ≤ k) (hk : k < stored.length) :
    Stored defaultMode (stored ++ [last]) n k record proc := by
  obtain ⟨read, hread, entry, hent, hget, htook, hset, hpl, hfol⟩ := h
  have htake : ∀ m ≤ k, (stored ++ [last]).take m = stored.take m := by
    intro m hm
    apply List.take_append_of_le_length
    omega
  refine ⟨read, hread, entry, hent, hget, ?_, hset, ?_, ?_⟩
  · rw [htake n hn]
    exact htook
  · rw [htake k (Nat.le_refl k)]
    exact hpl
  · rw [htake n hn]
    exact hfol

theorem Stored.after {stored : List ModeRecord} {n k : Nat} {proc' : ModeProc}
    (h : Stored defaultMode stored n k record proc) (hlog : ∀ entry ∈ proc.log, entry ∈ proc'.log) :
    Stored defaultMode stored n k record proc' := by
  obtain ⟨read, hread, entry, hent, hrest⟩ := h
  exact ⟨read, hlog _ hread, entry, hlog _ hent, hrest⟩

/-- What is stored stays. -/
def Older (w w' : ModeWorld) : Prop := w.stored <+: w'.stored

theorem Older.refl (w : ModeWorld) : Older w w := List.prefix_refl _

theorem Older.trans (w₁ w₂ w₃ : ModeWorld) (h : Older w₁ w₂) (h' : Older w₂ w₃) : Older w₁ w₃ :=
  List.IsPrefix.trans h h'

theorem answers_older {op : ModeOp} {w w' : ModeWorld} {r : op.Ret} (h : ModeWorld.laws.answers op w r w') :
    Older w w' := by
  cases op with
  | get =>
    obtain ⟨rfl, -⟩ := h
    exact List.prefix_refl _
  | set record =>
    rcases h with ⟨-, rfl⟩ | ⟨-, rfl⟩
    · exact List.prefix_refl _
    · exact List.prefix_append _ _
  | audit action ext =>
    obtain rfl : w' = w := h
    exact List.prefix_refl _
  | now =>
    obtain rfl : w' = w := h
    exact List.prefix_refl _

/-- A session with no record. -/
def fresh : ModePool := { world := {} }

theorem made_from {s : ModePool} (hrea : Reaches (modeSystem defaultMode) fresh s) {i : Nat}
    {rest : Except AdkError Unit → Prog ModeOp ModeOp.Ret (Except AdkError ModeRecord)}
    (hproc : s.procs[i]? = some proc) (hrest : proc.rest = .ask (.set record) rest) :
    ∃ n ≤ s.world.stored.length, ∃ read ∈ proc.log, read.op = .get ∧ read.world.stored = s.world.stored.take n ∧
      Follows defaultMode (s.world.stored.take n).getLast? record := by
  have hkeeps : Keeps ModeWorld.laws (Before defaultMode) (fun _ _ _ => True) proc :=
    hrea.local rfl (fun write => Prog.Holds.mono (write_local write) fun _ _ _ => trivial) i proc hproc
  obtain ⟨w, hread, hfol⟩ : Made defaultMode record proc.log := hkeeps.performs hrest
  have hpast : Past ModeWorld.laws Older proc.log s.world :=
    hrea.past rfl Older.refl Older.trans (fun _ _ _ _ => answers_older) (fun _ _ h => h.elim) i proc hproc
  obtain ⟨w', ⟨rfl, -⟩, hpre⟩ := hpast.here _ hread
  have htake : w'.stored = s.world.stored.take w'.stored.length := List.prefix_iff_eq_take.mp hpre
  refine ⟨w'.stored.length, hpre.length_le, _, hread, rfl, htake, ?_⟩
  rw [← htake]
  exact hfol

theorem step_stores {s s' : ModePool} (hrea : Reaches (modeSystem defaultMode) fresh s)
    (hstep : Step (modeSystem defaultMode) s s') : s'.world.stored = s.world.stored ∨
    ∃ (record : ModeRecord) (j : Nat) (proc : ModeProc) (n : Nat),
      s'.world.stored = s.world.stored ++ [record] ∧ s'.procs[j]? = some proc ∧ n ≤ s.world.stored.length ∧
      Stored defaultMode s'.world.stored n s.world.stored.length record proc := by
  cases hstep with
  | start _ => exact .inl rfl
  | stop _ => exact .inl rfl
  | move h => exact h.elim
  | @act i proc op rest r w hproc hlive hrest hacts hr =>
    cases op with
    | get =>
      obtain ⟨rfl, -⟩ := hr
      exact .inl rfl
    | audit action ext =>
      obtain rfl : w = s.world := hr
      exact .inl rfl
    | now =>
      obtain rfl : w = s.world := hr
      exact .inl rfl
    | set record =>
      rcases hr with ⟨-, rfl⟩ | ⟨rfl, rfl⟩
      · exact .inl rfl
      · obtain ⟨n, hn, read, hread, hget, htook, hfol⟩ := made_from hrea hproc hrest
        have htake : (s.world.stored ++ [record]).take n = s.world.stored.take n :=
          List.take_append_of_le_length hn
        have hself := List.getElem?_set_self (a := proc.after s.world (.set record) (.ok ()) (rest (.ok ())))
          (List.getElem?_eq_some_iff.mp hproc).1
        refine .inr ⟨record, i, _, n, rfl, hself, hn, read, List.mem_append_left _ hread, _,
          List.mem_append_right _ (List.mem_singleton_self _), hget, ?_, rfl, ?_, ?_⟩
        · rw [htake]
          exact htook
        · exact (List.take_left).symm
        · rw [htake]
          exact hfol

/-- **In every run of any writes**, each stored record follows the one that its write read. -/
theorem modes_kept {s : ModePool} (hreach : Reaches (modeSystem defaultMode) fresh s) :
    ModesKept defaultMode s := by
  induction hreach with
  | refl =>
    intro k record hstored
    cases hstored
  | @tail s s' hreach hstep ih =>
    intro k record hstored
    rcases step_stores hreach hstep with hsame | ⟨last, j, proc, n, hmore, hproc, hn, hlast⟩
    · rw [hsame] at hstored
      obtain ⟨j, proc, n, hproc, hn, h⟩ := ih k record hstored
      obtain ⟨proc', hproc', -, hlog⟩ := hstep.grows hproc
      rw [hsame]
      exact ⟨j, proc', n, hproc', hn, h.after hlog⟩
    · rcases Nat.lt_trichotomy k s.world.stored.length with hk | rfl | hk
      · rw [hmore, List.getElem?_append_left hk] at hstored
        obtain ⟨j, proc, n, hproc, hn, h⟩ := ih k record hstored
        obtain ⟨proc', hproc', -, hlog⟩ := hstep.grows hproc
        rw [hmore]
        exact ⟨j, proc', n, hproc', hn, (h.after hlog).more hn hk⟩
      · rw [hmore, List.getElem?_concat_length] at hstored
        obtain rfl := Option.some.inj hstored
        exact ⟨j, proc, n, hproc, hn, hlast⟩
      · rw [hmore, List.getElem?_eq_none (by simp; omega)] at hstored
        cases hstored

/-! ## Runs -/

section Runs

/-- The accesses of a store that never fails. -/
def run : (op : ModeOp) → ModeWorld → op.Ret × ModeWorld
  | .get, w => (.ok w.current, w)
  | .set record, w => (.ok (), { stored := w.stored ++ [record] })
  | .audit .., w => (.ok (), w)
  | .now, w => (0, w)

theorem answers_run (op : ModeOp) (w : ModeWorld) : ModeWorld.laws.answers op w (run op w).1 (run op w).2 := by
  cases op with
  | get => exact ⟨rfl, .inr rfl⟩
  | set record => exact .inr ⟨rfl, rfl⟩
  | audit action ext => rfl
  | now => rfl

instance : ∀ s write, Decidable ((modeSystem defaultMode).starts s write) :=
  fun _ _ => inferInstanceAs (Decidable True)

instance : ∀ s i op, Decidable ((modeSystem defaultMode).acts s i op) :=
  fun _ _ _ => inferInstanceAs (Decidable True)

def after (defaultMode : HarnessMode) (events : List (ProcPool.Event ModeWrite)) : ModePool :=
  events.foldl (ProcPool.next (modeSystem defaultMode) run) fresh

theorem reaches_after (defaultMode : HarnessMode) (events : List (ProcPool.Event ModeWrite)) :
    Reaches (modeSystem defaultMode) fresh (after defaultMode events) :=
  reaches_foldl answers_run fresh events

/-- A person asks for a plan, and an invocation whose plan is approved goes on under it. -/
def plannedRun : ModePool :=
  after .ask [.start { to_ := .plan, source := .user }, .act 0, .act 0, .act 0,
    .start { to_ := .ask, source := .planApproval, effectiveFrom := some "inv-1" }, .act 1, .act 1, .act 1]

theorem modes_kept_planned : ModesKept .ask plannedRun ∧
    plannedRun.world.stored.map (fun record => (record.mode, record.revision)) = [(.plan, 1), (.ask, 2)] :=
  ⟨modes_kept (reaches_after _ _), by decide +kernel⟩

def ModesByPersons (defaultMode : HarnessMode) (stored : List ModeRecord) : Prop :=
  ∀ k record, stored[k]? = some record →
    (currentMode defaultMode (stored.take k).getLast?).isStricterThan record.mode = true →
    mayLoosen record.setBy = true

def InvocationsByUser (stored : List ModeRecord) : Prop :=
  ∀ k before record invocationId, stored[k]? = some before → stored[k + 1]? = some record →
    (before.modeForInvocation invocationId).isStricterThan (record.modeForInvocation invocationId) = true →
    record.setBy = .user

/-- The harness tightens the mode that it read, while a person sets a stricter one. -/
def staleRun : ModePool :=
  after .auto [.start { to_ := .plan, source := .systemTighten }, .act 0,
    .start { to_ := .readOnly, source := .user }, .act 1, .act 1, .act 1, .act 0, .act 0]

/-- A stale write loosens the mode and repeats a revision, and an approved plan loosens every other invocation. -/
theorem modes_loosened :
    (¬ ∀ (defaultMode : HarnessMode) (s : ModePool), Reaches (modeSystem defaultMode) fresh s →
      ModesByPersons defaultMode s.world.stored) ∧
    (¬ ∀ (defaultMode : HarnessMode) (s : ModePool), Reaches (modeSystem defaultMode) fresh s →
      s.world.stored.Pairwise (·.revision < ·.revision)) ∧
    (¬ ∀ (defaultMode : HarnessMode) (s : ModePool), Reaches (modeSystem defaultMode) fresh s →
      InvocationsByUser s.world.stored) := by
  have hstale : staleRun.world.stored = [⟨.readOnly, 1, .user, 0, none⟩, ⟨.plan, 1, .systemTighten, 0, none⟩] := by
    decide +kernel
  have hplanned : plannedRun.world.stored =
      [⟨.plan, 1, .user, 0, none⟩, ⟨.ask, 2, .planApproval, 0, some "inv-1"⟩] := by
    decide +kernel
  refine ⟨fun h => ?modes, fun h => ?revisions, fun h => ?invocations⟩
  case modes =>
    have hmodes := h .auto staleRun (reaches_after _ _)
    rw [hstale] at hmodes
    have hlast := hmodes 1 _ rfl (by decide)
    cases hlast
  case revisions =>
    have hrevisions := h .auto staleRun (reaches_after _ _)
    rw [hstale] at hrevisions
    revert hrevisions
    decide
  case invocations =>
    have hinvocations := h .ask plannedRun (reaches_after _ _)
    rw [hplanned] at hinvocations
    have hother := hinvocations 0 _ _ "inv-2" rfl rfl (by decide)
    cases hother

end Runs

end ModeRun

end Adk
