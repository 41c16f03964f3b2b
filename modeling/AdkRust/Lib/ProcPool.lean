import AdkRust.Lib.Prog
import Mathlib.Data.List.Basic

/-!
# Processes that share a world

A `ProcPool` is a world and the processes that run in it. A process performs one operation at a time and keeps a
log of what it performed: the world before each operation, and the answer. The operations of different
processes interleave in any order, a process may start at any time and stop for ever between two of its
operations, and the world may move by itself.

* `System`: the laws of the world, the program of each call, and what a start and an operation need.
* `ProcPool.Step`, `ProcPool.Reaches`: one step, and runs.
* `ProcPool.Reaches.local`: **what a program ensures of its own log holds of each process of every run.**
* `ProcPool.Reaches.entries`: what holds of each operation when it is performed holds of each entry of every
  log.
* `ProcPool.Reaches.past`: every log is in the order of the world.
* `ProcPool.Reaches.relies`: what each process keeps, all others may rely on.
* `ProcPool.Reaches.oneActive`: calls that start one at a time are served one at a time.
* `ProcPool.next`: a step of a pool whose world answers by a function.
-/

namespace Adk

variable {Call : Type} {Res : Call → Type} {Op : Type} {Ret : Op → Type} {W : Type}

/-- An operation that was performed: the world before it, and its answer. -/
structure Entry (Ret : Op → Type) (W : Type) where
  world : W
  op : Op
  ret : Ret op

/-- What an entry's operation made of its world comes before another world. -/
def Entry.Leads (laws : Laws Op Ret W) (le : W → W → Prop) (entry : Entry Ret W) (now : W) : Prop :=
  ∃ w, laws.answers entry.op entry.world entry.ret w ∧ le w now

/-- A process: the call it serves, what is left of it, and what it has performed. -/
structure Proc (Res : Call → Type) (Ret : Op → Type) (W : Type) where
  call : Call
  rest : Prog Op Ret (Res call)
  log : List (Entry Ret W) := []
  /-- Whether it has not stopped. -/
  live : Bool := true

def Proc.after (proc : Proc Res Ret W) (w : W) (o : Op) (r : Ret o) (rest : Prog Op Ret (Res proc.call)) :
    Proc Res Ret W :=
  { proc with rest, log := proc.log ++ [⟨w, o, r⟩] }

@[simp] theorem Proc.after_call (proc : Proc Res Ret W) (w : W) (o : Op) (r : Ret o)
    (rest : Prog Op Ret (Res proc.call)) : (proc.after w o r rest).call = proc.call := rfl

@[simp] theorem Proc.after_log (proc : Proc Res Ret W) (w : W) (o : Op) (r : Ret o)
    (rest : Prog Op Ret (Res proc.call)) : (proc.after w o r rest).log = proc.log ++ [⟨w, o, r⟩] := rfl

@[simp] theorem Proc.after_live (proc : Proc Res Ret W) (w : W) (o : Op) (r : Ret o)
    (rest : Prog Op Ret (Res proc.call)) : (proc.after w o r rest).live = proc.live := rfl

def Proc.returned (proc : Proc Res Ret W) : Option (Res proc.call) :=
  match proc.rest with
  | .pure a => some a
  | .ask _ _ => none

theorem Proc.returned_eq {proc : Proc Res Ret W} {a : Res proc.call} (h : proc.returned = some a) :
    proc.rest = .pure a := by
  unfold returned at h
  cases hrest : proc.rest with
  | ask o next =>
    rw [hrest] at h
    cases h
  | pure b =>
    rw [hrest] at h
    rw [Option.some.inj h]

/-- A process that has not stopped and not returned. -/
def Proc.IsActive (proc : Proc Res Ret W) : Prop := proc.live = true ∧ proc.returned = none

theorem Proc.isActive_ask {proc : Proc Res Ret W} {o : Op} {next : Ret o → Prog Op Ret (Res proc.call)}
    (hlive : proc.live = true) (hrest : proc.rest = .ask o next) : proc.IsActive := by
  refine ⟨hlive, ?_⟩
  unfold returned
  rw [hrest]

structure ProcPool (Res : Call → Type) (Ret : Op → Type) (W : Type) where
  world : W
  procs : List (Proc Res Ret W) := []

/-- What runs: how the world answers, what each call does, and what the start of a call and the operation
of a process need. -/
structure System (Res : Call → Type) (Ret : Op → Type) (W : Type) where
  laws : Laws Op Ret W
  program : (call : Call) → Prog Op Ret (Res call)
  starts : ProcPool Res Ret W → Call → Prop := fun _ _ => True
  acts : ProcPool Res Ret W → Nat → Op → Prop := fun _ _ _ => True

namespace ProcPool

variable {sys : System Res Ret W} {s s' : ProcPool Res Ret W}

def logOf (s : ProcPool Res Ret W) (i : Nat) : List (Entry Ret W) := (s.procs[i]?.map (·.log)).getD []

variable {i j : Nat} {q : Proc Res Ret W}

theorem logOf_eq {proc : Proc Res Ret W} (hproc : s.procs[i]? = some proc) :
    s.logOf i = proc.log := by
  unfold logOf
  rw [hproc]
  rfl

theorem mem_logOf {entry : Entry Ret W} (h : entry ∈ s.logOf i) :
    ∃ proc, s.procs[i]? = some proc ∧ entry ∈ proc.log := by
  cases hproc : s.procs[i]? with
  | none =>
    unfold logOf at h
    rw [hproc] at h
    cases h
  | some proc =>
    rw [logOf_eq hproc] at h
    exact ⟨proc, rfl, h⟩

def start (sys : System Res Ret W) (s : ProcPool Res Ret W) (call : Call) : ProcPool Res Ret W :=
  { s with procs := s.procs ++ [{ call, rest := sys.program call }] }

inductive Step (sys : System Res Ret W) : ProcPool Res Ret W → ProcPool Res Ret W → Prop where
  | start {s : ProcPool Res Ret W} {call : Call} (h : sys.starts s call) : Step sys s (s.start sys call)
  | act {s : ProcPool Res Ret W} {i : Nat} {proc : Proc Res Ret W} {o : Op}
      {next : Ret o → Prog Op Ret (Res proc.call)} {r : Ret o} {w : W} (hproc : s.procs[i]? = some proc)
      (hlive : proc.live = true) (hrest : proc.rest = .ask o next) (hacts : sys.acts s i o)
      (h : sys.laws.answers o s.world r w) :
      Step sys s { world := w, procs := s.procs.set i (proc.after s.world o r (next r)) }
  | stop {s : ProcPool Res Ret W} {i : Nat} {proc : Proc Res Ret W} (hproc : s.procs[i]? = some proc) :
      Step sys s { s with procs := s.procs.set i { proc with live := false } }
  | move {s : ProcPool Res Ret W} {w : W} (h : sys.laws.moves s.world w) : Step sys s { s with world := w }

abbrev Reaches (sys : System Res Ret W) : ProcPool Res Ret W → ProcPool Res Ret W → Prop :=
  Relation.ReflTransGen (Step sys)

/-- The process at a place after another one was put somewhere. -/
theorem getElem?_put {procs : List (Proc Res Ret W)} {proc proc' : Proc Res Ret W}
    (hproc : procs[i]? = some proc) (hq : (procs.set i proc')[j]? = some q) :
    (j = i ∧ q = proc') ∨ (j ≠ i ∧ procs[j]? = some q) := by
  by_cases hj : j = i
  · subst hj
    have hlt : j < procs.length := (List.getElem?_eq_some_iff.mp hproc).1
    rw [List.getElem?_set_self hlt] at hq
    exact .inl ⟨rfl, (Option.some.inj hq).symm⟩
  · rw [List.getElem?_set_ne (Ne.symm hj)] at hq
    exact .inr ⟨hj, hq⟩

theorem getElem?_start {call : Call} (hq : (s.start sys call).procs[j]? = some q) :
    s.procs[j]? = some q ∨ (j = s.procs.length ∧ q = { call, rest := sys.program call }) := by
  unfold start at hq
  by_cases hj : j < s.procs.length
  · rw [List.getElem?_append_left hj] at hq
    exact .inl hq
  · rw [List.getElem?_append_right (by omega)] at hq
    have hlt := (List.getElem?_eq_some_iff.mp hq).1
    have hzero : j - s.procs.length = 0 := by simpa using hlt
    rw [hzero] at hq
    exact .inr ⟨by omega, (Option.some.inj hq).symm⟩

theorem Step.grows (h : Step sys s s') (hq : s.procs[j]? = some q) :
    ∃ q', s'.procs[j]? = some q' ∧ q'.call = q.call ∧ ∀ entry ∈ q.log, entry ∈ q'.log := by
  have hlt := (List.getElem?_eq_some_iff.mp hq).1
  cases h with
  | start _ => exact ⟨q, (List.getElem?_append_left hlt).trans hq, rfl, fun _ h => h⟩
  | @act i proc o rest r w hproc _ _ _ _ =>
    by_cases hj : i = j
    · subst hj
      obtain rfl := Option.some.inj (hproc.symm.trans hq)
      exact ⟨_, List.getElem?_set_self hlt, rfl, fun _ h => List.mem_append_left _ h⟩
    · exact ⟨q, (List.getElem?_set_ne hj).trans hq, rfl, fun _ h => h⟩
  | @stop i proc hproc =>
    by_cases hj : i = j
    · subst hj
      obtain rfl := Option.some.inj (hproc.symm.trans hq)
      exact ⟨_, List.getElem?_set_self hlt, rfl, fun _ h => h⟩
    · exact ⟨q, (List.getElem?_set_ne hj).trans hq, rfl, fun _ h => h⟩
  | move _ => exact ⟨q, hq, rfl, fun _ h => h⟩

theorem Step.logOf_grows (h : Step sys s s') {entry : Entry Ret W} (hent : entry ∈ s.logOf i) :
    entry ∈ s'.logOf i := by
  cases hproc : s.procs[i]? with
  | none =>
    unfold logOf at hent
    rw [hproc] at hent
    cases hent
  | some proc =>
    obtain ⟨proc', hproc', -, hlog⟩ := h.grows hproc
    rw [logOf_eq hproc] at hent
    rw [logOf_eq hproc']
    exact hlog entry hent

/-- **What a step does to the logs**: it leaves them, or it adds an entry to the log of one process. -/
theorem Step.logs (h : Step sys s s') :
    ((s'.world = s.world ∨ sys.laws.moves s.world s'.world) ∧ ∀ i, s'.logOf i = s.logOf i) ∨
    ∃ (i : Nat) (proc : Proc Res Ret W) (o : Op) (next : Ret o → Prog Op Ret (Res proc.call)) (r : Ret o),
      s.procs[i]? = some proc ∧ proc.rest = .ask o next ∧ sys.acts s i o ∧
      sys.laws.answers o s.world r s'.world ∧ s'.procs[i]? = some (proc.after s.world o r (next r)) ∧
      s'.logOf i = s.logOf i ++ [⟨s.world, o, r⟩] ∧ ∀ j, j ≠ i → s'.logOf j = s.logOf j := by
  cases h with
  | start _ =>
    refine .inl ⟨.inl rfl, fun i => ?_⟩
    unfold logOf ProcPool.start
    by_cases hi : i < s.procs.length
    · rw [List.getElem?_append_left hi]
    · have hnone : s.procs[i]? = none := List.getElem?_eq_none (by omega)
      rw [List.getElem?_append_right (by omega), hnone]
      by_cases hlast : i - s.procs.length = 0
      · rw [hlast]
        rfl
      · rw [List.getElem?_eq_none (by simp only [List.length_singleton]; omega)]
  | @act i proc o next r w hproc _ hrest hacts hr =>
    have hlt := (List.getElem?_eq_some_iff.mp hproc).1
    have hself := List.getElem?_set_self (a := proc.after s.world o r (next r)) hlt
    refine .inr ⟨i, proc, o, next, r, hproc, hrest, hacts, hr, hself, ?_, fun j hj => ?_⟩
    · rw [logOf_eq hproc]
      exact logOf_eq (s := { world := w, procs := s.procs.set i (proc.after s.world o r (next r)) }) hself
    · unfold logOf
      rw [List.getElem?_set_ne (Ne.symm hj)]
  | @stop i proc hproc =>
    refine .inl ⟨.inl rfl, fun j => ?_⟩
    unfold logOf
    by_cases hj : j = i
    · subst hj
      rw [List.getElem?_set_self (List.getElem?_eq_some_iff.mp hproc).1, hproc]
      rfl
    · rw [List.getElem?_set_ne (Ne.symm hj)]
  | move h => exact .inl ⟨.inr h, fun _ => rfl⟩

/-- A run is a run where more operations are allowed. -/
theorem Reaches.weaken {acts : ProcPool Res Ret W → Nat → Op → Prop} (h : Reaches sys s s')
    (hacts : ∀ s i o, sys.acts s i o → acts s i o) : Reaches { sys with acts } s s' := by
  apply Relation.ReflTransGen.mono ?_ s s' h
  intro t t' hstep
  cases hstep with
  | @start call hstarts =>
    have hsta : Step { sys with acts } t (t.start { sys with acts } call) := .start hstarts
    exact hsta
  | act hproc hlive hrest hact hr => exact .act hproc hlive hrest (hacts _ _ _ hact) hr
  | stop hproc => exact .stop hproc
  | move hmove => exact .move hmove

/-! ## What a process knows -/

/-- The laws of a log: an operation adds its entry, and nothing else moves it. -/
def recording (laws : Laws Op Ret W) : Laws Op Ret (List (Entry Ret W)) where
  answers o log r log' := ∃ w w', laws.answers o w r w' ∧ log' = log ++ [⟨w, o, r⟩]
  moves _ _ := False

section Recording

variable {α : Type} {laws : Laws Op Ret W} {pre : Op → List (Entry Ret W) → Prop}
  {post : α → List (Entry Ret W) → Prop} {log log' : List (Entry Ret W)}

theorem recording_moves (h : Relation.ReflTransGen (recording laws).moves log log') : log' = log := by
  induction h with
  | refl => rfl
  | tail _ h _ => exact h.elim

variable {a : α} {o : Op}

theorem holds_pure : (Prog.pure a).Holds (recording laws) pre post log ↔ post a log := by
  constructor
  · intro h
    exact h log .refl
  · intro h log' hmov
    rw [recording_moves hmov]
    exact h

theorem holds_ask {next : Ret o → Prog Op Ret α} :
    (Prog.ask o next).Holds (recording laws) pre post log ↔ pre o log ∧ ∀ w r w',
      laws.answers o w r w' → (next r).Holds (recording laws) pre post (log ++ [⟨w, o, r⟩]) := by
  constructor
  · intro h
    obtain ⟨hpre, hnext⟩ := h log .refl
    exact ⟨hpre, fun w r w' hr => hnext r _ ⟨w, w', hr, rfl⟩⟩
  · rintro ⟨hpre, hnext⟩ log' hmov
    rw [recording_moves hmov]
    refine ⟨hpre, ?_⟩
    rintro r _ ⟨w, w', hr, rfl⟩
    exact hnext w r w' hr

/-- **What holds at each operation of a program** holds at each entry that it has added. -/
theorem holds_entries {p q : Prog Op Ret α} (h : p.Holds (recording laws) pre post log)
    (hrea : Prog.Reaches (recording laws) (p, log) (q, log')) : ∃ added, log' = log ++ added ∧
      ∀ before entry later, added = before ++ entry :: later → pre entry.op (log ++ before) := by
  obtain ⟨s, hs⟩ : ∃ s, s = (q, log') := ⟨_, rfl⟩
  rw [← hs] at hrea
  have hlog : s.2 = log' := by rw [hs]
  rw [← hlog]
  clear hs hlog
  induction hrea with
  | refl =>
    refine ⟨[], (List.append_nil log).symm, fun before entry later hadd => ?_⟩
    simp at hadd
  | tail hrea hstep ih =>
    have hhere := h.reaches hrea
    obtain ⟨added, hlog, hadd⟩ := ih
    cases hstep with
    | move hmove => exact hmove.elim
    | @answer o next w w' r hr =>
      obtain ⟨v, v', hv, rfl⟩ := hr
      obtain rfl : w = log ++ added := hlog
      refine ⟨added ++ [⟨v, o, r⟩], List.append_assoc _ _ _, fun before entry later hsp => ?_⟩
      -- the entry is the last one, or one that was added before
      rcases List.eq_nil_or_concat later with rfl | ⟨later, last, rfl⟩
      · obtain ⟨rfl, hent⟩ := List.append_inj' hsp rfl
        obtain rfl := (List.cons.inj hent).1
        exact (holds_ask.mp hhere).1
      · rw [List.concat_eq_append, ← List.cons_append, ← List.append_assoc] at hsp
        exact hadd before entry later (List.append_inj' hsp rfl).1

inductive RunsTo : Prog Op Ret α → List (Entry Ret W) → α → Prop where
  | pure {a : α} : RunsTo (.pure a) [] a
  | ask {o : Op} {next : Ret o → Prog Op Ret α} {w : W} {r : Ret o} {entries : List (Entry Ret W)} {a : α}
      (h : RunsTo (next r) entries a) : RunsTo (.ask o next) (⟨w, o, r⟩ :: entries) a

variable {ε : Type} {err : ε → List (Entry Ret W) → Prop}

theorem ensures_pure (h : post a log) :
    Prog.Ensures (recording laws) pre err post (Pure.pure a : ExceptT ε (Prog Op Ret) α) log :=
  holds_pure.mpr h

theorem ensures_throw {e : ε} (h : err e log) :
    Prog.Ensures (recording laws) pre err post (throw e : ExceptT ε (Prog Op Ret) α) log :=
  holds_pure.mpr h

theorem ensures_perform {post : Ret o → List (Entry Ret W) → Prop} (hpre : pre o log)
    (h : ∀ w r w', laws.answers o w r w' → post r (log ++ [⟨w, o, r⟩])) :
    Prog.Ensures (recording laws) pre err post
      (ExceptT.lift (Prog.perform o) : ExceptT ε (Prog Op Ret) (Ret o)) log :=
  holds_ask.mpr ⟨hpre, fun w r w' hr => holds_pure.mpr (h w r w' hr)⟩

/-- What a program adds to its log when it returns, whatever the log was. -/
def Adds (laws : Laws Op Ret W) (Q : α → List (Entry Ret W) → Prop) (p : ExceptT ε (Prog Op Ret) α) : Prop :=
  ∀ log, Prog.Ensures (recording laws) (fun _ _ => True) (fun _ _ => True)
    (fun a log' => ∃ added, log' = log ++ added ∧ Q a added) p log

variable {β : Type} {Q : α → List (Entry Ret W) → Prop} {p : ExceptT ε (Prog Op Ret) α}

theorem Adds.mono {R : α → List (Entry Ret W) → Prop} (h : Adds laws Q p)
    (hQ : ∀ a added, Q a added → R a added) : Adds laws R p := by
  intro log
  refine Prog.Ensures.mono (h log) ?_ fun _ _ h => h
  rintro a _ ⟨added, rfl, hadd⟩
  exact ⟨added, rfl, hQ a added hadd⟩

theorem adds_pure (h : Q a []) : Adds laws Q (Pure.pure a : ExceptT ε (Prog Op Ret) α) :=
  fun log => ensures_pure ⟨[], (List.append_nil log).symm, h⟩

theorem adds_throw {e : ε} : Adds laws Q (throw e : ExceptT ε (Prog Op Ret) α) :=
  fun _ => ensures_throw trivial

theorem adds_perform {Q : Ret o → List (Entry Ret W) → Prop} (h : ∀ w r w', laws.answers o w r w' → Q r [⟨w, o, r⟩]) :
    Adds laws Q (ExceptT.lift (Prog.perform o) : ExceptT ε (Prog Op Ret) (Ret o)) :=
  fun _ => ensures_perform trivial fun w r w' hr => ⟨[⟨w, o, r⟩], rfl, h w r w' hr⟩

theorem Adds.bind {R : β → List (Entry Ret W) → Prop} {f : α → ExceptT ε (Prog Op Ret) β}
    (h : Adds laws Q p)
    (hf : ∀ a added, Q a added → Adds laws (fun b added' => R b (added ++ added')) (f a)) :
    Adds laws R (p >>= f) := by
  intro log
  refine Prog.Ensures.bind (h log) ?_
  rintro a _ ⟨added, rfl, hadd⟩
  refine Prog.Ensures.mono (hf a added hadd (log ++ added)) ?_ fun _ _ h => h
  rintro b _ ⟨added', rfl, hR⟩
  exact ⟨added ++ added', by rw [List.append_assoc], hR⟩

theorem adds_any (p : ExceptT ε (Prog Op Ret) α) : Adds laws (fun _ _ => True) p := by
  intro log
  unfold Prog.Ensures
  generalize p.run = q
  have hall : ∀ added, q.Holds (recording laws) (fun _ _ => True) (fun _ log' => ∃ added, log' = log ++ added)
      (log ++ added) := by
    induction q with
    | pure r =>
      intro added
      exact holds_pure.mpr ⟨added, rfl⟩
    | ask o next ih =>
      intro added
      refine holds_ask.mpr ⟨trivial, fun w r w' _ => ?_⟩
      rw [List.append_assoc]
      exact ih r _
  have hnow := hall []
  rw [List.append_nil] at hnow
  refine hnow.mono fun r log' h => ?_
  cases r with
  | error e => trivial
  | ok a =>
    obtain ⟨added, hadd⟩ := h
    exact ⟨added, hadd, trivial⟩

/-- A handler that always fails adds nothing to a return. -/
theorem Adds.tryCatch {handler : ε → ExceptT ε (Prog Op Ret) α} (h : Adds laws Q p)
    (hhand : ∀ e, Adds laws (fun _ _ => False) (handler e)) : Adds laws Q (tryCatch p handler) := by
  intro log
  refine Prog.Ensures.tryCatch (h log) fun e log' _ => ?_
  refine Prog.Ensures.mono (hhand e log') ?_ fun _ _ h => h
  rintro a _ ⟨-, -, h⟩
  exact h.elim

theorem Adds.returned (h : Adds laws Q p) {log : List (Entry Ret W)}
    (hrea : Prog.Reaches (recording laws) (p.run, []) (.pure (.ok a), log)) : Q a log := by
  obtain ⟨added, rfl, hQ⟩ := (h []).returned hrea
  exact hQ

/-- What a program adds to its log when it returns and when it fails, whatever the log was. -/
def Leaves (laws : Laws Op Ret W) (pre : Op → List (Entry Ret W) → Prop) (E : ε → List (Entry Ret W) → Prop)
    (Q : α → List (Entry Ret W) → Prop) (p : ExceptT ε (Prog Op Ret) α) : Prop :=
  ∀ log, Prog.Ensures (recording laws) pre (fun e log' => ∃ added, log' = log ++ added ∧ E e added)
    (fun a log' => ∃ added, log' = log ++ added ∧ Q a added) p log

variable {E : ε → List (Entry Ret W) → Prop}

theorem Leaves.mono {E' : ε → List (Entry Ret W) → Prop} {Q' : α → List (Entry Ret W) → Prop}
    (h : Leaves laws pre E Q p) (hE : ∀ e added, E e added → E' e added) (hQ : ∀ a added, Q a added → Q' a added) :
    Leaves laws pre E' Q' p := by
  intro log
  refine Prog.Ensures.mono (h log) ?_ ?_
  · rintro a _ ⟨added, rfl, hadd⟩
    exact ⟨added, rfl, hQ a added hadd⟩
  · rintro e _ ⟨added, rfl, hadd⟩
    exact ⟨added, rfl, hE e added hadd⟩

theorem leaves_pure (h : Q a []) : Leaves laws pre E Q (Pure.pure a : ExceptT ε (Prog Op Ret) α) :=
  fun log => ensures_pure ⟨[], (List.append_nil log).symm, h⟩

theorem leaves_throw {e : ε} (h : E e []) : Leaves laws pre E Q (throw e : ExceptT ε (Prog Op Ret) α) :=
  fun log => ensures_throw ⟨[], (List.append_nil log).symm, h⟩

theorem leaves_perform {Q : Ret o → List (Entry Ret W) → Prop} (hpre : ∀ log, pre o log)
    (h : ∀ w r w', laws.answers o w r w' → Q r [⟨w, o, r⟩]) :
    Leaves laws pre E Q (ExceptT.lift (Prog.perform o) : ExceptT ε (Prog Op Ret) (Ret o)) :=
  fun log => ensures_perform (hpre log) fun w r w' hr => ⟨[⟨w, o, r⟩], rfl, h w r w' hr⟩

theorem Leaves.bind {E₁ : ε → List (Entry Ret W) → Prop} {R : β → List (Entry Ret W) → Prop}
    {f : α → ExceptT ε (Prog Op Ret) β} (h : Leaves laws pre E₁ Q p) (hE : ∀ e added, E₁ e added → E e added)
    (hf : ∀ a added, Q a added → Leaves laws pre (fun e added' => E e (added ++ added'))
      (fun b added' => R b (added ++ added')) (f a)) : Leaves laws pre E R (p >>= f) := by
  intro log
  have hfst := Prog.Ensures.mono (h log) (fun _ _ h => h) fun e log' ⟨added, hlog, hadd⟩ =>
    (⟨added, hlog, hE e added hadd⟩ : ∃ added, log' = log ++ added ∧ E e added)
  refine Prog.Ensures.bind hfst ?_
  rintro a _ ⟨added, rfl, hadd⟩
  refine Prog.Ensures.mono (hf a added hadd (log ++ added)) ?_ ?_
  · rintro b _ ⟨added', rfl, hR⟩
    exact ⟨added ++ added', by rw [List.append_assoc], hR⟩
  · rintro e _ ⟨added', rfl, hR⟩
    exact ⟨added ++ added', by rw [List.append_assoc], hR⟩

/-- From what holds of its log, a program ensures what holds of it at a return and at a failure. -/
def LogTriple (laws : Laws Op Ret W) (F : List (Entry Ret W) → Prop) (p : ExceptT ε (Prog Op Ret) α)
    (E : List (Entry Ret W) → Prop) (R : α → List (Entry Ret W) → Prop) : Prop :=
  ∀ log, F log → Prog.Ensures (recording laws) (fun _ _ => True) (fun _ => E) R p log

namespace LogTriple

variable {F E E' : List (Entry Ret W) → Prop} {R : α → List (Entry Ret W) → Prop}

theorem pure {a : α} (h : ∀ log, F log → R a log) :
    LogTriple laws F (Pure.pure a : ExceptT ε (Prog Op Ret) α) E R :=
  fun log hlog => ensures_pure (h log hlog)

theorem throw {e : ε} (h : ∀ log, F log → E log) :
    LogTriple laws F (throw e : ExceptT ε (Prog Op Ret) α) E R :=
  fun log hlog => ensures_throw (h log hlog)

theorem bind {S : β → List (Entry Ret W) → Prop} {f : α → ExceptT ε (Prog Op Ret) β} (hp : LogTriple laws F p E R)
    (hf : ∀ a, LogTriple laws (R a) (f a) E S) : LogTriple laws F (p >>= f) E S :=
  fun log hlog => Prog.Ensures.bind (hp log hlog) hf

/-- The rule for an operation. -/
theorem perform {o : Op} {R : Ret o → List (Entry Ret W) → Prop}
    (h : ∀ log w r w', F log → laws.answers o w r w' → R r (log ++ [⟨w, o, r⟩])) :
    LogTriple laws F (ExceptT.lift (Prog.perform o) : ExceptT ε (Prog Op Ret) (Ret o)) E R :=
  fun log hlog => ensures_perform trivial fun w r w' hr => h log w r w' hlog hr

/-- The rule for a program whose failure is looked at. -/
theorem attempt (hp : LogTriple laws F p E R) : LogTriple laws F
    (ExceptT.lift p.run : ExceptT ε (Prog Op Ret) (Except ε α)) E' fun result => match result with
      | .ok a => R a
      | .error _ => E := by
  intro log hlog
  refine Prog.Ensures.lift (Prog.Holds.mono (hp log hlog) fun result log' h => ?_)
  cases result with
  | ok a => exact h
  | error e => exact h

theorem mono {S : α → List (Entry Ret W) → Prop} (hp : LogTriple laws F p E R) (hE : ∀ log, E log → E' log)
    (hR : ∀ a log, R a log → S a log) : LogTriple laws F p E' S :=
  fun log hlog => Prog.Ensures.mono (hp log hlog) hR fun _ => hE

end LogTriple

end Recording

/-! ## What holds of each process -/

section Local

variable {pre : Call → Op → List (Entry Ret W) → Prop}
  {post : (call : Call) → Res call → List (Entry Ret W) → Prop}

/-- The program of a process goes on as its log allows. -/
def Keeps (laws : Laws Op Ret W) (pre : Call → Op → List (Entry Ret W) → Prop)
    (post : (call : Call) → Res call → List (Entry Ret W) → Prop) (proc : Proc Res Ret W) : Prop :=
  proc.rest.Holds (recording laws) (pre proc.call) (post proc.call) proc.log

/-- What holds when a process is about to perform an operation. -/
theorem Keeps.performs {laws : Laws Op Ret W} {proc : Proc Res Ret W} {o : Op}
    {next : Ret o → Prog Op Ret (Res proc.call)} (h : Keeps laws pre post proc)
    (hrest : proc.rest = .ask o next) : pre proc.call o proc.log := by
  unfold Keeps at h
  rw [hrest] at h
  exact (holds_ask.mp h).1

theorem Keeps.returned {laws : Laws Op Ret W} {proc : Proc Res Ret W} {a : Res proc.call}
    (h : Keeps laws pre post proc) (hrest : proc.rest = .pure a) : post proc.call a proc.log := by
  unfold Keeps at h
  rw [hrest] at h
  exact holds_pure.mp h

/-- **What a program ensures of its own log** holds of each process, whatever the others do. -/
theorem Reaches.local (h : Reaches sys s s') (h0 : s.procs = [])
    (hprg : ∀ call, (sys.program call).Holds (recording sys.laws) (pre call) (post call) []) :
    ∀ (j : Nat) (proc : Proc Res Ret W), s'.procs[j]? = some proc →
      Keeps sys.laws pre post proc := by
  induction h with
  | refl =>
    intro j proc hproc
    rw [h0] at hproc
    cases hproc
  | tail _ hstep ih =>
    intro j q hq
    cases hstep with
    | start _ =>
      rcases getElem?_start hq with hq | ⟨-, rfl⟩
      · exact ih j q hq
      · exact hprg _
    | act hproc _ hrest _ hr =>
      rcases getElem?_put hproc hq with ⟨-, rfl⟩ | ⟨-, hq⟩
      · have hold := ih _ _ hproc
        unfold Keeps at hold
        rw [hrest] at hold
        exact (holds_ask.mp hold).2 _ _ _ hr
      · exact ih j q hq
    | stop hproc =>
      rcases getElem?_put hproc hq with ⟨-, rfl⟩ | ⟨-, hq⟩
      · have hold := ih _ _ hproc
        exact hold
      · exact ih j q hq
    | move _ => exact ih j q hq

end Local

/-- **What holds of each operation when it is performed** holds of each entry of every log. -/
theorem Reaches.entries {P : Call → List (Entry Ret W) → Entry Ret W → Prop} (h : Reaches sys s s')
    (h0 : s.procs = []) (hP : ∀ (s' : ProcPool Res Ret W) (i : Nat) (proc : Proc Res Ret W) (o : Op)
      (next : Ret o → Prog Op Ret (Res proc.call)) (r : Ret o) (w : W), Reaches sys s s' →
      s'.procs[i]? = some proc → proc.rest = .ask o next → sys.acts s' i o →
      sys.laws.answers o s'.world r w → P proc.call proc.log ⟨s'.world, o, r⟩) :
    ∀ (j : Nat) (proc : Proc Res Ret W), s'.procs[j]? = some proc → ∀ before entry later,
      proc.log = before ++ entry :: later → P proc.call before entry := by
  induction h with
  | refl =>
    intro j proc hproc
    rw [h0] at hproc
    cases hproc
  | tail hrea hstep ih =>
    intro j q hq
    cases hstep with
    | start _ =>
      rcases getElem?_start hq with hq | ⟨-, rfl⟩
      · exact ih j q hq
      · intro before entry later hlog
        simp at hlog
    | act hproc _ hrest hacts hr =>
      rcases getElem?_put hproc hq with ⟨-, rfl⟩ | ⟨-, hq⟩
      · intro before entry later hlog
        rw [Proc.after_log] at hlog
        -- the entry is the last one, or one the log had already
        rcases List.eq_nil_or_concat later with rfl | ⟨later, last, rfl⟩
        · obtain ⟨rfl, hent⟩ := List.append_inj' hlog rfl
          obtain rfl := (List.cons.inj hent).1
          exact hP _ _ _ _ _ _ _ hrea hproc hrest hacts hr
        · rw [List.concat_eq_append, ← List.cons_append, ← List.append_assoc] at hlog
          exact ih _ _ hproc before entry later (List.append_inj' hlog rfl).1
      · exact ih j q hq
    | stop hproc =>
      rcases getElem?_put hproc hq with ⟨-, rfl⟩ | ⟨-, hq⟩
      · have hold := ih _ _ hproc
        exact hold
      · exact ih j q hq
    | move _ => exact ih j q hq

/-! ## The past -/

/-- A log is in order: each operation was performed in what the ones before it led to, and they led to the
world now. -/
structure Past (laws : Laws Op Ret W) (le : W → W → Prop) (log : List (Entry Ret W)) (now : W) : Prop where
  ordered : log.Pairwise fun entry entry' => entry.Leads laws le entry'.world
  here : ∀ entry ∈ log, entry.Leads laws le now

section Past

variable {le : W → W → Prop}

/-- A step of a pool keeps what its world keeps in order. -/
theorem Step.later (h : Step sys s s') (hrefl : ∀ w, le w w)
    (hanss : ∀ o w r w', sys.laws.answers o w r w' → le w w')
    (hmov : ∀ w w', sys.laws.moves w w' → le w w') : le s.world s'.world := by
  cases h with
  | start _ => exact hrefl _
  | act _ _ _ _ hr => exact hanss _ _ _ _ hr
  | stop _ => exact hrefl _
  | move h => exact hmov _ _ h

theorem Reaches.later (h : Reaches sys s s') (hrefl : ∀ w, le w w)
    (htrans : ∀ w₁ w₂ w₃, le w₁ w₂ → le w₂ w₃ → le w₁ w₃)
    (hanss : ∀ o w r w', sys.laws.answers o w r w' → le w w')
    (hmov : ∀ w w', sys.laws.moves w w' → le w w') : le s.world s'.world := by
  induction h with
  | refl => exact hrefl _
  | tail _ hstep ih => exact htrans _ _ _ ih (hstep.later hrefl hanss hmov)

/-- What a run adds to a log was performed after its start. -/
theorem Reaches.added (h : Reaches sys s s') (hrefl : ∀ w, le w w)
    (htrans : ∀ w₁ w₂ w₃, le w₁ w₂ → le w₂ w₃ → le w₁ w₃)
    (hanss : ∀ o w r w', sys.laws.answers o w r w' → le w w')
    (hmov : ∀ w w', sys.laws.moves w w' → le w w') (i : Nat) :
    ∃ added, s'.logOf i = s.logOf i ++ added ∧ ∀ entry ∈ added, le s.world entry.world := by
  induction h with
  | refl => exact ⟨[], (List.append_nil _).symm, by simp⟩
  | @tail t t' hrea hstep ih =>
    obtain ⟨added, hadd, hlat⟩ := ih
    rcases hstep.logs with ⟨-, hsame⟩ | ⟨j, proc, o, next, r, -, -, -, -, -, hlog, hoths⟩
    · exact ⟨added, by rw [hsame, hadd], hlat⟩
    · by_cases hj : i = j
      · subst hj
        refine ⟨added ++ [⟨t.world, o, r⟩], by rw [hlog, hadd, List.append_assoc], fun entry hent => ?_⟩
        rcases List.mem_append.mp hent with hold | hnew
        · exact hlat entry hold
        · rw [List.mem_singleton.mp hnew]
          exact Reaches.later hrea hrefl htrans hanss hmov
      · exact ⟨added, by rw [hoths i hj, hadd], hlat⟩

/-- **Every log is in order.** -/
theorem Reaches.past (h : Reaches sys s s') (h0 : s.procs = []) (hrefl : ∀ w, le w w)
    (htrans : ∀ w₁ w₂ w₃, le w₁ w₂ → le w₂ w₃ → le w₁ w₃)
    (hanss : ∀ o w r w', sys.laws.answers o w r w' → le w w')
    (hmov : ∀ w w', sys.laws.moves w w' → le w w') :
    ∀ (j : Nat) (proc : Proc Res Ret W), s'.procs[j]? = some proc →
      Past sys.laws le proc.log s'.world := by
  have hlat : ∀ {log : List (Entry Ret W)} {w w' : W}, Past sys.laws le log w → le w w' →
      Past sys.laws le log w' := by
    intro log w w' hpast hw
    refine ⟨hpast.ordered, fun entry hent => ?_⟩
    obtain ⟨w₁, hr, hle⟩ := hpast.here entry hent
    exact ⟨w₁, hr, htrans _ _ _ hle hw⟩
  induction h with
  | refl =>
    intro j proc hproc
    rw [h0] at hproc
    cases hproc
  | tail _ hstep ih =>
    intro j q hq
    have hw := hstep.later hrefl hanss hmov
    cases hstep with
    | start _ =>
      rcases getElem?_start hq with hq | ⟨-, rfl⟩
      · exact ih j q hq
      · exact ⟨.nil, by simp⟩
    | act hproc _ hrest _ hr =>
      rcases getElem?_put hproc hq with ⟨-, rfl⟩ | ⟨-, hq⟩
      · have hold := ih _ _ hproc
        refine ⟨?_, ?_⟩
        · rw [Proc.after_log, List.pairwise_append]
          refine ⟨hold.ordered, List.pairwise_singleton _ _, ?_⟩
          intro entry hent last hlast
          obtain rfl := List.mem_singleton.mp hlast
          exact hold.here entry hent
        · intro entry hent
          rw [Proc.after_log, List.mem_append, List.mem_singleton] at hent
          rcases hent with hent | rfl
          · exact (hlat hold hw).here entry hent
          · exact ⟨_, hr, hrefl _⟩
      · exact hlat (ih j q hq) hw
    | stop hproc =>
      rcases getElem?_put hproc hq with ⟨-, rfl⟩ | ⟨-, hq⟩
      · exact ⟨(ih _ _ hproc).ordered, (ih _ _ hproc).here⟩
      · exact ih j q hq
    | move _ => exact hlat (ih j q hq) hw

end Past

/-! ## What the processes rely on -/

/-- The laws of a world that others move. -/
def relying (laws : Laws Op Ret W) (rely : W → W → Prop) : Laws Op Ret W := { laws with moves := rely }

/-- **Processes that keep what the others rely on**: where every program may rely on it from wherever it starts, every
process of every run may. -/
theorem Reaches.relies {inv : W → Prop} {rely : W → W → Prop} {pre : Op → W → Prop}
    {post : (call : Call) → Res call → W → Prop} (h : Reaches sys s s') (h0 : s.procs = []) (hinv : inv s.world)
    (hprg : ∀ call w, inv w → (sys.program call).Holds (relying sys.laws rely) pre (post call) w)
    (hanss : ∀ o w r w', inv w → pre o w → sys.laws.answers o w r w' → inv w' ∧ rely w w')
    (hmov : ∀ w w', inv w → sys.laws.moves w w' → inv w' ∧ rely w w') :
    inv s'.world ∧ ∀ (j : Nat) (proc : Proc Res Ret W), s'.procs[j]? = some proc →
      proc.rest.Holds (relying sys.laws rely) pre (post proc.call) s'.world := by
  induction h with
  | refl =>
    refine ⟨hinv, fun j proc hproc => ?_⟩
    rw [h0] at hproc
    cases hproc
  | @tail s s' _ hstep ih =>
    obtain ⟨hhere, hprocs⟩ := ih
    have hmvd : ∀ w, rely s.world w → ∀ (j : Nat) (q : Proc Res Ret W), s.procs[j]? = some q →
        q.rest.Holds (relying sys.laws rely) pre (post q.call) w :=
      fun w hrely j q hq => (hprocs j q hq).move (.single hrely)
    cases hstep with
    | start _ =>
      refine ⟨hhere, fun j q hq => ?_⟩
      rcases getElem?_start hq with hq | ⟨-, rfl⟩
      · exact hprocs j q hq
      · exact hprg _ _ hhere
    | @act i proc o next r w hproc _ hrest _ hr =>
      have hproc' := hprocs i proc hproc
      rw [hrest] at hproc'
      obtain ⟨hpre, hnext⟩ := hproc' s.world .refl
      obtain ⟨hthe, hrely⟩ := hanss o s.world r w hhere hpre hr
      refine ⟨hthe, fun j q hq => ?_⟩
      rcases getElem?_put hproc hq with ⟨-, rfl⟩ | ⟨-, hq⟩
      · exact hnext r w hr
      · exact hmvd w hrely j q hq
    | @stop i proc hproc =>
      refine ⟨hhere, fun j q hq => ?_⟩
      rcases getElem?_put hproc hq with ⟨-, rfl⟩ | ⟨-, hq⟩
      · exact hprocs i proc hproc
      · exact hprocs j q hq
    | @move w hmove =>
      obtain ⟨hthe, hrely⟩ := hmov s.world w hhere hmove
      exact ⟨hthe, hmvd w hrely⟩

/-! ## Calls one at a time -/

theorem Step.active (h : Step sys s s') (hq : s'.procs[i]? = some q)
    (hactive : q.IsActive) : (∃ q₀, s.procs[i]? = some q₀ ∧ q₀.IsActive ∧ q₀.call = q.call) ∨
      (i = s.procs.length ∧ sys.starts s q.call) := by
  cases h with
  | start hsta =>
    rcases getElem?_start hq with hold | ⟨hi, rfl⟩
    · exact .inl ⟨q, hold, hactive, rfl⟩
    · exact .inr ⟨hi, hsta⟩
  | act hproc hlive hrest _ _ =>
    rcases getElem?_put hproc hq with ⟨rfl, rfl⟩ | ⟨-, hold⟩
    · exact .inl ⟨_, hproc, Proc.isActive_ask hlive hrest, rfl⟩
    · exact .inl ⟨q, hold, hactive, rfl⟩
  | stop hproc =>
    rcases getElem?_put hproc hq with ⟨-, rfl⟩ | ⟨-, hold⟩
    · cases hactive.1
    · exact .inl ⟨q, hold, hactive, rfl⟩
  | move _ => exact .inl ⟨q, hq, hactive, rfl⟩

section Single

variable {Place : Type} {place : Call → Place} {sole : Place → Prop}

/-- Where calls are served one at a time, a call starts when no other one of its place is served. -/
def Idle (place : Call → Place) (sole : Place → Prop) (s : ProcPool Res Ret W) (call : Call) : Prop :=
  sole (place call) → ∀ proc ∈ s.procs, place proc.call = place call → proc.live = false ∨ proc.returned.isSome = true

theorem Idle.notActive {call : Call} (h : Idle place sole s call) (hsole : sole (place call)) {i : Nat}
    {proc : Proc Res Ret W} (hproc : s.procs[i]? = some proc) (hpl : place proc.call = place call) :
    ¬ proc.IsActive := by
  intro hactive
  rcases h hsole proc (List.mem_of_getElem? hproc) hpl with hdead | hret
  · rw [hactive.1] at hdead
    cases hdead
  · rw [hactive.2] at hret
    cases hret

/-- **Calls that start one at a time are served one at a time.** -/
theorem Reaches.oneActive (place : Call → Place) (sole : Place → Prop) (h : Reaches sys s s') (h0 : s.procs = [])
    (hstarts : ∀ s call, sys.starts s call → Idle place sole s call) {i j : Nat} {proc proc' : Proc Res Ret W}
    (hproc : s'.procs[i]? = some proc) (hproc' : s'.procs[j]? = some proc') (hactive : proc.IsActive)
    (hactive' : proc'.IsActive) (hpl : place proc.call = place proc'.call) (hsole : sole (place proc.call)) :
    i = j := by
  induction h generalizing i j proc proc' with
  | refl =>
    rw [h0] at hproc
    cases hproc
  | tail _ hstep ih =>
    rcases hstep.active hproc hactive with ⟨q, hq, hactiveq, hcall⟩ | ⟨hi, hsta⟩
    · rcases hstep.active hproc' hactive' with ⟨q', hq', hactiveq', hcall'⟩ | ⟨-, hsta'⟩
      · rw [← hcall] at hpl hsole
        rw [← hcall'] at hpl
        exact ih hq hq' hactiveq hactiveq' hpl hsole
      · rw [hpl] at hsole
        rw [← hcall] at hpl
        exact absurd hactiveq ((hstarts _ _ hsta').notActive hsole hq hpl)
    · rcases hstep.active hproc' hactive' with ⟨q', hq', hactiveq', hcall'⟩ | ⟨hj, -⟩
      · rw [← hcall'] at hpl
        exact absurd hactiveq' ((hstarts _ _ hsta).notActive hsole hq' hpl.symm)
      · rw [hi, hj]

end Single

/-! ## Runs that are computed -/

/-- What a program returns and its log, answered by a function in a world that stays as it is. -/
def replay {α : Type} (answer : (o : Op) → Ret o) (w : W) :
    Prog Op Ret α → List (Entry Ret W) → α × List (Entry Ret W)
  | .pure a, log => (a, log)
  | .ask o next, log => replay answer w (next (answer o)) (log ++ [⟨w, o, answer o⟩])

theorem reaches_replay {α : Type} {laws : Laws Op Ret W} {answer : (o : Op) → Ret o} {w : W}
    (hans : ∀ o, ∃ w', laws.answers o w (answer o) w') (p : Prog Op Ret α) (log : List (Entry Ret W)) :
    Prog.Reaches (recording laws) (p, log) (.pure (replay answer w p log).1, (replay answer w p log).2) := by
  induction p generalizing log with
  | pure a => exact .refl
  | ask o next ih =>
    obtain ⟨w', hw⟩ := hans o
    have hfst : Prog.Step (recording laws) (.ask o next, log)
        (next (answer o), log ++ [⟨w, o, answer o⟩]) := .answer ⟨w, w', hw, rfl⟩
    exact .head hfst (ih (answer o) _)

/-- What happens next. -/
inductive Event (Call : Type) where
  | start (call : Call)
  | act (i : Nat)
  | stop (i : Nat)

variable [∀ s call, Decidable (sys.starts s call)] [∀ s i o, Decidable (sys.acts s i o)]

/-- The next pool, in a world that answers by a function. What is not allowed does not happen. -/
def next (sys : System Res Ret W) [∀ s call, Decidable (sys.starts s call)]
    [∀ s i o, Decidable (sys.acts s i o)] (answer : (o : Op) → W → Ret o × W) (s : ProcPool Res Ret W) :
    Event Call → ProcPool Res Ret W
  | .start call => if sys.starts s call then s.start sys call else s
  | .act i =>
    match s.procs[i]? with
    | none => s
    | some proc =>
      match proc.live, proc.rest with
      | true, .ask o rest =>
        if sys.acts s i o then
          { world := (answer o s.world).2
            procs := s.procs.set i (proc.after s.world o (answer o s.world).1 (rest (answer o s.world).1)) }
        else s
      | _, _ => s
  | .stop i =>
    match s.procs[i]? with
    | none => s
    | some proc => { s with procs := s.procs.set i { proc with live := false } }

variable {answer : (o : Op) → W → Ret o × W}

/-- A computed step is a step, where the world answers what is allowed by the function. -/
theorem reaches_next_acts
    (hans : ∀ s i o, sys.acts s i o → sys.laws.answers o s.world (answer o s.world).1 (answer o s.world).2)
    (s : ProcPool Res Ret W) (event : Event Call) : Reaches sys s (s.next sys answer event) := by
  cases event with
  | start call =>
    by_cases h : sys.starts s call
    · rw [next, if_pos h]
      exact .single (.start h)
    · rw [next, if_neg h]
  | act i =>
    rw [next]
    cases hproc : s.procs[i]? with
    | none => exact .refl
    | some proc =>
      cases hlive : proc.live with
      | false => simp only [hlive]; exact .refl
      | true =>
        cases hrest : proc.rest with
        | pure a => simp only [hlive, hrest]; exact .refl
        | ask o rest =>
          by_cases h : sys.acts s i o
          · simp only [hlive, hrest, h, if_true]
            exact .single (.act hproc hlive hrest h (hans s i o h))
          · simp only [hlive, hrest, h, if_false]
            exact .refl
  | stop i =>
    rw [next]
    cases hproc : s.procs[i]? with
    | none => exact .refl
    | some proc => exact .single (.stop hproc)

theorem reaches_foldl_acts
    (hans : ∀ s i o, sys.acts s i o → sys.laws.answers o s.world (answer o s.world).1 (answer o s.world).2)
    (s : ProcPool Res Ret W) (events : List (Event Call)) : Reaches sys s (events.foldl (next sys answer) s) := by
  induction events generalizing s with
  | nil => exact .refl
  | cons event events ih => exact (reaches_next_acts hans s event).trans (ih _)

/-- A computed run is a run. -/
theorem reaches_foldl (hans : ∀ o w, sys.laws.answers o w (answer o w).1 (answer o w).2)
    (s : ProcPool Res Ret W) (events : List (Event Call)) : Reaches sys s (events.foldl (next sys answer) s) :=
  reaches_foldl_acts (fun s _ o _ => hans o s.world) s events

end ProcPool

end Adk
