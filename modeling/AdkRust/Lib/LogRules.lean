import AdkRust.Lib.ProcPool
import Mathlib.Data.List.Chain

/-!
# Rules for the log of one process

* `Barred`: from what holds of its log, a program ensures what holds of it at each operation, at a return and at a
  failure, unless the log is one that the world never lets it have. Which logs these are is known of the world, not of
  the program, so the program's rules carry them along.
* `System.only`, `Reaches.alone`: a process that runs while no other one does finds the world as it left it.
-/

namespace Adk

variable {Call : Type} {Res : Call → Type} {Op : Type} {Ret : Op → Type} {W α β ε : Type}

namespace ProcPool

/-! ## Logs that cannot be -/

section Barred

variable {laws : Laws Op Ret W} {bad : List (Entry Ret W) → Prop} {pre : Op → List (Entry Ret W) → Prop}

theorem holds_of_bad (hbad : ∀ log entry, bad log → bad (log ++ [entry])) {post : α → List (Entry Ret W) → Prop}
    (hpre : ∀ o log, bad log → pre o log) (hpost : ∀ a log, bad log → post a log) (p : Prog Op Ret α)
    {log : List (Entry Ret W)} (h : bad log) : p.Holds (recording laws) pre post log := by
  induction p generalizing log with
  | pure a => exact holds_pure.mpr (hpost a log h)
  | ask o next ih => exact holds_ask.mpr ⟨hpre o log h, fun w r _ _ => ih r (hbad log _ h)⟩

/-- From what holds of its log, a program ensures what holds of it at each operation, at a return and at a failure, as
long as its log can be. -/
def Barred (laws : Laws Op Ret W) (bad : List (Entry Ret W) → Prop) (pre : Op → List (Entry Ret W) → Prop)
    (F : List (Entry Ret W) → Prop) (p : ExceptT ε (Prog Op Ret) α) (E : ε → List (Entry Ret W) → Prop)
    (R : α → List (Entry Ret W) → Prop) : Prop :=
  ∀ log, F log → Prog.Ensures (recording laws) (fun o log => bad log ∨ pre o log) (fun e log => bad log ∨ E e log)
    (fun a log => bad log ∨ R a log) p log

namespace Barred

variable {F F' : List (Entry Ret W) → Prop} {E E' : ε → List (Entry Ret W) → Prop}
  {R R' : α → List (Entry Ret W) → Prop} {S : β → List (Entry Ret W) → Prop} {p : ExceptT ε (Prog Op Ret) α}

theorem mono (h : Barred laws bad pre F p E R) (hF : ∀ log, F' log → F log) (hE : ∀ e log, E e log → E' e log)
    (hR : ∀ a log, R a log → R' a log) : Barred laws bad pre F' p E' R' :=
  fun log hlog => Prog.Ensures.mono (h log (hF log hlog)) (fun a log => Or.imp_right (hR a log))
    fun e log => Or.imp_right (hE e log)

/-- The rule for what is known without the program. -/
theorem intro (h : ∀ log, F log → Barred laws bad pre (fun log' => log' = log) p E R) : Barred laws bad pre F p E R :=
  fun log hlog => h log hlog log rfl

theorem pure {a : α} (h : ∀ log, F log → R a log) :
    Barred laws bad pre F (Pure.pure a : ExceptT ε (Prog Op Ret) α) E R :=
  fun log hlog => ensures_pure (.inr (h log hlog))

theorem throw {e : ε} (h : ∀ log, F log → E e log) :
    Barred laws bad pre F (throw e : ExceptT ε (Prog Op Ret) α) E R :=
  fun log hlog => ensures_throw (.inr (h log hlog))

theorem bind (hbad : ∀ log entry, bad log → bad (log ++ [entry])) {f : α → ExceptT ε (Prog Op Ret) β}
    (h : Barred laws bad pre F p E R) (hf : ∀ a, Barred laws bad pre (R a) (f a) E S) :
    Barred laws bad pre F (p >>= f) E S := by
  intro log hlog
  refine Prog.Ensures.bind (h log hlog) fun a log' h' => ?_
  rcases h' with hlost | hR
  · refine holds_of_bad hbad (fun _ _ h => .inl h) (fun r log h => ?_) _ hlost
    cases r with
    | ok b => exact .inl h
    | error e => exact .inl h
  · exact hf a log' hR

/-- The rule for an operation. -/
theorem perform {o : Op} {R : Ret o → List (Entry Ret W) → Prop} (hpre : ∀ log, F log → pre o log)
    (h : ∀ log w r w', F log → laws.answers o w r w' → bad (log ++ [⟨w, o, r⟩]) ∨ R r (log ++ [⟨w, o, r⟩])) :
    Barred laws bad pre F (ExceptT.lift (Prog.perform o) : ExceptT ε (Prog Op Ret) (Ret o)) E R :=
  fun log hlog => ensures_perform (.inr (hpre log hlog)) fun w r w' hr => h log w r w' hlog hr

/-- The rule for a program whose failure is looked at. -/
theorem attempt (h : Barred laws bad pre F p E R) : Barred laws bad pre F
    (ExceptT.lift p.run : ExceptT ε (Prog Op Ret) (Except ε α)) E' fun result log =>
      (∀ a, result = .ok a → R a log) ∧ ∀ e, result = .error e → E e log := by
  intro log hlog
  refine Prog.Ensures.lift (Prog.Holds.mono (h log hlog) fun result log' h => ?_)
  cases result with
  | ok a => exact h.imp_right fun h => ⟨fun b hb => Except.ok.inj hb ▸ h, fun _ h => by cases h⟩
  | error e => exact h.imp_right fun h => ⟨fun _ h => (by cases h), fun e' he => Except.error.inj he ▸ h⟩

/-- A program that is known to ensure what a call's log needs. -/
theorem holds {post : Except ε α → List (Entry Ret W) → Prop} (h : Barred laws bad pre (fun log => log = []) p E R)
    (hE : ∀ e log, E e log → post (.error e) log) (hR : ∀ a log, R a log → post (.ok a) log) :
    p.run.Holds (recording laws) (fun o log => bad log ∨ pre o log) (fun r log => bad log ∨ post r log) [] := by
  refine Prog.Holds.mono (h [] rfl) fun result log h => ?_
  cases result with
  | ok a => exact h.imp_right (hR a log)
  | error e => exact h.imp_right (hE e log)

end Barred

end Barred

/-! ## A process that runs alone -/

/-- A log whose operations were performed in turn, with nothing between them. -/
structure InTurn (laws : Laws Op Ret W) (start : W) (log : List (Entry Ret W)) (now : W) : Prop where
  first : ∀ entry ∈ log.head?, entry.world = start
  each : log.IsChain fun entry entry' => laws.answers entry.op entry.world entry.ret entry'.world
  last : ∀ entry ∈ log.getLast?, laws.answers entry.op entry.world entry.ret now
  untouched : log = [] → now = start

theorem inTurn_nil {laws : Laws Op Ret W} (w : W) : InTurn laws w [] w :=
  ⟨by simp, .nil, by simp, fun _ => rfl⟩

theorem InTurn.concat {laws : Laws Op Ret W} {start w w' : W} {log : List (Entry Ret W)} {o : Op} {r : Ret o}
    (h : InTurn laws start log w) (hr : laws.answers o w r w') : InTurn laws start (log ++ [⟨w, o, r⟩]) w' := by
  refine ⟨fun entry hent => ?_, ?_, fun entry hent => ?_, fun hemp => ?_⟩
  · cases log with
    | nil =>
      obtain rfl := Option.some.inj hent
      exact h.untouched rfl
    | cons first rest => exact h.first entry hent
  · apply h.each.append (.singleton _)
    intro entry hent entry' hent'
    obtain rfl := Option.some.inj hent'
    exact h.last entry hent
  · rw [List.getLast?_concat] at hent
    obtain rfl := Option.some.inj hent
    exact hr
  · exact absurd hemp (by simp)

/-- Two operations next to each other in a log that were performed in turn. -/
theorem InTurn.next {laws : Laws Op Ret W} {start now : W} {later : List (Entry Ret W)} {a b : Entry Ret W}
    (before : List (Entry Ret W)) (h : InTurn laws start (before ++ a :: b :: later) now) : laws.answers a.op a.world a.ret b.world :=
  (List.isChain_append_cons_cons.mp h.each).2.1

end ProcPool

/-- Where one process goes on, and no other one. -/
def System.only (sys : System Res Ret W) (i : Nat) : System Res Ret W where
  laws := sys.laws
  program := sys.program
  starts _ _ := False
  acts s j o := j = i ∧ sys.acts s j o

namespace ProcPool

variable {sys : System Res Ret W} {s s' : ProcPool Res Ret W} {i : Nat}

/-- A run of one process is a run. -/
theorem Reaches.of_only (h : Reaches (sys.only i) s s') : Reaches sys s s' := by
  apply Relation.ReflTransGen.mono ?_ s s' h
  intro t t' hstep
  cases hstep with
  | start hsta => exact hsta.elim
  | act hproc hlive hrest hacts hr => exact .act hproc hlive hrest hacts.2 hr
  | stop hproc => exact .stop hproc
  | move hmove => exact .move hmove

/-- The processes that are active in a pool were active in another one. -/
def NoneWakes (i : Nat) (s s' : ProcPool Res Ret W) : Prop :=
  ∀ j proc, j ≠ i → s'.procs[j]? = some proc → proc.IsActive → ∃ proc', s.procs[j]? = some proc' ∧ proc'.IsActive

/-- **A process that runs alone**: its operations are performed in turn, each as it is allowed, and no other process
becomes active. -/
theorem Reaches.alone (h : Reaches (sys.only i) s s') (hmov : ∀ w w', ¬ sys.laws.moves w w')
    {proc : Proc Res Ret W} (hproc : s.procs[i]? = some proc) (hemp : proc.log = []) : NoneWakes i s s' ∧
      ∃ proc', s'.procs[i]? = some proc' ∧ proc'.call = proc.call ∧ InTurn sys.laws s.world proc'.log s'.world ∧
        ∀ entry ∈ proc'.log, ∃ t, NoneWakes i s t ∧ (∃ proc'', t.procs[i]? = some proc'' ∧ proc''.call = proc.call) ∧
          t.world = entry.world ∧ sys.acts t i entry.op := by
  induction h with
  | refl =>
    refine ⟨fun j q _ hq hact => ⟨q, hq, hact⟩, proc, hproc, rfl, ?_, ?_⟩
    · rw [hemp]
      exact inTurn_nil _
    · rw [hemp]
      exact fun _ h => by cases h
  | @tail t t' _ hstep ih =>
    obtain ⟨hnone, proc', hproc', hcall, hturn, hall⟩ := ih
    cases hstep with
    | start hsta => exact hsta.elim
    | @act j q o next r w hq hlive hrest hacts hr =>
      obtain ⟨rfl, hacts⟩ := hacts
      obtain rfl := Option.some.inj (hq.symm.trans hproc')
      refine ⟨fun k q' hk hq' hact => ?_, _, List.getElem?_set_self (List.getElem?_eq_some_iff.mp hq).1, hcall,
        hturn.concat hr, fun entry hent => ?_⟩
      · rw [List.getElem?_set_ne (Ne.symm hk)] at hq'
        exact hnone k q' hk hq' hact
      · rcases List.mem_append.mp hent with hold | hnew
        · exact hall entry hold
        · obtain rfl := List.mem_singleton.mp hnew
          exact ⟨t, hnone, ⟨q, hq, hcall⟩, rfl, hacts⟩
    | @stop j q hq =>
      have hlt := (List.getElem?_eq_some_iff.mp hq).1
      have hoths : NoneWakes i s { t with procs := t.procs.set j { q with live := false } } := by
        intro k q' hk hq' hact
        rcases getElem?_put hq hq' with ⟨-, rfl⟩ | ⟨-, hold⟩
        · cases hact.1
        · exact hnone k q' hk hold hact
      by_cases hj : j = i
      · subst hj
        obtain rfl := Option.some.inj (hq.symm.trans hproc')
        exact ⟨hoths, _, List.getElem?_set_self hlt, hcall, hturn, hall⟩
      · exact ⟨hoths, proc', (List.getElem?_set_ne hj).trans hproc', hcall, hturn, hall⟩
    | move hmove => exact (hmov _ _ hmove).elim

end ProcPool

end Adk
