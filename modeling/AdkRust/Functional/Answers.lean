import AdkRust.Functional.Exact
import AdkRust.Functional.Sites

/-!
# The answers of a workflow's interrupts

A run that comes to an interrupt without an answer suspends, and is resumed with a value for it. The log
keys an answer by how many interrupts came before it in the run that asked.

* `History`: runs of a workflow, each resumed from the newest checkpoint of the one before.
* `Answers`: what a history holds of its answers; `Answers.resume`: it holds after one more.
* `answer_is_own`: an interrupt returns the value that was supplied where it stands.
-/

namespace Adk

open TaskContext (cachedResult answerTo)

variable {env : Environment} {values values' : Dict Value} {m m' m₁ start start' : Machine}
  {P Q : Trace → Op → Prop} {t t₀ t₁ t' : Trace} {ops more before after : List Op} {op : Op}
  {log : ExecutionLog} {workflow : Program} {c c' c₀ : Config} {sh sh' sh'' : Shadow}
  {results results' : String → Option Value}

/-! ## Histories -/

/-- The operation of an interrupt that has no answer. -/
def suspension (n : Nat) (message : String) : Op := .ask n (.error (.suspended (interruptKey n) message))

/-- A run that ended by reporting an interrupt. -/
structure Suspended where
  /-- The number of the interrupt. -/
  ordinal : Nat
  message : String
  /-- What the run had done when it came to the interrupt, and how it stood there. -/
  site : Trace
  asks : Machine
  /-- What it had done at its end, and how it ended. -/
  trace : Trace
  last : Machine

def Suspended.interrupt (s : Suspended) : Op := suspension s.ordinal s.message

/-- A run suspends: it comes to an interrupt without an answer, and reports it in the end. -/
structure Suspends (env : Environment) (P : Trace → Op → Prop) (start : Machine) (s : Suspended) : Prop where
  before : ∃ ops, Runs (Machine.Steps env) P {} start ops s.site s.asks
  clear : P s.site s.interrupt
  after : ∃ m ops, s.asks.step env = some (s.interrupt, m) ∧
    Runs (Machine.Steps env) P (s.site.add s.interrupt) m ops s.trace s.last
  reports : s.last.program = .done (.error (.suspended (interruptKey s.ordinal) s.message))
  frames : s.last.frames = []

/-- Runs of a workflow, each resumed from the newest checkpoint of the one before it with a value for the
interrupt that it reported. It lists where each interrupt stood, by what a resume executes again, and the
value that was supplied for it. Each operation meets a condition on what was done before it; each run
that is resumed meets one on how it suspended and on the value. -/
inductive History (env : Environment) (workflow : Program) (P : Trace → Op → Prop)
    (R : Suspended → Value → Prop) : List (List Op × Value) → Machine → Prop
  | fresh (threadId : String) (state : State) (headVersion : Nat) :
    History env workflow P R [] (invoke env threadId state {} ∅ headVersion workflow)
  | resumed {answered start s cp value headVersion start'} :
    History env workflow P R answered start → Suspends env P start s → R s value →
    (s.last.finish env).saved.getLast? = some cp →
    resume env cp (Dict.ofList [(interruptKey s.ordinal, value)]) headVersion workflow = some start' →
    History env workflow P R (answered ++ [(s.site.again, value)]) start'
/-! ## What a history holds of its answers -/

/-- The answers of a history, as a run finds them: the run comes again to each interrupt that was answered,
in the same place, and then to no other that has an answer. -/
structure Answers (env : Environment) (workflow : Program) (answered : List (List Op × Value))
    (start : Machine) (path : List Op) : Prop where
  invoked : ∃ threadId state log values headVersion,
    start = invoke env threadId state log values headVersion workflow ∧ Whole log
  reaches : ∃ t m, Runs (Machine.Steps env) Any {} start path t m ∧ ∀ n value,
    (start.ctx.log.getResult (interruptKey n)).or start.ctx.resumeValues[interruptKey n]? = some value →
      n ≤ m.ctx.interruptOrdinal
  kept : ∀ op ∈ path, op.isComplete = false
  answered : ∀ site value, (site, value) ∈ answered ↔ ∃ n, site ++ [.ask n (.ok value)] <+: path
  last : path = [] ∨ ∃ site n value, path = site ++ [.ask n (.ok value)]

variable {answered : List (List Op × Value)} {path : List Op}

theorem Answers.frames (h : Answers env workflow answered start path) : start.config.frames = [] := by
  obtain ⟨threadId, state, log, values, headVersion, rfl, -⟩ := h.invoked
  rfl

/-- **An interrupt that returns a value was answered where it stands.** -/
theorem Answers.own (h : Answers env workflow answered start path)
    (hruns : Runs (Machine.Steps env) Any {} start ops t m) {n : Nat} {value : Value}
    (hstep : m.step env = some (.ask n (.ok value), m')) : (t.again, value) ∈ answered := by
  obtain ⟨t', last, hpath, hbd⟩ := h.reaches
  obtain ⟨hconfig, hvals⟩ := hruns.config
  obtain ⟨hdoes, -⟩ := Machine.step_does hstep
  have hn : n = m.ctx.interruptOrdinal + 1 := (hdoes.asks.2.1 n _ rfl).2
  have hle : n ≤ last.ctx.interruptOrdinal := by
    refine hbd n value ?_
    have hans := Machine.answer_of_step hstep
    have hsame := hconfig.unanswered (n := n) (by rw [hn]; exact Nat.lt_succ_self _)
    rw [hvals] at hans
    dsimp only [Machine.config] at hsame
    rwa [hsame] at hans
  rcases hruns.compare hpath with ⟨rest, rfl, hrest⟩ | ⟨op, rest, rfl, hrest⟩
  · cases rest with
    | nil =>
      obtain ⟨rfl, rfl⟩ := hrest.eq_of_nil
      omega
    | cons op rest =>
      obtain ⟨m₁, hfst, -, -⟩ := hrest.uncons
      have heq : some (Op.ask n (.ok value), m') = some (op, m₁) := hstep.symm.trans hfst
      cases heq
      rw [h.answered, hconfig.again_of_kept h.frames fun op hop => h.kept op (by simp [hop])]
      exact ⟨n, rest, by simp⟩
  · have haft := hrest.config.1.ordinal_le
    have : last.ctx.interruptOrdinal ≤ m.ctx.interruptOrdinal := haft
    omega

theorem Answers.returns (h : Answers env workflow answered start path) {site : List Op} {value : Value}
    (hmem : (site, value) ∈ answered) : ∃ ops t m n m', Runs (Machine.Steps env) Any {} start ops t m ∧
      m.step env = some (.ask n (.ok value), m') ∧ t.again = site := by
  obtain ⟨n, rest, hpath⟩ := (h.answered site value).mp hmem
  obtain ⟨t', last, hruns, -⟩ := h.reaches
  rw [← hpath, List.append_assoc] at hruns
  obtain ⟨t, m, hsite, hrest⟩ := hruns.split
  obtain ⟨m', hstep, -, -⟩ := hrest.uncons
  refine ⟨site, t, m, n, m', hsite, hstep, hsite.config.1.again_of_kept h.frames fun op hop => ?_⟩
  refine h.kept op ?_
  rw [← hpath]
  simp [hop]

/-- No place is answered twice. -/
theorem Answers.unique (h : Answers env workflow answered start path) {site : List Op}
    {value other : Value} (hval : (site, value) ∈ answered) (hoth : (site, other) ∈ answered) :
    other = value := by
  obtain ⟨n, hn⟩ := (h.answered site value).mp hval
  obtain ⟨k, hk⟩ := (h.answered site other).mp hoth
  have hsame := (List.prefix_of_prefix_length_le hn hk (by simp)).eq_of_length (by simp)
  obtain ⟨-, hop⟩ := List.append_inj' hsame rfl
  cases hop
  rfl

theorem Answers.fresh (env : Environment) (workflow : Program) (threadId : String) (state : State)
    (headVersion : Nat) :
    Answers env workflow [] (invoke env threadId state {} ∅ headVersion workflow) [] where
  invoked := ⟨threadId, state, {}, ∅, headVersion, rfl, Whole.empty⟩
  reaches := by
    refine ⟨{}, _, .nil, fun n value hval => ?_⟩
    simp [invoke, TaskContext.saveCheckpoint, ExecutionLog.getResult] at hval
  kept := by simp
  answered site value := by simp
  last := .inl rfl

/-! ## One more answer -/

/-- An operation is clear, and an interrupt has an answer that it accepts, or none. -/
def Plain (t : Trace) (op : Op) : Prop := Clear t op ∧ Accepted op

/-- A run passes on the interrupt that it reports: a resume comes to it again, as it comes after no other
interrupt and outside the calls that have completed, and what was read before it reads the same at the
end. The interrupt accepts the value. -/
structure PassesOn (s : Suspended) (value : Value) : Prop where
  outside : s.site.again ++ [s.interrupt] <+: s.trace.again
  last : s.last.ctx.interruptOrdinal = s.ordinal
  reads : Rereads s.last.ctx.state s.site.again
  accepts : ∃ message mismatch next,
    s.asks.program = .interrupt message mismatch next ∧ mismatch value = none

variable {s : Suspended} {value : Value} {threadId : String} {state : State} {headVersion : Nat}

theorem Suspends.runs (h : Suspends env P start s) :
    ∃ ops, Runs (Machine.Steps env) P {} start ops s.trace s.last ∧ s.last.step env = none := by
  obtain ⟨⟨before, hbef⟩, hclr, ⟨m, after, hstep, haft⟩, hreports, hfrs⟩ := h
  exact ⟨_, Runs.append (.snoc hbef hstep hclr) haft,
    Machine.step_eq_none_iff.mpr ⟨⟨_, hreports⟩, hfrs⟩⟩

theorem Suspends.ordinal_le (hs : Suspends env P start s) {last : Machine}
    (hpath : Runs (Machine.Steps env) Any {} start path t last) :
    last.ctx.interruptOrdinal ≤ s.last.ctx.interruptOrdinal := by
  obtain ⟨ops, hruns, hend⟩ := hs.runs
  rcases hruns.compare hpath with ⟨rest, -, hrest⟩ | ⟨op, rest, -, hrest⟩
  · cases rest with
    | nil =>
      obtain ⟨-, rfl⟩ := hrest.eq_of_nil
      exact Nat.le_refl _
    | cons op rest =>
      obtain ⟨m₁, hfst, -, -⟩ := hrest.uncons
      have heq : some (op, m₁) = none := hfst.symm.trans hend
      cases heq
  · exact hrest.config.1.ordinal_le

/-- What leads to the answered interrupts leads to the one that the run reports. -/
theorem Answers.path_prefix (h : Answers env workflow answered start path)
    (hs : Suspends env Plain start s) (hlast : s.last.ctx.interruptOrdinal = s.ordinal) :
    path <+: s.site.again := by
  obtain ⟨t', last, hpath, -⟩ := h.reaches
  have hle := hs.ordinal_le hpath
  obtain ⟨⟨before, hbef⟩, ⟨hclr, -⟩, ⟨m, -, hstep, -⟩, -, -⟩ := hs
  obtain ⟨hunasked, -⟩ := hclr
  rcases hbef.compare hpath with ⟨rest, rfl, hrest⟩ | ⟨op, rest, rfl, hrest⟩
  · cases rest with
    | nil =>
      have hag := hbef.config.1.again_of_kept h.frames fun op hop => h.kept op (by simp [hop])
      simp [hag]
    | cons op rest =>
      obtain ⟨m₁, hfst, -, hrest⟩ := hrest.uncons
      have heq : some (s.interrupt, m) = some (op, m₁) := hstep.symm.trans hfst
      cases heq
      -- Another interrupt would follow the one that is reported.
      have hreported : s.ordinal = m.ctx.interruptOrdinal :=
        ((Machine.step_does hstep).1.asks.2.1 s.ordinal _ rfl).1
      rcases h.last with hnil | ⟨site, n, value, heq⟩
      · simp at hnil
      · obtain ⟨init, rfl⟩ : ∃ init, rest = init ++ [.ask n (.ok value)] := by
          rcases List.eq_nil_or_concat' rest with rfl | ⟨init, final, rfl⟩
          · obtain ⟨-, hop⟩ := List.append_inj' heq rfl
            cases hop
          · rw [← List.cons_append, ← List.append_assoc] at heq
            obtain ⟨-, hop⟩ := List.append_inj' heq rfl
            cases hop
            exact ⟨init, rfl⟩
        obtain ⟨t₂, m₂, hinit, hfinal⟩ := hrest.split
        obtain ⟨m₃, hask, -, hnil⟩ := hfinal.uncons
        obtain ⟨rfl, rfl⟩ := hnil.eq_of_nil
        have hmore : m.ctx.interruptOrdinal ≤ m₂.ctx.interruptOrdinal := hinit.config.1.ordinal_le
        obtain ⟨hn, hn'⟩ := (Machine.step_does hask).1.asks.2.1 n _ rfl
        have hn : n = last.ctx.interruptOrdinal := hn
        have hn' : n = m₂.ctx.interruptOrdinal + 1 := hn'
        omega
  · rcases h.last with rfl | ⟨site, n, value, rfl⟩
    · exact List.nil_prefix
    · have hag := hpath.config.1.again_of_kept h.frames h.kept
      refine hrest.prefix_again hunasked ?_
      simp [hag]

/-- An interrupt that is executed again without an answer. -/
theorem Again.suspension {n : Nat} {message : String}
    (h : Again values results sh (suspension n message) sh') :
    n = sh.ordinal + 1 ∧ results (interruptKey n) = none := by
  have hmov := h.moves
  generalize hop : Adk.suspension n message = op at hmov
  cases hmov with
  | ask hp =>
    injection hop with hn hans
    have hnone := none_of_answerTo hans.symm
    rw [← hn] at hnone
    exact ⟨hn, (Option.or_eq_none_iff.mp hnone).1⟩
  | _ => cases hop

/-- The values that a run is resumed with. -/
theorem supplied_eq (n k : Nat) (value : Value) :
    (Dict.ofList [(interruptKey n, value)])[interruptKey k]? = if k = n then some value else none := by
  unfold Dict.ofList
  rw [List.foldl_cons, List.foldl_nil, Std.ExtTreeMap.getElem?_insert]
  by_cases h : k = n
  · rw [if_pos h, if_pos (by rw [h]; exact Std.compare_self)]
  · have hne : interruptKey n ≠ interruptKey k := fun heq => h (interruptKey_inj heq).symm
    rw [if_neg h, if_neg (by simpa using hne)]
    simp

/-- What is executed again of a run whose interrupts accept their answers. -/
theorem Runs.accepted (h : Runs (Machine.Steps env) Plain {} start ops t m) :
    ∀ op ∈ t.again, Accepted op := by
  intro op hop
  cases op with
  | ask n answer =>
    obtain ⟨site, rest, heq⟩ := List.append_of_mem hop
    have hsite : site ++ [.ask n answer] <+: t.again := ⟨rest, by simp [heq]⟩
    obtain ⟨_, _, _, _, _, _, hpln, _⟩ := h.asked hsite
    exact hpln.2
  | _ => trivial

/-- What leads to the interrupt that a run reports, executed again with a value for it. -/
theorem Suspends.replays (hs : Suspends env Plain (invoke env threadId state log values headVersion workflow) s)
    (hpass : PassesOn s value) :
    ∃ counters, Replays (Dict.ofList [(interruptKey s.ordinal, value)]) s.last.ctx.log.getResult
        ⟨workflow, [], fun _ => 0, 0⟩ s.site.again
        ⟨s.asks.program, s.asks.frames, counters, s.ordinal - 1⟩ ∧
      0 < s.ordinal ∧ s.last.ctx.log.getResult (interruptKey s.ordinal) = none := by
  obtain ⟨ops, hruns, hend⟩ := hs.runs
  obtain ⟨before, hbef⟩ := hs.before
  obtain ⟨hconfig, -⟩ := (hruns.mono fun _ _ hp => hp.1).config
  obtain ⟨hconfig₁, -⟩ := (hbef.mono fun _ _ hp => hp.1).config
  obtain ⟨_, _, hag, -⟩ := (Tracks.run hconfig rfl).again
  obtain ⟨counters, ordinal, hsite, -⟩ := (Tracks.run hconfig₁ rfl).again
  rw [config_invoke] at hag hsite
  obtain ⟨rest, hrest⟩ := hpass.outside
  rw [← hrest, List.append_assoc] at hag
  obtain ⟨mid, mid', hmid, hask⟩ := hag.next
  obtain ⟨hord, hnone⟩ := hask.suspension
  have hsame := hmid.det hsite
  subst hsame
  dsimp only at hord
  refine ⟨counters, ?_, by omega, hnone⟩
  have hord' : ordinal = s.ordinal - 1 := by omega
  subst hord'
  refine hmid.resupply hbef.accepted fun n answer hop => ?_
  have hle : n ≤ s.ordinal - 1 := hmid.asks.2 n answer hop
  rw [supplied_eq, if_neg (by omega)]

/-- A run resumed with an answer comes again to the interrupt, and the interrupt returns it. -/
theorem Suspends.resume (hs : Suspends env Plain (invoke env threadId state log values headVersion workflow) s)
    (hpass : PassesOn s value) (hlog : Whole log) {cp : Checkpoint}
    (hcp : (s.last.finish env).saved.getLast? = some cp) {headVersion' : Nat}
    (hresume : resume env cp (Dict.ofList [(interruptKey s.ordinal, value)]) headVersion' workflow =
      some start') :
    ∃ log', start' = invoke env cp.threadId s.last.ctx.state log'
        (Dict.ofList [(interruptKey s.ordinal, value)]) headVersion' workflow ∧ Whole log' ∧
      log'.getResult = s.last.ctx.log.getResult ∧
      ∃ t m, Runs (Machine.Steps env) Any {} start' (s.site.again ++ [.ask s.ordinal (.ok value)]) t m ∧
        m.ctx.interruptOrdinal = s.ordinal := by
  obtain ⟨ops, hruns, hend⟩ := hs.runs
  have hwh := Whole.run hlog (hruns.mono fun _ _ hp => hp.1)
  have hsaves : Saves env (invoke env threadId state log values headVersion workflow) s.last cp := by
    refine .after hend ?_
    unfold Machine.finish at hcp ⊢
    rw [hs.reports] at hcp ⊢
    dsimp only at hcp ⊢
    obtain ⟨cp', hsav, -⟩ := @saved_saveCheckpoint env s.last.ctx [("phase", .string "failed"),
      ("error", .string (env.text (.suspended (interruptKey s.ordinal) s.message)))]
    rw [hsav, List.getLast?_concat] at hcp
    cases hcp
    exact hsav
  obtain ⟨log', hresume', hress, hcomp⟩ := @Checkpoint.Holds.resume env
    (Dict.ofList [(interruptKey s.ordinal, value)]) s.last cp workflow headVersion' hsaves.holds hwh
  cases hresume.symm.trans hresume'
  refine ⟨log', rfl, hwh.congr hress hcomp, hress, ?_⟩
  obtain ⟨counters, hreplays, hpos, hnone⟩ := hs.replays hpass
  obtain ⟨t, c, hsite, -, hshadow, hres, -⟩ := hreplays.replay
    (c := (invoke env cp.threadId s.last.ctx.state log' (Dict.ofList [(interruptKey s.ordinal, value)])
      headVersion' workflow).config)
    (by rw [config_invoke]) (by rw [config_invoke]; exact hress) (by rw [config_invoke])
    (by rw [config_invoke]; exact hpass.reads)
  obtain ⟨message, mismatch, next, hprg, haccepts⟩ := hpass.accepts
  have hord : s.ordinal - 1 + 1 = s.ordinal := by omega
  have hans : answerTo s.last.ctx.log.getResult (Dict.ofList [(interruptKey s.ordinal, value)])
      (interruptKey s.ordinal) message mismatch = .ok value := by
    unfold answerTo
    rw [hnone, supplied_eq, if_pos rfl, Option.none_or]
    dsimp only
    rw [haccepts]
  have hask := @Moves.ask (Dict.ofList [(interruptKey s.ordinal, value)]) s.last.ctx.log.getResult
    ⟨s.asks.program, s.asks.frames, counters, s.ordinal - 1⟩ message mismatch next hprg
  dsimp only at hask
  rw [hord, hans] at hask
  have hdoes : c.Does (Dict.ofList [(interruptKey s.ordinal, value)]) (.ask s.ordinal (.ok value))
      ⟨⟨next (.ok value), s.asks.frames, counters, s.ordinal⟩, c.state,
        (Op.ask s.ordinal (.ok value)).record c.results⟩ := by
    refine ⟨?_, trivial, rfl, rfl⟩
    rw [hshadow, hres]
    exact hask
  have hall : Runs (Config.Does (invoke env cp.threadId s.last.ctx.state log'
        (Dict.ofList [(interruptKey s.ordinal, value)]) headVersion' workflow).ctx.resumeValues) Any {}
      (invoke env cp.threadId s.last.ctx.state log' (Dict.ofList [(interruptKey s.ordinal, value)])
        headVersion' workflow).config _ _ _ := .snoc hsite hdoes trivial
  obtain ⟨m, hruns', hm⟩ := @Runs.machine env _ _ _ _ _ _ hall
  exact ⟨_, m, hruns', congrArg (fun c => c.ordinal) hm⟩

/-- **The answers of a history, after one more.** -/
theorem Answers.resume (h : Answers env workflow answered start path) (hs : Suspends env Plain start s)
    (hpass : PassesOn s value) {cp : Checkpoint} (hcp : (s.last.finish env).saved.getLast? = some cp)
    {headVersion : Nat}
    (hresume : Adk.resume env cp (Dict.ofList [(interruptKey s.ordinal, value)]) headVersion workflow =
      some start') :
    Answers env workflow (answered ++ [(s.site.again, value)]) start'
      (s.site.again ++ [.ask s.ordinal (.ok value)]) := by
  have hpre := h.path_prefix hs hpass.last
  obtain ⟨before, hbef⟩ := hs.before
  obtain ⟨t₀, last, hpath, hbd⟩ := h.reaches
  have hle := hs.ordinal_le hpath
  obtain ⟨ops, hruns, -⟩ := hs.runs
  obtain ⟨threadId, state, log, values, headVersion₀, rfl, hlog⟩ := h.invoked
  obtain ⟨counters, hreplays, hpos, hnone⟩ := hs.replays hpass
  obtain ⟨log', rfl, hwh, hress, t, m, hreas, hord⟩ := hs.resume hpass hlog hcp hresume
  refine ⟨⟨_, _, log', _, _, rfl, hwh⟩, ⟨t, m, hreas, fun n v hv => ?_⟩, fun op hop => ?_,
    fun site v => ⟨fun hmem => ?_, ?_⟩, .inr ⟨_, _, _, rfl⟩⟩
  · rw [hord]
    by_contra hlt
    have hv : (log'.getResult (interruptKey n)).or
        (Dict.ofList [(interruptKey s.ordinal, value)])[interruptKey n]? = some v := hv
    rw [supplied_eq, if_neg (by omega), Option.or_none, hress] at hv
    have hlast := hpass.last
    have hsame : s.last.ctx.log.getResult (interruptKey n) = log.getResult (interruptKey n) :=
      hruns.config.1.unanswered (n := n) (by simp only [Machine.config]; omega)
    rw [hsame] at hv
    have := hbd n v (by
      dsimp only [invoke, TaskContext.saveCheckpoint]
      rw [hv, Option.some_or])
    omega
  · rcases List.mem_append.mp hop with hop | hop
    · exact hreplays.kept op hop
    · rw [List.mem_singleton.mp hop]
      rfl
  · rcases List.mem_append.mp hmem with hmem | hmem
    · obtain ⟨n, hn⟩ := (h.answered site v).mp hmem
      exact ⟨n, (hn.trans hpre).trans (List.prefix_append ..)⟩
    · cases List.mem_singleton.mp hmem
      exact ⟨s.ordinal, List.prefix_rfl⟩
  · rintro ⟨n, hn⟩
    rcases List.prefix_concat_iff.mp hn with heq | hn
    · obtain ⟨rfl, hop⟩ := List.append_inj' heq rfl
      cases hop
      simp
    · obtain ⟨earlier, t₁, m₁, m₂, hearl, hstep, -, rfl⟩ := hbef.asked hn
      exact List.mem_append_left _ (h.own hearl.any hstep)

/-- A history whose runs pass on their interrupts. -/
theorem History.answers (h : History env workflow Plain PassesOn answered start) :
    ∃ path, Answers env workflow answered start path := by
  induction h with
  | fresh threadId state headVersion => exact ⟨[], .fresh env workflow threadId state headVersion⟩
  | resumed _ hs hpass hcp hresume ih =>
    obtain ⟨path, hanss⟩ := ih
    exact ⟨_, hanss.resume hs hpass hcp hresume⟩

/-- **Each interrupt gets its own answer.** Take a history whose runs are plain and pass on the interrupts
that they report. In its last run an interrupt that returns a value stands where one was answered with
that value, and with no other; and the run comes again to each interrupt that was answered, which returns
its value. -/
theorem answer_is_own (h : History env workflow Plain PassesOn answered start) :
    (∀ ops t m n value m', Runs (Machine.Steps env) Any {} start ops t m →
      m.step env = some (.ask n (.ok value), m') →
      (t.again, value) ∈ answered ∧ ∀ other, (t.again, other) ∈ answered → other = value) ∧
    ∀ site value, (site, value) ∈ answered → ∃ ops t m n m',
      Runs (Machine.Steps env) Any {} start ops t m ∧ m.step env = some (.ask n (.ok value), m') ∧
        t.again = site := by
  obtain ⟨path, hanswers⟩ := h.answers
  refine ⟨fun ops t m n value m' hruns hstep => ?_, fun site value hmem => hanswers.returns hmem⟩
  have hown := hanswers.own hruns hstep
  exact ⟨hown, fun other hother => hanswers.unique hown hother⟩

/-! ## Histories of two workflows -/

/-- A workflow that interrupts. -/
def askOnce : Program := .interrupt "first" (fun _ => none) .done

/-- The first run of `askOnce`. -/
def askOnceSuspended : Suspended :=
  let asks := invoke stillClock "thread" ∅ {} ∅ 0 askOnce
  let ctx : TaskContext := { asks.ctx with interruptOrdinal := 1 }
  { ordinal := 1, message := "first", site := {}, asks, trace := Trace.add {} (suspension 1 "first")
    last := {
      ctx := ctx.suspend stillClock (interruptKey 1) "first"
      program := .done (.error (.suspended (interruptKey 1) "first")) } }

/-- `askOnce` suspends, and its resumed run comes to the interrupt again, which returns the value. -/
theorem answer_is_own_askOnce :
    ∃ start, History stillClock askOnce Plain PassesOn [([], .string "x")] start ∧ ∃ ops t m n m',
      Runs (Machine.Steps stillClock) Any {} start ops t m ∧
        m.step stillClock = some (.ask n (.ok (.string "x")), m') ∧ t.again = [] := by
  have hsuspends : Suspends stillClock Plain askOnceSuspended.asks askOnceSuspended := by
    refine ⟨⟨[], .nil⟩, ⟨⟨?_, by simp⟩, ⟨_, _, rfl⟩⟩, ⟨askOnceSuspended.last, [], rfl, .nil⟩, rfl, rfl⟩
    intro op hop
    cases hop
  have hpass : PassesOn askOnceSuspended (.string "x") :=
    ⟨List.prefix_rfl, rfl, trivial, ⟨_, _, _, rfl, rfl⟩⟩
  have hresume : ((askOnceSuspended.last.finish stillClock).saved.getLast?.bind fun cp =>
      resume stillClock cp (Dict.ofList [(interruptKey 1, .string "x")]) 3 askOnce).isSome = true := by
    decide +kernel
  obtain ⟨start, hresume⟩ := Option.isSome_iff_exists.mp hresume
  obtain ⟨cp, hcp, hresume⟩ := Option.bind_eq_some_iff.mp hresume
  have hhistory : History stillClock askOnce Plain PassesOn [([], .string "x")] start :=
    .resumed (.fresh "thread" ∅ 0) hsuspends hpass hcp hresume
  exact ⟨start, hhistory, (answer_is_own hhistory).2 [] (.string "x") (by simp)⟩

/-- Whether an operation starts the body of a call. -/
def Op.isEnter : Op → Bool
  | .enter .. => true
  | _ => false

/-- Whether an operation is an interrupt without an answer. -/
def Op.isSuspension (n : Nat) (message : String) : Op → Bool
  | .ask k (.error (.suspended key message')) =>
    decide (k = n) && decide (key = interruptKey n) && decide (message' = message)
  | _ => false

theorem eq_of_isSuspension {n : Nat} {message : String} (h : op.isSuspension n message = true) :
    op = suspension n message := by
  unfold Op.isSuspension at h
  split at h
  · simp only [Bool.and_eq_true, decide_eq_true_eq] at h
    obtain ⟨⟨rfl, rfl⟩, rfl⟩ := h
    rfl
  · cases h

def Op.returns (value : Value) : Op → Bool
  | .ask _ (.ok answer) => decide (answer = value)
  | _ => false

theorem eq_of_returns {value : Value} (h : op.returns value = true) : ∃ n, op = .ask n (.ok value) := by
  unfold Op.returns at h
  split at h
  · rw [of_decide_eq_true h]
    exact ⟨_, rfl⟩
  · cases h

def Program.reports (n : Nat) (message : String) : Program → Bool
  | .done (.error (.suspended key message')) => decide (key = interruptKey n) && decide (message' = message)
  | _ => false

theorem eq_of_reports {n : Nat} {message : String} {program : Program}
    (h : program.reports n message = true) :
    program = .done (.error (.suspended (interruptKey n) message)) := by
  unfold Program.reports at h
  split at h
  · simp only [Bool.and_eq_true, decide_eq_true_eq] at h
    obtain ⟨rfl, rfl⟩ := h
    rfl
  · cases h

/-- Plays a run to an interrupt after `k` steps, and to its end. -/
def Machine.playSuspended (env : Environment) (start : Machine) (k n : Nat) (message : String) :
    Option Suspended := do
  let (_, site, asks) ← start.play env Any k {}
  let (op, m) ← asks.step env
  let (_, trace, last) ← m.play env Any 100 (site.add op)
  if op.isSuspension n message && last.program.reports n message && last.frames.isEmpty then
    return { ordinal := n, message, site, asks, trace, last }
  else none

theorem suspends_of_playSuspended {k n : Nat} {message : String}
    (h : start.playSuspended env k n message = some s) : Suspends env Any start s := by
  unfold Machine.playSuspended at h
  simp only [Option.bind_eq_bind, Option.bind_eq_some_iff, Prod.exists] at h
  obtain ⟨ops, site, asks, hbef, op, m, hstep, after, trace, last, haft, h⟩ := h
  split at h
  · rename_i hall
    simp only [Bool.and_eq_true] at hall
    obtain ⟨⟨hop, hreports⟩, hfrs⟩ := hall
    cases h
    have hop := eq_of_isSuspension hop
    subst hop
    exact ⟨⟨ops, runs_play hbef⟩, trivial, ⟨m, after, hstep, runs_play haft⟩, eq_of_reports hreports,
      List.isEmpty_iff.mp hfrs⟩
  · cases h

/-- Plays a run that suspends, and starts the one resumed from it. -/
def Machine.playAnswer (env : Environment) (workflow : Program) (k n : Nat) (message : String)
    (value : Value) (played : List (List Op × Value) × Machine) :
    Option (List (List Op × Value) × Machine) := do
  let s ← played.2.playSuspended env k n message
  let cp ← (s.last.finish env).saved.getLast?
  let start ← resume env cp (Dict.ofList [(interruptKey s.ordinal, value)]) s.last.ctx.headVersion workflow
  return (played.1 ++ [(s.site.again, value)], start)

theorem history_of_playAnswer {k n : Nat} {message : String} {played played' : List (List Op × Value) × Machine}
    (hhist : History env workflow Any (fun _ _ => True) played.1 played.2)
    (h : Machine.playAnswer env workflow k n message value played = some played') :
    History env workflow Any (fun _ _ => True) played'.1 played'.2 := by
  unfold Machine.playAnswer at h
  simp only [Option.bind_eq_bind, Option.bind_eq_some_iff] at h
  obtain ⟨s, hs, cp, hcp, start, hresume, h⟩ := h
  cases h
  exact .resumed hhist (suspends_of_playSuspended hs) trivial hcp hresume

/-- A workflow that interrupts inside a task and after it. -/
def askInside : Program :=
  .call { name := "outer" } none (.interrupt "first" (fun _ => none) .done) fun first =>
    match first with
    | .ok _ => .interrupt "second" (fun _ => none) .done
    | .error error => .done (.error error)

/-- **An interrupt does not get its own answer in general**: after the task has completed, the interrupt
that follows it takes the answer of the one inside. -/
theorem answer_mistaken :
    ∃ answered start ops t m n m', History stillClock askInside Any (fun _ _ => True) answered start ∧
      answered.map Prod.snd = [.string "x", .string "y"] ∧
      Runs (Machine.Steps stillClock) Any {} start ops t m ∧
      m.step stillClock = some (.ask n (.ok (.string "x")), m') ∧ (t.again, .string "x") ∉ answered := by
  have hplay : ((Machine.playAnswer stillClock askInside 1 1 "first" (.string "x")
      ([], invoke stillClock "thread" ∅ {} ∅ 0 askInside)).bind
        (Machine.playAnswer stillClock askInside 3 2 "second" (.string "y"))).any
      (fun played => decide (played.1.map Prod.snd = [.string "x", .string "y"]) &&
        (played.2.play stillClock Any 1 {}).any fun (_, t, m) => (m.step stillClock).any fun (op, _) =>
          op.returns (.string "x") && played.1.all fun answer =>
            decide (answer.2 = .string "y") ||
              decide (answer.1.map Op.isEnter ≠ t.again.map Op.isEnter)) = true := by
    decide +kernel
  simp only [Option.any_eq_true, Option.bind_eq_some_iff, Prod.exists, Bool.and_eq_true,
    decide_eq_true_eq, List.all_eq_true, Bool.or_eq_true] at hplay
  obtain ⟨answered, start, ⟨first, start₁, hfirst, hsecond⟩, hvalues, ops, t, m, hruns, op, m', hstep,
    hreturns, hothers⟩ := hplay
  obtain ⟨n, rfl⟩ := eq_of_returns hreturns
  have hhistory := history_of_playAnswer
    (history_of_playAnswer (.fresh "thread" ∅ 0) hfirst) hsecond
  refine ⟨answered, start, ops, t, m, n, m', hhistory, hvalues, runs_play hruns, hstep, fun hmem => ?_⟩
  rcases hothers _ hmem with hvalue | hsite
  · simp at hvalue
  · exact hsite rfl

end Adk
