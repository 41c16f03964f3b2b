import AdkRust.Functional.Replay

/-!
# Running a workflow again

* `Runs`: operations of a machine or a configuration, with their trace.
* `Replays.replay`: executing again what a run did, on a state where its reads find the same.
* `Sim.step`: the run that was resumed goes on as the one that was not.
* `Runs.follows`: a run takes the result of a call from the log it started with.
-/

namespace Adk

open TaskContext (cachedResult answerTo)

/-! ## Runs -/

/-- Operations one after the other, each of which meets a condition on what was done before it. -/
inductive Runs {σ : Type} (step : σ → Op → σ → Prop) (P : Trace → Op → Prop) (t₀ : Trace) (s₀ : σ) :
    List Op → Trace → σ → Prop
  | nil : Runs step P t₀ s₀ [] t₀ s₀
  | snoc {ops t s op s'} : Runs step P t₀ s₀ ops t s → step s op s' → P t op →
    Runs step P t₀ s₀ (ops ++ [op]) (t.add op) s'

def Machine.Steps (env : Environment) (m : Machine) (op : Op) (m' : Machine) : Prop :=
  m.step env = some (op, m')

/-- Any operation, whatever was done before it. -/
def Any (_ : Trace) (_ : Op) : Prop := True

variable {env : Environment} {values : Dict Value} {m m' start : Machine} {c c' c₀ : Config}
  {P : Trace → Op → Prop} {t t₀ t' : Trace} {ops more : List Op} {op : Op} {sh sh' : Shadow}
  {results : String → Option Value}

section Basics

variable {σ : Type} {step : σ → Op → σ → Prop} {s s' s₀ : σ}

theorem Runs.append (h : Runs step P t₀ s₀ ops t s) (h' : Runs step P t s more t' s') :
    Runs step P t₀ s₀ (ops ++ more) t' s' := by
  induction h' with
  | nil => rwa [List.append_nil]
  | snoc _ hstep hp ih =>
    rw [← List.append_assoc]
    exact .snoc ih hstep hp

theorem Runs.mono {Q : Trace → Op → Prop} (h : Runs step P t₀ s₀ ops t s)
    (hpq : ∀ t op, P t op → Q t op) : Runs step Q t₀ s₀ ops t s := by
  induction h with
  | nil => exact .nil
  | snoc _ hstep hp ih => exact .snoc ih hstep (hpq _ _ hp)

theorem Runs.any (h : Runs step P t₀ s₀ ops t s) : Runs step Any t₀ s₀ ops t s :=
  h.mono fun _ _ _ => trivial

end Basics

theorem Runs.config (h : Runs (Machine.Steps env) P t₀ start ops t m) :
    Runs (Config.Does start.ctx.resumeValues) P t₀ start.config ops t m.config ∧
      m.ctx.resumeValues = start.ctx.resumeValues := by
  induction h with
  | nil => exact ⟨.nil, rfl⟩
  | snoc _ hstep hp ih =>
    obtain ⟨hruns, hvals⟩ := ih
    obtain ⟨hdoes, hsame⟩ := Machine.step_does hstep
    rw [hvals] at hdoes
    exact ⟨.snoc hruns hdoes hp, hsame.trans hvals⟩

theorem Runs.machine (h : Runs (Config.Does start.ctx.resumeValues) P t₀ start.config ops t c) :
    ∃ m, Runs (Machine.Steps env) P t₀ start ops t m ∧ m.config = c := by
  induction h with
  | nil => exact ⟨start, .nil, rfl⟩
  | snoc _ hdoes hp ih =>
    obtain ⟨m, hruns, rfl⟩ := ih
    rw [← hruns.config.2] at hdoes
    obtain ⟨m', hstep, rfl⟩ := Machine.step_of_does env hdoes
    exact ⟨m', .snoc hruns hstep hp, rfl⟩

/-- **In a clear run, what is executed again leads to where the run is.** -/
theorem Tracks.run (h : Runs (Config.Does values) Clear {} c₀ ops t c) (hfrs : c₀.frames = []) :
    Tracks values c₀.toShadow t c := by
  induction h with
  | nil => exact .start c₀ hfrs
  | snoc _ hdoes hclr ih => exact ih.step hclr hdoes

/-! ## Executing again -/

/-- The state after operations are executed again on it. -/
def rewritten (state : State) (ops : List Op) : State := ops.foldl (fun state op => op.effect state) state

/-- Every read that is executed again finds what it found. -/
def Rereads (state : State) : List Op → Prop
  | [] => True
  | op :: ops => op.Reads state ∧ Rereads (op.effect state) ops

theorem rereads_append {state : State} :
    Rereads state (ops ++ more) ↔ Rereads state ops ∧ Rereads (rewritten state ops) more := by
  induction ops generalizing state with
  | nil => simp [Rereads, rewritten]
  | cons op ops ih => simp [Rereads, rewritten, ih, and_assoc]

/-- Each call in progress has its mark. -/
theorem Runs.pending (h : Runs (Config.Does values) P {} c₀ ops t c) (hfrs : c₀.frames = []) :
    t.pending.length = c.frames.length := by
  induction h with
  | nil => simp [hfrs]
  | @snoc ops t c op c' _ hdoes _ ih =>
    have hmov := hdoes.moves
    obtain ⟨sh', state', results'⟩ := c'
    dsimp only at hmov ⊢
    cases hmov with
    | get => exact ih
    | set => exact ih
    | skip => exact ih
    | ask => exact ih
    | enter => simp [Trace.add, ih]
    | retry _ hf =>
      rw [hf] at ih
      simpa [Trace.add] using ih
    | leave _ hf =>
      rw [hf] at ih
      cases hpend : t.pending with
      | nil => simp [hpend] at ih
      | cons mark pending => simpa [Trace.add, hpend] using ih
    | rerun _ hf =>
      rw [hf] at ih
      cases hpend : t.pending with
      | nil => simp [hpend] at ih
      | cons mark pending => simpa [Trace.add, hpend] using ih
    | complete _ hf =>
      rw [hf] at ih
      cases hpend : t.pending with
      | nil => simp [hpend] at ih
      | cons mark pending => simpa [Trace.add, hpend] using ih

theorem Trace.again_add (hkept : op.isComplete = false)
    (hleave : ∀ call result, op = .leave call result → t.pending ≠ []) :
    (t.add op).again = t.again ++ [op] := by
  unfold again
  cases op with
  | complete => cases hkept
  | enter task call => exact flatten_append ..
  | leave call result =>
    cases hpend : t.pending with
    | nil => exact absurd hpend (hleave call result rfl)
    | cons mark pending =>
      simp only [add, hpend, flatten]
      rw [← flatten_append]
      simp
  | _ => exact flatten_append ..

/-- **Executing again what leads to a place**, on a log that holds its results and a state where the
reads find the same. -/
theorem Replays.replay (h : Replays values results sh ops sh') (hc : c.toShadow = sh)
    (hress : c.results = results) (hfrs : c.frames = []) (hrd : Rereads c.state ops) :
    ∃ t c', Runs (Config.Does values) Any {} c ops t c' ∧ t.again = ops ∧ c'.toShadow = sh' ∧
      c'.results = results ∧ c'.state = rewritten c.state ops := by
  induction h with
  | nil => exact ⟨{}, c, .nil, rfl, hc, hress, rfl⟩
  | @snoc ops op sh₁ sh₂ _ hlast ih =>
    rw [rereads_append] at hrd
    obtain ⟨t, c₁, hruns, hag, hsh, hres, hst⟩ := ih hrd.1
    obtain ⟨hmov, hrecd, hkept⟩ := hlast
    refine ⟨t.add op, ⟨sh₂, op.effect c₁.state, results⟩, .snoc hruns ⟨?_, ?_, rfl, ?_⟩ trivial, ?_, rfl,
      rfl, ?_⟩
    · rw [hsh, hres]
      exact hmov
    · rw [hst]
      exact hrd.2.1
    · rw [hres, hrecd]
    · rw [Trace.again_add hkept, hag]
      rintro call result rfl hnil
      have hlen := hruns.pending hfrs
      rw [hnil] at hlen
      have hnone : sh₁.frames = [] := by
        rw [← hsh]
        exact List.length_eq_zero_iff.mp hlen.symm
      cases hmov with
      | leave _ hf => rw [hnone] at hf; cases hf
      | rerun _ hf => rw [hnone] at hf; cases hf
    · rw [hst]
      simp [rewritten]

/-! ## Going on -/

/-- The second run stands where the first does; the counters agree but for what is hidden in the first. -/
structure Sim (t : Trace) (c c' : Config) : Prop where
  program : c'.program = c.program
  frames : c'.frames = c.frames
  state : c'.state = c.state
  results : c'.results = c.results
  counters : ∀ name, t.Uncalled name → c'.counters name = c.counters name
  ordinal : t.Unasked → c'.ordinal = c.ordinal

theorem Trace.hidden_add {o : Op} (h : o ∈ t.hidden) : o ∈ (t.add op).hidden := by
  cases op with
  | complete call result =>
    cases hpend : t.pending with
    | nil => simpa [add, hpend] using h
    | cons mark pending => simp [add, hpend, h]
  | leave call result =>
    cases hpend : t.pending with
    | nil => simpa [add, hpend] using h
    | cons mark pending => simpa [add, hpend] using h
  | _ => exact h

/-- **The second run does what the first does**, as long as the first is clear. -/
theorem Sim.step (h : Sim t c c₀) (hclr : Clear t op) (hdoes : c.Does values op c') :
    ∃ c₁, c₀.Does values op c₁ ∧ Sim (t.add op) c' c₁ := by
  obtain ⟨⟨program, frames, counters, ordinal⟩, state, results⟩ := c₀
  obtain ⟨hprg, hfrs, hst, hress, hctr, hord⟩ := h
  dsimp only at hprg hfrs hst hress hctr hord
  subst hprg hfrs hst hress
  have hctr' : ∀ name, (t.add op).Uncalled name → counters name = c.counters name :=
    fun name hn => hctr name fun o ho => hn o (Trace.hidden_add ho)
  have hord' : (t.add op).Unasked → ordinal = c.ordinal :=
    fun hn => hord fun o ho => hn o (Trace.hidden_add ho)
  rw [hdoes.eq]
  obtain ⟨hmov, hrd, -, -⟩ := hdoes
  generalize c'.toShadow = sh' at hmov
  cases hmov with
  | get value hp =>
    exact ⟨⟨_, _, _⟩, ⟨.get value hp, hrd, rfl, rfl⟩, rfl, rfl, rfl, rfl, hctr', hord'⟩
  | set hp => exact ⟨⟨_, _, _⟩, ⟨.set hp, hrd, rfl, rfl⟩, rfl, rfl, rfl, rfl, hctr', hord'⟩
  | @skip task argHash body next result hp hcch =>
    have hcall : (⟨c.program, c.frames, counters, ordinal⟩ : Shadow).call task argHash =
        c.call task argHash := by
      simp only [Shadow.call, hctr task.name hclr]
    have hskip := @Moves.skip values c.results ⟨c.program, c.frames, counters, ordinal⟩ task argHash body
      next result hp (hcall ▸ hcch)
    rw [hcall] at hskip
    exact ⟨⟨_, _, _⟩, ⟨hskip, hrd, rfl, rfl⟩, rfl, rfl, rfl, rfl,
      fun name hn => countCall_congr (hctr' name hn), hord'⟩
  | @enter task argHash body next hp hcch =>
    have hcall : (⟨c.program, c.frames, counters, ordinal⟩ : Shadow).call task argHash =
        c.call task argHash := by
      simp only [Shadow.call, hctr task.name hclr]
    have henter := @Moves.enter values c.results ⟨c.program, c.frames, counters, ordinal⟩ task argHash
      body next hp (hcall ▸ hcch)
    rw [hcall] at henter
    exact ⟨⟨_, _, _⟩, ⟨henter, hrd, rfl, rfl⟩, rfl, rfl, rfl, rfl,
      fun name hn => countCall_congr (hctr' name hn), hord'⟩
  | retry hp hf hhlt hmore =>
    exact ⟨⟨_, _, _⟩, ⟨.retry hp hf hhlt hmore, hrd, rfl, rfl⟩, rfl, rfl, rfl, rfl, hctr',
      hord'⟩
  | leave hp hf hends =>
    exact ⟨⟨_, _, _⟩, ⟨.leave hp hf hends, hrd, rfl, rfl⟩, rfl, rfl, rfl, rfl, hctr', hord'⟩
  | rerun hp hf hrer =>
    exact ⟨⟨_, _, _⟩, ⟨.rerun hp hf hrer, hrd, rfl, rfl⟩, rfl, rfl, rfl, rfl, hctr', hord'⟩
  | complete hp hf hrer =>
    exact ⟨⟨_, _, _⟩, ⟨.complete hp hf hrer, hrd, rfl, rfl⟩, rfl, rfl, rfl, rfl, hctr',
      hord'⟩
  | @ask message mismatch next hp =>
    have heq := hord hclr.1
    subst heq
    exact ⟨⟨_, _, _⟩, ⟨.ask hp, hrd, rfl, rfl⟩, rfl, rfl, rfl, rfl, hctr', fun _ => rfl⟩

/-- The second run goes on as the first. -/
theorem Sim.run (h : Sim t₀ c₀ c) (hruns : Runs (Config.Does values) Clear t₀ c₀ ops t c')
    (t' : Trace) : ∃ t'' c'', Runs (Config.Does values) Any t' c ops t'' c'' ∧ Sim t c' c'' := by
  induction hruns with
  | nil => exact ⟨t', c, .nil, h⟩
  | snoc _ hdoes hclr ih =>
    obtain ⟨t₁, c₁, hruns₁, hsim⟩ := ih
    obtain ⟨c₂, hdoes₂, hsim₂⟩ := hsim.step hclr hdoes
    exact ⟨t₁.add _, c₂, .snoc hruns₁ hdoes₂ trivial, hsim₂⟩

/-! ## What a run takes from its log -/

/-- An operation does with its call what a log says: a recorded call is skipped with its result, and a
call that is not recorded, or whose task reruns, is made. -/
def Follows (results : String → Option Value) : Op → Prop
  | .skip call result => results call.key = some result
  | .enter task call => cachedResult results task call = none
  | _ => True

/-- The calls that a run has not made yet are in the log as they were at the start. -/
structure Untouched (c₀ c : Config) : Prop where
  inProgress : ∀ call ∈ c.inProgress, call.ordinal < c.counters call.name
  results : ∀ call : Call, c.counters call.name ≤ call.ordinal →
    c.results call.key = c₀.results call.key

theorem Untouched.ends (h : Untouched c₀ c) (op : Op) {f : Frame} {frames : List Frame}
    (hf : c.frames = f :: frames) (hcall : op.call = some f.call ∨ ∃ value, op = .complete f.call value)
    (call : Call) (hlat : c.counters call.name ≤ call.ordinal) :
    op.record c.results call.key = c₀.results call.key := by
  rw [record_of_ne hcall, h.results call hlat]
  intro hkey
  have hlt := h.inProgress f.call (by simp [Config.inProgress, hf])
  obtain ⟨hname, hord⟩ := key_inj hkey
  rw [hname, hord] at hlat
  omega

theorem Untouched.step (h : Untouched c₀ c) (hdoes : c.Does values op c') :
    Untouched c₀ c' ∧ Follows c₀.results op := by
  have hnext : ∀ task argHash, c.results (c.call task argHash).key = c₀.results (c.call task argHash).key :=
    fun task argHash => h.results (c.call task argHash) (Nat.le_refl _)
  rw [hdoes.eq]
  obtain ⟨hmov, -, -, -⟩ := hdoes
  generalize c'.toShadow = sh' at hmov
  cases hmov with
  | get value hp => exact ⟨⟨h.inProgress, h.results⟩, trivial⟩
  | set hp => exact ⟨⟨h.inProgress, h.results⟩, trivial⟩
  | @skip task argHash body next result hp hcch =>
    refine ⟨⟨fun call hcall => Nat.lt_of_lt_of_le (h.inProgress call hcall) (le_countCall ..),
      fun call hlat => h.results call (Nat.le_trans (le_countCall ..) hlat)⟩, ?_⟩
    unfold cachedResult at hcch
    split at hcch
    · cases hcch
    · exact (hnext task argHash).symm.trans hcch
  | @enter task argHash body next hp hcch =>
    refine ⟨⟨fun call hcall => ?_,
      fun call hlat => h.results call (Nat.le_trans (le_countCall ..) hlat)⟩, ?_⟩
    · rcases List.mem_cons.mp hcall with rfl | hcall
      · simp only [Shadow.call, countCall_self]
        omega
      · exact Nat.lt_of_lt_of_le (h.inProgress call hcall) (le_countCall ..)
    · have hcall := hnext task argHash
      dsimp only [Follows]
      unfold cachedResult at hcch ⊢
      rwa [← hcall]
  | @retry f frames error hp hf hhlt hmore =>
    refine ⟨⟨fun call hcall => h.inProgress call ?_, h.results⟩, trivial⟩
    simpa [Config.inProgress, hf] using hcall
  | @leave f frames error hp hf hends =>
    refine ⟨⟨fun call hcall => h.inProgress call ?_,
      h.ends (.leave f.call (.error error)) hf (.inl rfl)⟩, trivial⟩
    simp only [Config.inProgress, hf, List.map_cons]
    exact List.mem_cons_of_mem _ hcall
  | @rerun f frames value hp hf hrer =>
    refine ⟨⟨fun call hcall => h.inProgress call ?_,
      h.ends (.leave f.call (.ok value)) hf (.inl rfl)⟩, trivial⟩
    simp only [Config.inProgress, hf, List.map_cons]
    exact List.mem_cons_of_mem _ hcall
  | @complete f frames value hp hf hrer =>
    refine ⟨⟨fun call hcall => h.inProgress call ?_,
      h.ends (.complete f.call value) hf (.inr ⟨value, rfl⟩)⟩, trivial⟩
    simp only [Config.inProgress, hf, List.map_cons]
    exact List.mem_cons_of_mem _ hcall
  | @ask message mismatch next hp =>
    refine ⟨⟨h.inProgress, fun call hlat => ?_⟩, trivial⟩
    rw [← h.results call hlat]
    cases answerTo c.results values (interruptKey (c.ordinal + 1)) message mismatch with
    | ok value => exact Function.update_of_ne (key_ne_interruptKey call _) ..
    | error error => rfl

/-- **A run takes from its log what the log held at the start.** -/
theorem Runs.follows (h : Runs (Config.Does values) P {} c₀ ops t c) (hfrs : c₀.frames = []) :
    ∀ op ∈ ops, Follows c₀.results op := by
  have hboth : Untouched c₀ c ∧ ∀ op ∈ ops, Follows c₀.results op := by
    induction h with
    | nil =>
      refine ⟨⟨?_, fun _ _ => rfl⟩, by simp⟩
      simp [Config.inProgress, hfrs]
    | snoc _ hdoes _ ih =>
      obtain ⟨huntouched, hfol⟩ := ih
      obtain ⟨hstep, hlast⟩ := huntouched.step hdoes
      refine ⟨hstep, fun op hop => ?_⟩
      rcases List.mem_append.mp hop with hop | hop
      · exact hfol op hop
      · rw [List.mem_singleton.mp hop]
        exact hlast
  exact hboth.2

end Adk
