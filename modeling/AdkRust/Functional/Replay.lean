import AdkRust.Functional.Config

/-!
# What a resumed workflow executes again

A run resumed from a checkpoint starts the workflow over. Of what the checkpointed run did, the calls
that completed are skipped, with everything inside them; the rest is executed again.

* `Trace`: what of a run is executed again (`Trace.again`), and what is hidden in completed calls.
* `Again`, `Replays`: operations executed again on a log that already holds what they record.
* `Clear`: no call and no interrupt comes after a completed call that hides one like it.
* `Tracks.step`: in a run whose operations are clear, what is executed again leads to where the run is.
-/

namespace Adk

open TaskContext (cachedResult answerTo)

namespace Op

/-- The call whose key in the log an operation executed again depends on. -/
def call : Op → Option Call
  | .skip call _ => some call
  | .enter _ call => some call
  | .leave call _ => some call
  | _ => none

/-- The key of the log that an operation executed again depends on. -/
def key : Op → Option String
  | .ask ordinal _ => some (interruptKey ordinal)
  | op => op.call.map Call.key

/-- The task that an operation calls. -/
def called : Op → Option String
  | .skip call _ => some call.name
  | .enter _ call => some call.name
  | _ => none

/-- Whether the operation is an interrupt. -/
def isAsk : Op → Bool
  | .ask .. => true
  | _ => false

/-- Whether the operation completes a call that is skipped on a resume. -/
def isComplete : Op → Bool
  | .complete .. => true
  | _ => false

end Op

/-! ## Traces -/

/-- A call in progress, and what the call around it had done before. -/
structure Mark where
  task : TaskAttrs
  call : Call
  before : List Op

/-- What a run has done, by what a resume makes of it. -/
structure Trace where
  /-- What the innermost call in progress has done. -/
  segment : List Op := []
  /-- The calls in progress, innermost first. -/
  pending : List Mark := []
  /-- What was done inside calls that have completed. -/
  hidden : List Op := []

namespace Trace

/-- The operations of calls in progress, in order. -/
def flatten : List Mark → List Op → List Op
  | [], segment => segment
  | mark :: pending, segment =>
    flatten pending (mark.before ++ .enter mark.task mark.call :: segment)

/-- What a resumed run executes again. -/
def again (t : Trace) : List Op := flatten t.pending t.segment

/-- The trace after one more operation. -/
def add (t : Trace) : Op → Trace
  | .enter task call =>
    { t with segment := [], pending := { task, call, before := t.segment } :: t.pending }
  | .complete call result =>
    match t.pending with
    | mark :: pending =>
      { segment := mark.before ++ [.skip call result], pending, hidden := t.hidden ++ t.segment }
    | [] => t
  | .leave call result =>
    match t.pending with
    | mark :: pending =>
      { t with
        segment := mark.before ++ .enter mark.task mark.call :: (t.segment ++ [.leave call result])
        pending }
    | [] => t
  | op => { t with segment := t.segment ++ [op] }

/-- What was done outside the calls that are in progress or hidden, and inside those in progress. -/
def closed (t : Trace) : List Op := t.segment ++ t.pending.flatMap (·.before)

/-- Nothing hidden calls a task. -/
def Uncalled (t : Trace) (name : String) : Prop := ∀ op ∈ t.hidden, op.called ≠ some name

/-- Nothing hidden interrupts. -/
def Unasked (t : Trace) : Prop := ∀ op ∈ t.hidden, op.isAsk = false

theorem flatten_append (pending : List Mark) (xs ys : List Op) :
    flatten pending (xs ++ ys) = flatten pending xs ++ ys := by
  induction pending generalizing xs with
  | nil => rfl
  | cons mark pending ih =>
    rw [flatten, flatten, ← ih, List.append_assoc]
    rfl

end Trace

/-- No call and no interrupt comes after a completed call inside which there was one like it; no result
and no answer is `null`. -/
def Clear (t : Trace) : Op → Prop
  | .skip call _ => t.Uncalled call.name
  | .enter _ call => t.Uncalled call.name
  | .complete _ value => value ≠ .null
  | .leave _ result => ∀ value, result = .ok value → value ≠ .null
  | .ask _ answer => t.Unasked ∧ ∀ value, answer = .ok value → value ≠ .null
  | _ => True

/-! ## Operations executed again -/

/-- An operation executed again: the log already holds what it records. -/
structure Again (values : Dict Value) (results : String → Option Value) (sh : Shadow) (op : Op)
    (sh' : Shadow) : Prop where
  moves : Moves values results sh op sh'
  recorded : op.record results = results
  kept : op.isComplete = false

/-- Operations executed again, one after the other. -/
inductive Replays (values : Dict Value) (results : String → Option Value) (sh : Shadow) :
    List Op → Shadow → Prop
  | nil : Replays values results sh [] sh
  | snoc {ops op sh' sh''} : Replays values results sh ops sh' → Again values results sh' op sh'' →
    Replays values results sh (ops ++ [op]) sh''

variable {values : Dict Value} {results results' : String → Option Value} {sh sh' sh'' root base : Shadow}
  {op : Op} {ops more : List Op} {t : Trace} {c c' : Config} {frames : List Frame} {pending : List Mark}

theorem Replays.append (h : Replays values results sh ops sh') (h' : Replays values results sh' more sh'') :
    Replays values results sh (ops ++ more) sh'' := by
  induction h' with
  | nil => rwa [List.append_nil]
  | snoc _ hlast ih =>
    rw [← List.append_assoc]
    exact .snoc ih hlast

theorem Replays.cons (h : Again values results sh op sh') (h' : Replays values results sh' ops sh'') :
    Replays values results sh (op :: ops) sh'' :=
  Replays.append (.snoc .nil h) h'

/-- What an operation records is already held, on any log that agrees at its key. -/
theorem record_congr (hkept : op.isComplete = false) (h : op.record results = results)
    (hkey : ∀ k, op.key = some k → results' k = results k) : op.record results' = results' := by
  have hupdate : ∀ {k : String} {r : Option Value}, op.key = some k →
      Function.update results k r = results → Function.update results' k r = results' := by
    intro k r hk hr
    rw [Function.update_eq_self_iff] at hr ⊢
    rw [hr, hkey k hk]
  cases op with
  | complete call value => cases hkept
  | leave call result =>
    cases result with
    | ok value => exact hupdate rfl h
    | error error =>
      simp only [Op.record] at h ⊢
      by_cases hhlt : error.haltsTask = true
      · rw [if_pos hhlt]
      · rw [if_neg hhlt] at h ⊢
        exact hupdate rfl h
  | ask ordinal answer =>
    cases answer with
    | ok value => exact hupdate rfl h
    | error error => rfl
  | get key value => rfl
  | set key value => rfl
  | skip call result => rfl
  | enter task call => rfl
  | retry call => rfl

/-- An operation executed again depends on the log at its key alone. -/
theorem Again.congr (h : Again values results sh op sh')
    (hkey : ∀ k, op.key = some k → results' k = results k) : Again values results' sh op sh' := by
  refine ⟨?_, record_congr h.kept h.recorded hkey, h.kept⟩
  have hkept := h.kept
  obtain ⟨hmov, -, -⟩ := h
  cases hmov with
  | get value hp => exact .get value hp
  | set hp => exact .set hp
  | skip hp hcch =>
    refine .skip hp ?_
    unfold cachedResult at hcch ⊢
    rwa [hkey _ rfl]
  | enter hp hcch =>
    refine .enter hp ?_
    unfold cachedResult at hcch ⊢
    rwa [hkey _ rfl]
  | retry hp hf hhlt hmore => exact .retry hp hf hhlt hmore
  | leave hp hf hends => exact .leave hp hf hends
  | rerun hp hf hrer => exact .rerun hp hf hrer
  | complete => cases hkept
  | @ask message mismatch next hp =>
    have hans : answerTo results' values (interruptKey (sh.ordinal + 1)) message mismatch =
        answerTo results values (interruptKey (sh.ordinal + 1)) message mismatch := by
      unfold answerTo
      rw [hkey _ rfl]
    have hmov := @Moves.ask values results' sh message mismatch next hp
    rwa [hans] at hmov

theorem Replays.congr (h : Replays values results sh ops sh')
    (hkey : ∀ op ∈ ops, ∀ k, op.key = some k → results' k = results k) :
    Replays values results' sh ops sh' := by
  induction h with
  | nil => exact .nil
  | snoc _ hlast ih =>
    refine .snoc (ih fun op hop => hkey op (by simp [hop])) (hlast.congr (hkey _ (by simp)))

/-! ## Calls in progress -/

/-- Where a run stands once it has entered a call. -/
def Shadow.entered (sh : Shadow) (f : Frame) : Shadow :=
  { sh with
    program := f.body
    frames := { f with attempts := 1 } :: sh.frames
    counters := countCall sh.counters f.task.name }

/-- Executing again what was done before the innermost call in progress, and entering it, leads to
`base`. -/
inductive Segments (values : Dict Value) (results : String → Option Value) (root : Shadow) :
    List Frame → List Mark → Shadow → Prop
  | nil : Segments values results root [] [] root
  | cons {f frames mark pending base sh} :
    Segments values results root frames pending base →
    Replays values results base mark.before sh →
    sh.program = .call f.task f.call.argHash f.body f.next → sh.frames = frames →
    f.call = sh.call f.task f.call.argHash → mark.task = f.task → mark.call = f.call →
    (f.task.rerunOnResume = true ∨ results f.call.key = none) →
    Segments values results root (f :: frames) (mark :: pending) (sh.entered f)

variable {f : Frame} {k : String} {o : Op} {mark : Mark}

theorem Again.enter (hp : sh.program = .call f.task f.call.argHash f.body f.next)
    (hcall : f.call = sh.call f.task f.call.argHash)
    (h : f.task.rerunOnResume = true ∨ results f.call.key = none) :
    Again values results sh (.enter f.task f.call) (sh.entered f) := by
  have hcch : cachedResult results f.task f.call = none := by
    unfold cachedResult
    split
    · rfl
    · rename_i hrer
      exact h.resolve_left hrer
  have hmov := @Moves.enter values results sh f.task f.call.argHash f.body f.next hp (hcall ▸ hcch)
  rw [← hcall] at hmov
  exact ⟨hmov, rfl, rfl⟩

/-- Executing again the calls in progress, and then a segment. -/
theorem Segments.path (h : Segments values results root frames pending base)
    (hsegment : Replays values results base ops sh) :
    Replays values results root (Trace.flatten pending ops) sh := by
  induction h generalizing ops sh with
  | nil => exact hsegment
  | cons _ hbef hp _ hcall htask hmark hres ih =>
    rw [Trace.flatten, htask, hmark]
    exact ih (hbef.append (.cons (.enter hp hcall hres) hsegment))

/-- The calls in progress depend on the log at the keys of what was done before them, and at their
own. -/
theorem Segments.congr (h : Segments values results root frames pending base)
    (hbef : ∀ mark ∈ pending, ∀ op ∈ mark.before, ∀ k, op.key = some k → results' k = results k)
    (hfrs : ∀ f ∈ frames, results' f.call.key = results f.call.key) :
    Segments values results' root frames pending base := by
  induction h with
  | nil => exact .nil
  | @cons f frames mark pending base sh _ hpath hp hf hcall htask hmark hres ih =>
    refine .cons (ih (fun m hm => hbef m (by simp [hm])) fun g hg => hfrs g (by simp [hg]))
      (hpath.congr (hbef mark (by simp))) hp hf hcall htask hmark ?_
    rwa [hfrs f (by simp)]

/-- The innermost call in progress has its mark. -/
theorem Segments.head (h : Segments values results root (f :: frames) pending base) :
    ∃ mark rest before sh, pending = mark :: rest ∧
      Segments values results root frames rest before ∧
      Replays values results before mark.before sh ∧
      sh.program = .call f.task f.call.argHash f.body f.next ∧ sh.frames = frames ∧
      f.call = sh.call f.task f.call.argHash ∧ mark.task = f.task ∧ mark.call = f.call ∧
      (f.task.rerunOnResume = true ∨ results f.call.key = none) ∧ base = sh.entered f := by
  cases h with
  | cons hseg hpath hp hf hcall htask hmark hres =>
    exact ⟨_, _, _, _, rfl, hseg, hpath, hp, hf, hcall, htask, hmark, hres, rfl⟩

/-! ## Keys -/

/-- Two calls are the same: their keys may only differ in the arguments. -/
def Call.Same (a b : Call) : Prop := a.name = b.name ∧ a.ordinal = b.ordinal

def Config.inProgress (c : Config) : List Call := c.frames.map (·.call)

/-- Each call that a run has made has an ordinal of its own. -/
structure Keys (t : Trace) (c : Config) : Prop where
  inProgress : ∀ call ∈ c.inProgress, call.ordinal < c.counters call.name
  distinct : c.inProgress.Pairwise fun a b => ¬ a.Same b
  closed : ∀ op ∈ t.closed, ∀ call, op.call = some call →
    call.ordinal < c.counters call.name ∧ ∀ other ∈ c.inProgress, ¬ call.Same other
  asks : ∀ op ∈ t.closed, ∀ ordinal answer, op = .ask ordinal answer → ordinal ≤ c.ordinal

/-- What is executed again leads to where the run is; the counters agree but for what is hidden. -/
structure Tracks (values : Dict Value) (root : Shadow) (t : Trace) (c : Config) : Prop where
  path : ∃ base counters ordinal, Segments values c.results root c.frames t.pending base ∧
    Replays values c.results base t.segment ⟨c.program, c.frames, counters, ordinal⟩ ∧
    (∀ name, t.Uncalled name → counters name = c.counters name) ∧ (t.Unasked → ordinal = c.ordinal)
  keys : Keys t c

/-- Executing again what a run did leads to where it is. -/
theorem Tracks.again (h : Tracks values root t c) : ∃ counters ordinal,
    Replays values c.results root t.again ⟨c.program, c.frames, counters, ordinal⟩ ∧
      (∀ name, t.Uncalled name → counters name = c.counters name) ∧
      (t.Unasked → ordinal = c.ordinal) := by
  obtain ⟨base, counters, ordinal, hseg, hpath, hctr, hord⟩ := h.path
  exact ⟨counters, ordinal, hseg.path hpath, hctr, hord⟩

theorem Tracks.start (c : Config) (hfrs : c.frames = []) : Tracks values c.toShadow {} c where
  path := by
    refine ⟨c.toShadow, c.counters, c.ordinal, ?_, .nil, fun _ _ => rfl, fun _ => rfl⟩
    rw [hfrs]
    exact .nil
  keys := by
    have hnone : c.inProgress = [] := by simp [Config.inProgress, hfrs]
    refine ⟨?_, ?_, ?_, ?_⟩
    · simp [hnone]
    · simp [hnone]
    · simp [Trace.closed]
    · simp [Trace.closed]

theorem Keys.closed_ne (h : Keys t c) {other : Call} (ho : other ∈ c.inProgress) (hop : op ∈ t.closed)
    (hk : op.key = some k) : k ≠ other.key := by
  rintro rfl
  cases hcall : op.call with
  | some call =>
    have hkey : call.key = other.key := by
      cases op with
      | ask => cases hcall
      | _ => simpa [Op.key, hcall] using hk
    exact (h.closed op hop call hcall).2 other ho (key_inj hkey)
  | none =>
    cases op with
    | ask ordinal answer => exact key_ne_interruptKey other ordinal (Option.some.inj hk).symm
    | _ => simp [Op.key, hcall] at hk

theorem Keys.closed_ne_next (h : Keys t c) (hop : op ∈ t.closed) (hk : op.key = some k) :
    k ≠ interruptKey (c.ordinal + 1) := by
  rintro rfl
  cases op with
  | ask ordinal answer =>
    have heq := interruptKey_inj (Option.some.inj hk)
    have hle := h.asks _ hop ordinal answer rfl
    omega
  | skip call _ => exact key_ne_interruptKey call _ (Option.some.inj hk)
  | enter _ call => exact key_ne_interruptKey call _ (Option.some.inj hk)
  | leave call _ => exact key_ne_interruptKey call _ (Option.some.inj hk)
  | get | set | retry | complete => cases hk

theorem Trace.mem_closed : op ∈ t.closed ↔ op ∈ t.segment ∨ ∃ mark ∈ t.pending, op ∈ mark.before := by
  simp [Trace.closed]

/-- A step that starts no call keeps the ordinals apart. -/
theorem Keys.mono {t' : Trace} (h : Keys t c) (hctr : ∀ name, c.counters name ≤ c'.counters name)
    (hord : c.ordinal ≤ c'.ordinal) (hprog : c'.inProgress.Sublist c.inProgress)
    (hcl : ∀ op ∈ t'.closed, op ∈ t.closed ∨
      (∀ call, op.call = some call → call.ordinal < c'.counters call.name ∧
        ∀ other ∈ c'.inProgress, ¬ call.Same other) ∧
      ∀ ordinal answer, op = .ask ordinal answer → ordinal ≤ c'.ordinal) : Keys t' c' where
  inProgress call hcall :=
    Nat.lt_of_lt_of_le (h.inProgress call (hprog.subset hcall)) (hctr _)
  distinct := h.distinct.sublist hprog
  closed op hop call hcall := by
    rcases hcl op hop with hold | hnew
    · obtain ⟨hlt, hoth⟩ := h.closed op hold call hcall
      exact ⟨Nat.lt_of_lt_of_le hlt (hctr _), fun other ho => hoth other (hprog.subset ho)⟩
    · exact hnew.1 call hcall
  asks op hop ordinal answer heq := by
    rcases hcl op hop with hold | hnew
    · exact Nat.le_trans (h.asks op hold ordinal answer heq) hord
    · exact hnew.2 ordinal answer heq

theorem countCall_self (counters : String → Nat) (name : String) :
    countCall counters name name = counters name + 1 := Function.update_self ..

theorem countCall_congr {counters counters' : String → Nat} {name other : String}
    (h : counters other = counters' other) :
    countCall counters name other = countCall counters' name other := by
  unfold countCall
  rw [Function.update_apply, Function.update_apply]
  split
  · rename_i heq
    rw [← heq, h]
  · exact h

theorem le_countCall (counters : String → Nat) (name other : String) :
    counters other ≤ countCall counters name other := by
  unfold countCall
  rw [Function.update_apply]
  split
  · rename_i h
    rw [h]
    omega
  · exact Nat.le_refl _

theorem Keys.next (h : Keys t c) (task : TaskAttrs) (argHash : Option UInt64) :
    (∀ other ∈ c.inProgress, ¬ (c.call task argHash).Same other) ∧
      ∀ op ∈ t.closed, ∀ call, op.call = some call → ¬ call.Same (c.call task argHash) := by
  constructor
  · rintro other ho ⟨hname, hord⟩
    have hlt := h.inProgress other ho
    rw [← hname, ← hord] at hlt
    exact Nat.lt_irrefl _ hlt
  · rintro op hop call hcall ⟨hname, hord⟩
    have hlt := (h.closed op hop call hcall).1
    rw [hname, hord] at hlt
    exact Nat.lt_irrefl _ hlt

theorem Trace.closed_snoc (h : o ∈ (⟨t.segment ++ [op], t.pending, t.hidden⟩ : Trace).closed) :
    o ∈ t.closed ∨ o = op := by
  rw [Trace.mem_closed] at h ⊢
  rcases h with h | h
  · rcases List.mem_append.mp h with h | h
    · exact .inl (.inl h)
    · exact .inr (List.mem_singleton.mp h)
  · exact .inl (.inr h)

theorem Trace.closed_leave {call : Call} {result : Except GraphError Value}
    (hpend : t.pending = mark :: pending) (h : o ∈ (t.add (.leave call result)).closed) :
    o ∈ t.closed ∨ o = .enter mark.task mark.call ∨ o = .leave call result := by
  simp only [Trace.add, hpend, Trace.mem_closed, List.mem_append, List.mem_cons] at h ⊢
  rcases h with (h | h | h | h) | ⟨m, hm, h⟩
  · exact .inl (.inr ⟨mark, by simp, h⟩)
  · exact .inr (.inl h)
  · exact .inl (.inl h)
  · exact .inr (.inr (by simpa using h))
  · exact .inl (.inr ⟨m, by simp [hm], h⟩)

theorem Trace.closed_complete {call : Call} {value : Value}
    (hpend : t.pending = mark :: pending) (h : o ∈ (t.add (.complete call value)).closed) :
    o ∈ t.closed ∨ o = .skip call value := by
  simp only [Trace.add, hpend, Trace.mem_closed, List.mem_append, List.mem_singleton] at h ⊢
  rcases h with (h | h) | ⟨m, hm, h⟩
  · exact .inl (.inr ⟨mark, by simp, h⟩)
  · exact .inr h
  · exact .inl (.inr ⟨m, by simp [hm], h⟩)

/-- A call that ends leaves the ordinals apart. -/
theorem Keys.pop {t' : Trace} (h : Keys t c) (hf : c.frames = f :: frames)
    (hctr : c'.counters = c.counters) (hord : c'.ordinal = c.ordinal) (hfrs : c'.frames = frames)
    (hcl : ∀ op ∈ t'.closed, op ∈ t.closed ∨ op.call = some f.call) : Keys t' c' := by
  have hprog : c.inProgress = f.call :: c'.inProgress := by
    simp [Config.inProgress, hf, hfrs]
  refine h.mono (by simp [hctr]) (by simp [hord]) ?_ fun op hop => ?_
  · rw [hprog]
    exact List.sublist_cons_self ..
  · rcases hcl op hop with hold | hcall
    · exact .inl hold
    · refine .inr ⟨fun call hc => ?_, ?_⟩
      · rw [hcall] at hc
        cases hc
        have hdistinct := h.distinct
        rw [hprog] at hdistinct
        refine ⟨?_, (List.pairwise_cons.mp hdistinct).1⟩
        rw [hctr]
        exact h.inProgress _ (by rw [hprog]; simp)
      · rintro ordinal answer rfl
        cases hcall

/-- A step keeps the ordinals apart. -/
theorem Keys.step (h : Keys t c) (hmov : Moves values c.results c.toShadow op c'.toShadow)
    (hmks : ∀ f frames, c.frames = f :: frames →
      ∃ mark pending, t.pending = mark :: pending ∧ mark.call = f.call) :
    Keys (t.add op) c' := by
  obtain ⟨sh', state', results'⟩ := c'
  dsimp only at hmov
  cases hmov with
  | get value hp =>
    refine h.mono (fun _ => Nat.le_refl _) (Nat.le_refl _) (List.Sublist.refl _) fun o ho => ?_
    rcases Trace.closed_snoc ho with hold | rfl
    · exact .inl hold
    · exact .inr ⟨by simp [Op.call], by simp⟩
  | set hp =>
    refine h.mono (fun _ => Nat.le_refl _) (Nat.le_refl _) (List.Sublist.refl _) fun o ho => ?_
    rcases Trace.closed_snoc ho with hold | rfl
    · exact .inl hold
    · exact .inr ⟨by simp [Op.call], by simp⟩
  | @skip task argHash _ _ _ hp hcch =>
    refine h.mono (le_countCall _ _) (Nat.le_refl _) (List.Sublist.refl _) fun o ho => ?_
    rcases Trace.closed_snoc ho with hold | rfl
    · exact .inl hold
    · refine .inr ⟨?_, by simp⟩
      rintro call ⟨⟩
      refine ⟨?_, (h.next task argHash).1⟩
      simp only [Shadow.call, countCall_self]
      omega
  | @enter task argHash body next hp hcch =>
    obtain ⟨hoth, hcl⟩ := h.next task argHash
    have hmem : ∀ {o : Op}, o ∈ (t.add (.enter task (c.call task argHash))).closed → o ∈ t.closed := by
      intro o ho
      rw [Trace.mem_closed] at ho ⊢
      rcases ho with ho | ⟨mark, hmark, ho⟩
      · cases ho
      · rcases List.mem_cons.mp hmark with rfl | hmark
        · exact .inl ho
        · exact .inr ⟨mark, hmark, ho⟩
    refine ⟨?_, List.pairwise_cons.mpr ⟨hoth, h.distinct⟩, fun o ho call hcall => ?_,
      fun o ho => h.asks o (hmem ho)⟩
    · intro call hcall
      rcases List.mem_cons.mp hcall with rfl | hcall
      · simp only [Shadow.call, countCall_self]
        omega
      · exact Nat.lt_of_lt_of_le (h.inProgress call hcall) (le_countCall ..)
    · obtain ⟨hlt, hne⟩ := h.closed o (hmem ho) call hcall
      refine ⟨Nat.lt_of_lt_of_le hlt (le_countCall ..), fun other hin => ?_⟩
      rcases List.mem_cons.mp hin with rfl | hin
      · exact hcl o (hmem ho) call hcall
      · exact hne other hin
  | @retry f frames error hp hf hhlt hmore =>
    have hprog : ∀ s r, Config.inProgress
        ⟨{ c.toShadow with program := f.body, frames := { f with attempts := f.attempts + 1 } :: frames }, s, r⟩ =
        c.inProgress := by
      intro s r
      simp [Config.inProgress, hf]
    refine h.mono (fun _ => Nat.le_refl _) (Nat.le_refl _) ?_ fun o ho => ?_
    · rw [hprog]
    · rcases Trace.closed_snoc ho with hold | rfl
      · exact .inl hold
      · exact .inr ⟨by simp [Op.call], by simp⟩
  | @leave f frames error hp hf hends =>
    obtain ⟨mark, pending, hpend, hcall⟩ := hmks f frames hf
    refine h.pop hf rfl rfl rfl fun o ho => ?_
    rcases Trace.closed_leave hpend ho with hold | rfl | rfl
    · exact .inl hold
    · exact .inr (congrArg some hcall)
    · exact .inr rfl
  | @rerun f frames value hp hf hrer =>
    obtain ⟨mark, pending, hpend, hcall⟩ := hmks f frames hf
    refine h.pop hf rfl rfl rfl fun o ho => ?_
    rcases Trace.closed_leave hpend ho with hold | rfl | rfl
    · exact .inl hold
    · exact .inr (congrArg some hcall)
    · exact .inr rfl
  | @complete f frames value hp hf hrer =>
    obtain ⟨mark, pending, hpend, hcall⟩ := hmks f frames hf
    refine h.pop hf rfl rfl rfl fun o ho => ?_
    rcases Trace.closed_complete hpend ho with hold | rfl
    · exact .inl hold
    · exact .inr rfl
  | @ask message mismatch next hp =>
    refine h.mono (fun _ => Nat.le_refl _) (Nat.le_succ _) (List.Sublist.refl _) fun o ho => ?_
    rcases Trace.closed_snoc ho with hold | rfl
    · exact .inl hold
    · refine .inr ⟨by simp [Op.call], ?_⟩
      rintro ordinal answer ⟨⟩
      exact Nat.le_refl _

/-! ## One step -/

theorem Replays.counters (h : Replays values results sh ops sh') {name : String}
    (hops : ∀ op ∈ ops, op.called ≠ some name) : sh'.counters name = sh.counters name := by
  induction h with
  | nil => rfl
  | @snoc ops op sh₁ sh₂ _ hlast ih =>
    rw [← ih fun op hop => hops op (by simp [hop])]
    have hne := hops op (by simp)
    have hkept := hlast.kept
    obtain ⟨hmov, -, -⟩ := hlast
    cases hmov with
    | skip =>
      have hne : ¬ name = _ := fun h => hne (congrArg some h.symm)
      exact Function.update_of_ne hne ..
    | enter =>
      have hne : ¬ name = _ := fun h => hne (congrArg some h.symm)
      exact Function.update_of_ne hne ..
    | _ => rfl

/-- Operations that do not interrupt leave the ordinal. -/
theorem Replays.ordinal (h : Replays values results sh ops sh') (hops : ∀ op ∈ ops, op.isAsk = false) :
    sh'.ordinal = sh.ordinal := by
  induction h with
  | nil => rfl
  | @snoc ops op sh₁ sh₂ _ hlast ih =>
    rw [← ih fun op hop => hops op (by simp [hop])]
    have hno := hops op (by simp)
    obtain ⟨hmov, -, -⟩ := hlast
    cases hmov with
    | ask => cases hno
    | _ => rfl

theorem record_record (op : Op) : op.record (op.record results) = op.record results := by
  cases op with
  | complete call value => exact Function.update_idem ..
  | leave call result =>
    cases result with
    | ok value => exact Function.update_idem ..
    | error error =>
      simp only [Op.record]
      split
      · rfl
      · exact Function.update_idem ..
  | ask ordinal answer =>
    cases answer with
    | ok value => exact Function.update_idem ..
    | error error => rfl
  | _ => rfl

/-- What ends a call changes the log at the key of the call alone. -/
theorem record_of_ne {call : Call} (hop : op.call = some call ∨ ∃ value, op = .complete call value)
    (hk : k ≠ call.key) : op.record results k = results k := by
  rcases hop with hop | ⟨value, rfl⟩
  · cases op with
    | leave call' result =>
      cases hop
      cases result with
      | ok value => exact Function.update_of_ne hk ..
      | error error =>
        simp only [Op.record]
        split
        · rfl
        · exact Function.update_of_ne hk ..
    | ask => cases hop
    | complete => cases hop
    | _ => rfl
  · exact Function.update_of_ne hk ..

theorem answerTo_record (results : String → Option Value) (values : Dict Value) (ordinal : Nat)
    (message : String) (mismatch : Value → Option String) :
    answerTo ((Op.ask ordinal (answerTo results values (interruptKey ordinal) message mismatch)).record
        results) values (interruptKey ordinal) message mismatch =
      answerTo results values (interruptKey ordinal) message mismatch := by
  cases hans : answerTo results values (interruptKey ordinal) message mismatch with
  | error error => exact hans
  | ok value =>
    have hmat : mismatch value = none := by
      unfold answerTo at hans
      split at hans
      · cases hans
      · split at hans
        · rename_i hmat
          cases hans
          exact hmat
        · cases hans
    unfold answerTo
    rw [Op.record, Function.update_self, Option.some_or]
    dsimp only
    rw [hmat]

/-- The log changes at the key of the innermost call: what is executed again around it stays. -/
theorem Keys.around (h : Keys t c) (hf : c.frames = f :: frames) (hpend : t.pending = mark :: pending)
    (hseg : Segments values c.results root frames pending base)
    (hress : ∀ k, k ≠ f.call.key → results' k = c.results k) :
    Segments values results' root frames pending base := by
  have hprog : c.inProgress = f.call :: frames.map (·.call) := by simp [Config.inProgress, hf]
  refine hseg.congr (fun m hm op hop k hk => hress k ?_) fun g hg => hress _ fun heq => ?_
  · exact h.closed_ne (by rw [hprog]; simp)
      (Trace.mem_closed.mpr (.inr ⟨m, by rw [hpend]; simp [hm], hop⟩)) hk
  · have hdistinct := h.distinct
    rw [hprog] at hdistinct
    exact (List.pairwise_cons.mp hdistinct).1 g.call (List.mem_map_of_mem hg) (key_inj heq.symm)

/-- A call that ends and that a resume runs again: what was done inside it is executed again. -/
theorem Tracks.leave {result : Except GraphError Value} (h : Tracks values root t c) (hf : c.frames = f :: frames)
    (hmov : ∀ results counters ordinal, Moves values results
      ⟨c.program, f :: frames, counters, ordinal⟩ (.leave f.call result)
      ⟨f.next result, frames, counters, ordinal⟩)
    (hres : f.task.rerunOnResume = true ∨ c.results f.call.key = none →
      f.task.rerunOnResume = true ∨ (Op.leave f.call result).record c.results f.call.key = none) :
    ∃ base counters ordinal,
      Segments values ((Op.leave f.call result).record c.results) root frames
        (t.add (.leave f.call result)).pending base ∧
      Replays values ((Op.leave f.call result).record c.results) base
        (t.add (.leave f.call result)).segment ⟨f.next result, frames, counters, ordinal⟩ ∧
      (∀ name, t.Uncalled name → counters name = c.counters name) ∧ (t.Unasked → ordinal = c.ordinal) ∧
      (t.add (.leave f.call result)).hidden = t.hidden := by
  obtain ⟨base, counters, ordinal, hseg, hpath, hctr, hord⟩ := h.path
  rw [hf] at hseg hpath
  obtain ⟨mark, rest, before, sh, hpend, hrest, hbef, hshp, hshf, hcall, htask, hmark, hold,
    rfl⟩ := hseg.head
  have hne : ∀ k, k ≠ f.call.key →
      (Op.leave f.call result).record c.results k = c.results k := fun k hk =>
    record_of_ne (.inl rfl) hk
  have hprog : f.call ∈ c.inProgress := by simp [Config.inProgress, hf]
  have hcl : ∀ op ∈ t.closed, ∀ k, op.key = some k →
      (Op.leave f.call result).record c.results k = c.results k := fun op hop k hk =>
    hne k (h.keys.closed_ne hprog hop hk)
  have hbef' := hbef.congr fun op hop k hk =>
    hcl op (Trace.mem_closed.mpr (.inr ⟨mark, by rw [hpend]; simp, hop⟩)) k hk
  have hpath' := hpath.congr fun op hop k hk =>
    hcl op (Trace.mem_closed.mpr (.inl hop)) k hk
  have henter : Again values ((Op.leave f.call result).record c.results) sh (.enter mark.task mark.call)
      (sh.entered f) := by
    rw [htask, hmark]
    exact .enter hshp hcall (hres hold)
  simp only [Trace.add, hpend]
  refine ⟨before, counters, ordinal, h.keys.around hf hpend hrest hne, ?_, hctr, hord,
    trivial⟩
  exact hbef'.append (.cons henter (.snoc hpath' ⟨hmov _ _ _, record_record _, rfl⟩))

/-- **What is executed again leads to where the run is**, after each operation that is clear. -/
theorem Tracks.step (h : Tracks values root t c) (hclr : Clear t op) (hdoes : c.Does values op c') :
    Tracks values root (t.add op) c' := by
  obtain ⟨base, counters, ordinal, hseg, hpath, hctr, hord⟩ := h.path
  have hmks : ∀ f frames, c.frames = f :: frames →
      ∃ mark pending, t.pending = mark :: pending ∧ mark.call = f.call := by
    intro f frames hf
    rw [hf] at hseg
    obtain ⟨mark, rest, -, -, hpend, -, -, -, -, -, -, hcall, -⟩ := hseg.head
    exact ⟨mark, rest, hpend, hcall⟩
  refine ⟨?_, h.keys.step hdoes.moves hmks⟩
  have hkeys := h.keys
  rw [hdoes.eq]
  obtain ⟨hmov, hrd, -, -⟩ := hdoes
  generalize c'.toShadow = sh' at hmov
  dsimp only
  cases hmov with
  | get value hp =>
    exact ⟨base, counters, ordinal, hseg, .snoc hpath ⟨.get value hp, rfl, rfl⟩, hctr, hord⟩
  | set hp =>
    exact ⟨base, counters, ordinal, hseg, .snoc hpath ⟨.set hp, rfl, rfl⟩, hctr, hord⟩
  | @skip task argHash body next result hp hcch =>
    have hcall : (⟨c.program, c.frames, counters, ordinal⟩ : Shadow).call task argHash =
        c.call task argHash := by
      simp only [Shadow.call, hctr task.name hclr]
    have hskip := @Moves.skip values c.results ⟨c.program, c.frames, counters, ordinal⟩ task argHash body
      next result hp (hcall ▸ hcch)
    rw [hcall] at hskip
    exact ⟨base, _, ordinal, hseg, .snoc hpath ⟨hskip, rfl, rfl⟩,
      fun name huncalled => countCall_congr (hctr name huncalled), hord⟩
  | @enter task argHash body next hp hcch =>
    have hcall : c.call task argHash =
        (⟨c.program, c.frames, counters, ordinal⟩ : Shadow).call task argHash := by
      simp only [Shadow.call, hctr task.name hclr]
    have hres : task.rerunOnResume = true ∨ c.results (c.call task argHash).key = none := by
      unfold cachedResult at hcch
      split at hcch
      · rename_i hrer
        exact .inl hrer
      · exact .inr hcch
    exact ⟨_, _, ordinal, .cons hseg hpath hp rfl hcall rfl rfl hres, .nil,
      fun name huncalled => countCall_congr (hctr name huncalled), hord⟩
  | @retry f frames error hp hf hhlt hmore =>
    have hretry := @Moves.retry values c.results ⟨c.program, c.frames, counters, ordinal⟩ f frames error
      hp hf hhlt hmore
    rw [hf] at hseg
    obtain ⟨mark, rest, before, sh, hpend, hrest, hbef, hshp, hshf, hcall, htask, hmark, hres,
      rfl⟩ := hseg.head
    refine ⟨_, counters, ordinal, ?_, .snoc hpath ⟨hretry, rfl, rfl⟩, hctr, hord⟩
    simp only [Trace.add, hpend]
    exact @Segments.cons values c.results root { f with attempts := f.attempts + 1 } frames mark rest
      before sh hrest hbef hshp hshf hcall htask hmark hres
  | @leave f frames error hp hf hends =>
    obtain ⟨base, counters, ordinal, hseg, hpath, hctr, hord, hhidden⟩ :=
      @Tracks.leave values root t c frames f (.error error) h hf (fun _ _ _ => .leave hp rfl hends) (by
        intro hold
        simp only [Op.record]
        split
        · exact hold
        · exact .inr (Function.update_self ..))
    refine ⟨base, counters, ordinal, hseg, hpath, ?_, ?_⟩
    · unfold Trace.Uncalled
      rw [hhidden]
      exact hctr
    · unfold Trace.Unasked
      rw [hhidden]
      exact hord
  | @rerun f frames value hp hf hrer =>
    obtain ⟨base, counters, ordinal, hseg, hpath, hctr, hord, hhidden⟩ :=
      @Tracks.leave values root t c frames f (.ok value) h hf (fun _ _ _ => .rerun hp rfl hrer)
        fun _ => .inl hrer
    refine ⟨base, counters, ordinal, hseg, hpath, ?_, ?_⟩
    · unfold Trace.Uncalled
      rw [hhidden]
      exact hctr
    · unfold Trace.Unasked
      rw [hhidden]
      exact hord
  | @complete f frames value hp hf hrer =>
    rw [hf] at hseg
    obtain ⟨mark, rest, before, sh, hpend, hrest, hbef, hshp, hshf, hcall, htask, hmark, hres,
      rfl⟩ := hseg.head
    have hne : ∀ k, k ≠ f.call.key →
        (Op.complete f.call value).record c.results k = c.results k := fun k hk =>
      record_of_ne (.inr ⟨value, rfl⟩) hk
    have hprog : f.call ∈ c.inProgress := by simp [Config.inProgress, hf]
    have hbef' : Replays values ((Op.complete f.call value).record c.results) before mark.before sh :=
      hbef.congr fun op hop k hk => hne k (hkeys.closed_ne hprog
        (Trace.mem_closed.mpr (.inr ⟨mark, by rw [hpend]; simp, hop⟩)) hk)
    have hcch : cachedResult ((Op.complete f.call value).record c.results) f.task
        (sh.call f.task f.call.argHash) = some value := by
      rw [← hcall, cachedResult, hrer]
      exact Function.update_self ..
    have hskip := @Moves.skip values _ sh f.task f.call.argHash f.body f.next value hshp hcch
    rw [← hcall] at hskip
    simp only [Trace.add, hpend]
    refine ⟨before, countCall sh.counters f.task.name, sh.ordinal,
      hkeys.around hf hpend hrest hne, ?_, fun name huncalled => ?_, fun hunasked => ?_⟩
    · rw [hshf] at hskip
      exact .snoc hbef' ⟨hskip, rfl, rfl⟩
    · rw [← hctr name fun op hop => huncalled op (List.mem_append_left _ hop)]
      exact (hpath.counters fun op hop => huncalled op (List.mem_append_right _ hop)).symm
    · rw [← hord fun op hop => hunasked op (List.mem_append_left _ hop)]
      exact (hpath.ordinal fun op hop => hunasked op (List.mem_append_right _ hop)).symm
  | @ask message mismatch next hp =>
    obtain ⟨hunasked, -⟩ := hclr
    have heq := hord hunasked
    subst heq
    have hne : ∀ k, k ≠ interruptKey (c.ordinal + 1) →
        (Op.ask (c.ordinal + 1) (answerTo c.results values (interruptKey (c.ordinal + 1)) message
          mismatch)).record c.results k = c.results k := by
      intro k hk
      cases answerTo c.results values (interruptKey (c.ordinal + 1)) message mismatch with
      | ok value => exact Function.update_of_ne hk ..
      | error error => rfl
    have hcl : ∀ op ∈ t.closed, ∀ k, op.key = some k → _ := fun op hop k hk =>
      hne k (hkeys.closed_ne_next hop hk)
    have hask := @Moves.ask values ((Op.ask (c.ordinal + 1) (answerTo c.results values
      (interruptKey (c.ordinal + 1)) message mismatch)).record c.results)
      ⟨c.program, c.frames, counters, c.ordinal⟩ message mismatch next hp
    dsimp only at hask
    rw [answerTo_record] at hask
    refine ⟨base, counters, c.ordinal + 1, hseg.congr (fun m hm op hop => ?_) fun f hf => ?_,
      .snoc (hpath.congr fun op hop => ?_) ⟨hask, record_record _, rfl⟩, hctr, fun _ => rfl⟩
    · exact hcl op (Trace.mem_closed.mpr (.inr ⟨m, hm, hop⟩))
    · exact hne _ (key_ne_interruptKey f.call _)
    · exact hcl op (Trace.mem_closed.mpr (.inl hop))

end Adk
