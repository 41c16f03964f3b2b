import AdkRust.Functional.Resume

/-!
# Where the interrupts of a run stand

An interrupt stands where the operations that a resume executes again lead.

* `Runs.compare`: two runs from one start do the same, as far as both go.
* `Replays.det`: where operations lead depends on where the run stood alone.
* `Runs.prefix_again`, `Runs.asked`: an interrupt that no completed call hides stays where it was.
* `Runs.unanswered`: a run leaves the answers of the interrupts that it has not come to.
-/

namespace Adk

open TaskContext (cachedResult answerTo)

variable {env : Environment} {values values' : Dict Value} {m m' start : Machine} {P Q : Trace → Op → Prop}
  {t t₀ t' : Trace} {ops more : List Op} {op : Op} {c c' c₀ : Config} {sh sh' sh'' : Shadow}
  {results results' : String → Option Value}

/-! ## Comparing runs -/

section Compare

variable {σ : Type} {step : σ → Op → σ → Prop} {s s' s₀ : σ}

theorem Runs.eq_of_nil (h : Runs step P t₀ s₀ [] t s) : t = t₀ ∧ s = s₀ := by
  generalize hall : [] = all at h
  cases h with
  | nil => exact ⟨rfl, rfl⟩
  | snoc => simp at hall

theorem Runs.uncons (h : Runs step P t₀ s₀ (op :: ops) t s) :
    ∃ s₁, step s₀ op s₁ ∧ P t₀ op ∧ Runs step P (t₀.add op) s₁ ops t s := by
  generalize hall : op :: ops = all at h
  induction h generalizing ops with
  | nil => cases hall
  | @snoc init t₁ s₁ last s₂ hruns hstep hp ih =>
    cases init with
    | nil =>
      obtain ⟨rfl, rfl⟩ := hruns.eq_of_nil
      cases hall
      exact ⟨s₂, hstep, hp, .nil⟩
    | cons first init =>
      cases hall
      obtain ⟨s₃, hfst, hpfirst, hrest⟩ := ih rfl
      exact ⟨s₃, hfst, hpfirst, .snoc hrest hstep hp⟩

theorem Runs.split (h : Runs step P t₀ s₀ (ops ++ more) t s) :
    ∃ t₁ s₁, Runs step P t₀ s₀ ops t₁ s₁ ∧ Runs step P t₁ s₁ more t s := by
  induction ops generalizing t₀ s₀ with
  | nil => exact ⟨t₀, s₀, .nil, h⟩
  | cons op ops ih =>
    obtain ⟨s₁, hstep, hp, hrest⟩ := h.uncons
    obtain ⟨t₂, s₂, hops, hmore⟩ := ih hrest
    exact ⟨t₂, s₂, Runs.append (.snoc .nil hstep hp) hops, hmore⟩

end Compare

/-- **Two runs from one start do the same**, as far as both go. -/
theorem Runs.compare (h : Runs (Machine.Steps env) P t₀ start ops t m)
    (h' : Runs (Machine.Steps env) Q t₀ start more t' m') :
    (∃ rest, more = ops ++ rest ∧ Runs (Machine.Steps env) Q t m rest t' m') ∨
      ∃ op rest, ops = more ++ op :: rest ∧ Runs (Machine.Steps env) P t' m' (op :: rest) t m := by
  induction h with
  | nil => exact .inl ⟨more, rfl, h'⟩
  | @snoc ops t m op m₁ hruns hstep hp ih =>
    rcases ih with ⟨rest, rfl, hrest⟩ | ⟨first, rest, rfl, hrest⟩
    · cases rest with
      | nil =>
        obtain ⟨rfl, rfl⟩ := hrest.eq_of_nil
        exact .inr ⟨op, [], by simp, .snoc .nil hstep hp⟩
      | cons first rest =>
        obtain ⟨m₂, hfst, -, hrest⟩ := hrest.uncons
        have heq : some (op, m₁) = some (first, m₂) := hstep.symm.trans hfst
        cases heq
        exact .inl ⟨rest, by simp, hrest⟩
    · exact .inr ⟨first, rest ++ [op], by simp, .snoc hrest hstep hp⟩

/-! ## What is executed again -/

theorem Replays.kept (h : Replays values results sh ops sh') : ∀ op ∈ ops, op.isComplete = false := by
  induction h with
  | nil => simp
  | snoc _ hlast ih =>
    intro op hop
    rcases List.mem_append.mp hop with hop | hop
    · exact ih op hop
    · rw [List.mem_singleton.mp hop]
      exact hlast.kept

/-- Where an operation leads depends on where the run stood alone. -/
theorem Moves.det (h : Moves values results sh op sh') (h' : Moves values' results' sh op sh'') :
    sh' = sh'' := by
  generalize hop : op = op' at h'
  cases h with
  | get value hp =>
    cases h' with
    | get value' hp' => cases hop; cases hp.symm.trans hp'; rfl
    | _ => cases hop
  | set hp =>
    cases h' with
    | set hp' => cases hop; cases hp.symm.trans hp'; rfl
    | _ => cases hop
  | skip hp hcch =>
    cases h' with
    | skip hp' hcch' => cases hp.symm.trans hp'; cases hop; rfl
    | _ => cases hop
  | enter hp hcch =>
    cases h' with
    | enter hp' hcch' => cases hp.symm.trans hp'; rfl
    | _ => cases hop
  | retry hp hf hhlt hmore =>
    cases h' with
    | retry hp' hf' hhlt' hmore' => cases hf.symm.trans hf'; rfl
    | _ => cases hop
  | leave hp hf hends =>
    cases h' with
    | leave hp' hf' hends' => cases hf.symm.trans hf'; cases hp.symm.trans hp'; rfl
    | _ => simp at hop
  | rerun hp hf hrer =>
    cases h' with
    | rerun hp' hf' hrer' => cases hf.symm.trans hf'; cases hp.symm.trans hp'; rfl
    | _ => simp at hop
  | complete hp hf hrer =>
    cases h' with
    | complete hp' hf' hrer' => cases hf.symm.trans hf'; cases hp.symm.trans hp'; rfl
    | _ => cases hop
  | ask hp =>
    cases h' with
    | ask hp' =>
      cases hp.symm.trans hp'
      injection hop with hn hans
      rw [hans]
    | _ => cases hop

theorem Replays.det (h : Replays values results sh ops sh') (h' : Replays values' results' sh ops sh'') :
    sh' = sh'' := by
  induction h generalizing sh'' with
  | nil => 
    generalize hall : [] = all at h'
    cases h' with
    | nil => rfl
    | snoc => simp at hall
  | snoc _ hlast ih =>
    generalize hall : _ ++ [_] = all at h'
    cases h' with
    | nil => simp at hall
    | snoc hreplays hlast' =>
      obtain ⟨rfl, heq⟩ := List.append_inj' hall rfl
      cases heq
      have hsame := ih hreplays
      subst hsame
      exact hlast.moves.det hlast'.moves

theorem Replays.split (h : Replays values results sh (ops ++ more) sh') :
    ∃ mid, Replays values results sh ops mid ∧ Replays values results mid more sh' := by
  generalize hall : ops ++ more = all at h
  induction h generalizing more with
  | nil =>
    obtain ⟨rfl, rfl⟩ := List.append_eq_nil_iff.mp hall
    exact ⟨sh, .nil, .nil⟩
  | @snoc all last sh₁ sh₂ hreplays hlast ih =>
    rcases List.eq_nil_or_concat' more with rfl | ⟨more, final, rfl⟩
    · rw [List.append_nil] at hall
      subst hall
      exact ⟨sh₂, .snoc hreplays hlast, .nil⟩
    · rw [← List.append_assoc] at hall
      obtain ⟨rfl, heq⟩ := List.append_inj' hall rfl
      cases heq
      obtain ⟨mid, hops, hmore⟩ := ih rfl
      exact ⟨mid, hops, .snoc hmore hlast⟩

/-- The operation that follows others. -/
theorem Replays.next (h : Replays values results sh (ops ++ op :: more) sh') :
    ∃ mid mid', Replays values results sh ops mid ∧ Again values results mid op mid' := by
  rw [List.append_cons] at h
  obtain ⟨mid', hboth, -⟩ := h.split
  generalize hall : ops ++ [op] = all at hboth
  cases hboth with
  | nil => simp at hall
  | snoc hreplays hlast =>
    obtain ⟨rfl, heq⟩ := List.append_inj' hall rfl
    cases heq
    exact ⟨_, mid', hreplays, hlast⟩

/-- The interrupts that are executed again are numbered from the start. -/
theorem Replays.asks (h : Replays values results sh ops sh') :
    sh.ordinal ≤ sh'.ordinal ∧ ∀ n answer, .ask n answer ∈ ops → n ≤ sh'.ordinal := by
  induction h with
  | nil => simp
  | @snoc ops op sh₁ sh₂ _ hlast ih =>
    obtain ⟨hle, hasks⟩ := ih
    have hmov := hlast.moves
    have hboth : sh₁.ordinal ≤ sh₂.ordinal ∧ ∀ n answer, op = .ask n answer → n ≤ sh₂.ordinal := by
      cases hmov with
      | ask hp =>
        refine ⟨Nat.le_succ _, ?_⟩
        rintro n answer ⟨⟩
        exact Nat.le_refl _
      | _ => exact ⟨Nat.le_refl _, by simp⟩
    refine ⟨Nat.le_trans hle hboth.1, fun n answer hmem => ?_⟩
    rcases List.mem_append.mp hmem with hmem | hmem
    · exact Nat.le_trans (hasks n answer hmem) hboth.1
    · exact hboth.2 n answer (List.mem_singleton.mp hmem).symm

/-- An interrupt is answered from what is recorded, or else from what is supplied. -/
theorem answer_of_answerTo {key message : String} {mismatch : Value → Option String} {value : Value}
    (h : answerTo results values key message mismatch = .ok value) :
    (results key).or values[key]? = some value ∧ mismatch value = none := by
  unfold answerTo at h
  split at h
  · cases h
  · split at h
    · rename_i hmat
      cases h
      exact ⟨by assumption, hmat⟩
    · cases h

theorem none_of_answerTo {key message key' message' : String} {mismatch : Value → Option String}
    (h : answerTo results values key message mismatch = .error (.suspended key' message')) :
    (results key).or values[key]? = none := by
  unfold answerTo at h
  split at h
  · assumption
  · split at h
    · cases h
    · simp [TaskContext.typeMismatch] at h

/-- An interrupt has an answer that it accepts, or none. -/
def Accepted : Op → Prop
  | .ask _ (.error error) => ∃ key message, error = .suspended key message
  | _ => True

/-- An operation is executed again in the same way with other values, as long as these answer none of the
interrupts that had no answer. -/
theorem Again.resupply (h : Again values results sh op sh') (hacc : Accepted op)
    (hvals : ∀ n answer, op = .ask n answer → values'[interruptKey n]? = none) :
    Again values' results sh op sh' := by
  obtain ⟨hmov, hrecd, hkept⟩ := h
  refine ⟨?_, hrecd, hkept⟩
  cases hmov with
  | get value hp => exact .get value hp
  | set hp => exact .set hp
  | skip hp hcch => exact .skip hp hcch
  | enter hp hcch => exact .enter hp hcch
  | retry hp hf hhlt hmore => exact .retry hp hf hhlt hmore
  | leave hp hf hends => exact .leave hp hf hends
  | rerun hp hf hrer => exact .rerun hp hf hrer
  | complete hp hf hrer => exact .complete hp hf hrer
  | @ask message mismatch next hp =>
    have hsame : answerTo results values' (interruptKey (sh.ordinal + 1)) message mismatch =
        answerTo results values (interruptKey (sh.ordinal + 1)) message mismatch := by
      have hnone := hvals _ _ rfl
      cases hans : answerTo results values (interruptKey (sh.ordinal + 1)) message mismatch with
      | ok value =>
        rw [hans] at hrecd
        have hres : results (interruptKey (sh.ordinal + 1)) = some value :=
          (Function.update_eq_self_iff.mp hrecd).symm
        obtain ⟨-, hmat⟩ := answer_of_answerTo hans
        unfold answerTo
        rw [hres, Option.some_or]
        dsimp only
        rw [hmat]
      | error error =>
        rw [hans] at hacc
        obtain ⟨key, message', rfl⟩ := hacc
        rw [← hans]
        have hno := none_of_answerTo hans
        unfold answerTo
        rw [hno, hnone, (Option.or_eq_none_iff.mp hno).1]
        rfl
    have hask := @Moves.ask values' results sh message mismatch next hp
    rwa [hsame] at hask

theorem Replays.resupply (h : Replays values results sh ops sh') (hacc : ∀ op ∈ ops, Accepted op)
    (hvals : ∀ n answer, .ask n answer ∈ ops → values'[interruptKey n]? = none) :
    Replays values' results sh ops sh' := by
  induction h with
  | nil => exact .nil
  | snoc _ hlast ih =>
    refine .snoc (ih (fun op hop => hacc op (by simp [hop]))
      fun n answer hop => hvals n answer (by simp [hop])) ?_
    refine hlast.resupply (hacc _ (by simp)) ?_
    rintro n answer rfl
    exact hvals n answer (by simp)

/-! ## Where an interrupt stood -/

theorem Trace.again_complete {call : Call} {result : Value} {mark : Mark} {pending : List Mark}
    (hpend : t.pending = mark :: pending) :
    t.again = flatten pending mark.before ++ .enter mark.task mark.call :: t.segment ∧
      (t.add (.complete call result)).again = flatten pending mark.before ++ [.skip call result] := by
  unfold again
  simp only [add, hpend, flatten, flatten_append, and_self]

/-- What is executed again after one more operation, up to an interrupt. -/
theorem Trace.prefix_of_add {site : List Op} {n : Nat} {answer : Except GraphError Value}
    (h : site ++ [.ask n answer] <+: (t.add op).again) :
    site ++ [.ask n answer] <+: t.again ∨ op = .ask n answer ∧ t.again = site := by
  have hkept : (t.add op).again = t.again ++ [op] →
      site ++ [.ask n answer] <+: t.again ∨ op = .ask n answer ∧ t.again = site := by
    intro heq
    rw [heq, List.prefix_concat_iff] at h
    rcases h with h | h
    · obtain ⟨rfl, hop⟩ := List.append_inj' h rfl
      cases hop
      exact .inr ⟨rfl, rfl⟩
    · exact .inl h
  cases op with
  | complete call result =>
    cases hpend : t.pending with
    | nil =>
      simp only [add, hpend] at h
      exact .inl h
    | cons mark pending =>
      obtain ⟨hag, hadd⟩ := @again_complete t call result mark pending hpend
      rw [hadd, List.prefix_concat_iff] at h
      rcases h with h | h
      · obtain ⟨-, hop⟩ := List.append_inj' h rfl
        cases hop
      · rw [hag]
        exact .inl (h.trans (List.prefix_append ..))
  | leave call result =>
    cases hpend : t.pending with
    | nil =>
      simp only [add, hpend] at h
      exact .inl h
    | cons mark pending =>
      refine hkept (again_add rfl ?_)
      simp [hpend]
  | _ => exact hkept (again_add rfl (by simp))

/-- An interrupt that is not hidden in a completed call stays where it is. -/
theorem Trace.prefix_add {site : List Op} {n : Nat} {answer : Except GraphError Value}
    (h : site ++ [.ask n answer] <+: t.again) (hunasked : (t.add op).Unasked) :
    site ++ [.ask n answer] <+: (t.add op).again := by
  cases op with
  | complete call result =>
    cases hpend : t.pending with
    | nil =>
      simp only [add, hpend]
      exact h
    | cons mark pending =>
      obtain ⟨hag, hadd⟩ := @again_complete t call result mark pending hpend
      rw [hag] at h
      rw [hadd]
      rcases List.prefix_or_prefix_of_prefix h (List.prefix_append ..) with hbef | ⟨inside, hins⟩
      · exact hbef.trans (List.prefix_append ..)
      -- The interrupt would be inside the call, and the call hides it.
      · rw [← hins, List.prefix_append_right_inj] at h
        have hmem : .ask n answer ∈ inside ∨ inside = [] := by
          rcases List.eq_nil_or_concat' inside with rfl | ⟨init, last, rfl⟩
          · exact .inr rfl
          · rw [← List.append_assoc] at hins
            obtain ⟨-, hlast⟩ := List.append_inj' hins rfl
            cases hlast
            exact .inl (by simp)
        rcases hmem with hmem | rfl
        · rcases List.mem_cons.mp (h.subset hmem) with heq | hsegment
          · cases heq
          · have hhidden : .ask n answer ∈ (t.add (.complete call result)).hidden := by
              simp only [add, hpend]
              exact List.mem_append_right _ hsegment
            cases hunasked _ hhidden
        · rw [List.append_nil] at hins
          rw [hins]
          exact List.prefix_append ..
  | leave call result =>
    cases hpend : t.pending with
    | nil =>
      simp only [add, hpend]
      exact h
    | cons mark pending =>
      rw [again_add rfl (by simp [hpend])]
      exact h.trans (List.prefix_append ..)
  | _ =>
    rw [again_add rfl (by simp)]
    exact h.trans (List.prefix_append ..)

section Sites

variable {σ : Type} {step : σ → Op → σ → Prop} {s s' s₀ : σ} {site : List Op} {n : Nat}
  {answer : Except GraphError Value}

theorem Runs.prefix_again (h : Runs step P t₀ s₀ ops t s) (hunasked : t.Unasked)
    (hsite : site ++ [.ask n answer] <+: t₀.again) : site ++ [.ask n answer] <+: t.again := by
  induction h with
  | nil => exact hsite
  | snoc _ _ _ ih =>
    have hbef : Trace.Unasked _ := fun op hop => hunasked op (Trace.hidden_add hop)
    exact Trace.prefix_add (ih hbef) hunasked

/-- An interrupt that is executed again was executed, and stood there. -/
theorem Runs.asked (h : Runs step P {} s₀ ops t s) (hsite : site ++ [.ask n answer] <+: t.again) :
    ∃ before t₁ s₁ s₂, Runs step P {} s₀ before t₁ s₁ ∧ step s₁ (.ask n answer) s₂ ∧
      P t₁ (.ask n answer) ∧ t₁.again = site := by
  induction h with
  | nil => simp [Trace.again, Trace.flatten] at hsite
  | snoc hruns hstep hp ih =>
    rcases Trace.prefix_of_add hsite with hold | ⟨rfl, hag⟩
    · exact ih hold
    · exact ⟨_, _, _, _, hruns, hstep, hp, hag⟩

end Sites

theorem Config.Does.asks (h : c.Does values op c') :
    c.ordinal ≤ c'.ordinal ∧ (∀ n answer, op = .ask n answer → n = c'.ordinal ∧ n = c.ordinal + 1) ∧
      ∀ n, c'.ordinal < n → c'.results (interruptKey n) = c.results (interruptKey n) := by
  have hends : ∀ call : Call, (op.call = some call ∨ ∃ value, op = .complete call value) →
      ∀ n, op.record c.results (interruptKey n) = c.results (interruptKey n) :=
    fun call hop n => record_of_ne hop (key_ne_interruptKey call n).symm
  rw [h.eq]
  obtain ⟨hmov, -, -, -⟩ := h
  generalize c'.toShadow = sh' at hmov
  cases hmov with
  | get => exact ⟨Nat.le_refl _, by simp, fun _ _ => rfl⟩
  | set => exact ⟨Nat.le_refl _, by simp, fun _ _ => rfl⟩
  | skip => exact ⟨Nat.le_refl _, by simp, fun _ _ => rfl⟩
  | enter => exact ⟨Nat.le_refl _, by simp, fun _ _ => rfl⟩
  | retry => exact ⟨Nat.le_refl _, by simp, fun _ _ => rfl⟩
  | leave => exact ⟨Nat.le_refl _, by simp, fun n _ => hends _ (.inl rfl) n⟩
  | rerun => exact ⟨Nat.le_refl _, by simp, fun n _ => hends _ (.inl rfl) n⟩
  | complete => exact ⟨Nat.le_refl _, by simp, fun n _ => hends _ (.inr ⟨_, rfl⟩) n⟩
  | @ask message mismatch next hp =>
    refine ⟨Nat.le_succ _, ?_, fun n hn => ?_⟩
    · rintro n answer ⟨⟩
      exact ⟨rfl, rfl⟩
    · dsimp only at hn ⊢
      cases answerTo c.results values (interruptKey (c.ordinal + 1)) message mismatch with
      | ok value =>
        refine Function.update_of_ne (fun heq => ?_) ..
        have := interruptKey_inj heq
        omega
      | error error => rfl

/-- The interrupts of a run are numbered in order. -/
theorem Runs.ordinal_le (h : Runs (Config.Does values) P t₀ c₀ ops t c) : c₀.ordinal ≤ c.ordinal := by
  induction h with
  | nil => exact Nat.le_refl _
  | snoc _ hdoes _ ih => exact Nat.le_trans ih hdoes.asks.1

/-- The answer of an interrupt that a run has not come to is as it was at the start. -/
theorem Runs.unanswered (h : Runs (Config.Does values) P t₀ c₀ ops t c) {n : Nat} (hn : c.ordinal < n) :
    c.results (interruptKey n) = c₀.results (interruptKey n) := by
  induction h with
  | nil => rfl
  | snoc _ hdoes _ ih =>
    obtain ⟨hle, -, hsame⟩ := hdoes.asks
    rw [hsame n hn, ih (Nat.lt_of_le_of_lt hle hn)]

theorem Runs.again_of_kept (h : Runs (Config.Does values) P {} c₀ ops t c) (hfrs : c₀.frames = [])
    (hkept : ∀ op ∈ ops, op.isComplete = false) : t.again = ops := by
  induction h with
  | nil => rfl
  | @snoc ops t c op c' hruns hdoes hp ih =>
    rw [Trace.again_add (hkept op (by simp)), ih fun op hop => hkept op (by simp [hop])]
    rintro call result rfl hnil
    have hlen := hruns.pending hfrs
    rw [hnil] at hlen
    have hnone : c.frames = [] := List.length_eq_zero_iff.mp hlen.symm
    have hmov := hdoes.moves
    generalize c'.toShadow = sh' at hmov
    cases hmov with
    | leave _ hf => rw [hnone] at hf; cases hf
    | rerun _ hf => rw [hnone] at hf; cases hf

theorem Machine.answer_of_step {n : Nat} {value : Value}
    (h : m.step env = some (.ask n (.ok value), m')) :
    (m.ctx.log.getResult (interruptKey n)).or m.ctx.resumeValues[interruptKey n]? = some value := by
  obtain ⟨hmov, -, -, -⟩ := (Machine.step_does h).1
  generalize hop : Op.ask n (.ok value) = op at hmov
  generalize m'.config.toShadow = sh' at hmov
  cases hmov with
  | ask hp =>
    injection hop with hn hans
    rw [hn]
    exact (answer_of_answerTo hans.symm).1
  | _ => cases hop

end Adk
