import AdkRust.Graph.Drive
import AdkRust.Graph.RunRules
import AdkRust.Store.Memory

/-!
# A sole writer

When no other writer saves on the thread a run writes to, no save of the run is refused for its version,
so long as the run knows of the newest version of that thread (`sole_writer_never_refused`).

A run takes the newest version of the thread of the checkpoint it resumes from, and saves on the thread
of its configuration. `Covers` says that the first is not behind the second, which it always is when the
two are the same thread (`covers_of_thread`) or when no checkpoint is named. A run that resumes from a
checkpoint of another, shorter thread is refused (`sole_writer_refused`).

* `Leads`: no checkpoint of the thread is newer than the head a run knows of, and the one that its
  background write is about to save is newer than all of them.
-/

namespace Adk

namespace Run

open Prog

/-! ## The invariant -/

/-- No save was refused because a newer checkpoint was stored. -/
def NeverRefused (log : List Mark) : Prop :=
  ∀ (cp : Checkpoint) (thread : String) (version head : Nat),
    Mark.saved cp (.error (.checkpointConflict thread version head)) ∉ log

def SaveNothing (thread : String) (others : MemoryStore → MemoryStore → Prop) : Prop :=
  ∀ store store', others store store' → store.Valid →
    store'.Valid ∧ ∀ c ∈ store'.list thread, c ∈ store.list thread

/-- No checkpoint of the thread is newer than `head`, and a background write has one that is newer than
every one stored. -/
structure Leads (g : CompiledGraph) (thread : String) (head : Nat) (w : World) : Prop where
  valid : w.store.Valid
  newest : g.checkpointer = true → ∀ c ∈ w.store.list thread, c.version ≤ head
  writing : ∀ cp, w.inflight = some (.save cp) → g.checkpointer = true ∧ cp.threadId = thread ∧
    0 < cp.version ∧ cp.version ≤ head ∧ ∀ c ∈ w.store.list thread, c.version < cp.version
  accepted : NeverRefused w.log

/-- The same with no background write. -/
structure Idle (g : CompiledGraph) (thread : String) (head : Nat) (w : World) : Prop where
  leads : Leads g thread head w
  idle : w.inflight = none

/-- Some head leads. -/
def Led (g : CompiledGraph) (thread : String) (w : World) : Prop := ∃ head, Leads g thread head w

variable {g : CompiledGraph} {config : ExecutionConfig} {style : Style} {restartCompleted : Bool}
  {others : MemoryStore → MemoryStore → Prop} {thread : String} {head : Nat} {w w' : World}

theorem NeverRefused.mark {log : List Mark} (h : NeverRefused log) {m : Mark}
    (hm : ∀ cp thread version head, m ≠ .saved cp (.error (.checkpointConflict thread version head))) :
    NeverRefused (log ++ [m]) := by
  intro cp thread version head hmem
  rcases List.mem_append.mp hmem with hmem | hmem
  · exact h cp thread version head hmem
  · exact hm cp thread version head (List.mem_singleton.mp hmem).symm

namespace Leads

theorem mark (h : Leads g thread head w) {m : Mark}
    (hm : ∀ cp result, m ≠ .saved cp result) : Leads g thread head (w.mark m) :=
  ⟨h.valid, h.newest, h.writing, h.accepted.mark fun cp _ _ _ => hm cp _⟩

theorem save (h : Leads g thread head w) {cp : Checkpoint} {n : Nat}
    {result : Except GraphError String} {i : Option Write} (hc : g.checkpointer = true)
    (hthr : cp.threadId = thread) (hpos : 0 < cp.version) (hhead : head ≤ n)
    (hle : cp.version ≤ n) (hnew : ∀ c ∈ w.store.list thread, c.version < cp.version)
    (hinflight : ∀ cp, i ≠ some (.save cp)) (hsave : w.save cp = (result, w')) :
    Leads g thread n { w' with inflight := i } := by
  subst hthr
  unfold World.save at hsave
  rcases MemoryStore.save_newer hpos hnew with hok | herr
  · rw [hok] at hsave
    cases hsave
    refine ⟨h.valid.save hok, fun _ c hcmem => ?_, fun cp hi => absurd hi (hinflight cp), ?_⟩
    · have hmem : c ∈ (w.store.push cp).list cp.threadId := hcmem
      rw [MemoryStore.list_push, if_pos rfl] at hmem
      rcases List.mem_append.mp hmem with hmem | hmem
      · exact Nat.le_trans (h.newest hc c hmem) hhead
      · rw [List.mem_singleton.mp hmem]
        exact hle
    · exact h.accepted.mark fun _ _ _ _ hm => by cases hm
  · rw [herr] at hsave
    cases hsave
    refine ⟨h.valid, fun hc c hcmem => Nat.le_trans (h.newest hc c hcmem) hhead,
      fun cp hi => absurd hi (hinflight cp), ?_⟩
    exact h.accepted.mark fun _ _ _ _ hm => by
      simp [duplicateId] at hm

theorem shrink (h : Leads g thread head w) {store : MemoryStore} (hval : store.Valid)
    (hsub : ∀ c ∈ store.list thread, c ∈ w.store.list thread) :
    Leads g thread head { w with store } :=
  ⟨hval, fun hc c hmem => h.newest hc c (hsub c hmem), fun cp hi =>
    ⟨(h.writing cp hi).1, (h.writing cp hi).2.1, (h.writing cp hi).2.2.1, (h.writing cp hi).2.2.2.1,
      fun c hmem => (h.writing cp hi).2.2.2.2 c (hsub c hmem)⟩, h.accepted⟩

theorem prune (h : Leads g thread head w) (now : Utc) (t : String) (policy : RetentionPolicy) :
    Leads g thread head { w with store := w.store.prune now t policy } := by
  refine h.shrink h.valid.prune fun c hmem => ?_
  rw [MemoryStore.prune_list] at hmem
  split at hmem
  · exact (List.mem_filter.mp hmem).1
  · exact hmem

end Leads

theorem leads_stable (g : CompiledGraph) (config : ExecutionConfig) (style : Style)
    (hoths : SaveNothing thread others) (head : Nat) :
    Stable (laws g config style others) (Leads g thread head) := by
  intro w w' hmove h
  cases hmove with
  | @saved _ cp result hi hsave =>
    obtain ⟨hc, hthr, hpos, hle, hnew⟩ := h.writing cp hi
    refine h.save hc hthr hpos (Nat.le_refl _) hle hnew (fun cp' hi' => ?_) hsave
    unfold Write.afterSave at hi'
    split at hi'
    · cases hi'
    · split at hi' <;> cases hi'
  | @pruned cp policy now hi =>
    have hpruned := h.prune now cp.threadId policy
    exact ⟨hpruned.valid, hpruned.newest, fun cp hi => (by cases hi), hpruned.accepted⟩
  | @others store hstep =>
    obtain ⟨hval, hsub⟩ := hoths w.store store hstep h.valid
    exact h.shrink hval hsub

theorem idle_stable (g : CompiledGraph) (config : ExecutionConfig) (style : Style)
    (hoths : SaveNothing thread others) (head : Nat) :
    Stable (laws g config style others) (Idle g thread head) := by
  intro w w' hmove h
  refine ⟨leads_stable _ _ _ hoths head w w' hmove h.leads, ?_⟩
  cases hmove with
  | saved hi => rw [h.idle] at hi; cases hi
  | pruned now hi => rw [h.idle] at hi; cases hi
  | others hstep => exact h.idle

theorem led_stable (g : CompiledGraph) (config : ExecutionConfig) (style : Style)
    (hoths : SaveNothing thread others) :
    Stable (laws g config style others) (Led g thread) := by
  rintro w w' hmove ⟨head, h⟩
  exact ⟨head, leads_stable _ _ _ hoths head w w' hmove h⟩

/-! ## Writing checkpoints -/

abbrev KeepsLead {α : Type} (g : CompiledGraph) (config : ExecutionConfig) (style : Style)
    (others : MemoryStore → MemoryStore → Prop) (post : α → World → Prop) (p : RunM α) (w : World) :
    Prop :=
  Ensures (laws g config style others) (fun _ => Led g config.threadId)
    (fun _ => Led g config.threadId) post p w

section Writing

variable (hoths : SaveNothing config.threadId others)
include hoths

theorem awaitInflight_leads (h : Leads g config.threadId head w) :
    KeepsLead g config style others (fun _ => Idle g config.threadId head) awaitInflight w := by
  have hstb := leads_stable g config style hoths head
  refine (hstb.ensures_perform (R := fun _ => Idle g config.threadId head) h
    (fun _ h => ⟨_, h⟩) ?_ fun _ => idle_stable _ _ _ hoths head).bind ?_
  · rintro w r w' hw (⟨hi, -, rfl⟩ | ⟨result, -, -, rfl⟩)
    · exact ⟨hw, hi⟩
    · exact ⟨⟨hw.valid, hw.newest, fun cp hi => (by cases hi), hw.accepted⟩, rfl⟩
  · intro r w hw
    refine ensures_ofResult (idle_stable _ _ _ hoths head) hw fun w hw => ?_
    cases r with
    | ok a => exact hw
    | error e => exact ⟨_, hw.leads⟩

theorem writeCheckpoint_leads (h : Idle g config.threadId head w) {cp : Checkpoint}
    (hc : g.checkpointer = true) (hthr : cp.threadId = config.threadId)
    (hversion : cp.version = head + 1) :
    KeepsLead g config style others (fun _ => Idle g config.threadId (head + 1))
      (writeCheckpoint g cp) w := by
  have hstb := idle_stable g config style hoths (head + 1)
  refine ((idle_stable _ _ _ hoths head).ensures_perform h (fun _ h => ⟨_, h.leads⟩) ?_
    fun _ => hstb).bind fun r w hw => ?_
  · intro w r w' hw hsave
    have hnew : ∀ c ∈ w.store.list config.threadId, c.version < cp.version := by
      intro c hmem
      have := hw.leads.newest hc c hmem
      omega
    have hlead := hw.leads.save (n := head + 1) (i := none) hc hthr (by omega) (by omega)
      (by omega) hnew (by simp) hsave.symm
    have hidle : w'.inflight = none := by
      have hw' : w' = (w.save cp).2 := congrArg Prod.snd hsave
      rw [hw', World.save]
      split <;> exact hw.idle
    refine ⟨?_, hidle⟩
    rw [← hidle] at hlead
    exact hlead
  · refine (ensures_ofResult hstb hw (R := fun _ => Idle g config.threadId (head + 1)) ?_).bind ?_
    · intro w hw
      cases r with
      | ok id => exact hw
      | error e => exact ⟨_, hw.leads⟩
    · intro id w hw
      dsimp only
      split
      · refine (hstb.ensures_perform (R := fun _ => Idle g config.threadId (head + 1)) hw
          (fun _ h => ⟨_, h.leads⟩) ?_ fun _ => hstb).bind fun _ w hw =>
            hstb.ensures_pure hw fun _ hw => hw
        rintro w r w' hw ⟨now, rfl⟩
        exact ⟨hw.leads.prune now _ _, hw.idle⟩
      · exact hstb.ensures_pure hw fun _ hw => hw

variable {e : Exec}

theorem saveCheckpoint_leads (h : Leads g config.threadId e.headVersion w) :
    KeepsLead g config style others (fun r => Leads g config.threadId r.1.headVersion)
      (saveCheckpoint g config e) w := by
  have hidle := idle_stable g config style hoths e.headVersion
  refine (awaitInflight_leads hoths h).bind fun _ w hw => ?_
  split
  · rename_i hc
    refine (ensures_buildCheckpoint hidle hw fun _ _ h => ⟨_, h.leads⟩).bind ?_
    rintro _ w ⟨hw, now, id, createdAt, rfl⟩
    refine (writeCheckpoint_leads hoths hw hc rfl rfl).bind fun _ w hw => ?_
    exact (idle_stable _ _ _ hoths _).ensures_pure hw fun _ hw => hw.leads
  · exact hidle.ensures_pure hw fun _ hw => hw.leads

theorem checkpointStep_leads (h : Leads g config.threadId e.headVersion w) :
    KeepsLead g config style others (fun e => Leads g config.threadId e.headVersion)
      (checkpointStep g config e) w := by
  have hstb := leads_stable g config style hoths
  unfold checkpointStep
  split
  · rename_i hc
    split
    · refine (saveCheckpoint_leads hoths h).bind ?_
      rintro ⟨e', id⟩ w hw
      exact (hstb _).ensures_pure hw fun _ hw => hw
    · have hidle := idle_stable g config style hoths e.headVersion
      refine (awaitInflight_leads hoths h).bind fun _ w hw => ?_
      refine (ensures_buildCheckpoint hidle hw fun _ _ h => ⟨_, h.leads⟩).bind ?_
      rintro _ w ⟨hw, now, id, createdAt, rfl⟩
      refine (hidle.ensures_perform hw (fun _ h => ⟨_, h.leads⟩) ?_ fun _ =>
        hstb (e.headVersion + 1)).bind fun _ w hw => (hstb _).ensures_pure hw fun _ hw => hw
      rintro w r w' hw rfl
      refine ⟨hw.leads.valid, fun hc c hmem => ?_, fun cp hi => ?_, hw.leads.accepted⟩
      · have := hw.leads.newest hc c hmem
        omega
      · cases hi
        refine ⟨hc, rfl, Nat.succ_pos _, Nat.le_refl _, fun c hmem => ?_⟩
        exact Nat.lt_succ_of_le (hw.leads.newest hc c hmem)
    · exact (hstb _).ensures_pure h fun _ hw => hw
  · exact (hstb _).ensures_pure h fun _ hw => hw

theorem finishCheckpoints_leads (h : Leads g config.threadId e.headVersion w) :
    KeepsLead g config style others (fun e => Leads g config.threadId e.headVersion)
      (finishCheckpoints g config e) w := by
  have hstb := leads_stable g config style hoths
  refine (awaitInflight_leads hoths h).bind fun _ w hw => ?_
  split
  · refine (saveCheckpoint_leads hoths hw.leads).bind ?_
    rintro ⟨e', id⟩ w hw
    exact (hstb _).ensures_pure hw fun _ hw => hw
  · exact (hstb _).ensures_pure hw.leads fun _ hw => hw

theorem flushBeforeSideEffects_leads (h : Leads g config.threadId e.headVersion w) :
    KeepsLead g config style others (fun e => Leads g config.threadId e.headVersion)
      (flushBeforeSideEffects g config e) w := by
  unfold flushBeforeSideEffects
  split
  · exact finishCheckpoints_leads hoths h
  · exact (leads_stable _ _ _ hoths _).ensures_pure h fun _ hw => hw

theorem checkpointFailedStep_leads (h : Leads g config.threadId e.headVersion w) :
    (checkpointFailedStep g config e).Holds (laws g config style others)
      (fun _ => Led g config.threadId) (fun _ => Led g config.threadId) w := by
  have hled := led_stable g config style hoths
  simp only [checkpointFailedStep]
  split
  · refine holds_bind (Holds.mono (saveCheckpoint_leads hoths h) fun r w hr => ?_)
    cases r with
    | ok a => exact hled.holds_pure ⟨_, hr⟩ fun _ hw => hw
    | error e => exact hled.holds_pure hr fun _ hw => hw
  · refine holds_bind (Holds.mono (awaitInflight_leads hoths h) fun r w hr => ?_)
    cases r with
    | ok a => exact hled.holds_pure ⟨_, hr.leads⟩ fun _ hw => hw
    | error e => exact hled.holds_pure hr fun _ hw => hw

/-! ## The loop -/

theorem pause_leads {result : SuperStepResult} {interrupt : Interrupt} (h : Leads g config.threadId e.headVersion w) :
    KeepsLead g config style others (fun e => Leads g config.threadId e.headVersion)
      (pause g config style e result interrupt) w := by
  have hstb := leads_stable g config style hoths
  refine (ensures_clock (hstb _) h fun _ h => ⟨_, h⟩).bind fun now w hw => ?_
  refine (ensures_ofResult (hstb _) hw (R := fun e' w =>
    Leads g config.threadId e'.headVersion w) fun w hw => ?_).bind fun e' w hw => ?_
  · cases hp : Exec.pauseFrontier g e result now with
    | error error => exact ⟨_, hw⟩
    | ok e' =>
      have hctr := (Exec.pauseFrontier_counters e result now).result hp
      have hhead : e'.headVersion = e.headVersion := congrArg Counters.headVersion hctr
      show Leads g config.threadId e'.headVersion w
      rw [hhead]
      exact hw
  · have hhead : (style.settle e').headVersion = e'.headVersion :=
      congrArg Counters.headVersion (Exec.settle_counters style e')
    rw [← hhead] at hw
    refine (saveCheckpoint_leads hoths hw).bind ?_
    rintro ⟨e'', id⟩ w hw
    exact (hstb _).ensures_throw hw fun _ hw => ⟨_, hw⟩

theorem complete_leads {result : SuperStepResult} (h : Leads g config.threadId e.headVersion w) :
    KeepsLead g config style others (fun e => Leads g config.threadId e.headVersion)
      (complete g config style e result) w := by
  have hstb := leads_stable g config style hoths
  have hrest : ∀ w, Leads g config.threadId e.headVersion w →
      KeepsLead g config style others (fun e => Leads g config.threadId e.headVersion) (do
        let now ← ask .clock
        let e ← ofResult (Exec.completeStep g e result now)
        ask (.completed e)
        checkpointStep g config (style.settle e)) w := by
    intro w hw
    refine (ensures_clock (hstb _) hw fun _ h => ⟨_, h⟩).bind fun now w hw => ?_
    refine (ensures_ofResult (hstb _) hw (R := fun e' w =>
      Leads g config.threadId e'.headVersion w) fun w hw => ?_).bind fun e' w hw => ?_
    · cases hp : Exec.completeStep g e result now with
      | error error => exact ⟨_, hw⟩
      | ok e' =>
        have hctr := (Exec.completeStep_counters e result now).result hp
        have hhead : e'.headVersion = e.headVersion := congrArg Counters.headVersion hctr
        show Leads g config.threadId e'.headVersion w
        rw [hhead]
        exact hw
    · refine ((hstb _).ensures_perform (o := .completed e') (R := fun _ w =>
        Leads g config.threadId e'.headVersion w) hw (fun _ h => ⟨_, h⟩) ?_ fun _ => hstb _).bind ?_
      · rintro w r w' hw rfl
        exact hw.mark fun _ _ hm => by cases hm
      · intro _ w hw
        have hhead : (style.settle e').headVersion = e'.headVersion :=
          congrArg Counters.headVersion (Exec.settle_counters style e')
        rw [← hhead] at hw
        exact checkpointStep_leads hoths hw
  simp only [complete]
  split
  · refine (ensures_ofResult (hstb _) h (R := fun _ w => Leads g config.threadId e.headVersion w)
      fun w hw => ?_).bind fun _ w hw => hrest w hw
    cases g.routeDispatches result.executedNodes e.state with
    | error error => exact ⟨_, hw⟩
    | ok _ => exact hw
  · exact hrest w h

theorem superStep_leads (h : Leads g config.threadId e.headVersion w) :
    KeepsLead g config style others (fun e => Leads g config.threadId e.headVersion)
      (superStep g config style e) w := by
  have hstb := leads_stable g config style hoths
  have hled := led_stable g config style hoths
  refine (flushBeforeSideEffects_leads hoths h).bind fun e w hw => ?_
  refine ((hstb _).ensures_perform (o := .superStep e) (R := fun r w =>
    Leads g config.threadId r.1.headVersion w) hw (fun _ h => ⟨_, h⟩) ?_ fun r => hstb _).bind ?_
  · rintro w ⟨e', outcome⟩ w' hw ⟨asked, hsts, rfl⟩
    have hhead : e'.headVersion = e.headVersion := hsts.kept.1
    show Leads g config.threadId e'.headVersion _
    rw [hhead]
    exact hw.mark fun _ _ hm => by cases hm
  · rintro ⟨e', outcome⟩ w hw
    dsimp only
    split
    · refine (Ensures.lift (checkpointFailedStep_leads hoths hw)).bind fun _ w hw => ?_
      exact hled.ensures_throw hw fun _ hw => hw
    · exact (hstb _).ensures_throw hw fun _ hw => ⟨_, hw⟩
    · split
      · exact pause_leads hoths hw
      · exact complete_leads hoths hw

theorem loop_leads {n : Nat} (h : Leads g config.threadId e.headVersion w) :
    KeepsLead g config style others (fun e => Leads g config.threadId e.headVersion)
      (loop g config style n e) w := by
  have hstb := leads_stable g config style hoths
  refine ensures_loop (I := fun _ e w => Leads g config.threadId e.headVersion w)
    (fun _ e w hw _ => finishCheckpoints_leads hoths hw) (fun _ e w hw _ _ => ?_)
    (fun _ e w hw _ _ => superStep_leads hoths hw) h
  exact (hstb _).ensures_throw hw fun _ hw => ⟨_, hw⟩

end Writing

/-! ## The start -/

/-- The newest version known of the thread that a checkpoint is on. -/
def headOf (store : MemoryStore) (cp : Checkpoint) : Nat :=
  max cp.version (((store.load cp.threadId).map (·.version)).getD 0)

/-- A run that names a checkpoint finds it, and no checkpoint of the thread that the run writes to is
newer than the thread of that checkpoint, until the run has loaded both. -/
def Covers (config : ExecutionConfig) (others : MemoryStore → MemoryStore → Prop)
    (store : MemoryStore) : Prop :=
  ∀ id, config.resumeFrom = some id → ∀ store₁, Relation.ReflTransGen others store store₁ →
    ∃ cp, store₁.loadById id = some cp ∧ ∀ store₂, Relation.ReflTransGen others store₁ store₂ →
      ∀ newest ∈ store₂.load config.threadId, newest.version ≤ headOf store₂ cp

/-- A checkpoint of the thread that the run writes to covers it. -/
theorem covers_of_thread {store : MemoryStore} (h : ∀ id, config.resumeFrom = some id →
    ∀ store₁, Relation.ReflTransGen others store store₁ →
      ∃ cp, store₁.loadById id = some cp ∧ cp.threadId = config.threadId) :
    Covers config others store := by
  intro id hid store₁ hsto₁
  obtain ⟨cp, hload, hthr⟩ := h id hid store₁ hsto₁
  refine ⟨cp, hload, fun store₂ _ newest hnewest => ?_⟩
  have hnewest' : store₂.load config.threadId = some newest := hnewest
  unfold headOf
  rw [hthr, hnewest']
  exact Nat.le_max_right _ _

/-- A run that has saved nothing yet, in a store that the others have left it. -/
structure Starting (others : MemoryStore → MemoryStore → Prop) (store : MemoryStore) (w : World) :
    Prop where
  moved : Relation.ReflTransGen others store w.store
  valid : w.store.Valid
  idle : w.inflight = none
  accepted : NeverRefused w.log

theorem starting_stable (g : CompiledGraph) (config : ExecutionConfig) (style : Style)
    (hoths : SaveNothing config.threadId others) (store : MemoryStore) :
    Stable (laws g config style others) (Starting others store) := by
  intro w w' hmove h
  cases hmove with
  | saved hi => rw [h.idle] at hi; cases hi
  | pruned now hi => rw [h.idle] at hi; cases hi
  | others hstep => exact ⟨h.moved.tail hstep, (hoths _ _ hstep h.valid).1, h.idle, h.accepted⟩

theorem Starting.leads {store : MemoryStore} (h : Starting others store w) {thread : String}
    (hnewest : g.checkpointer = true → ∀ newest ∈ w.store.load thread, newest.version ≤ head) :
    Leads g thread head w := by
  refine ⟨h.valid, fun hc c hmem => ?_, fun cp hi => ?_, h.accepted⟩
  · obtain ⟨newest, hload⟩ : ∃ newest, w.store.load thread = some newest :=
      Option.isSome_iff_exists.mp (List.getLast?_isSome.mpr (List.ne_nil_of_mem hmem))
    have hle := h.valid.le_newest hload c hmem
    have := hnewest hc newest hload
    omega
  · rw [h.idle] at hi
    cases hi

theorem Starting.led {store : MemoryStore} (h : Starting others store w) :
    Led g config.threadId w := by
  refine ⟨((w.store.load config.threadId).map (·.version)).getD 0, h.leads fun _ newest hnewest => ?_⟩
  have hnewest' : w.store.load config.threadId = some newest := hnewest
  rw [hnewest']
  exact Nat.le_refl _

/-- What a run has found to resume from. -/
def Found (g : CompiledGraph) (config : ExecutionConfig) (others : MemoryStore → MemoryStore → Prop) :
    Option Checkpoint → World → Prop
  | none, w => Leads g config.threadId 0 w
  | some cp, w =>
    match config.resumeFrom with
    | none => Leads g config.threadId cp.version w
    | some _ => ∃ store₁, Starting others store₁ w ∧ ∀ store₂,
        Relation.ReflTransGen others store₁ store₂ →
        ∀ newest ∈ store₂.load config.threadId, newest.version ≤ headOf store₂ cp

section Start

variable (hoths : SaveNothing config.threadId others)
include hoths

theorem found_stable (found : Option Checkpoint) :
    Stable (laws g config style others) (Found g config others found) := by
  intro w w' hmove h
  cases found with
  | none => exact leads_stable _ _ _ hoths 0 w w' hmove h
  | some cp =>
    unfold Found at h ⊢
    cases hid : config.resumeFrom with
    | none =>
      rw [hid] at h
      exact leads_stable _ _ _ hoths cp.version w w' hmove h
    | some id =>
      rw [hid] at h
      obtain ⟨store₁, hstarting, hcov⟩ := h
      exact ⟨store₁, starting_stable _ _ _ hoths store₁ w w' hmove hstarting, hcov⟩

theorem findCheckpoint_found {store : MemoryStore} (hcov : Covers config others store)
    (h : Starting others store w) :
    KeepsLead g config style others (Found g config others) (findCheckpoint g config) w := by
  have hstb := starting_stable g config style hoths store
  unfold findCheckpoint
  split
  · rename_i hc
    split
    · rename_i id hid
      refine hstb.ensures_perform (o := .loadById id) h (fun _ h => h.led) ?_
        (found_stable hoths)
      rintro w r w' hw ⟨rfl, rfl⟩
      obtain ⟨cp, hload, hnewest⟩ := hcov id hid w'.store hw.moved
      rw [hload]
      unfold Found
      rw [hid]
      exact ⟨w'.store, ⟨.refl, hw.valid, hw.idle, hw.accepted⟩, hnewest⟩
    · rename_i hid
      refine hstb.ensures_perform (o := .load config.threadId) h (fun _ h => h.led) ?_
        (found_stable hoths)
      rintro w r w' hw ⟨rfl, rfl⟩
      cases hload : w'.store.load config.threadId with
      | none => exact hw.leads fun _ newest hnewest => by simp [hload] at hnewest
      | some cp =>
        unfold Found
        rw [hid]
        refine hw.leads fun _ newest hnewest => ?_
        rw [hload] at hnewest
        cases hnewest
        exact Nat.le_refl _
  · rename_i hc
    refine hstb.ensures_pure h fun w hw => ?_
    exact hw.leads fun hc' => absurd hc' hc

theorem headVersion_leads {cp : Checkpoint} (h : Found g config others (some cp) w) :
    KeepsLead g config style others (fun head => Leads g config.threadId head)
      (headVersion config cp) w := by
  have hstb := leads_stable g config style hoths
  unfold headVersion
  unfold Found at h
  split
  · rename_i hid
    rw [hid] at h
    exact (hstb _).ensures_pure h fun _ hw => hw
  · rename_i id hid
    rw [hid] at h
    obtain ⟨store₁, hstarting, hcov⟩ := h
    refine ((starting_stable _ _ _ hoths store₁).ensures_perform (o := .load cp.threadId)
      (R := fun r => Leads g config.threadId (max cp.version ((r.map (·.version)).getD 0)))
      hstarting (fun _ h => h.led) ?_ fun r => hstb _).bind fun r w hw => ?_
    · rintro w r w' hw ⟨rfl, rfl⟩
      exact hw.leads fun _ newest hnewest => hcov w'.store hw.moved newest hnewest
    · cases r with
      | none =>
        refine (hstb _).ensures_pure hw fun w hw => ?_
        simpa using hw
      | some newest => exact (hstb _).ensures_pure hw fun _ hw => hw

theorem startFresh_leads {input : State} (h : Leads g config.threadId 0 w) :
    KeepsLead g config style others (fun e => Leads g config.threadId e.headVersion)
      (startFresh g config input) w := by
  have hstb := leads_stable g config style hoths 0
  have hfind : KeepsLead g config style others (fun _ => Leads g config.threadId 0)
      (findCheckpoint g config) w := by
    unfold findCheckpoint
    split
    · split
      · refine hstb.ensures_perform (o := .loadById _) h (fun _ h => ⟨_, h⟩) ?_ fun _ => hstb
        rintro w r w' hw ⟨-, rfl⟩
        exact hw
      · refine hstb.ensures_perform (o := .load _) h (fun _ h => ⟨_, h⟩) ?_ fun _ => hstb
        rintro w r w' hw ⟨-, rfl⟩
        exact hw
    · exact hstb.ensures_pure h fun _ hw => hw
  refine hfind.bind fun loaded w hw => ?_
  refine (ensures_clock hstb hw fun _ h => ⟨_, h⟩).bind fun now w hw => ?_
  refine ensures_ofResult hstb hw fun w hw => ?_
  cases hs : Exec.start g (Exec.initializeState g loaded input) now {} with
  | error error => exact ⟨_, hw⟩
  | ok e =>
    have hhead : e.headVersion = 0 :=
      congrArg Counters.headVersion ((Exec.start_counters _ now).result hs)
    show Leads g config.threadId e.headVersion w
    rw [hhead]
    exact hw

theorem run_leads (style : Style) (restartCompleted : Bool) (input : State) (hcov : Covers config others w.store) (hval : w.store.Valid)
    (hidle : w.inflight = none) (hlog : NeverRefused w.log) :
    KeepsLead g config style others (fun e => Leads g config.threadId e.headVersion)
      (run g config style restartCompleted input) w := by
  have hstb := leads_stable g config style hoths
  have hsta : Starting others w.store w := ⟨.refl, hval, hidle, hlog⟩
  have hresume : KeepsLead g config style others (fun r => match r with
      | none => Leads g config.threadId 0
      | some (_, e) => Leads g config.threadId e.headVersion)
      (tryResume g config restartCompleted input) w := by
    refine (findCheckpoint_found hoths hcov hsta).bind fun found w hw => ?_
    cases found with
    | none => exact (hstb 0).ensures_pure hw fun _ hw => hw
    | some cp =>
      refine (headVersion_leads hoths hw).bind fun head w hw => ?_
      refine (ensures_clock (hstb _) hw fun _ h => ⟨_, h⟩).bind fun now w hw => ?_
      refine (ensures_ofResult (hstb _) hw (R := fun e w => Leads g config.threadId e.headVersion w)
        fun w hw => ?_).bind fun e w hw => (hstb _).ensures_pure hw fun _ hw => hw
      cases hr : Exec.restore g config restartCompleted cp head input now {} with
      | error error => exact ⟨_, hw⟩
      | ok e =>
        have hhead : e.headVersion = head :=
          congrArg Counters.headVersion ((Exec.restore_counters _ _ cp head input now).result hr)
        show Leads g config.threadId e.headVersion w
        rw [hhead]
        exact hw
  refine hresume.bind fun resumed w hw => ?_
  have hloop : ∀ atEntry (e : Exec) w, Leads g config.threadId e.headVersion w →
      KeepsLead g config style others (fun e => Leads g config.threadId e.headVersion) (do
        ask (.entered atEntry e)
        loop g config style (recursionLimit g config) e) w := by
    intro atEntry e w hw
    refine ((hstb _).ensures_perform (o := .entered atEntry e)
      (R := fun _ => Leads g config.threadId e.headVersion) hw (fun _ h => ⟨_, h⟩) ?_
      fun _ => hstb _).bind fun _ w hw => loop_leads hoths hw
    rintro w r w' hw rfl
    exact hw.mark fun _ _ hm => by cases hm
  cases resumed with
  | some resumed => exact hloop resumed.1 resumed.2 w hw
  | none => exact (startFresh_leads hoths hw).bind fun e w hw => hloop true e w hw

end Start

/-- **A sole writer is never refused**, when its head covers the thread that it writes to. -/
theorem sole_writer_never_refused (hothers : SaveNothing config.threadId others)
    (hcovers : Covers config others w.store) (hvalid : w.store.Valid) (hidle : w.inflight = none)
    (hlog : w.log = []) {input : State} {p : Prog Ask Ask.Answer (Except GraphError Exec)}
    (hreach : Reaches (laws g config style others)
      ((run g config style restartCompleted input).run, w) (p, w')) : NeverRefused w'.log := by
  have hnever : NeverRefused w.log := by
    rw [hlog]
    exact fun _ _ _ _ h => by cases h
  have hrun := run_leads (g := g) hothers style restartCompleted input hcovers hvalid hidle hnever
  have hled := (hrun.mono (fun e w hw => ⟨_, hw⟩) fun _ _ hw => hw).always hreach
  obtain ⟨head, hleads⟩ := hled
  exact hleads.accepted

/-! ## A checkpoint of another thread -/

/-- A saved run that is to go on at node `a`. -/
def waitingAt (thread checkpointId : String) (version : Nat) : Checkpoint where
  threadId := thread
  checkpointId := checkpointId
  state := ∅
  step := 1
  pendingNodes := ["a"]
  createdAt := 0
  version := version

def twoThreads : MemoryStore :=
  ((MemoryStore.push {} (waitingAt "short" "s1" 1)).push (waitingAt "long" "l1" 1)).push
    (waitingAt "long" "l2" 2)

theorem twoThreads_valid : twoThreads.Valid := by
  have hpush : ∀ {store : MemoryStore} {cp : Checkpoint}, store.Valid → 0 < cp.version →
      (store.list cp.threadId).all (fun d => decide (d.version < cp.version)) = true →
      cp.checkpointId ∉ store.ids → (store.push cp).Valid := by
    intro store cp hv hpos hnew hid
    refine hv.save (MemoryStore.save_eq_ok.mpr ⟨⟨hpos, fun h hh => ?_⟩, hid, rfl⟩)
    obtain ⟨d, hd, rfl⟩ := Option.map_eq_some_iff.mp hh
    simpa using List.all_eq_true.mp hnew d (List.mem_of_getLast? hd)
  refine hpush (hpush (hpush .empty ?_ ?_ ?_) ?_ ?_ ?_) ?_ ?_ ?_ <;> decide +kernel

def writesLong (checkpointId : String) : ExecutionConfig where
  threadId := "long"
  resumeFrom := some checkpointId

/-- The computed run of `oneNode` from a checkpoint, in a store that nobody else uses. -/
def resumedLong (checkpointId : String) : Except GraphError Exec × World :=
  drive oneNode (writesLong checkpointId) .invoke "c"
    (run oneNode (writesLong checkpointId) .invoke false ∅).run { store := twoThreads }

/-- How many checkpoints a run saved. -/
def savedCount (log : List Mark) : Nat :=
  log.countP fun m =>
    match m with
    | .saved _ (.ok _) => true
    | _ => false

/-- The run from an older checkpoint of its own thread saves its step. -/
theorem sole_writer_never_refused_writesLong :
    savedCount (resumedLong "l1").2.log = 1 ∧ NeverRefused (resumedLong "l1").2.log := by
  refine ⟨by decide +kernel, ?_⟩
  refine @sole_writer_never_refused oneNode (writesLong "l1") .invoke false nobody
    { store := twoThreads } (resumedLong "l1").2 (fun _ _ h => h.elim) ?_ twoThreads_valid rfl rfl ∅ _
    (drive_reaches _ _)
  refine covers_of_thread fun id hid store₁ hstore₁ => ?_
  cases hid
  rw [nobody_moved hstore₁]
  exact ⟨waitingAt "long" "l1" 1, by decide +kernel, rfl⟩

def Mark.isRefusal : Mark → Bool
  | .saved _ (.error (.checkpointConflict ..)) => true
  | _ => false

/-- **A sole writer is refused** when it resumes from a checkpoint of a shorter thread than the one it
writes to. -/
theorem sole_writer_refused : ¬ ∀ (g : CompiledGraph) (config : ExecutionConfig) (style : Style)
    (restartCompleted : Bool) (others : MemoryStore → MemoryStore → Prop) (w w' : World) (input : State)
    (p : Prog Ask Ask.Answer (Except GraphError Exec)), SaveNothing config.threadId others →
      (∀ id, config.resumeFrom = some id → ∀ store, Relation.ReflTransGen others w.store store →
        (store.loadById id).isSome) → w.store.Valid → w.inflight = none → w.log = [] →
      Reaches (laws g config style others)
        ((run g config style restartCompleted input).run, w) (p, w') → NeverRefused w'.log := by
  intro h
  have hnever := h oneNode (writesLong "s1") .invoke false nobody { store := twoThreads }
    (resumedLong "s1").2 ∅ _ (fun _ _ h => h.elim) ?_ twoThreads_valid rfl rfl (drive_reaches _ _)
  · have hrefused : (resumedLong "s1").2.log.any Mark.isRefusal = true := by decide +kernel
    obtain ⟨m, hmem, hm⟩ := List.any_eq_true.mp hrefused
    unfold Mark.isRefusal at hm
    split at hm
    · rename_i cp thread version head
      exact hnever cp thread version head hmem
    · cases hm
  · intro id hid store hstore
    cases hid
    rw [nobody_moved hstore]
    decide +kernel

end Run

end Adk
