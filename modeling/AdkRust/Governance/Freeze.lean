import AdkRust.Governance.Control

/-!
# A replicated freeze takes effect and stays

A freeze that has returned keeps its control frozen until an unfreeze is written to the store after it, where

* the control mirrors some scope,
* no read that is older than the freeze lifts it in the mirror (`liftsFresh`), and
* an unfreeze clears the local freeze of one that could not be written only after an unfreeze was written
  (`clearsLifted`).

An unfreeze that fails leaves the store frozen, where what its last attempt lost to was no unfreeze
(`losesToFreeze`).

What the calls do is said once, of their logs (`program_holds`).
-/

namespace Adk
namespace FreezeRun

/-- An access that was made. -/
abbrev ControlEntry : Type := Entry ControlOp.Ret ControlWorld

def readsScope (scope : GovernanceScope) (entry : ControlEntry) : Bool :=
  match entry.op with
  | .get read => decide (read = scope)
  | _ => false

/-- Whether an access was a write that lost. -/
def lost : ControlEntry → Bool
  | ⟨_, .set .., .error _⟩ => true
  | _ => false

/-- Whether an access was a write that landed. -/
def landed : ControlEntry → Bool
  | ⟨_, .set .., .ok _⟩ => true
  | _ => false

/-- The number of writes before which a freeze took effect: those up to its own, or all there were when it
was set locally. -/
def freezePlace : ControlEntry → Option Nat
  | ⟨w, .set .., .ok _⟩ => some (w.writes.length + 1)
  | ⟨w, .setFrozen _, _⟩ => some w.writes.length
  | _ => none

/-- The place of the last freeze of a log. -/
def frozeAt (log : List ControlEntry) : Option Nat := log.reverse.findSome? freezePlace

def lastRead (scope : GovernanceScope) (log : List ControlEntry) : Option ControlEntry :=
  log.reverse.find? (readsScope scope)

def freezeReturned : ControlProc → Option Bool
  | ⟨.freezeReplicated _ _, .pure (.ok _), _, _⟩ => some true
  | ⟨.freezeReplicated _ _, .pure (.error _), _, _⟩ => some false
  | _ => none

theorem freezeReturned_stop (q : ControlProc) : freezeReturned { q with live := false } = freezeReturned q := by
  obtain ⟨call, rest, log, live⟩ := q
  cases call with
  | refresh => rfl
  | unfreezeReplicated issuedBy => rfl
  | freezeReplicated reason issuedBy =>
    cases rest with
    | ask o next => rfl
    | pure result => cases result with
      | ok state => rfl
      | error error => rfl

def unfreezeFailed : ControlProc → Bool
  | ⟨.unfreezeReplicated _, .pure (.error _), _, _⟩ => true
  | _ => false

section Conditions

variable (config : GovernanceMirrorConfig)

/-- Whether an unfreeze was written after so many writes. -/
def unfrozenSince (n : Nat) (w : ControlWorld) : Bool :=
  (w.writes.drop n).any fun state => decide (state.scope.key = config.primaryScope.key) && !state.frozen

def returnedFreezes (s : ControlPool) (written : Bool) (p : Nat → Bool) : Bool :=
  s.procs.all fun q => freezeReturned q ≠ some written || (frozeAt q.log).all p

/-- The mirror is lifted on a read of the primary scope that each written freeze that has returned comes
before, unless an unfreeze was written after it. -/
def liftsFresh (s : ControlPool) (i : Nat) : Bool :=
  (lastRead config.primaryScope (s.logOf i)).all fun read =>
    returnedFreezes s true fun n => decide (n ≤ read.world.writes.length) || unfrozenSince config n s.world

/-- An unfreeze was written after each freeze that returned an error. -/
def clearsLifted (s : ControlPool) : Bool := returnedFreezes s false fun n => unfrozenSince config n s.world

/-- The last of the writes that landed after a call's last read is no unfreeze, when the call has lost all its
attempts but one. -/
def losesToFreeze (log : List ControlEntry) (w : ControlWorld) : Bool :=
  decide (log.countP lost + 1 ≠ replicatedWriteAttempts) ||
    (lastRead config.primaryScope log).all fun read =>
      ((GovernanceStore.writesOf config.primaryScope (w.writes.drop read.world.writes.length)).getLast?).all
        (·.frozen)

/-- What the accesses of a run need. -/
def allows (s : ControlPool) (i : Nat) : ControlOp → Bool
  | .replaceReplicated none => liftsFresh config s i
  | .clearFrozen => clearsLifted config s
  | .set _ _ false _ _ => losesToFreeze config (s.logOf i) s.world
  | _ => true

/-- The calls on a control, where every access is as `allows` has it. -/
def guardedControl : System ControlCall.Res ControlOp.Ret ControlWorld :=
  { mirroredControl config with acts := fun s i op => allows config s i op = true }

instance : ∀ s call, Decidable ((guardedControl config).starts s call) :=
  fun _ _ => inferInstanceAs (Decidable True)

instance : ∀ s i op, Decidable ((guardedControl config).acts s i op) :=
  fun s i op => inferInstanceAs (Decidable (allows config s i op = true))

end Conditions

/-! ## What the calls do -/

variable {config : GovernanceMirrorConfig} {log : List ControlEntry}

def foundFreeze : ControlEntry → Bool
  | ⟨_, .get _, some state⟩ => state.frozen
  | _ => false

/-- The last accesses of a log are the reads of a refresh, and what they found is what it takes over. -/
def Refreshed (config : GovernanceMirrorConfig) (reason : Option String) (log : List ControlEntry) : Prop :=
  ∃ past reads, log = past ++ reads ∧ reads.map (·.op) = config.scopes.map ControlOp.get ∧
    (reason = none → ∀ entry ∈ reads, foundFreeze entry = false)

/-- A write comes right after the read it goes by, with attempts left. -/
def Attempts (config : GovernanceMirrorConfig) (scope : GovernanceScope) (expectedEpoch : Nat) (frozen : Bool)
    (log : List ControlEntry) : Prop :=
  scope = config.primaryScope ∧ ∃ past w r, log = past ++ [⟨w, .get scope, r⟩] ∧
    expectedEpoch = (r.map (·.epoch)).getD 0 ∧ (frozen = false → r.any (·.frozen) = true)

/-- What holds of a log before an access. -/
def pre (config : GovernanceMirrorConfig) (call : ControlCall) (op : ControlOp) (log : List ControlEntry) :
    Prop :=
  match op with
  | .get _ => True
  | .set scope expectedEpoch frozen _ _ => Attempts config scope expectedEpoch frozen log ∧
      (∀ reason issuedBy, call = .freezeReplicated reason issuedBy → frozen = true) ∧
      (∀ issuedBy, call = .unfreezeReplicated issuedBy → frozen = false)
  | .replaceReplicated reason => Refreshed config reason log
  | .setFrozen _ => ∃ reason issuedBy, call = .freezeReplicated reason issuedBy
  | .clearFrozen => ∃ issuedBy, call = .unfreezeReplicated issuedBy

/-- A log ends with a write that was the last attempt and lost. -/
def LostAll (log : List ControlEntry) : Prop :=
  ∃ past entry, log = past ++ [entry] ∧ lost entry = true ∧ past.countP lost + 1 = replicatedWriteAttempts

/-- A log ends with a write that landed and the refresh after it. -/
def WroteAndRead (config : GovernanceMirrorConfig) (log : List ControlEntry) : Prop :=
  ∃ past entry reads v taken, log = past ++ entry :: (reads ++ [⟨v, .replaceReplicated taken, ()⟩]) ∧
    landed entry = true ∧ reads.map (·.op) = config.scopes.map ControlOp.get

/-- What holds of a log at a return. -/
def post (config : GovernanceMirrorConfig) (call : ControlCall) (result : call.Res) (log : List ControlEntry) : Prop :=
  match call, result with
  | .refresh, _ => True
  | .freezeReplicated _ _, .ok _ => WroteAndRead config log
  | .freezeReplicated _ _, .error _ => ∃ past w reason, log = past ++ [⟨w, .setFrozen reason, ()⟩]
  | .unfreezeReplicated _, .ok _ => True
  | .unfreezeReplicated _, .error _ => LostAll log

section Calls

variable {call : ControlCall}

/-- A read adds its entry. -/
theorem perform_get {err : AdkError → List ControlEntry → Prop} (scope : GovernanceScope) :
    Prog.Ensures (ProcPool.recording ControlWorld.laws) (pre config call) err
      (fun r log' => ∃ w : ControlWorld, log' = log ++ [⟨w, .get scope, r⟩])
      (ControlProg.perform (.get scope)) log :=
  ProcPool.ensures_perform trivial fun w _ _ _ => ⟨w, rfl⟩

theorem readScopes_holds {err : AdkError → List ControlEntry → Prop} (scopes : List GovernanceScope)
    (frozenBy : Option GovernanceState) :
    Prog.Ensures (ProcPool.recording ControlWorld.laws) (pre config call) err
      (fun found log' => ∃ reads, log' = log ++ reads ∧ reads.map (·.op) = scopes.map ControlOp.get ∧
        (found = none → frozenBy = none ∧ ∀ entry ∈ reads, foundFreeze entry = false))
      (readScopes scopes frozenBy) log := by
  induction scopes generalizing frozenBy log with
  | nil => exact ProcPool.ensures_pure ⟨[], by simp, rfl, fun h => ⟨h, by simp⟩⟩
  | cons scope scopes ih =>
    refine Prog.Ensures.bind (perform_get scope) fun r log' hlog' => ?_
    obtain ⟨w, rfl⟩ := hlog'
    refine Prog.Ensures.mono (ih _) ?_ fun _ _ h => h
    rintro found _ ⟨reads, rfl, hops, hnone⟩
    refine ⟨⟨w, .get scope, r⟩ :: reads, by simp, by simp [hops], fun hfnd => ?_⟩
    obtain ⟨hkept, hrd⟩ := hnone hfnd
    obtain ⟨hbef, hhere⟩ := Option.or_eq_none_iff.mp hkept
    refine ⟨hbef, fun entry hent => ?_⟩
    rcases List.mem_cons.mp hent with rfl | hent
    · cases r with
      | none => rfl
      | some state => simpa [foundFreeze, Option.filter_eq_none_iff] using hhere
    · exact hrd entry hent

/-- A refresh reads, and then takes over what it found. -/
theorem refresh_holds (err : AdkError → List ControlEntry → Prop) :
    Prog.Ensures (ProcPool.recording ControlWorld.laws) (pre config call) err
      (fun _ log' => ∃ reads v taken, log' = log ++ (reads ++ [⟨v, .replaceReplicated taken, ()⟩]) ∧
        reads.map (·.op) = config.scopes.map ControlOp.get)
      (refresh config) log := by
  refine Prog.Ensures.bind (readScopes_holds config.scopes none) fun found log' hlog' => ?_
  obtain ⟨reads, rfl, hops, hnone⟩ := hlog'
  refine ProcPool.ensures_perform ⟨log, reads, rfl, hops, fun h => ?_⟩ fun v _ _ _ =>
    ⟨reads, v, found.map fun state => state.reason.getD s!"{state.scope.key} frozen", ?_, hops⟩
  · exact (hnone (Option.map_eq_none_iff.mp h)).2
  · rw [List.append_assoc]

/-- A replicated write tries as often as it may; it ends with the refresh after a write, or with all its
attempts lost, or, an unfreeze, with nothing to lift. -/
theorem writeReplicated_holds {frozen : Bool} {reason : Option String} {issuedBy : Option SubjectRef}
    (hfreeze : ∀ reason issuedBy, call = .freezeReplicated reason issuedBy → frozen = true)
    (hunfreeze : ∀ issuedBy, call = .unfreezeReplicated issuedBy → frozen = false) (attempts : Nat)
    (lastError : Option AdkError) (hcnt : log.countP lost + attempts = replicatedWriteAttempts)
    (hlast : attempts = 0 → LostAll log) :
    Prog.Ensures (ProcPool.recording ControlWorld.laws) (pre config call) (fun _ => LostAll)
      (fun _ log' => frozen = true → WroteAndRead config log')
      (writeReplicated config frozen reason issuedBy attempts lastError) log := by
  induction attempts generalizing log lastError with
  | zero => exact ProcPool.ensures_throw (hlast rfl)
  | succ attempts ih =>
    refine Prog.Ensures.bind (perform_get _) fun current log' hlog' => ?_
    obtain ⟨w, rfl⟩ := hlog'
    by_cases hnothing : (!frozen && current.all (!·.frozen)) = true
    · -- there is no freeze to lift
      obtain rfl : frozen = false := by simpa using (Bool.and_eq_true_iff.mp hnothing).1
      rw [if_pos hnothing]
      refine Prog.Ensures.bind (refresh_holds _) fun _ _ _ => ?_
      exact ProcPool.ensures_pure fun h => absurd h Bool.false_ne_true
    · rw [if_neg hnothing]
      have hatt : Attempts config config.primaryScope ((current.map (·.epoch)).getD 0) frozen
          (log ++ [⟨w, .get config.primaryScope, current⟩]) := by
        refine ⟨rfl, log, w, current, rfl, rfl, fun hfrz => ?_⟩
        subst hfrz
        cases current <;> simp_all
      refine Prog.Ensures.bind (M := fun r log' => ∃ v : ControlWorld, log' =
        log ++ [⟨w, .get config.primaryScope, current⟩] ++
          [⟨v, .set config.primaryScope ((current.map (·.epoch)).getD 0) frozen reason issuedBy, r⟩] ∧
        ∀ error, r = .error error → error.isConflict = true) ?_ fun r log' hlog' => ?_
      · refine ProcPool.ensures_perform ⟨hatt, hfreeze, hunfreeze⟩ fun v r v' hr => ⟨v, rfl, ?_⟩
        rintro error rfl
        obtain ⟨issuedAt, hr⟩ := hr
        rcases v.set_cases config.primaryScope ((current.map (·.epoch)).getD 0) frozen reason issuedBy
          issuedAt with ⟨-, hset⟩ | ⟨state, -, -, -, -, hset⟩
        · rw [ControlWorld.run, hset] at hr
          obtain ⟨hres, -⟩ := Prod.mk.inj hr
          obtain rfl := Except.error.inj hres
          exact governanceConflictError_isConflict _ _ _
        · rw [ControlWorld.run, hset] at hr
          obtain ⟨hres, -⟩ := Prod.mk.inj hr
          cases hres
      · obtain ⟨v, rfl, hconf⟩ := hlog'
        cases r with
        | ok state =>
          refine Prog.Ensures.bind (refresh_holds _) fun _ log' hlog' => ?_
          obtain ⟨reads, v', taken, rfl, hops⟩ := hlog'
          refine ProcPool.ensures_pure fun _ =>
            ⟨log ++ [⟨w, .get config.primaryScope, current⟩], ⟨v, .set config.primaryScope
              ((current.map (·.epoch)).getD 0) frozen reason issuedBy, .ok state⟩, reads, v', taken, ?_, rfl,
              hops⟩
          simp only [List.append_assoc, List.cons_append, List.nil_append]
        | error error =>
          simp only [hconf error rfl, if_true]
          refine ih _ ?_ ?_
          · simp only [List.countP_append, List.countP_singleton, lost] at hcnt ⊢
            simp only [Bool.false_eq_true, if_false, if_true]
            omega
          · rintro rfl
            refine ⟨log ++ [⟨w, .get config.primaryScope, current⟩], _, rfl, rfl, ?_⟩
            simp only [List.countP_append, List.countP_singleton, lost] at hcnt ⊢
            simp only [Bool.false_eq_true, if_false]
            omega

/-- **What the calls do**, of their logs. -/
theorem program_holds (config : GovernanceMirrorConfig) (call : ControlCall) :
    (call.program config).Holds (ProcPool.recording ControlWorld.laws) (pre config call)
      (post config call) [] := by
  cases call with
  | refresh =>
    refine Prog.Holds.mono (refresh_holds fun _ _ => True) fun r _ _ => ?_
    trivial
  | freezeReplicated reason issuedBy =>
    have hfreeze : Prog.Ensures (ProcPool.recording ControlWorld.laws)
        (pre config (.freezeReplicated reason issuedBy))
        (fun _ log' => ∃ past w reason, log' = past ++ [⟨w, .setFrozen reason, ()⟩])
        (fun _ log' => WroteAndRead config log') (freezeReplicated config reason issuedBy) [] := by
      refine Prog.Ensures.tryCatch (E := fun _ => LostAll) ?_ fun error log' _ => ?_
      · refine Prog.Ensures.mono (writeReplicated_holds (fun _ _ _ => rfl) ?_ _ _ rfl ?_) ?_ ?_
        · intro _ h
          cases h
        · exact fun h => absurd h (by decide)
        · exact fun _ _ h => h rfl
        · exact fun _ _ h => h
      · refine Prog.Ensures.bind (M := fun _ log'' => ∃ past w reason,
          log'' = past ++ [⟨w, .setFrozen reason, ()⟩]) ?_ fun _ _ h => ProcPool.ensures_throw h
        exact ProcPool.ensures_perform ⟨reason, issuedBy, rfl⟩ fun w _ _ _ => ⟨log', w, reason, rfl⟩
    refine Prog.Holds.mono hfreeze fun r _ hr => ?_
    cases r with
    | ok _ => exact hr
    | error _ => exact hr
  | unfreezeReplicated issuedBy =>
    have hunfreeze : Prog.Ensures (ProcPool.recording ControlWorld.laws)
        (pre config (.unfreezeReplicated issuedBy)) (fun _ => LostAll) (fun _ _ => True)
        (unfreezeReplicated config issuedBy) [] := by
      refine Prog.Ensures.bind (M := fun _ _ => True) ?_ fun state _ _ => ?_
      · refine Prog.Ensures.mono (writeReplicated_holds ?_ (fun _ _ => rfl) _ _ rfl ?_) ?_ ?_
        · intro _ _ h
          cases h
        · exact fun h => absurd h (by decide)
        · exact fun _ _ _ => trivial
        · exact fun _ _ h => h
      · refine Prog.Ensures.bind (M := fun _ _ => True) ?_ fun _ _ _ => ProcPool.ensures_pure trivial
        exact ProcPool.ensures_perform ⟨issuedBy, rfl⟩ fun _ _ _ _ => trivial
    refine Prog.Holds.mono hunfreeze fun r _ hr => ?_
    cases r with
    | ok _ => trivial
    | error _ => exact hr

end Calls

/-! ## Places -/

theorem frozeAt_wroteAndRead {past reads : List ControlEntry} {entry : ControlEntry} {v : ControlWorld}
    {taken : Option String} (hlog : log = past ++ entry :: (reads ++ [⟨v, .replaceReplicated taken, ()⟩]))
    (hops : reads.map (·.op) = config.scopes.map ControlOp.get) {n : Nat} (hent : freezePlace entry = some n) :
    frozeAt log = some n := by
  have hrd : reads.reverse.findSome? freezePlace = none := by
    refine List.findSome?_eq_none_iff.mpr fun read hread => ?_
    have hop : read.op ∈ config.scopes.map ControlOp.get :=
      hops ▸ List.mem_map_of_mem (List.mem_reverse.mp hread)
    obtain ⟨scope, -, hscp⟩ := List.mem_map.mp hop
    obtain ⟨w, op, ret⟩ := read
    obtain rfl : ControlOp.get scope = op := hscp
    rfl
  unfold frozeAt
  rw [hlog, List.reverse_append, List.reverse_cons, List.reverse_append, List.reverse_singleton,
    List.append_assoc, List.append_assoc, List.findSome?_append, List.findSome?_append, hrd]
  show (entry :: past.reverse).findSome? freezePlace = some n
  rw [List.findSome?_cons, hent]

variable {w : ControlWorld} {store : GovernanceStore} {s : ControlPool}

theorem frozeAt_setFrozen {past : List ControlEntry} {reason : String}
    (hlog : log = past ++ [⟨w, .setFrozen reason, ()⟩]) : frozeAt log = some w.writes.length := by
  unfold frozeAt
  rw [hlog, List.reverse_append]
  rfl

theorem refreshed_read (hscopes : config.scopes ≠ []) (h : Refreshed config none log) :
    ∃ past reads read, log = past ++ reads ∧ reads.map (·.op) = config.scopes.map ControlOp.get ∧
      read ∈ reads ∧ lastRead config.primaryScope log = some read ∧
      readsScope config.primaryScope read = true ∧ foundFreeze read = false := by
  obtain ⟨past, reads, rfl, hops, hfnd⟩ := h
  -- the primary scope is among the scopes that were read
  have hprimary : ControlOp.get config.primaryScope ∈ reads.map (·.op) := by
    rw [hops]
    cases hlist : config.scopes with
    | nil => exact absurd hlist hscopes
    | cons scope scopes =>
      have : config.primaryScope = scope := by
        unfold GovernanceMirrorConfig.primaryScope
        rw [hlist]
        rfl
      rw [this]
      exact List.mem_map_of_mem List.mem_cons_self
  obtain ⟨first, hfst, hop⟩ := List.mem_map.mp hprimary
  have hsome : (reads.reverse.find? (readsScope config.primaryScope)).isSome := by
    refine List.find?_isSome.mpr ⟨first, List.mem_reverse.mpr hfst, ?_⟩
    unfold readsScope
    rw [hop]
    exact decide_eq_true rfl
  obtain ⟨read, hread⟩ := Option.isSome_iff_exists.mp hsome
  have hmem : read ∈ reads := List.mem_reverse.mp (List.mem_of_find?_eq_some hread)
  refine ⟨past, reads, read, rfl, hops, hmem, ?_, List.find?_some hread, hfnd rfl read hmem⟩
  unfold lastRead
  rw [List.reverse_append, List.find?_append, hread]
  rfl

theorem unfrozenSince_later {w' : ControlWorld} (h : ControlWorld.Later w w') {n : Nat}
    (hn : unfrozenSince config n w = true) : unfrozenSince config n w' = true := by
  obtain ⟨written, hwrs, -⟩ := h
  unfold unfrozenSince at hn ⊢
  obtain ⟨state, hst, hlifts⟩ := List.any_eq_true.mp hn
  refine List.any_eq_true.mpr ⟨state, ?_, hlifts⟩
  rw [hwrs]
  exact (List.Sublist.drop (List.sublist_append_left _ _) n).mem hst

theorem unfrozenSince_of_read {now : ControlWorld} {read : ControlEntry} {k : Nat} {state : GovernanceState}
    (hwrtn : GovernanceStore.Written store read.world.writes read.world.store)
    (hansd : ∃ w, ControlWorld.laws.answers read.op read.world read.ret w)
    (hrd : readsScope config.primaryScope read = true) (hfnd : foundFreeze read = false)
    (hlat : ControlWorld.Later read.world now) (hst : now.writes[k]? = some state)
    (hscp : state.scope = config.primaryScope) (hfrz : state.frozen = true)
    (hk : k < read.world.writes.length) : unfrozenSince config (k + 1) now = true := by
  obtain ⟨w, op, ret⟩ := read
  have hnotFrozen : w.store.frozen config.primaryScope = false := by
    cases op with
    | get scope =>
      obtain rfl : scope = config.primaryScope := of_decide_eq_true hrd
      obtain ⟨w', issuedAt, hrun⟩ := hansd
      obtain ⟨hret, -⟩ := Prod.mk.inj hrun
      obtain rfl : ret = w.store.get config.primaryScope := hret
      unfold GovernanceStore.frozen
      cases hget : w.store.get config.primaryScope with
      | none => rfl
      | some state => simpa [foundFreeze, hget] using hfnd
    | set scope expectedEpoch frozen reason issuedBy => cases hrd
    | replaceReplicated reason => cases hrd
    | setFrozen reason => cases hrd
    | clearFrozen => cases hrd
  have hbef : w.writes[k]? = some state := by
    obtain ⟨written, hwrs, -⟩ := hlat
    rw [hwrs, List.getElem?_append_left hk] at hst
    exact hst
  obtain ⟨m, lifting, hm, hlifting, hkey, hlifts⟩ :=
    GovernanceStore.lifted_after hwrtn hbef (by rw [hscp]) hfrz hnotFrozen
  unfold unfrozenSince
  refine List.any_eq_true.mpr ⟨lifting, ?_, by simp [hkey, hlifts]⟩
  have hthe := hlat.getElem? hlifting
  refine List.mem_iff_getElem?.mpr ⟨m - (k + 1), ?_⟩
  rw [List.getElem?_drop]
  have hpl : k + 1 + (m - (k + 1)) = m := by omega
  rw [hpl]
  exact hthe

/-! ## What a run keeps -/

/-- What holds of an access when it is made. -/
structure Made (config : GovernanceMirrorConfig) (store : GovernanceStore) (call : ControlCall)
    (log : List ControlEntry) (entry : ControlEntry) : Prop where
  allowed : pre config call entry.op log
  answered : ∃ w, ControlWorld.laws.answers entry.op entry.world entry.ret w
  written : GovernanceStore.Written store entry.world.writes entry.world.store
  loses : ∀ scope expectedEpoch reason issuedBy, entry.op = .set scope expectedEpoch false reason issuedBy →
    losesToFreeze config log entry.world = true

section Runs

variable {store : GovernanceStore} {s : ControlPool}
  (hs : ProcPool.Reaches (guardedControl config) { world := .new store } s)
include hs

variable {j : Nat} {q : ControlProc} {entry : ControlEntry}

theorem keeps (hq : s.procs[j]? = some q) :
    ProcPool.Keeps ControlWorld.laws (pre config) (post config) q :=
  hs.local rfl (program_holds config) j q hq

theorem written : GovernanceStore.Written store s.world.writes s.world.store := by
  have hlat : ControlWorld.Later (.new store) s.world := hs.later ControlWorld.Later.refl
    ControlWorld.Later.trans (fun _ _ _ _ => ControlWorld.answers_later) fun _ _ => ControlWorld.moves_later
  obtain ⟨written, hwrs, hsto⟩ := hlat
  have hall : s.world.writes = written := hwrs
  rw [hall]
  exact hsto

theorem past (hq : s.procs[j]? = some q) :
    ProcPool.Past ControlWorld.laws ControlWorld.Later q.log s.world :=
  hs.past rfl ControlWorld.Later.refl ControlWorld.Later.trans (fun _ _ _ _ => ControlWorld.answers_later)
    (fun _ _ => ControlWorld.moves_later) j q hq

theorem made (hq : s.procs[j]? = some q) {before later : List ControlEntry} (hlog : q.log = before ++ entry :: later) :
    Made config store q.call before entry := by
  refine hs.entries (P := Made config store) rfl ?_ j q hq before entry later hlog
  intro s i proc op next r w hs hproc hrest hacts hr
  refine ⟨(keeps hs hproc).performs hrest, ⟨w, hr⟩, written hs, ?_⟩
  intro scope expectedEpoch reason issuedBy hop
  have hacts : allows config s i op = true := hacts
  obtain rfl : op = .set scope expectedEpoch false reason issuedBy := hop
  rw [allows, ProcPool.logOf_eq hproc] at hacts
  exact hacts

theorem returned_freeze (hq : s.procs[j]? = some q) {written : Bool} (h : freezeReturned q = some written) :
    (∃ reason issuedBy, q.call = .freezeReplicated reason issuedBy) ∧
      if written then WroteAndRead config q.log
      else ∃ past w reason, q.log = past ++ [⟨w, .setFrozen reason, ()⟩] := by
  have hkeeps := keeps hs hq
  obtain ⟨call, rest, log, live⟩ := q
  cases call with
  | refresh => cases h
  | unfreezeReplicated issuedBy => cases h
  | freezeReplicated reason issuedBy =>
    refine ⟨⟨reason, issuedBy, rfl⟩, ?_⟩
    cases rest with
    | ask o next => cases h
    | pure result =>
      cases result with
      | ok state =>
        obtain rfl := Option.some.inj h
        exact hkeeps.returned rfl
      | error error =>
        obtain rfl := Option.some.inj h
        exact hkeeps.returned rfl

theorem landed_written (hq : s.procs[j]? = some q)
    (hcall : ∃ reason issuedBy, q.call = .freezeReplicated reason issuedBy)
    (hent : entry ∈ q.log) (hland : landed entry = true) :
    freezePlace entry = some (entry.world.writes.length + 1) ∧
      ∀ w, ControlWorld.laws.answers entry.op entry.world entry.ret w →
        ∃ state, w.writes = entry.world.writes ++ [state] ∧ state.scope = config.primaryScope ∧
          state.frozen = true := by
  obtain ⟨before, later, hlog⟩ := List.append_of_mem hent
  have hmade := made hs hq hlog
  obtain ⟨reason, issuedBy, hcall⟩ := hcall
  obtain ⟨v, op, ret⟩ := entry
  cases op with
  | set scope expectedEpoch frozen reason' issuedBy' =>
    cases ret with
    | error error => cases hland
    | ok state =>
      refine ⟨rfl, ?_⟩
      obtain ⟨⟨rfl, -⟩, hfreezes, -⟩ := hmade.allowed
      obtain rfl := hfreezes reason issuedBy hcall
      rintro w ⟨issuedAt, hrun⟩
      rw [ControlWorld.run] at hrun
      rcases v.set_cases config.primaryScope expectedEpoch true reason' issuedBy' issuedAt with
        ⟨-, hset⟩ | ⟨state', -, hscp, hfrz, -, hset⟩
      · rw [hset] at hrun
        cases (Prod.mk.inj hrun).1
      · rw [hset] at hrun
        obtain ⟨hok, rfl⟩ := Prod.mk.inj hrun
        exact ⟨state', rfl, hscp, hfrz⟩
  | get scope => cases hland
  | replaceReplicated taken => cases hland
  | setFrozen reason => cases hland
  | clearFrozen => cases hland

theorem place_landed (hq : s.procs[j]? = some q)
    (hcall : ∃ reason issuedBy, q.call = .freezeReplicated reason issuedBy)
    (hent : entry ∈ q.log) (hland : landed entry = true) {now : ControlWorld}
    (hleads : entry.Leads ControlWorld.laws ControlWorld.Later now) :
    entry.world.writes.length < now.writes.length ∧ ∃ state,
      now.writes[entry.world.writes.length]? = some state ∧ state.scope = config.primaryScope ∧
        state.frozen = true := by
  obtain ⟨w, hanss, hlat⟩ := hleads
  obtain ⟨state, hwrs, hst⟩ := (landed_written hs hq hcall hent hland).2 w hanss
  have hlen := hlat.length
  rw [hwrs, List.length_append, List.length_singleton] at hlen
  refine ⟨by omega, state, hlat.getElem? ?_, hst⟩
  rw [hwrs]
  exact List.getElem?_concat_length

theorem place_written (hq : s.procs[j]? = some q)
    (hretd : freezeReturned q = some true) {n : Nat} (hn : frozeAt q.log = some n) :
    ∃ k state, n = k + 1 ∧ s.world.writes[k]? = some state ∧ state.scope = config.primaryScope ∧
      state.frozen = true := by
  obtain ⟨hcall, before, entry, reads, v, taken, hlog, hland, hops⟩ := returned_freeze hs hq hretd
  have hent : entry ∈ q.log := by
    rw [hlog]
    simp
  have hpl := (landed_written hs hq hcall hent hland).1
  rw [frozeAt_wroteAndRead hlog hops hpl] at hn
  obtain ⟨-, state, hst⟩ := place_landed hs hq hcall hent hland ((past hs hq).here entry hent)
  exact ⟨_, state, (Option.some.inj hn).symm, hst⟩

theorem unfrozenSince_of_made (hq : s.procs[j]? = some q) {read : ControlEntry}
    (hread : read ∈ q.log) (hrd : readsScope config.primaryScope read = true)
    (hfnd : foundFreeze read = false) {k : Nat} {state : GovernanceState}
    (hst : s.world.writes[k]? = some state) (hscp : state.scope = config.primaryScope)
    (hfrz : state.frozen = true) (hk : k < read.world.writes.length) :
    unfrozenSince config (k + 1) s.world = true := by
  obtain ⟨before, later, hlog⟩ := List.append_of_mem hread
  have hmade := made hs hq hlog
  obtain ⟨w, hanss, hlat⟩ := (past hs hq).here read hread
  exact unfrozenSince_of_read hmade.written hmade.answered hrd hfnd
    ((ControlWorld.answers_later hanss).trans _ _ _ hlat) hst hscp hfrz hk

/-! ## Freezes hold -/

omit hs in
/-- What the conditions on a run say of a freeze that has returned. -/
theorem returnedFreezes_apply {written : Bool} {p : Nat → Bool} (h : returnedFreezes s written p = true)
    (hq : s.procs[j]? = some q) (hretd : freezeReturned q = some written)
    {n : Nat} (hn : frozeAt q.log = some n) : p n = true := by
  have hall := List.all_eq_true.mp h q (List.mem_of_getElem? hq)
  simpa [hretd, hn] using hall

end Runs

/-- Each freeze that has returned keeps the control frozen, by the mirror if it was written and locally
otherwise, or an unfreeze was written after it. -/
def Frozen (config : GovernanceMirrorConfig) (s : ControlPool) : Prop :=
  ∀ (j : Nat) (q : ControlProc) (written : Bool) (n : Nat), s.procs[j]? = some q →
    freezeReturned q = some written → frozeAt q.log = some n → unfrozenSince config n s.world = true ∨
      (if written then s.world.control.replicated.isSome else s.world.control.frozen) = true

section Steps

variable {store : GovernanceStore} {s s' : ControlPool} (hscopes : config.scopes ≠ [])
  (hs : ProcPool.Reaches (guardedControl config) { world := .new store } s)
include hs

/-- An access keeps what holds of the freezes that have returned. -/
theorem Frozen.access (hfrz : Frozen config s) {i : Nat} {proc : ControlProc} {op : ControlOp}
    {next : op.Ret → Prog ControlOp ControlOp.Ret proc.call.Res} {r : op.Ret} {w : ControlWorld}
    (hproc : s.procs[i]? = some proc) (hrest : proc.rest = .ask op next)
    (hacts : allows config s i op = true) (hr : ControlWorld.laws.answers op s.world r w)
    (hscopes : config.scopes ≠ [])
    {j : Nat} {q : ControlProc} {written : Bool} {n : Nat} (hq : s.procs[j]? = some q)
    (hretd : freezeReturned q = some written) (hn : frozeAt q.log = some n) :
    unfrozenSince config n w = true ∨
      (if written then w.control.replicated.isSome else w.control.frozen) = true := by
  have hlat := ControlWorld.answers_later hr
  rcases hfrz j q written n hq hretd hn with hsin | hctl
  · exact .inl (unfrozenSince_later hlat hsin)
  obtain ⟨issuedAt, hrun⟩ := hr
  cases op with
  | get scope =>
    obtain ⟨-, rfl⟩ := Prod.mk.inj hrun
    exact .inr hctl
  | set scope expectedEpoch frozen reason issuedBy =>
    have hw := congrArg (fun x => x.2.control) hrun
    have hsame : w.control = s.world.control := hw
    rw [hsame]
    exact .inr hctl
  | setFrozen reason =>
    obtain ⟨-, rfl⟩ := Prod.mk.inj hrun
    cases written with
    | true => exact .inr hctl
    | false => exact .inr rfl
  | clearFrozen =>
    obtain ⟨-, rfl⟩ := Prod.mk.inj hrun
    cases written with
    | true => exact .inr hctl
    | false => exact .inl (returnedFreezes_apply hacts hq hretd hn)
  | replaceReplicated reason =>
    obtain ⟨-, rfl⟩ := Prod.mk.inj hrun
    cases written with
    | false => exact .inr hctl
    | true =>
      cases reason with
      | some reason => exact .inr rfl
      | none =>
        left
        have hrefreshed := (keeps hs hproc).performs hrest
        obtain ⟨before, reads, read, hlog, -, hmem, hlast, hrd, hfnd⟩ :=
          refreshed_read hscopes hrefreshed
        have hmem : read ∈ proc.log := by
          rw [hlog]
          exact List.mem_append_right _ hmem
        -- the read is no older than the freeze
        have hfr : liftsFresh config s i = true := hacts
        unfold liftsFresh at hfr
        rw [ProcPool.logOf_eq hproc, hlast] at hfr
        have hpl := returnedFreezes_apply hfr hq hretd hn
        rcases Bool.or_eq_true_iff.mp hpl with hle | hsin
        · obtain ⟨k, state, rfl, hst, hscp, hstateFrozen⟩ := place_written hs hq hretd hn
          have hle : k + 1 ≤ read.world.writes.length := of_decide_eq_true hle
          exact unfrozenSince_of_made hs hproc hmem hrd hfnd hst hscp hstateFrozen (by omega)
        · exact hsin

/-- A freeze that returns leaves the control frozen, unless an unfreeze was written after it. -/
theorem Frozen.returns (hscopes : config.scopes ≠ []) {i : Nat} {proc : ControlProc} {op : ControlOp}
    {next : op.Ret → Prog ControlOp ControlOp.Ret proc.call.Res} {r : op.Ret} {w : ControlWorld}
    (hproc : s.procs[i]? = some proc) (hrest : proc.rest = .ask op next)
    (hacts : allows config s i op = true) (hr : ControlWorld.laws.answers op s.world r w)
    (hlive : proc.live = true) {written : Bool} {n : Nat}
    (hretd : freezeReturned (proc.after s.world op r (next r)) = some written)
    (hn : frozeAt (proc.log ++ [⟨s.world, op, r⟩]) = some n) :
    unfrozenSince config n w = true ∨
      (if written then w.control.replicated.isSome else w.control.frozen) = true := by
  have hstep : ProcPool.Step (guardedControl config) s
      { world := w, procs := s.procs.set i (proc.after s.world op r (next r)) } :=
    .act hproc hlive hrest hacts hr
  have hlt := (List.getElem?_eq_some_iff.mp hproc).1
  have hq : (s.procs.set i (proc.after s.world op r (next r)))[i]? = some (proc.after s.world op r (next r)) :=
    List.getElem?_set_self hlt
  have hs' := hs.tail hstep
  obtain ⟨hcall, hpost⟩ := returned_freeze hs' hq hretd
  cases written with
  | false =>
    right
    rw [if_neg Bool.false_ne_true, Proc.after_log] at hpost
    obtain ⟨before, v, reason, hlog⟩ := hpost
    obtain ⟨-, hlast⟩ := List.append_inj' hlog rfl
    have hent := (List.cons.inj hlast).1
    obtain rfl : op = .setFrozen reason := congrArg Entry.op hent
    obtain ⟨issuedAt, hrun⟩ := hr
    obtain ⟨-, rfl⟩ := Prod.mk.inj hrun
    rfl
  | true =>
    rw [if_pos rfl, Proc.after_log] at hpost
    obtain ⟨before, entry, reads, v, taken, hlog, hland, hops⟩ := hpost
    have hsp : before ++ entry :: (reads ++ [⟨v, .replaceReplicated taken, ()⟩]) =
        (before ++ entry :: reads) ++ [⟨v, .replaceReplicated taken, ()⟩] := by simp
    have hmem : entry ∈ (proc.after s.world op r (next r)).log := by
      rw [Proc.after_log, hlog]
      simp
    have hpl := (landed_written hs' hq hcall hmem hland).1
    rw [frozeAt_wroteAndRead hlog hops hpl] at hn
    obtain rfl := Option.some.inj hn
    rw [hsp] at hlog
    obtain ⟨hbef, hlast⟩ := List.append_inj' hlog rfl
    have hent := (List.cons.inj hlast).1
    obtain rfl : op = .replaceReplicated taken := congrArg Entry.op hent
    have hpre := (keeps hs hproc).performs hrest
    have hw := hr
    obtain ⟨issuedAt, hrun⟩ := hr
    obtain ⟨-, rfl⟩ := Prod.mk.inj hrun
    cases taken with
    | some reason => exact .inr rfl
    | none =>
      left
      obtain ⟨before', reads', read, hlog', hops', hmem, -, hrd, hfnd⟩ := refreshed_read hscopes hpre
      -- the reads of the refresh are those after the write
      have hboth : (before ++ [entry]) ++ reads = before' ++ reads' := by
        rw [← hlog', hbef]
        simp
      have hlen : reads.length = reads'.length := by
        have := congrArg List.length (hops.trans hops'.symm)
        simpa using this
      obtain ⟨-, rfl⟩ := List.append_inj' hboth hlen
      have hentryMem : entry ∈ proc.log := by
        rw [hbef]
        simp
      have hreadMem : read ∈ proc.log := by
        rw [hbef]
        simp [hmem]
      have hordd := (past hs hproc).ordered
      rw [hbef, List.pairwise_append, List.pairwise_cons] at hordd
      have hleads := hordd.2.1.1 read hmem
      obtain ⟨hk, -⟩ := place_landed hs hproc hcall hentryMem hland hleads
      obtain ⟨-, state, hst, hscp, hfrz⟩ :=
        place_landed hs hproc hcall hentryMem hland ((past hs hproc).here entry hentryMem)
      exact unfrozenSince_of_made hs hproc hreadMem hrd hfnd hst hscp hfrz hk

/-- A step keeps what holds of the freezes that have returned. -/
theorem Frozen.step (hfrz : Frozen config s) (hscopes : config.scopes ≠ [])
    (hstep : ProcPool.Step (guardedControl config) s s') : Frozen config s' := by
  intro j q written n hq hretd hn
  cases hstep with
  | start _ =>
    rcases ProcPool.getElem?_start hq with hq | ⟨-, rfl⟩
    · exact hfrz j q written n hq hretd hn
    · cases hn
  | act hproc hlive hrest hacts hr =>
    rcases ProcPool.getElem?_put hproc hq with ⟨-, rfl⟩ | ⟨-, hq⟩
    · exact Frozen.returns hs hscopes hproc hrest hacts hr hlive hretd hn
    · exact hfrz.access hs hproc hrest hacts hr hscopes hq hretd hn
  | @stop i proc hproc =>
    rcases ProcPool.getElem?_put hproc hq with ⟨-, rfl⟩ | ⟨-, hq⟩
    · refine hfrz i proc written n hproc ?_ hn
      rw [freezeReturned_stop] at hretd
      exact hretd
    · exact hfrz j q written n hq hretd hn
  | move hmove =>
    have hlat := ControlWorld.moves_later hmove
    rcases hfrz j q written n hq hretd hn with hsin | hctl
    · exact .inl (unfrozenSince_later hlat hsin)
    · right
      have hsame : ∀ w : ControlWorld, ControlWorld.laws.moves s.world w → w.control = s.world.control := by
        rintro w (⟨span, rfl⟩ | ⟨scope, expectedEpoch, frozen, reason, issuedBy, issuedAt, rfl⟩)
        · rfl
        · rfl
      rw [hsame _ hmove]
      exact hctl

end Steps

/-- Freezes that have returned hold in every run. -/
theorem frozen (hscopes : config.scopes ≠ [])
    (hs : ProcPool.Reaches (guardedControl config) { world := .new store } s) : Frozen config s := by
  induction hs with
  | refl =>
    intro j q written n hq
    cases hq
  | tail hs hstep ih => exact ih.step hs hscopes hstep

/-- **A failed unfreeze leaves the store frozen.** -/
theorem unfreezeFailed_frozen
    (hs : ProcPool.Reaches (guardedControl config) { world := .new store } s) {j : Nat} {q : ControlProc}
    (hq : s.procs[j]? = some q) (hfail : unfreezeFailed q = true) :
    ∃ entry, q.log.getLast? = some entry ∧
      entry.world.store.frozen config.primaryScope = true := by
  have hlost : LostAll q.log := by
    have hkeeps := keeps hs hq
    obtain ⟨call, rest, log, live⟩ := q
    cases call with
    | refresh => cases hfail
    | freezeReplicated reason issuedBy => cases hfail
    | unfreezeReplicated issuedBy =>
      cases rest with
      | ask o next => cases hfail
      | pure result =>
        cases result with
        | ok state => cases hfail
        | error error => exact hkeeps.returned rfl
  have hcall : ∃ issuedBy, q.call = .unfreezeReplicated issuedBy := by
    obtain ⟨call, rest, log, live⟩ := q
    cases call with
    | refresh => cases hfail
    | freezeReplicated reason issuedBy => cases hfail
    | unfreezeReplicated issuedBy => exact ⟨issuedBy, rfl⟩
  obtain ⟨before, entry, hlog, hent, hcnt⟩ := hlost
  refine ⟨entry, by rw [hlog]; simp, ?_⟩
  have hmade := made hs hq hlog
  have hordd := (past hs hq).ordered
  obtain ⟨issuedBy, hcall⟩ := hcall
  obtain ⟨w, op, ret⟩ := entry
  cases op with
  | get scope => cases hent
  | replaceReplicated taken => cases hent
  | setFrozen reason => cases hent
  | clearFrozen => cases hent
  | set scope expectedEpoch frozen reason issuedBy' =>
    cases ret with
    | ok state => cases hent
    | error error =>
      obtain ⟨⟨rfl, past, v, r, rfl, hexpected, -⟩, -, hunfreezes⟩ := hmade.allowed
      obtain rfl := hunfreezes issuedBy hcall
      -- what was read before the attempt
      have hread : Made config store q.call past ⟨v, .get config.primaryScope, r⟩ := by
        have hsp : q.log = past ++ ⟨v, .get config.primaryScope, r⟩ :: [⟨w, .set config.primaryScope
            expectedEpoch false reason issuedBy', .error error⟩] := by
          rw [hlog, List.append_assoc]
          rfl
        exact made hs hq hsp
      obtain ⟨v', issuedAt, hrun⟩ := hread.answered
      obtain ⟨hr, -⟩ := Prod.mk.inj hrun
      have hep : v.store.epoch config.primaryScope = expectedEpoch := by
        rw [hexpected, show r = v.store.get config.primaryScope from hr]
        rfl
      -- the attempt lost to what was written in between
      have hlat : ControlWorld.Later v w := by
        rw [hlog, List.append_assoc, List.pairwise_append] at hordd
        obtain ⟨v'', hanss, hlat⟩ := (List.pairwise_cons.mp hordd.2.1).1 _ List.mem_cons_self
        exact (ControlWorld.answers_later hanss).trans _ _ _ hlat
      obtain ⟨written, hwrs, hwrtn⟩ := hlat
      obtain ⟨w', issuedAt', hset⟩ := hmade.answered
      rw [ControlWorld.run] at hset
      have hmvd : w.store.epoch config.primaryScope ≠ expectedEpoch := by
        rcases w.set_cases config.primaryScope expectedEpoch false reason issuedBy' issuedAt' with
          ⟨hmvd, -⟩ | ⟨state, -, -, -, -, hok⟩
        · exact hmvd
        · rw [hok] at hset
          cases (Prod.mk.inj hset).1
      have hsome : GovernanceStore.writesOf config.primaryScope written ≠ [] := by
        intro hnone
        have hsame := (GovernanceStore.epochs hwrtn config.primaryScope).2
        rw [hnone, List.length_nil, Nat.add_zero, hep] at hsame
        exact hmvd hsame
      -- and the last of it was a freeze
      have hloses := hmade.loses _ _ _ _ rfl
      unfold losesToFreeze at hloses
      have hlast : lastRead config.primaryScope (past ++ [⟨v, .get config.primaryScope, r⟩]) =
          some ⟨v, .get config.primaryScope, r⟩ := by
        unfold lastRead
        rw [List.reverse_append]
        simp [readsScope]
      have hdrop : w.writes.drop v.writes.length = written := by
        rw [hwrs, List.drop_left]
      rw [hcnt, hlast, Option.all_some, hdrop] at hloses
      unfold GovernanceStore.frozen
      rw [GovernanceStore.last hwrtn, List.getLast?_eq_getLast_of_ne_nil hsome]
      rw [List.getLast?_eq_getLast_of_ne_nil hsome] at hloses
      simpa using hloses

/-- **A write that landed is in the store's history**, where its call found it. -/
theorem landed_at (hs : ProcPool.Reaches (guardedControl config) { world := .new store } s) {j : Nat} {q : ControlProc}
    (hq : s.procs[j]? = some q) {scope : GovernanceScope} {expectedEpoch : Nat}
    {frozen : Bool} {reason : Option String} {issuedBy : Option SubjectRef} {state : GovernanceState}
    (hent : ⟨w, .set scope expectedEpoch frozen reason issuedBy, .ok state⟩ ∈ q.log) :
    s.world.writes[w.writes.length]? = some state ∧ state.scope = scope ∧ state.frozen = frozen ∧
      state.epoch = expectedEpoch + 1 := by
  obtain ⟨w', ⟨issuedAt, hrun⟩, hlat⟩ := (past hs hq).here _ hent
  rw [ControlWorld.run] at hrun
  rcases w.set_cases scope expectedEpoch frozen reason issuedBy issuedAt with
    ⟨-, hset⟩ | ⟨state', hep, hscp, hfrz, hnext, hset⟩
  · rw [hset] at hrun
    cases (Prod.mk.inj hrun).1
  · rw [hset] at hrun
    obtain ⟨hok, rfl⟩ := Prod.mk.inj hrun
    obtain rfl := Except.ok.inj hok
    refine ⟨hlat.getElem? ?_, hscp, hfrz, by rw [hnext, hep]⟩
    exact List.getElem?_concat_length

/-! ## Freezes take effect and stay -/

/-- What is asked of the calls on a control over a store. -/
structure TakesEffect (config : GovernanceMirrorConfig) (store : GovernanceStore) (s : ControlPool) : Prop where
  /-- Until an unfreeze is written after a freeze that has returned, the control refuses. -/
  freezes : ∀ q ∈ s.procs, ∀ written, freezeReturned q = some written → ∃ n, frozeAt q.log = some n ∧
    (unfrozenSince config n s.world = true ∨ ∃ error, s.world.check config = .error error)
  epochs : ∀ scope, (GovernanceStore.writesOf scope s.world.writes).map (·.epoch) =
      List.range' (store.epoch scope + 1) (GovernanceStore.writesOf scope s.world.writes).length ∧
    s.world.store.get scope =
      (GovernanceStore.writesOf scope s.world.writes).getLast?.or (store.get scope)
  /-- No write that was answered is lost. -/
  kept : ∀ q ∈ s.procs, ∀ w scope expectedEpoch frozen reason issuedBy state,
    ⟨w, .set scope expectedEpoch frozen reason issuedBy, .ok state⟩ ∈ q.log →
      s.world.writes[w.writes.length]? = some state ∧ state.scope = scope ∧ state.frozen = frozen ∧
        state.epoch = expectedEpoch + 1
  /-- When an unfreeze returns an error, the store holds a freeze. -/
  unfreezes : ∀ q ∈ s.procs, unfreezeFailed q = true → ∃ entry, q.log.getLast? = some entry ∧
    entry.world.store.frozen config.primaryScope = true

/-- **A replicated freeze takes effect and stays**, in every run whose accesses are as `allows` has it. -/
theorem freezes_hold (config : GovernanceMirrorConfig) (hscopes : config.scopes ≠ []) (store : GovernanceStore)
    (s : ControlPool) (hs : ProcPool.Reaches (guardedControl config) { world := .new store } s) :
    TakesEffect config store s where
  freezes q hq written hreturned := by
    obtain ⟨j, hq⟩ := List.mem_iff_getElem?.mp hq
    have hplace : ∃ n, frozeAt q.log = some n := by
      obtain ⟨hcall, hpost⟩ := returned_freeze hs hq hreturned
      cases written with
      | true =>
        rw [if_pos rfl] at hpost
        obtain ⟨before, entry, reads, v, taken, hlog, hlanded, hops⟩ := hpost
        have hentry : entry ∈ q.log := by
          rw [hlog]
          simp
        exact ⟨_, frozeAt_wroteAndRead hlog hops (landed_written hs hq hcall hentry hlanded).1⟩
      | false =>
        rw [if_neg Bool.false_ne_true] at hpost
        obtain ⟨before, w, reason, hlog⟩ := hpost
        exact ⟨_, frozeAt_setFrozen hlog⟩
    obtain ⟨n, hn⟩ := hplace
    refine ⟨n, hn, ?_⟩
    rcases frozen hscopes hs j q written n hq hreturned hn with hsince | hcontrol
    · exact .inl hsince
    · right
      apply ControlState.check_of_frozen
      unfold ControlState.isFrozen
      cases written with
      | true => rw [show s.world.control.replicated.isSome = true from hcontrol, Bool.or_true]
      | false => rw [show s.world.control.frozen = true from hcontrol, Bool.true_or]
  epochs scope := ⟨(GovernanceStore.epochs (written hs) scope).1, GovernanceStore.last (written hs) scope⟩
  kept q hq w scope expectedEpoch frozen reason issuedBy state hentry := by
    obtain ⟨j, hq⟩ := List.mem_iff_getElem?.mp hq
    exact landed_at hs hq hentry
  unfreezes q hq hfailed := by
    obtain ⟨j, hq⟩ := List.mem_iff_getElem?.mp hq
    exact unfreezeFailed_frozen hs hq hfailed

/-- A refresh is half way when a freeze is written; it reads again before it takes over what it read. -/
def heldRun : ControlPool :=
  [.start .refresh, .act 0, .start (.freezeReplicated "incident 7" none), .act 1, .act 1, .act 1, .act 1,
    .act 0, .start .refresh, .act 2, .act 2].foldl (ProcPool.next (guardedControl {}) (ControlWorld.run 0))
      { world := .new {} }

theorem freezes_hold_written : TakesEffect {} {} heldRun ∧
    heldRun.procs.any (fun q => freezeReturned q = some true) = true ∧
      heldRun.world.control.replicated = some "incident 7" := by
  have hreaches : ProcPool.Reaches (guardedControl {}) { world := .new {} } heldRun := by
    apply ProcPool.reaches_foldl
    exact fun _ _ => ⟨0, rfl⟩
  exact ⟨freezes_hold {} (List.cons_ne_nil _ _) {} heldRun hreaches, by decide +kernel, by decide +kernel⟩

instance (config : GovernanceMirrorConfig) : ∀ s call, Decidable ((mirroredControl config).starts s call) :=
  fun _ _ => inferInstanceAs (Decidable True)

instance (config : GovernanceMirrorConfig) : ∀ s i op, Decidable ((mirroredControl config).acts s i op) :=
  fun _ _ _ => inferInstanceAs (Decidable True)

/-- A refresh reads the store, a freeze is written and returns, and the refresh takes over what it read. -/
def liftedRun : ControlPool :=
  [.start .refresh, .act 0, .start (.freezeReplicated "incident 7" none), .act 1, .act 1, .act 1, .act 1,
    .act 0].foldl (ProcPool.next (mirroredControl {}) (ControlWorld.run 0)) { world := .new {} }

/-- A stale read lifts a freeze that is in force. -/
theorem freezes_fail : ¬ ∀ (config : GovernanceMirrorConfig) (store : GovernanceStore) (s : ControlPool),
    ProcPool.Reaches (mirroredControl config) { world := .new store } s → TakesEffect config store s := by
  intro h
  have hreaches : ProcPool.Reaches (mirroredControl {}) { world := .new {} } liftedRun := by
    apply ProcPool.reaches_foldl
    exact fun _ _ => ⟨0, rfl⟩
  have htakes := h {} {} liftedRun hreaches
  have hreturned : liftedRun.procs.any (fun q => freezeReturned q = some true && frozeAt q.log = some 1) = true := by
    decide +kernel
  obtain ⟨q, hq, hfreeze⟩ := List.any_eq_true.mp hreturned
  rw [Bool.and_eq_true, decide_eq_true_eq, decide_eq_true_eq] at hfreeze
  obtain ⟨n, hn, hholds⟩ := htakes.freezes q hq true hfreeze.1
  rw [hfreeze.2] at hn
  obtain rfl := Option.some.inj hn
  rcases hholds with hsince | ⟨error, herror⟩
  · have hnot : unfrozenSince {} 1 liftedRun.world = false := by decide +kernel
    rw [hnot] at hsince
    cases hsince
  · have hok : (liftedRun.world.check {}).isOk = true := by decide +kernel
    rw [herror] at hok
    cases hok

end FreezeRun
end Adk
