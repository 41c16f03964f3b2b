import AdkRust.Budget.Counts

/-!
# Calls that overlap

Runs of any calls on a tree of budgets, one access at a time.

* `counted`: what was granted and not released at a moment; `climbing`: what the calls that are neither granted
  nor refused have counted so far.
* `BudgetRun.system`: all runs that release no more than was granted.
* `BudgetRun.steady`: the runs in which no count that a refusal rests on is taken back.
* `Safe`, `safe_reaches`: in such runs the counters are what was added less what was taken back, within the limits.
-/

namespace Adk

open ProcPool

namespace BudgetPool

variable (tree : BudgetTree)

/-! ## What the calls have come to -/

/-- A call began and was granted. -/
def granted (proc : BudgetProc) : Bool := !proc.call.releases && proc.returned.any proc.call.granted

/-- A call began and was refused, whether or not it has taken all back. -/
def refused (proc : BudgetProc) : Bool := !proc.call.releases && proc.log.any BudgetEntry.refuses

def grants (k : Counter) (n : Nat) (proc : BudgetProc) : Nat :=
  if granted proc then proc.call.share tree k n else 0

/-- What a release is to give back. -/
def asks (k : Counter) (n : Nat) (proc : BudgetProc) : Nat :=
  if proc.call.releases then proc.call.share tree k n else 0

/-- What a call that is neither granted nor refused has counted so far. -/
def holds (k : Counter) (n : Nat) (proc : BudgetProc) : Nat :=
  if proc.call.releases || granted proc || refused proc then 0 else added k n proc.log

/-- What a call that was granted before a moment counts for. -/
def grantsBy (τ : Nat) (k : Counter) (n : Nat) (proc : BudgetProc) : Nat :=
  if granted proc && proc.log.all (·.world.ticks < τ) then proc.call.share tree k n else 0

/-- What a release that began before a moment gives back. -/
def givesBy (τ : Nat) (k : Counter) (n : Nat) (proc : BudgetProc) : Nat :=
  if proc.call.releases && proc.log.any (·.world.ticks < τ) then proc.call.share tree k n else 0

/-- What was granted and not released at a moment. -/
def counted (s : BudgetPool) (τ : Nat) : Usage := fun k n =>
  tally (grantsBy tree τ k n) s.procs - tally (givesBy tree τ k n) s.procs

/-- What calls that are neither granted nor refused have counted so far. -/
def climbing (procs : List BudgetProc) : Usage := fun k n => tally (holds k n) procs

def refusals (procs : List BudgetProc) : List BudgetCall :=
  procs.filterMap fun proc => if refused proc then some proc.call else none

/-- A call did not fit into what was granted and not released at some moment so far. -/
def WasCrowded (s : BudgetPool) (call : BudgetCall) : Prop :=
  ∃ τ ∈ List.range (s.world.ticks + 1), tree.Crowded (counted tree s τ) call

instance (s : BudgetPool) (call : BudgetCall) : Decidable (WasCrowded tree s call) := by
  unfold WasCrowded
  infer_instance

/-- A refusal stands when a release gives its share back and only some of the calls go on. -/
def Stands (s : BudgetPool) (given : Usage) (others : List BudgetProc) (call : BudgetCall) : Prop :=
  WasCrowded tree s call ∨
    tree.Crowded (fun k n => counted tree s s.world.ticks k n - given k n + climbing others k n) call

instance (s : BudgetPool) (given : Usage) (others : List BudgetProc) (call : BudgetCall) :
    Decidable (Stands tree s given others call) := by
  unfold Stands
  infer_instance

end BudgetPool

namespace BudgetRun

open BudgetPool

def grantedTools (proc : BudgetProc) : Nat :=
  if granted proc && proc.call.counter = .toolCalls then proc.call.count else 0

def releasedTools (proc : BudgetProc) : Nat := if proc.call.releases then proc.call.count else 0

/-- Only granted calls are released, on the tracker that granted them. -/
def Starts (s : BudgetPool) (call : BudgetCall) : Prop :=
  call.releases = true → call.count +
    tally (fun proc => if proc.call.tracker = call.tracker then releasedTools proc else 0) s.procs ≤
    tally (fun proc => if proc.call.tracker = call.tracker then grantedTools proc else 0) s.procs

instance (s : BudgetPool) (call : BudgetCall) : Decidable (Starts s call) := by
  unfold Starts
  infer_instance

def callAt (s : BudgetPool) (i : Nat) : List BudgetCall := (s.procs[i]?.map (·.call)).toList

/-- No sum saturates, and no count that a refusal rests on is taken back: neither the counts of a call that is
refused now, nor those of a release that begins now. -/
def Keeping (tree : BudgetTree) (s : BudgetPool) (i : Nat) : BudgetOp → Prop
  | .reserve k n count max =>
    if max.any (· < saturatingAdd (s.world.used k n) count) then
      ∀ call ∈ callAt s i ++ refusals s.procs, Stands tree s (fun _ _ => 0) (s.procs.eraseIdx i) call
    else s.world.used k n + count ≤ maxAmount
  | .release _ _ => s.logOf i = [] → ∀ own ∈ callAt s i, ∀ call ∈ refusals s.procs,
      Stands tree s (own.share tree) s.procs call
  | _ => True

instance (tree : BudgetTree) (s : BudgetPool) (i : Nat) (op : BudgetOp) : Decidable (Keeping tree s i op) := by
  cases op with
  | load k n => exact .isTrue trivial
  | reserve k n count max =>
    unfold Keeping
    infer_instance
  | fetchSub k n count => exact .isTrue trivial
  | release n count =>
    unfold Keeping
    infer_instance

/-- All runs that release no more than was granted. -/
def system (tree : BudgetTree) : System BudgetCall.Res BudgetOp.Ret BudgetWorld where
  laws := BudgetWorld.laws
  program := BudgetCall.program tree
  starts := Starts

/-- The runs in which no count that a refusal rests on is taken back. -/
def steady (tree : BudgetTree) : System BudgetCall.Res BudgetOp.Ret BudgetWorld where
  laws := BudgetWorld.laws
  program := BudgetCall.program tree
  starts := Starts
  acts := Keeping tree

/-- No call has been made yet. -/
def idle : BudgetPool where
  world := {}

/-! ## What each call has come to -/

section Each

variable {tree : BudgetTree} {proc : BudgetProc} {op : BudgetOp} {k : Counter} {n : Nat}
  {next : op.Ret → Prog BudgetOp BudgetOp.Ret (BudgetCall.Res proc.call)}

/-- The log of a call is as its code ensures. -/
abbrev Kept (tree : BudgetTree) (proc : BudgetProc) : Prop :=
  Keeps BudgetWorld.laws (BudgetCall.Before tree) (BudgetCall.After tree) proc

theorem granted_ask (hrest : proc.rest = .ask op next) : granted proc = false := by
  unfold granted Proc.returned
  rw [hrest, Bool.and_eq_false_iff]
  exact .inr rfl

theorem granted_pure {result : BudgetCall.Res proc.call} (hrest : proc.rest = .pure result) :
    granted proc = (!proc.call.releases && proc.call.granted result) := by
  unfold granted Proc.returned
  rw [hrest]
  rfl

theorem Kept.climbs (h : Kept tree proc) (hgr : granted proc = true) :
    proc.call.releases = false ∧ Climbs proc.call (tree.chain proc.call.tracker) proc.log := by
  cases hrest : proc.rest with
  | ask op next =>
    rw [granted_ask hrest] at hgr
    cases hgr
  | pure result =>
    rw [granted_pure hrest, Bool.and_eq_true, Bool.not_eq_true'] at hgr
    have haft := h.returned hrest
    unfold BudgetCall.After at haft
    rw [hgr.1, hgr.2, if_neg Bool.false_ne_true, if_pos rfl] at haft
    exact ⟨hgr.1, haft⟩

theorem Kept.unrefused (h : Kept tree proc) (hgr : granted proc = true) : refused proc = false := by
  unfold refused
  rw [(h.climbs hgr).2.unrefused, Bool.and_false]

theorem granted_stop : granted { proc with live := false } = granted proc := by
  obtain ⟨call, rest, log, live⟩ := proc
  cases rest with
  | pure result => rfl
  | ask op next => rfl

theorem refused_of (hbegs : proc.call.releases = false)
    (hlog : proc.log.any BudgetEntry.refuses = true) : refused proc = true := by
  unfold refused
  rw [hbegs, hlog]
  rfl

theorem not_refused_of (hlog : proc.log.any BudgetEntry.refuses = false) : refused proc = false := by
  unfold refused
  rw [hlog, Bool.and_false]

theorem grants_eq_zero (h : granted proc = false) : grants tree k n proc = 0 := by
  unfold grants
  rw [h, if_neg Bool.false_ne_true]

theorem holds_eq_zero (h : proc.call.releases = true ∨ granted proc = true ∨ refused proc = true) :
    holds k n proc = 0 := by
  unfold holds
  rw [if_pos]
  rcases h with h | h | h
  · rw [h]
    rfl
  · rw [h, Bool.or_true]
    rfl
  · rw [h, Bool.or_true]

theorem holds_le : holds k n proc ≤ added k n proc.log := by
  unfold holds
  by_cases h : (proc.call.releases || granted proc || refused proc) = true
  · rw [if_pos h]
    exact Nat.zero_le _
  · rw [if_neg h]

theorem asks_begin (h : proc.call.releases = false) : asks tree k n proc = 0 := by
  unfold asks
  rw [h, if_neg Bool.false_ne_true]

theorem asks_release (h : proc.call.releases = true) : asks tree k n proc = proc.call.share tree k n := by
  unfold asks
  rw [if_pos h]

/-- What a call has to spare in a counter: what it is about to take back there. -/
def spare (k : Counter) (n : Nat) : BudgetOp → Nat
  | .fetchSub k' n' count => if k = k' ∧ n = n' then count else 0
  | .release n' count => if k = .toolCalls ∧ n = n' then count else 0
  | _ => 0

/-- A call that has not returned has counted more than it has taken back and holds, by what it is about to take
back. -/
theorem Kept.balance_ask (h : Kept tree proc) (hrest : proc.rest = .ask op next) :
    takenBack k n proc.log + grants tree k n proc + holds k n proc + spare k n op ≤
      added k n proc.log + asks tree k n proc := by
  have hbef := h.performs hrest
  have hle := @holds_le proc k n
  rw [grants_eq_zero (granted_ask hrest)]
  cases op with
  | load k' n' =>
    obtain ⟨-, -, hclimbs⟩ := hbef
    have := hclimbs.kept k n
    show _ + 0 ≤ _
    omega
  | reserve k' n' count max =>
    obtain ⟨-, -, -, -, -, done, later, -, hclimbs⟩ := hbef
    have := hclimbs.kept k n
    show _ + 0 ≤ _
    omega
  | fetchSub k' n' count =>
    obtain ⟨hbegs, rfl, rfl, done, later, hchn, hbacks⟩ := hbef
    rw [holds_eq_zero (.inr (.inr (refused_of hbegs hbacks.refused))), hbacks.added,
      part_concat (not_mem_done (tree.nodup_chain _) hchn)]
    show _ + (if k = proc.call.counter ∧ n = n' then _ else _) ≤ _
    omega
  | release n' count =>
    obtain ⟨hrel, hcounter, rfl, done, later, hchn, hgives⟩ := hbef
    rw [holds_eq_zero (.inl hrel), asks_release hrel, hgives.takenBack, share_eq]
    -- the tracker is one more of the chain
    have hnext := @part_concat proc.call k n' n done (not_mem_done (tree.nodup_chain _) hchn)
    have hle : proc.call.part (done ++ [n']) k n ≤ proc.call.part (tree.chain proc.call.tracker) k n := by
      refine part_le fun m hm => ?_
      rw [hchn]
      rcases List.mem_append.mp hm with hm | hm
      · exact List.mem_append_left _ hm
      · obtain rfl := List.mem_singleton.mp hm
        exact List.mem_append_right _ List.mem_cons_self
    rw [hcounter] at hnext
    show _ + (if k = .toolCalls ∧ n = n' then _ else _) ≤ _
    omega

theorem Kept.balance (h : Kept tree proc) : takenBack k n proc.log + grants tree k n proc + holds k n proc ≤
    added k n proc.log + asks tree k n proc := by
  cases hrest : proc.rest with
  | ask op next =>
    have := h.balance_ask (k := k) (n := n) hrest
    omega
  | pure result =>
    have haft := h.returned hrest
    have hgr := granted_pure hrest
    unfold BudgetCall.After at haft
    by_cases hrel : proc.call.releases = true
    · rw [if_pos hrel] at haft
      rw [hrel] at hgr
      rw [holds_eq_zero (.inl hrel), grants_eq_zero hgr, asks_release hrel, haft.1.takenBack,
        share_eq]
      omega
    · rw [if_neg hrel] at haft
      replace hrel : proc.call.releases = false := Bool.eq_false_iff.mpr hrel
      by_cases hres : proc.call.granted result = true
      · rw [if_pos hres] at haft
        replace hgr : granted proc = true := by rw [hgr, hrel, hres]; rfl
        have := haft.kept k n
        rw [holds_eq_zero (.inr (.inl hgr)), haft.added, grants, if_pos hgr, share_eq]
        omega
      · rw [if_neg hres] at haft
        replace hres : proc.call.granted result = false := Bool.eq_false_iff.mpr hres
        rw [hres, Bool.and_false] at hgr
        rw [grants_eq_zero hgr]
        rcases haft with hbacks | ⟨hclimbs, -⟩
        · rw [holds_eq_zero (.inr (.inr (refused_of hrel hbacks.refused))), hbacks.added, part_nil]
          omega
        · have := hclimbs.kept k n
          have := @holds_le proc k n
          omega

end Each

/-! ## What an access does -/

section Access

variable {op : BudgetOp} {r : op.Ret} {w w' : BudgetWorld}

theorem run_ticks (hrun : (r, w') = BudgetWorld.run op w) : w'.ticks = w.ticks + 1 := by
  cases op with
  | load k n =>
    obtain ⟨-, rfl⟩ := Prod.mk.inj hrun
    rfl
  | reserve k n count max =>
    unfold BudgetWorld.run at hrun
    dsimp only at hrun
    split at hrun
    · obtain ⟨-, rfl⟩ := Prod.mk.inj hrun
      rfl
    · obtain ⟨-, rfl⟩ := Prod.mk.inj hrun
      rfl
  | fetchSub k n count =>
    obtain ⟨-, rfl⟩ := Prod.mk.inj hrun
    rfl
  | release n count =>
    obtain ⟨-, rfl⟩ := Prod.mk.inj hrun
    rfl

/-- An access adds and takes back in full where the sum fits and what it takes back is there. -/
theorem run_used (hrun : (r, w') = BudgetWorld.run op w) (hspare : ∀ k n, spare k n op ≤ w.used k n)
    (hbounded : ∀ k n, w.used k n ≤ maxAmount)
    (hfits : ∀ k n count max, op = .reserve k n count max →
      max.any (· < saturatingAdd (w.used k n) count) = false → w.used k n + count ≤ maxAmount) (k : Counter)
    (n : Nat) : w'.used k n + BudgetEntry.takenBack k n ⟨w, op, r⟩ =
      w.used k n + BudgetEntry.added k n ⟨w, op, r⟩ := by
  cases op with
  | load k' n' =>
    obtain ⟨-, rfl⟩ := Prod.mk.inj hrun
    rfl
  | reserve k' n' count max =>
    unfold BudgetWorld.run at hrun
    dsimp only at hrun
    split at hrun
    · obtain ⟨rfl, rfl⟩ := Prod.mk.inj hrun
      rfl
    next hroom =>
      obtain ⟨rfl, rfl⟩ := Prod.mk.inj hrun
      have hle := hfits k' n' count max rfl (Bool.eq_false_iff.mpr hroom)
      show (if k = k' ∧ n = n' then _ else _) + 0 = _ + if k = k' ∧ n = n' then _ else _
      by_cases h : k = k' ∧ n = n'
      · obtain ⟨rfl, rfl⟩ := h
        rw [if_pos ⟨rfl, rfl⟩, if_pos ⟨rfl, rfl⟩, BudgetWorld.saturatingAdd_of_le hle]
        omega
      · rw [if_neg h, if_neg h]
  | fetchSub k' n' count =>
    obtain ⟨rfl, rfl⟩ := Prod.mk.inj hrun
    have hsub : (if k = k' ∧ n = n' then count else 0) ≤ w.used k n := hspare k n
    show (if k = k' ∧ n = n' then _ else _) + (if k = k' ∧ n = n' then _ else _) = _ + 0
    by_cases h : k = k' ∧ n = n'
    · obtain ⟨rfl, rfl⟩ := h
      rw [if_pos ⟨rfl, rfl⟩] at hsub
      rw [if_pos ⟨rfl, rfl⟩, if_pos ⟨rfl, rfl⟩]
      obtain ⟨rest, hrest⟩ := Nat.exists_eq_add_of_le' hsub
      have hb := hbounded k n
      rw [hrest] at hb ⊢
      rw [BudgetWorld.wrapping_sub hb]
      omega
    · rw [if_neg h, if_neg h]
  | release n' count =>
    obtain ⟨rfl, rfl⟩ := Prod.mk.inj hrun
    have hsub : (if k = .toolCalls ∧ n = n' then count else 0) ≤ w.used k n := hspare k n
    show (if k = .toolCalls ∧ n = n' then _ else _) + (if k = .toolCalls ∧ n = n' then _ else _) = _ + 0
    by_cases h : k = .toolCalls ∧ n = n'
    · obtain ⟨rfl, rfl⟩ := h
      rw [if_pos ⟨rfl, rfl⟩] at hsub
      rw [if_pos ⟨rfl, rfl⟩, if_pos ⟨rfl, rfl⟩]
      omega
    · rw [if_neg h, if_neg h]

/-- What an access adds goes past no limit. -/
theorem run_room {tree : BudgetTree} (hrun : (r, w') = BudgetWorld.run op w) (k : Counter) (n : Nat)
    (hmax : ∀ k n count max, op = .reserve k n count max → max = tree.max k n)
    (hfits : ∀ k n count max, op = .reserve k n count max →
      max.any (· < saturatingAdd (w.used k n) count) = false → w.used k n + count ≤ maxAmount)
    (hnone : 0 < BudgetEntry.added k n ⟨w, op, r⟩) :
    w.used k n + BudgetEntry.added k n ⟨w, op, r⟩ ≤ maxAmount ∧
      (tree.max k n).any (· < w.used k n + BudgetEntry.added k n ⟨w, op, r⟩) = false := by
  cases op with
  | load k' n' => exact absurd hnone (Nat.lt_irrefl 0)
  | fetchSub k' n' count => exact absurd hnone (Nat.lt_irrefl 0)
  | release n' count => exact absurd hnone (Nat.lt_irrefl 0)
  | reserve k' n' count max =>
    unfold BudgetWorld.run at hrun
    dsimp only at hrun
    split at hrun
    · obtain ⟨rfl, rfl⟩ := Prod.mk.inj hrun
      exact absurd hnone (Nat.lt_irrefl 0)
    next hroom =>
      obtain ⟨rfl, rfl⟩ := Prod.mk.inj hrun
      obtain rfl := hmax k' n' count max rfl
      replace hroom := Bool.eq_false_iff.mpr hroom
      have hle := hfits k' n' count _ rfl hroom
      have hadd : BudgetEntry.added k n ⟨w, .reserve k' n' count (tree.max k' n'), .ok ()⟩ =
          if k = k' ∧ n = n' then count else 0 := rfl
      rw [hadd] at hnone ⊢
      by_cases h : k = k' ∧ n = n'
      · obtain ⟨rfl, rfl⟩ := h
        rw [if_pos ⟨rfl, rfl⟩]
        rw [BudgetWorld.saturatingAdd_of_le hle] at hroom
        exact ⟨hle, hroom⟩
      · rw [if_neg h] at hnone
        exact absurd hnone (Nat.lt_irrefl 0)

end Access

/-! ## What every step keeps -/

/-- The counters are what was added less what was taken back, within the limits, and no more is released than
was granted. -/
structure Safe (tree : BudgetTree) (s : BudgetPool) : Prop where
  kept : ∀ proc ∈ s.procs, Kept tree proc
  timely : ∀ proc ∈ s.procs, ∀ entry ∈ proc.log, entry.world.ticks < s.world.ticks
  owed : ∀ t, tally (fun proc => if proc.call.tracker = t then releasedTools proc else 0) s.procs ≤
    tally (fun proc => if proc.call.tracker = t then grantedTools proc else 0) s.procs
  balance : ∀ k n, s.world.used k n + tally (fun proc => takenBack k n proc.log) s.procs =
    tally (fun proc => added k n proc.log) s.procs
  bounded : ∀ k n, s.world.used k n ≤ maxAmount
  within : ∀ k n, (tree.max k n).any (· < s.world.used k n) = false

section Safe

variable {tree : BudgetTree} {s s' : BudgetPool} {k : Counter} {n : Nat}

/-- No more is released in a subtree than was granted in it. -/
theorem Safe.asks_le (h : Safe tree s) : tally (asks tree k n) s.procs ≤ tally (grants tree k n) s.procs := by
  cases k with
  | modelCalls =>
    have hzero : tally (asks tree .modelCalls n) s.procs = 0 := by
      apply tally_zero
      intro proc _
      unfold asks BudgetCall.share
      cases hcall : proc.call with
      | beginModelCall m => rfl
      | beginToolCalls m count => rfl
      | releaseToolCalls m count => rfl
    rw [hzero]
    exact Nat.zero_le _
  | toolCalls =>
    have hkeys := tally_keys h.owed fun t => n ∈ tree.chain t
    have hasks : tally (asks tree .toolCalls n) s.procs = tally (fun proc =>
        if n ∈ tree.chain proc.call.tracker then releasedTools proc else 0) s.procs := by
      apply tally_congr
      intro proc _
      unfold asks BudgetCall.share releasedTools
      cases hcall : proc.call with
      | beginModelCall m => exact (ite_self 0).symm
      | beginToolCalls m count => exact (ite_self 0).symm
      | releaseToolCalls m count => simp [BudgetCall.releases, BudgetCall.counter]
    have hgrs : tally (grants tree .toolCalls n) s.procs = tally (fun proc =>
        if n ∈ tree.chain proc.call.tracker then grantedTools proc else 0) s.procs := by
      apply tally_congr
      intro proc _
      unfold grants BudgetCall.share grantedTools
      by_cases hg : granted proc = true
      · by_cases hk : proc.call.counter = .toolCalls
        · simp [hg, hk]
        · simp [hg, hk, Ne.symm hk]
      · simp [hg]
    rw [hasks, hgrs]
    exact hkeys

variable {i : Nat} {proc : BudgetProc} {op : BudgetOp}

/-- What was granted, what is climbing and what is about to be taken back is within the counter. -/
theorem Safe.counted_le (h : Safe tree s) {next : op.Ret → Prog BudgetOp BudgetOp.Ret (BudgetCall.Res proc.call)}
    (hproc : s.procs[i]? = some proc) (hrest : proc.rest = .ask op next) :
    tally (grants tree k n) s.procs + climbing s.procs k n + spare k n op ≤
      s.world.used k n + tally (asks tree k n) s.procs := by
  have hsum := tally_mono_at hproc (fun q hq => (h.kept q hq).balance (k := k) (n := n))
    ((h.kept proc (List.mem_of_getElem? hproc)).balance_ask (k := k) (n := n) hrest)
  rw [tally_add, tally_add, tally_add] at hsum
  have := h.balance k n
  unfold climbing
  omega

theorem Safe.spare_le (h : Safe tree s) {next : op.Ret → Prog BudgetOp BudgetOp.Ret (BudgetCall.Res proc.call)}
    (hproc : s.procs[i]? = some proc) (hrest : proc.rest = .ask op next) : spare k n op ≤ s.world.used k n := by
  have := h.counted_le (k := k) (n := n) hproc hrest
  have := h.asks_le (k := k) (n := n)
  omega

theorem safe_idle : Safe tree idle where
  kept _ hproc := by cases hproc
  timely _ hproc := by cases hproc
  owed _ := Nat.le_refl _
  balance _ _ := rfl
  bounded _ _ := Nat.zero_le _
  within k n := by
    cases tree.max k n with
    | none => rfl
    | some max => exact decide_eq_false (Nat.not_lt_zero max)

theorem Safe.start (h : Safe tree s) {call : BudgetCall} (hstarts : Starts s call)
    (hkept : ∀ proc ∈ (s.start (steady tree) call).procs, Kept tree proc) :
    Safe tree (s.start (steady tree) call) where
  kept := hkept
  timely proc hproc entry hent := by
    rcases List.mem_append.mp hproc with hproc | hproc
    · exact h.timely proc hproc entry hent
    · obtain rfl := List.mem_singleton.mp hproc
      cases hent
  owed t := by
    show tally _ (s.procs ++ [_]) ≤ tally _ (s.procs ++ [_])
    rw [tally_concat, tally_concat]
    have hold := h.owed t
    by_cases ht : call.tracker = t
    · subst ht
      rw [if_pos rfl, releasedTools]
      by_cases hrel : call.releases = true
      · have := hstarts hrel
        rw [if_pos hrel]
        dsimp only
        omega
      · rw [if_neg hrel]
        omega
    · rw [if_neg ht]
      omega
  balance k n := by
    show s.world.used k n + tally _ (s.procs ++ [_]) = tally _ (s.procs ++ [_])
    rw [tally_concat, tally_concat, added_nil, takenBack_nil]
    exact h.balance k n
  bounded := h.bounded
  within := h.within

theorem Safe.act (h : Safe tree s)
    {next : op.Ret → Prog BudgetOp BudgetOp.Ret (BudgetCall.Res proc.call)} {r : op.Ret} {w : BudgetWorld}
    (hproc : s.procs[i]? = some proc) (hrest : proc.rest = .ask op next) (hacts : Keeping tree s i op)
    (hrun : (r, w) = BudgetWorld.run op s.world)
    (hkept : ∀ q ∈ s.procs.set i (proc.after s.world op r (next r)), Kept tree q) :
    Safe tree { world := w, procs := s.procs.set i (proc.after s.world op r (next r)) } := by
  have hbef := (h.kept proc (List.mem_of_getElem? hproc)).performs hrest
  have hspare : ∀ k n, spare k n op ≤ s.world.used k n := fun k n => h.spare_le hproc hrest
  have hmax : ∀ k n count max, op = .reserve k n count max → max = tree.max k n := by
    rintro k n count max rfl
    exact hbef.2.2.2.2.1
  have hfits : ∀ k n count max, op = .reserve k n count max →
      max.any (· < saturatingAdd (s.world.used k n) count) = false →
      s.world.used k n + count ≤ maxAmount := by
    rintro k n count max rfl hroom
    have hkeeping : if max.any (· < saturatingAdd (s.world.used k n) count) then _ else
      s.world.used k n + count ≤ maxAmount := hacts
    rw [if_neg (Bool.eq_false_iff.mp hroom)] at hkeeping
    exact hkeeping
  have hused := run_used hrun hspare h.bounded hfits
  have hroom := fun k n => run_room hrun k n hmax hfits
  have htks := run_ticks hrun
  refine ⟨hkept, ?_, ?_, ?_, ?_, ?_⟩
  · -- the new entry is the last one
    intro q hq entry hent
    obtain ⟨j, hj⟩ := List.mem_iff_getElem?.mp hq
    show entry.world.ticks < w.ticks
    rcases getElem?_put hproc hj with ⟨-, rfl⟩ | ⟨-, hj⟩
    · rw [Proc.after_log, List.mem_append, List.mem_singleton] at hent
      rcases hent with hent | rfl
      · have := h.timely proc (List.mem_of_getElem? hproc) entry hent
        omega
      · show s.world.ticks < w.ticks
        omega
    · have := h.timely q (List.mem_of_getElem? hj) entry hent
      omega
  · -- the call was not granted before
    intro t
    have hold := h.owed t
    have hreld := tally_set (f := fun proc : BudgetProc =>
      if proc.call.tracker = t then releasedTools proc else 0) (b := proc.after s.world op r (next r)) hproc
    have hgr := tally_set (f := fun proc : BudgetProc =>
      if proc.call.tracker = t then grantedTools proc else 0) (b := proc.after s.world op r (next r)) hproc
    have hsame : releasedTools (proc.after s.world op r (next r)) = releasedTools proc := rfl
    have hzero : grantedTools proc = 0 := by
      unfold grantedTools
      rw [granted_ask hrest]
      rfl
    rw [hsame, Proc.after_call] at hreld
    rw [hzero, ite_self] at hgr
    dsimp only
    omega
  · intro k n
    have hold := h.balance k n
    have hadd : tally (fun q => added k n q.log) (s.procs.set i (proc.after s.world op r (next r))) +
        added k n proc.log = tally (fun q => added k n q.log) s.procs +
          (added k n proc.log + BudgetEntry.added k n ⟨s.world, op, r⟩) := by
      rw [← added_concat]
      exact tally_set hproc
    have htk : tally (fun q => takenBack k n q.log) (s.procs.set i (proc.after s.world op r (next r))) +
        takenBack k n proc.log = tally (fun q => takenBack k n q.log) s.procs +
          (takenBack k n proc.log + BudgetEntry.takenBack k n ⟨s.world, op, r⟩) := by
      rw [← takenBack_concat]
      exact tally_set hproc
    have := hused k n
    dsimp only
    omega
  · intro k n
    have := hused k n
    have := h.bounded k n
    have := hroom k n
    by_cases hpos : 0 < BudgetEntry.added k n ⟨s.world, op, r⟩
    · have := (hroom k n hpos).1
      dsimp only
      omega
    · dsimp only
      omega
  · intro k n
    have hle := hused k n
    dsimp only
    by_cases hpos : 0 < BudgetEntry.added k n ⟨s.world, op, r⟩
    · have hlim := (hroom k n hpos).2
      cases hmax : tree.max k n with
      | none => rfl
      | some max =>
        rw [hmax] at hlim
        have := of_decide_eq_false hlim
        exact decide_eq_false (by omega)
    · have hlim := h.within k n
      cases hmax : tree.max k n with
      | none => rfl
      | some max =>
        rw [hmax] at hlim
        have := of_decide_eq_false hlim
        exact decide_eq_false (by omega)

theorem Safe.stop (h : Safe tree s) (hproc : s.procs[i]? = some proc)
    (hkept : ∀ q ∈ s.procs.set i { proc with live := false }, Kept tree q) :
    Safe tree { s with procs := s.procs.set i { proc with live := false } } := by
  have hsame : ∀ f : BudgetProc → Nat, f { proc with live := false } = f proc →
      tally f (s.procs.set i { proc with live := false }) = tally f s.procs := by
    intro f hf
    have := tally_set (f := f) (b := { proc with live := false }) hproc
    rw [hf] at this
    omega
  refine ⟨hkept, ?_, ?_, ?_, h.bounded, h.within⟩
  · intro q hq entry hent
    obtain ⟨j, hj⟩ := List.mem_iff_getElem?.mp hq
    rcases getElem?_put hproc hj with ⟨-, rfl⟩ | ⟨-, hj⟩
    · exact h.timely proc (List.mem_of_getElem? hproc) entry hent
    · exact h.timely q (List.mem_of_getElem? hj) entry hent
  · intro t
    dsimp only
    rw [hsame _ rfl, hsame _ (by unfold grantedTools; rw [granted_stop])]
    exact h.owed t
  · intro k n
    dsimp only
    rw [hsame _ rfl, hsame _ rfl]
    exact h.balance k n

/-- The log of every call of every run is as its code ensures. -/
theorem kept_reaches (h : Reaches (steady tree) idle s) : ∀ proc ∈ s.procs, Kept tree proc := by
  intro proc hproc
  obtain ⟨i, hi⟩ := List.mem_iff_getElem?.mp hproc
  exact h.local rfl program_local i proc hi

/-- **Every state of a steady run is safe.** -/
theorem safe_reaches (h : Reaches (steady tree) idle s) : Safe tree s := by
  induction h with
  | refl => exact safe_idle
  | tail hrea hstep ih =>
    have hkept := kept_reaches (hrea.tail hstep)
    cases hstep with
    | start hstarts => exact ih.start hstarts hkept
    | act hproc _ hrest hacts hrun => exact ih.act hproc hrest hacts hrun hkept
    | stop hproc => exact ih.stop hproc hkept
    | move h => exact h.elim

end Safe

end BudgetRun

end Adk
