import AdkRust.Budget.Steady
import Mathlib.Data.List.Permutation

/-!
# Nested budgets are linearizable

The calls of a steady run answer as the same calls do one after another (`BudgetRun.linearizable`). A granted call
takes its place in the order when it has counted in the root, and a release when it begins; a refused call
is put in where it did not fit (`BudgetTree.insert_all`).

Without the condition the claim fails: a batch that counts in a tracker until the root refuses it makes the tracker
refuse a call that fits (`BudgetRun.not_linearizable`).
-/

namespace Adk

open ProcPool

namespace BudgetPool

/-- Nothing is used. -/
def unused : Usage := fun _ _ => 0

/-- No call is in progress. -/
def Quiescent (s : BudgetPool) : Prop := ∀ proc ∈ s.procs, proc.returned.isSome = true

/-- The calls that have returned, and whether they were granted. -/
def answers (procs : List BudgetProc) : List (BudgetCall × Bool) :=
  procs.filterMap fun proc => proc.returned.map fun result => (proc.call, proc.call.granted result)

/-- What a release has begun to give back. -/
def begun (tree : BudgetTree) (k : Counter) (n : Nat) (proc : BudgetProc) : Nat :=
  if proc.call.releases && !proc.log.isEmpty then proc.call.share tree k n else 0

/-- **The calls are linearizable**: what was granted and not released is within every limit; and when no call is in
progress, the counters are what was granted and not released in their subtrees, and the calls answered as they
do in some order one after another. -/
structure Linearized (tree : BudgetTree) (s : BudgetPool) : Prop where
  within : ∀ k n max, tree.max k n = some max →
    s.world.used k n ≤ max ∧ tally (grants tree k n) s.procs ≤ max + tally (begun tree k n) s.procs
  counters : Quiescent s → ∀ k n,
    s.world.used k n + tally (asks tree k n) s.procs = tally (grants tree k n) s.procs
  order : Quiescent s → ∃ order : List (BudgetCall × Bool), order.Perm (answers s.procs) ∧
    tree.Sequential unused order ∧ tree.usedAfter unused order = s.world.used

end BudgetPool

namespace BudgetRun

open BudgetPool

/-- A call that has its place in the order. -/
def settledCall (proc : BudgetProc) : Option (BudgetCall × Bool) :=
  if granted proc || proc.call.releases && (!proc.log.isEmpty || proc.returned.isSome) then
    some (proc.call, true) else none

/-- The calls that have their place in the order. -/
def settled (procs : List BudgetProc) : List (BudgetCall × Bool) := procs.filterMap settledCall

/-- The granted calls and the releases are in an order that went through all that was counted, and every refusal
stands. -/
structure Ordered (tree : BudgetTree) (s : BudgetPool) : Prop where
  order : ∃ order : List (BudgetCall × Bool), order.Perm (settled s.procs) ∧ tree.Sequential unused order ∧
    tree.usedAfter unused order = counted tree s s.world.ticks ∧
    ∀ τ ≤ s.world.ticks, tree.Visits unused order (counted tree s τ)
  stands : ∀ call ∈ refusals s.procs, Stands tree s unused s.procs call

section Moments

variable {tree : BudgetTree} {s : BudgetPool} {proc : BudgetProc} {op : BudgetOp} {k : Counter} {n : Nat}
  {next : op.Ret → Prog BudgetOp BudgetOp.Ret (BudgetCall.Res proc.call)}

theorem Kept.balance_begun (h : Kept tree proc) : takenBack k n proc.log + grants tree k n proc + holds k n proc ≤
    added k n proc.log + begun tree k n proc := by
  have hbalance := h.balance (k := k) (n := n)
  by_cases hrel : proc.call.releases = true
  · cases hlog : proc.log with
    | nil =>
      have hgr : granted proc = false := by
        unfold granted
        rw [hrel]
        rfl
      rw [holds_eq_zero (.inl hrel), grants_eq_zero hgr]
      exact Nat.zero_le _
    | cons entry log =>
      have hsame : begun tree k n proc = asks tree k n proc := by
        unfold begun
        rw [hlog, asks_release hrel, hrel]
        rfl
      rw [hsame, ← hlog]
      exact hbalance
  · rw [asks_begin (Bool.eq_false_iff.mpr hrel)] at hbalance
    omega

/-- What was granted and is climbing is within the counter and what was begun to be given back. -/
theorem Safe.granted_le (h : Safe tree s) : tally (grants tree k n) s.procs + climbing s.procs k n ≤
    s.world.used k n + tally (begun tree k n) s.procs := by
  have hsum := tally_mono fun q hq => (h.kept q hq).balance_begun (k := k) (n := n)
  rw [tally_add, tally_add, tally_add] at hsum
  have := h.balance k n
  unfold climbing
  omega

theorem begun_le : begun tree k n proc ≤ asks tree k n proc := by
  unfold begun asks
  cases hrel : proc.call.releases with
  | false => exact Nat.le_refl _
  | true =>
    cases proc.log.isEmpty with
    | false => exact Nat.le_refl _
    | true => exact Nat.zero_le _

theorem Safe.begun_le (h : Safe tree s) : tally (begun tree k n) s.procs ≤ tally (grants tree k n) s.procs :=
  (tally_mono fun _ _ => BudgetRun.begun_le).trans h.asks_le

theorem Safe.counted_now (h : Safe tree s) : counted tree s s.world.ticks =
    fun k n => tally (grants tree k n) s.procs - tally (begun tree k n) s.procs := by
  funext k n
  unfold counted
  congr 1
  · apply tally_congr
    intro proc hproc
    unfold grantsBy grants
    have hall : proc.log.all (·.world.ticks < s.world.ticks) = true :=
      List.all_eq_true.mpr fun entry hent => decide_eq_true (h.timely proc hproc entry hent)
    rw [hall, Bool.and_true]
  · apply tally_congr
    intro proc hproc
    unfold givesBy begun
    have hany : proc.log.any (·.world.ticks < s.world.ticks) = !proc.log.isEmpty := by
      cases hlog : proc.log with
      | nil => rfl
      | cons entry log =>
        have := h.timely proc hproc entry (by rw [hlog]; exact List.mem_cons_self)
        rw [List.any_cons, decide_eq_true this]
        rfl
    rw [hany]

/-- What was counted at a moment before an access stays what it was. -/
theorem counted_act {i τ : Nat} {r : op.Ret} {w : BudgetWorld} (hproc : s.procs[i]? = some proc)
    (hrest : proc.rest = .ask op next) (hτ : τ ≤ s.world.ticks) :
    counted tree { world := w, procs := s.procs.set i (proc.after s.world op r (next r)) } τ =
      counted tree s τ := by
  have hlast : ¬ s.world.ticks < τ := by omega
  funext k n
  unfold counted
  congr 1
  · have hset := tally_set (f := grantsBy tree τ k n) (b := proc.after s.world op r (next r)) hproc
    have hold : grantsBy tree τ k n proc = 0 := by
      unfold grantsBy
      rw [granted_ask hrest]
      rfl
    have hnew : grantsBy tree τ k n (proc.after s.world op r (next r)) = 0 := by
      unfold grantsBy
      rw [Proc.after_log, List.all_append, List.all_cons, decide_eq_false hlast, Bool.false_and, Bool.and_false,
        Bool.and_false]
      rfl
    rw [hold, hnew] at hset
    exact hset
  · have hset := tally_set (f := givesBy tree τ k n) (b := proc.after s.world op r (next r)) hproc
    have hsame : givesBy tree τ k n (proc.after s.world op r (next r)) = givesBy tree τ k n proc := by
      unfold givesBy
      rw [Proc.after_log, List.any_append, List.any_cons, decide_eq_false hlast, Bool.false_or, List.any_nil,
        Bool.or_false, Proc.after_call]
    rw [hsame] at hset
    exact Nat.add_right_cancel hset

/-- A moment more. -/
theorem visits_next {s' : BudgetPool} {order order' : List (BudgetCall × Bool)}
    (htks : s'.world.ticks = s.world.ticks + 1)
    (hsame : ∀ τ ≤ s.world.ticks, counted tree s' τ = counted tree s τ)
    (hviss : ∀ τ ≤ s.world.ticks, tree.Visits unused order (counted tree s τ))
    (hmono : ∀ u, tree.Visits unused order u → tree.Visits unused order' u)
    (haft : tree.usedAfter unused order' = counted tree s' s'.world.ticks) :
    ∀ τ ≤ s'.world.ticks, tree.Visits unused order' (counted tree s' τ) := by
  intro τ hτ
  by_cases hlast : τ ≤ s.world.ticks
  · rw [hsame τ hlast]
    exact hmono _ (hviss τ hlast)
  · have : τ = s'.world.ticks := by omega
    rw [this, ← haft]
    exact BudgetTree.visits_usedAfter

/-- A refusal that stands goes on standing where no more is taken back. -/
theorem stands_next {s' : BudgetPool} {given : Usage} {others : List BudgetProc} {call : BudgetCall}
    (h : Stands tree s given others call) (htks : s.world.ticks ≤ s'.world.ticks)
    (hsame : ∀ τ ≤ s.world.ticks, counted tree s' τ = counted tree s τ)
    (hle : ∀ k n, counted tree s s.world.ticks k n - given k n + climbing others k n ≤
      counted tree s' s'.world.ticks k n + climbing s'.procs k n) :
    Stands tree s' unused s'.procs call := by
  rcases h with ⟨τ, hτ, hcrowd⟩ | hcrowd
  · left
    have hle := Nat.le_of_lt_succ (List.mem_range.mp hτ)
    refine ⟨τ, List.mem_range.mpr (by omega), ?_⟩
    rw [hsame τ hle]
    exact hcrowd
  · right
    refine hcrowd.mono fun k n => ?_
    have := hle k n
    show _ ≤ _ - 0 + _
    omega

end Moments

/-! ## What every step keeps -/

section Steps

variable {tree : BudgetTree} {s : BudgetPool} {proc : BudgetProc}

theorem ordered_idle : Ordered tree idle where
  order := ⟨[], List.Perm.refl _, trivial, rfl, fun _ _ => rfl⟩
  stands _ h := by cases h

theorem settledCall_begin (hbegs : proc.call.releases = false) :
    settledCall proc = if granted proc then some (proc.call, true) else none := by
  unfold settledCall
  rw [hbegs, Bool.false_and, Bool.or_false]

theorem settledCall_release (hrel : proc.call.releases = true) :
    settledCall proc = if !proc.log.isEmpty || proc.returned.isSome then some (proc.call, true) else none := by
  unfold settledCall granted
  rw [hrel]
  rfl

variable {call : BudgetCall}

theorem mem_refusals {procs : List BudgetProc} :
    call ∈ refusals procs ↔ ∃ proc ∈ procs, refused proc = true ∧ proc.call = call := by
  unfold refusals
  rw [List.mem_filterMap]
  constructor
  · rintro ⟨proc, hproc, h⟩
    by_cases href : refused proc = true
    · rw [if_pos href] at h
      exact ⟨proc, hproc, href, Option.some.inj h⟩
    · rw [if_neg href] at h
      cases h
  · rintro ⟨proc, hproc, href, rfl⟩
    exact ⟨proc, hproc, by rw [if_pos href]⟩

/-- A call that returns at once is about nothing. -/
theorem start_count (hkept : Kept tree { call, rest := call.program tree })
    (hsettl : settledCall { call, rest := call.program tree } ≠ none) : call.count = 0 := by
  cases hrest : call.program tree with
  | ask op next =>
    rw [hrest] at hsettl
    unfold settledCall at hsettl
    rw [granted_ask rfl] at hsettl
    exact absurd (if_neg (by simp [Proc.returned])) hsettl
  | pure result =>
    have haft := Keeps.returned hkept hrest
    unfold BudgetCall.After at haft
    dsimp only at haft
    by_cases hrel : call.releases = true
    · rw [if_pos hrel] at haft
      exact haft.2 rfl
    · rw [if_neg hrel] at haft
      replace hrel : call.releases = false := Bool.eq_false_iff.mpr hrel
      have hgr : granted { call, rest := call.program tree } = true := by
        by_contra hnot
        rw [settledCall_begin hrel, if_neg hnot] at hsettl
        exact hsettl rfl
      have hclimbs := (hkept.climbs hgr).2
      -- the tracker of the call would have a count
      have hown := hclimbs.added call.counter call.tracker
      have hmem : call.tracker ∈ tree.chain call.tracker := List.mem_cons_self
      rw [added_nil, BudgetCall.part, if_pos ⟨rfl, hmem⟩] at hown
      exact hown.symm

theorem share_zero (h : call.count = 0) (k : Counter) (n : Nat) : call.share tree k n = 0 :=
  part_zero h

theorem counted_start (hkept : Kept tree { call, rest := call.program tree }) (τ : Nat) :
    counted tree (s.start (steady tree) call) τ = counted tree s τ := by
  funext k n
  show tally _ (s.procs ++ [_]) - tally _ (s.procs ++ [_]) = _
  rw [tally_concat, tally_concat]
  have hgrs : grantsBy tree τ k n { call, rest := (steady tree).program call } = 0 := by
    unfold grantsBy
    by_cases hgr : granted { call, rest := call.program tree } = true
    · have hzero := start_count hkept (by
        unfold settledCall
        rw [hgr, Bool.true_or, if_pos rfl]
        exact Option.some_ne_none _)
      rw [share_zero hzero, ite_self]
    · rw [show granted { call, rest := (steady tree).program call } = false from Bool.eq_false_iff.mpr hgr]
      rfl
  have hgives : givesBy tree τ k n { call, rest := (steady tree).program call } = 0 := by
    unfold givesBy
    rw [List.any_nil, Bool.and_false]
    rfl
  rw [hgrs, hgives]
  rfl

theorem Ordered.start (h : Ordered tree s)
    (hkept : Kept tree { call, rest := call.program tree }) : Ordered tree (s.start (steady tree) call) := by
  obtain ⟨order, hperm, hseq, haft, hviss⟩ := h.order
  have hsame := fun τ => counted_start (s := s) hkept τ
  constructor
  · cases hcall : settledCall { call, rest := call.program tree } with
    | none =>
      refine ⟨order, ?_, hseq, ?_, ?_⟩
      · show order.Perm (List.filterMap _ (s.procs ++ [{ call, rest := call.program tree }]))
        rw [List.filterMap_append, List.filterMap_cons_none hcall, List.filterMap_nil, List.append_nil]
        exact hperm
      · rw [hsame]
        exact haft
      · intro τ hτ
        rw [hsame]
        exact hviss τ hτ
    | some pair =>
      have hzero := start_count hkept (by rw [hcall]; exact Option.some_ne_none _)
      -- a call about nothing is granted and counts for nothing
      have hstl : ∀ used, tree.settle used call = (true, used) := by
        intro used
        by_cases hrel : call.releases = true
        · rw [BudgetTree.settle_release hrel]
          congr 1
          funext k n
          rw [share_zero hzero, Nat.sub_zero]
        · have hroom : ¬ tree.Crowded used call := fun h => by
            have := h.1
            omega
          rw [BudgetTree.settle_granted (Bool.eq_false_iff.mpr hrel) hroom]
          congr 1
          funext k n
          rw [share_zero hzero, Nat.add_zero]
      refine ⟨order ++ [(call, true)], ?_, ?_, ?_, ?_⟩
      · show (order ++ _).Perm (List.filterMap _ (s.procs ++ [{ call, rest := call.program tree }]))
        have hpair : pair = (call, true) := by
          unfold settledCall at hcall
          split at hcall
          · exact (Option.some.inj hcall).symm
          · cases hcall
        rw [List.filterMap_append, List.filterMap_cons_some hcall, List.filterMap_nil, hpair]
        exact hperm.append_right _
      · have := @BudgetTree.sequential_concat tree unused call order hseq
        rw [hstl] at this
        exact this
      · rw [BudgetTree.usedAfter_concat, hstl, hsame]
        exact haft
      · intro τ hτ
        rw [hsame]
        exact (hviss τ hτ).concat
  · intro call' hcall'
    have hmem : call' ∈ refusals s.procs := by
      obtain ⟨q, hq, href, rfl⟩ := mem_refusals.mp hcall'
      rcases List.mem_append.mp hq with hq | hq
      · exact mem_refusals.mpr ⟨q, hq, href, rfl⟩
      · obtain rfl := List.mem_singleton.mp hq
        rw [not_refused_of rfl] at href
        cases href
    refine stands_next (h.stands call' hmem) (Nat.le_refl _) (fun τ _ => hsame τ) fun k n => ?_
    rw [hsame]
    show _ ≤ _ + tally _ (s.procs ++ [_])
    rw [tally_concat]
    show _ - 0 + tally _ _ ≤ _
    exact Nat.add_le_add (Nat.sub_le _ _) (Nat.le_add_right _ _)

/-- A step that settles no call. -/
theorem Ordered.silent (h : Ordered tree s) {s' : BudgetPool} (htks : s'.world.ticks = s.world.ticks + 1)
    (hsame : ∀ τ ≤ s.world.ticks, counted tree s' τ = counted tree s τ)
    (hsettl : settled s'.procs = settled s.procs)
    (hnow : counted tree s' s'.world.ticks = counted tree s s.world.ticks)
    (hstds : ∀ call ∈ refusals s'.procs, Stands tree s' unused s'.procs call) : Ordered tree s' := by
  obtain ⟨order, hperm, hseq, haft, hviss⟩ := h.order
  rw [← hnow] at haft
  refine ⟨⟨order, ?_, hseq, haft, visits_next htks hsame hviss (fun _ h => h) haft⟩, hstds⟩
  rw [hsettl]
  exact hperm

theorem Ordered.settle (h : Ordered tree s) {s' : BudgetPool} (htks : s'.world.ticks = s.world.ticks + 1)
    (hsame : ∀ τ ≤ s.world.ticks, counted tree s' τ = counted tree s τ)
    (hsettl : (settled s'.procs).Perm (settled s.procs ++ [(call, true)]))
    (hnow : tree.settle (counted tree s s.world.ticks) call = (true, counted tree s' s'.world.ticks))
    (hstds : ∀ call ∈ refusals s'.procs, Stands tree s' unused s'.procs call) : Ordered tree s' := by
  obtain ⟨order, hperm, hseq, haft, hviss⟩ := h.order
  have hnext : tree.usedAfter unused (order ++ [(call, true)]) = counted tree s' s'.world.ticks := by
    rw [BudgetTree.usedAfter_concat, haft, hnow]
  refine ⟨⟨order ++ [(call, true)], ?_, ?_, hnext,
    visits_next htks hsame hviss (fun _ h => h.concat) hnext⟩, hstds⟩
  · exact (hperm.append_right _).trans hsettl.symm
  · have hconcat := @BudgetTree.sequential_concat tree unused call order hseq
    rw [haft, hnow] at hconcat
    exact hconcat

variable {i : Nat} {op : BudgetOp} {next : op.Ret → Prog BudgetOp BudgetOp.Ret (BudgetCall.Res proc.call)}
  {r : op.Ret} {w : BudgetWorld}

theorem added_after (k : Counter) (n : Nat) :
    added k n proc.log ≤ added k n (proc.after s.world op r (next r)).log := by
  rw [Proc.after_log, added_concat]
  exact Nat.le_add_right _ _

theorem begun_begin (h : proc.call.releases = false) (k : Counter) (n : Nat) : begun tree k n proc = 0 := by
  unfold begun
  rw [h]
  rfl

theorem refusals_after {proc' : BudgetProc} (hproc : s.procs[i]? = some proc)
    (hsame : refused proc' = true → refused proc = true ∧ proc'.call = proc.call)
    (hcall : call ∈ refusals (s.procs.set i proc')) : call ∈ refusals s.procs := by
  obtain ⟨q, hq, href, rfl⟩ := mem_refusals.mp hcall
  rcases List.mem_or_eq_of_mem_set hq with hq | rfl
  · exact mem_refusals.mpr ⟨q, hq, href, rfl⟩
  · obtain ⟨hold, hsame⟩ := hsame href
    exact mem_refusals.mpr ⟨proc, List.mem_of_getElem? hproc, hold, hsame.symm⟩

/-- An access of a call that begins. -/
theorem Ordered.begin (h : Ordered tree s) (hs : Safe tree s)
    (hs' : Safe tree { world := w, procs := s.procs.set i (proc.after s.world op r (next r)) })
    (hproc : s.procs[i]? = some proc) (hrest : proc.rest = .ask op next) (hacts : Keeping tree s i op)
    (hrun : (r, w) = BudgetWorld.run op s.world) (hbegs : proc.call.releases = false) :
    Ordered tree { world := w, procs := s.procs.set i (proc.after s.world op r (next r)) } := by
  have htks := run_ticks hrun
  have hsame : ∀ τ ≤ s.world.ticks,
      counted tree { world := w, procs := s.procs.set i (proc.after s.world op r (next r)) } τ =
        counted tree s τ := fun τ hτ => counted_act hproc hrest hτ
  have hgr := granted_ask hrest
  have hbegs' : (proc.after s.world op r (next r)).call.releases = false := hbegs
  have hkept := hs'.kept _ (List.mem_of_getElem? (List.getElem?_set_self (List.getElem?_eq_some_iff.mp hproc).1))
  have hnow := hs.counted_now
  have hnow' := hs'.counted_now
  -- how the sums move
  have hgrs : ∀ k n, tally (grants tree k n) (s.procs.set i (proc.after s.world op r (next r))) =
      tally (grants tree k n) s.procs + grants tree k n (proc.after s.world op r (next r)) := by
    intro k n
    have := tally_set (f := grants tree k n) (b := proc.after s.world op r (next r)) hproc
    rw [grants_eq_zero hgr] at this
    exact this
  have hbgn : ∀ k n, tally (begun tree k n) (s.procs.set i (proc.after s.world op r (next r))) =
      tally (begun tree k n) s.procs := by
    intro k n
    have := tally_set (f := begun tree k n) (b := proc.after s.world op r (next r)) hproc
    rw [begun_begin hbegs, begun_begin hbegs'] at this
    exact this
  have hclb : ∀ k n, climbing (s.procs.set i (proc.after s.world op r (next r))) k n + holds k n proc =
      climbing s.procs k n + holds k n (proc.after s.world op r (next r)) := fun k n => tally_set hproc
  have hold : settledCall proc = none := by
    rw [settledCall_begin hbegs, hgr, if_neg Bool.false_ne_true]
  by_cases hdone : granted (proc.after s.world op r (next r)) = true
  · -- it is granted now
    have hshare : ∀ k n, grants tree k n (proc.after s.world op r (next r)) = proc.call.share tree k n := by
      intro k n
      unfold grants
      rw [if_pos hdone, Proc.after_call]
    have hunrefused := hkept.unrefused hdone
    have hcnt : counted tree { world := w, procs := s.procs.set i (proc.after s.world op r (next r)) } w.ticks =
        fun k n => counted tree s s.world.ticks k n + proc.call.share tree k n := by
      rw [hnow', hnow]
      funext k n
      have := hs.begun_le (k := k) (n := n)
      dsimp only
      rw [hgrs, hbgn, hshare]
      omega
    have hroom : ¬ tree.Crowded (counted tree s s.world.ticks) proc.call := by
      rintro ⟨-, n, hn, hmax⟩
      have hlimit := hs'.within proc.call.counter n
      have hle := hs'.granted_le (k := proc.call.counter) (n := n)
      dsimp only at hle hlimit
      rw [hgrs, hbgn, hshare, BudgetCall.share, if_pos ⟨rfl, hn⟩] at hle
      rw [hnow] at hmax
      cases hlim : tree.max proc.call.counter n with
      | none =>
        rw [hlim] at hmax
        cases hmax
      | some max =>
        rw [hlim] at hmax hlimit
        have hlt : max < tally (grants tree proc.call.counter n) s.procs -
          tally (begun tree proc.call.counter n) s.procs + proc.call.count := of_decide_eq_true hmax
        have := of_decide_eq_false hlimit
        have := hs.begun_le (k := proc.call.counter) (n := n)
        omega
    have hnext := BudgetTree.settle_granted hbegs hroom
    rw [← hcnt] at hnext
    refine h.settle htks hsame ?_ hnext ?_
    · refine filterMap_set_new hproc hold ?_
      rw [settledCall_begin hbegs', if_pos hdone, Proc.after_call]
    · intro call hcall
      have hmem := refusals_after hproc (fun h => by rw [hunrefused] at h; cases h) hcall
      refine stands_next (h.stands call hmem) (by dsimp only; omega) hsame fun k n => ?_
      have hmove := hclb k n
      have hpart : added k n (proc.after s.world op r (next r)).log = proc.call.share tree k n :=
        (hkept.climbs hdone).2.added k n
      have hmore : added k n proc.log ≤ added k n (proc.after s.world op r (next r)).log := added_after k n
      have hheld : holds k n proc ≤ added k n proc.log := holds_le
      rw [hcnt]
      show counted tree s s.world.ticks k n - 0 + climbing s.procs k n ≤
        counted tree s s.world.ticks k n + proc.call.share tree k n + climbing (s.procs.set i _) k n
      omega
  · -- it is not granted yet
    replace hdone := Bool.eq_false_iff.mpr hdone
    have hsettl : settled (s.procs.set i (proc.after s.world op r (next r))) = settled s.procs := by
      refine filterMap_set_same hproc ?_
      rw [hold, settledCall_begin hbegs', hdone, if_neg Bool.false_ne_true]
    have hcnt : counted tree { world := w, procs := s.procs.set i (proc.after s.world op r (next r)) } w.ticks =
        counted tree s s.world.ticks := by
      rw [hnow', hnow]
      funext k n
      dsimp only
      rw [hgrs, hbgn, grants_eq_zero hdone, Nat.add_zero]
    refine h.silent htks hsame hsettl hcnt fun call hcall => ?_
    by_cases hrefuses : BudgetEntry.refuses ⟨s.world, op, r⟩ = true
    · -- it is refused now
      have hmem : call ∈ callAt s i ++ refusals s.procs := by
        obtain ⟨q, hq, href, rfl⟩ := mem_refusals.mp hcall
        rcases List.mem_or_eq_of_mem_set hq with hq | rfl
        · exact List.mem_append_right _ (mem_refusals.mpr ⟨q, hq, href, rfl⟩)
        · apply List.mem_append_left
          unfold callAt
          rw [hproc]
          exact List.mem_singleton_self _
      have hstds : Stands tree s unused (s.procs.eraseIdx i) call := by
        cases op with
        | load k n => cases hrefuses
        | fetchSub k n count => cases hrefuses
        | release n count => cases hrefuses
        | reserve k n count max =>
          have hkeeping : if max.any (· < saturatingAdd (s.world.used k n) count) then
            (∀ call ∈ callAt s i ++ refusals s.procs, Stands tree s unused (s.procs.eraseIdx i) call)
            else _ := hacts
          unfold BudgetWorld.run at hrun
          dsimp only at hrun
          split at hrun
          next hfull =>
            rw [if_pos hfull] at hkeeping
            exact hkeeping call hmem
          · obtain ⟨rfl, -⟩ := Prod.mk.inj hrun
            cases hrefuses
      refine stands_next hstds (by dsimp only; omega) hsame fun k n => ?_
      have href : refused (proc.after s.world op r (next r)) = true := by
        refine refused_of hbegs ?_
        rw [Proc.after_log, List.any_append, List.any_cons, hrefuses, Bool.true_or, Bool.or_true]
      have hmove := hclb k n
      rw [holds_eq_zero (.inr (.inr href))] at hmove
      have herase : climbing (s.procs.eraseIdx i) k n + holds k n proc = climbing s.procs k n :=
        tally_eraseIdx hproc
      rw [hcnt]
      show counted tree s s.world.ticks k n - 0 + climbing (s.procs.eraseIdx i) k n ≤
        counted tree s s.world.ticks k n + climbing (s.procs.set i _) k n
      omega
    · have href : refused (proc.after s.world op r (next r)) = refused proc := by
        unfold refused
        rw [Proc.after_log, List.any_append, List.any_cons, Bool.eq_false_iff.mpr hrefuses, Bool.false_or,
          List.any_nil, Bool.or_false, Proc.after_call]
      have hback : refused (proc.after s.world op r (next r)) = true →
          refused proc = true ∧ (proc.after s.world op r (next r)).call = proc.call :=
        fun h => ⟨href ▸ h, rfl⟩
      have hmem := refusals_after hproc hback hcall
      refine stands_next (h.stands call hmem) (by dsimp only; omega) hsame fun k n => ?_
      have hmove := hclb k n
      have hhol : holds k n proc ≤ holds k n (proc.after s.world op r (next r)) := by
        unfold holds
        rw [href, hdone, hgr, Proc.after_call]
        split
        · exact Nat.le_refl _
        · exact added_after k n
      rw [hcnt]
      show counted tree s s.world.ticks k n - 0 + climbing s.procs k n ≤
        counted tree s s.world.ticks k n + climbing (s.procs.set i _) k n
      omega

theorem Ordered.release (h : Ordered tree s) (hs : Safe tree s)
    (hs' : Safe tree { world := w, procs := s.procs.set i (proc.after s.world op r (next r)) })
    (hproc : s.procs[i]? = some proc) (hrest : proc.rest = .ask op next) (hacts : Keeping tree s i op)
    (hrun : (r, w) = BudgetWorld.run op s.world) (hrel : proc.call.releases = true) :
    Ordered tree { world := w, procs := s.procs.set i (proc.after s.world op r (next r)) } := by
  have htks := run_ticks hrun
  have hsame : ∀ τ ≤ s.world.ticks,
      counted tree { world := w, procs := s.procs.set i (proc.after s.world op r (next r)) } τ =
        counted tree s τ := fun τ hτ => counted_act hproc hrest hτ
  have hrel' : (proc.after s.world op r (next r)).call.releases = true := hrel
  have hnow := hs.counted_now
  have hnow' := hs'.counted_now
  have hgrs : ∀ k n, tally (grants tree k n) (s.procs.set i (proc.after s.world op r (next r))) =
      tally (grants tree k n) s.procs := by
    intro k n
    have hzero : granted (proc.after s.world op r (next r)) = false := by
      unfold granted
      rw [hrel']
      rfl
    have := tally_set (f := grants tree k n) (b := proc.after s.world op r (next r)) hproc
    rw [grants_eq_zero hzero, grants_eq_zero (granted_ask hrest)] at this
    exact this
  have hclb : ∀ k n, climbing (s.procs.set i (proc.after s.world op r (next r))) k n =
      climbing s.procs k n := by
    intro k n
    have : climbing (s.procs.set i (proc.after s.world op r (next r))) k n + holds k n proc =
      climbing s.procs k n + holds k n (proc.after s.world op r (next r)) := tally_set hproc
    rw [holds_eq_zero (.inl hrel), holds_eq_zero (.inl hrel')] at this
    exact this
  have hnever : refused (proc.after s.world op r (next r)) = true → refused proc = true ∧
      (proc.after s.world op r (next r)).call = proc.call := by
    intro href
    unfold refused at href
    rw [hrel'] at href
    cases href
  have hbgn := fun k n => tally_set (f := begun tree k n) (b := proc.after s.world op r (next r)) hproc
  have hgiv : ∀ k n, begun tree k n (proc.after s.world op r (next r)) = proc.call.share tree k n := by
    intro k n
    unfold begun
    rw [hrel', Proc.after_log, Proc.after_call]
    cases proc.log with
    | nil => rfl
    | cons entry log => rfl
  have hpl : settledCall (proc.after s.world op r (next r)) = some (proc.call, true) := by
    rw [settledCall_release hrel', if_pos, Proc.after_call]
    rw [Proc.after_log]
    cases proc.log with
    | nil => rfl
    | cons entry log => rfl
  by_cases hlog : proc.log = []
  · -- it begins now
    have hzero : ∀ k n, begun tree k n proc = 0 := by
      intro k n
      unfold begun
      rw [hlog, hrel]
      rfl
    have hcnt : counted tree { world := w, procs := s.procs.set i (proc.after s.world op r (next r)) } w.ticks =
        fun k n => counted tree s s.world.ticks k n - proc.call.share tree k n := by
      rw [hnow', hnow]
      funext k n
      have := hbgn k n
      rw [hzero, hgiv] at this
      dsimp only
      rw [hgrs]
      omega
    have hnext := @BudgetTree.settle_release tree (counted tree s s.world.ticks) proc.call hrel
    rw [← hcnt] at hnext
    refine h.settle htks hsame ?_ hnext fun call hcall => ?_
    · refine filterMap_set_new hproc ?_ hpl
      rw [settledCall_release hrel, hlog]
      unfold Proc.returned
      rw [hrest]
      rfl
    · have hmem := refusals_after hproc hnever hcall
      have hstds : Stands tree s (proc.call.share tree) s.procs call := by
        have hbef := (hs.kept proc (List.mem_of_getElem? hproc)).performs hrest
        cases op with
        | release n count =>
          refine hacts (by rw [logOf_eq hproc]; exact hlog) proc.call ?_ call hmem
          unfold callAt
          rw [hproc]
          exact List.mem_singleton_self _
        | load k n => exact absurd (hbef.1.symm.trans hrel) Bool.false_ne_true
        | reserve k n count max => exact absurd (hbef.1.symm.trans hrel) Bool.false_ne_true
        | fetchSub k n count => exact absurd (hbef.1.symm.trans hrel) Bool.false_ne_true
      refine stands_next hstds (by dsimp only; omega) hsame fun k n => ?_
      rw [hcnt]
      show _ ≤ _ + climbing (s.procs.set i _) k n
      rw [hclb]
  · -- it has begun before
    have hcnt : counted tree { world := w, procs := s.procs.set i (proc.after s.world op r (next r)) } w.ticks =
        counted tree s s.world.ticks := by
      rw [hnow', hnow]
      funext k n
      have hold : begun tree k n proc = proc.call.share tree k n := by
        unfold begun
        rw [hrel]
        cases hents : proc.log with
        | nil => exact absurd hents hlog
        | cons entry log => rfl
      have := hbgn k n
      rw [hold, hgiv] at this
      dsimp only
      rw [hgrs]
      omega
    refine h.silent htks hsame ?_ hcnt fun call hcall => ?_
    · refine filterMap_set_same hproc ?_
      rw [hpl, settledCall_release hrel]
      cases hents : proc.log with
      | nil => exact absurd hents hlog
      | cons entry log => rfl
    · have hmem := refusals_after hproc hnever hcall
      refine stands_next (h.stands call hmem) (by dsimp only; omega) hsame fun k n => ?_
      rw [hcnt]
      show _ - 0 + _ ≤ _ + climbing (s.procs.set i _) k n
      rw [hclb, Nat.sub_zero]

theorem Ordered.stop (h : Ordered tree s) (hproc : s.procs[i]? = some proc) :
    Ordered tree { s with procs := s.procs.set i { proc with live := false } } := by
  have hgr : granted { proc with live := false } = granted proc := granted_stop
  have hret : (Proc.returned { proc with live := false }).isSome = proc.returned.isSome := by
    obtain ⟨call, rest, log, live⟩ := proc
    cases rest with
    | pure result => rfl
    | ask op next => rfl
  have hsum : ∀ f : BudgetProc → Nat, f { proc with live := false } = f proc →
      tally f (s.procs.set i { proc with live := false }) = tally f s.procs := by
    intro f hf
    have := tally_set (f := f) (b := { proc with live := false }) hproc
    rw [hf] at this
    exact Nat.add_right_cancel this
  have hcnt : ∀ τ, counted tree { s with procs := s.procs.set i { proc with live := false } } τ =
      counted tree s τ := by
    intro τ
    funext k n
    unfold counted
    dsimp only
    rw [hsum _ (by unfold grantsBy; rw [hgr]), hsum _ rfl]
  have hclb : climbing (s.procs.set i { proc with live := false }) = climbing s.procs := by
    funext k n
    refine hsum _ ?_
    unfold holds
    rw [hgr]
    rfl
  have hrefusals : refusals (s.procs.set i { proc with live := false }) = refusals s.procs :=
    filterMap_set_same hproc rfl
  have hsettl : settled (s.procs.set i { proc with live := false }) = settled s.procs := by
    refine filterMap_set_same hproc ?_
    unfold settledCall
    rw [hgr, hret]
  obtain ⟨order, hperm, hseq, haft, hviss⟩ := h.order
  refine ⟨⟨order, ?_, hseq, ?_, ?_⟩, ?_⟩
  · show order.Perm (settled (s.procs.set i _))
    rw [hsettl]
    exact hperm
  · rw [hcnt]
    exact haft
  · intro τ hτ
    rw [hcnt]
    exact hviss τ hτ
  · intro call hcall
    replace hcall : call ∈ refusals (s.procs.set i { proc with live := false }) := hcall
    rw [hrefusals] at hcall
    refine stands_next (h.stands call hcall) (Nat.le_refl _) (fun τ _ => hcnt τ) fun k n => ?_
    rw [hcnt]
    show _ ≤ _ + climbing (s.procs.set i _) k n
    rw [hclb]
    exact Nat.add_le_add_right (Nat.sub_le _ _) _

/-- **In every state of a steady run** what has settled is in order, and every refusal stands. -/
theorem ordered_reaches (h : Reaches (steady tree) idle s) : Ordered tree s := by
  induction h with
  | refl => exact ordered_idle
  | tail hrea hstep ih =>
    have hs := safe_reaches hrea
    have hs' := safe_reaches (hrea.tail hstep)
    cases hstep with
    | start _ => exact ih.start (hs'.kept _ (List.mem_append_right _ (List.mem_singleton_self _)))
    | @act i proc op next r w hproc _ hrest hacts hrun =>
      by_cases hrel : proc.call.releases = true
      · exact ih.release hs hs' hproc hrest hacts hrun hrel
      · exact ih.begin hs hs' hproc hrest hacts hrun (Bool.eq_false_iff.mpr hrel)
    | stop hproc => exact ih.stop hproc
    | move h => exact h.elim

/-- No check ever sees more than a limit allows. -/
theorem not_overloaded (h : Reaches (steady tree) idle s) (hproc : proc ∈ s.procs) :
    proc.log.any (BudgetEntry.overloaded tree) = false := by
  obtain ⟨i, hi⟩ := List.mem_iff_getElem?.mp hproc
  have hents := h.entries (P := fun _ _ entry => BudgetEntry.overloaded tree entry = false) rfl
    (by
      intro s' i proc op next r w hrea _ _ _ hrun
      cases op with
      | load k n =>
        obtain ⟨rfl, -⟩ := Prod.mk.inj hrun
        exact (safe_reaches hrea).within k n
      | reserve k n count max => rfl
      | fetchSub k n count => rfl
      | release n count => rfl) i proc hi
  rw [List.any_eq_false]
  intro entry hent
  obtain ⟨before, later, hlog⟩ := List.append_of_mem hent
  rw [hents before entry later hlog]
  exact Bool.false_ne_true

/-- A release is never refused. -/
theorem granted_release (h : call.releases = true) (result : call.Res) :
    call.granted result = true := by
  cases call with
  | beginModelCall n => cases h
  | beginToolCalls n count => cases h
  | releaseToolCalls n count => rfl

/-- What a call that has returned has come to. -/
theorem Kept.settles (h : Kept tree proc) {result : BudgetCall.Res proc.call} (hrest : proc.rest = .pure result)
    (hload : proc.log.any (BudgetEntry.overloaded tree) = false) :
    (∀ k n, takenBack k n proc.log + grants tree k n proc = added k n proc.log + asks tree k n proc) ∧
      (∀ k n, begun tree k n proc = asks tree k n proc) ∧ (∀ k n, holds k n proc = 0) ∧
      ((settledCall proc = some (proc.call, true) ∧ refused proc = false ∧ proc.call.granted result = true) ∨
        (settledCall proc = none ∧ refused proc = true ∧ proc.call.granted result = false)) := by
  have haft := h.returned hrest
  have hgr := granted_pure hrest
  have hret : proc.returned.isSome = true := by
    unfold Proc.returned
    rw [hrest]
    rfl
  unfold BudgetCall.After at haft
  by_cases hrel : proc.call.releases = true
  · rw [if_pos hrel] at haft
    rw [hrel] at hgr
    refine ⟨fun k n => ?_, fun k n => ?_, fun k n => holds_eq_zero (.inl hrel), .inl ⟨?_, ?_, ?_⟩⟩
    · rw [grants_eq_zero hgr, asks_release hrel, haft.1.takenBack, haft.1.added, share_eq]
      omega
    · cases hlog : proc.log with
      | nil =>
        have hzero : proc.call.share tree k n = 0 := share_zero (haft.2 hlog) k n
        unfold begun
        rw [asks_release hrel, hzero, ite_self]
      | cons entry log =>
        unfold begun
        rw [hlog, asks_release hrel, hrel]
        rfl
    · rw [settledCall_release hrel, hret, Bool.or_true, if_pos rfl]
    · unfold refused
      rw [hrel]
      rfl
    · exact granted_release hrel result
  · rw [if_neg hrel] at haft
    replace hrel : proc.call.releases = false := Bool.eq_false_iff.mpr hrel
    have hbgn : ∀ k n, begun tree k n proc = asks tree k n proc := fun k n => by
      rw [begun_begin hrel, asks_begin hrel]
    cases hres : proc.call.granted result with
    | true =>
      rw [if_pos hres] at haft
      have hdone : granted proc = true := by rw [hgr, hrel, hres]; rfl
      refine ⟨fun k n => ?_, hbgn, fun k n => holds_eq_zero (.inr (.inl hdone)), .inl ⟨?_, ?_, rfl⟩⟩
      · rw [haft.kept, haft.added, asks_begin hrel, grants, if_pos hdone, share_eq]
        omega
      · rw [settledCall_begin hrel, if_pos hdone]
      · exact h.unrefused hdone
    | false =>
      rw [if_neg (by rw [hres]; exact Bool.false_ne_true)] at haft
      have hnot : granted proc = false := by rw [hgr, hrel, hres]; rfl
      rcases haft with hbacks | ⟨-, hover⟩
      · have href := refused_of hrel hbacks.refused
        refine ⟨fun k n => ?_, hbgn, fun k n => holds_eq_zero (.inr (.inr href)), .inr ⟨?_, href, rfl⟩⟩
        · rw [grants_eq_zero hnot, asks_begin hrel, hbacks.added, part_nil]
        · rw [settledCall_begin hrel, hnot, if_neg Bool.false_ne_true]
      · rw [hload] at hover
        cases hover

theorem answers_perm {procs : List BudgetProc} (h : ∀ proc ∈ procs, ∃ result, proc.rest = .pure result ∧
    ((settledCall proc = some (proc.call, true) ∧ refused proc = false ∧ proc.call.granted result = true) ∨
      (settledCall proc = none ∧ refused proc = true ∧ proc.call.granted result = false))) :
    ((refusals procs).map (·, false) ++ settled procs).Perm (answers procs) := by
  induction procs with
  | nil => exact List.Perm.refl _
  | cons proc procs ih =>
    have htail := ih fun q hq => h q (List.mem_cons_of_mem proc hq)
    obtain ⟨result, hrest, hcase⟩ := h proc List.mem_cons_self
    have hret : proc.returned = some result := by
      unfold Proc.returned
      rw [hrest]
    have hans : answers (proc :: procs) = (proc.call, proc.call.granted result) :: answers procs := by
      unfold answers
      rw [List.filterMap_cons_some (b := (proc.call, proc.call.granted result))]
      rw [hret]
      rfl
    rw [hans]
    rcases hcase with ⟨hpl, href, hres⟩ | ⟨hpl, href, hres⟩
    · have hsettl : settled (proc :: procs) = (proc.call, true) :: settled procs :=
        List.filterMap_cons_some hpl
      have hrefusals : refusals (proc :: procs) = refusals procs := by
        unfold refusals
        rw [List.filterMap_cons_none]
        rw [href, if_neg Bool.false_ne_true]
      rw [hsettl, hrefusals, hres]
      exact List.perm_middle.trans (htail.cons _)
    · have hsettl : settled (proc :: procs) = settled procs := List.filterMap_cons_none hpl
      have hrefusals : refusals (proc :: procs) = proc.call :: refusals procs := by
        unfold refusals
        rw [List.filterMap_cons_some (b := proc.call)]
        rw [if_pos href]
      rw [hsettl, hrefusals, hres]
      exact htail.cons _

/-- **The calls of a steady run are linearizable.** -/
theorem linearizable (h : Reaches (steady tree) idle s) : Linearized tree s := by
  have hs := safe_reaches h
  have ho := ordered_reaches h
  -- what each call has come to when none is in progress
  have hdone : Quiescent s → ∀ proc ∈ s.procs, ∃ result, proc.rest = .pure result ∧
      (∀ k n, takenBack k n proc.log + grants tree k n proc = added k n proc.log + asks tree k n proc) ∧
      (∀ k n, begun tree k n proc = asks tree k n proc) ∧ (∀ k n, holds k n proc = 0) ∧
      ((settledCall proc = some (proc.call, true) ∧ refused proc = false ∧ proc.call.granted result = true) ∨
        (settledCall proc = none ∧ refused proc = true ∧ proc.call.granted result = false)) := by
    intro hquiet proc hproc
    have hreturned := hquiet proc hproc
    unfold Proc.returned at hreturned
    cases hrest : proc.rest with
    | ask op next =>
      rw [hrest] at hreturned
      cases hreturned
    | pure result => exact ⟨result, rfl, (hs.kept proc hproc).settles hrest (not_overloaded h hproc)⟩
  have hcounters : Quiescent s → ∀ k n,
      s.world.used k n + tally (asks tree k n) s.procs = tally (grants tree k n) s.procs := by
    intro hquiet k n
    have hsum := tally_congr fun proc hproc => by
      obtain ⟨result, -, hbalance, -⟩ := hdone hquiet proc hproc
      exact hbalance k n
    rw [tally_add, tally_add] at hsum
    have := hs.balance k n
    omega
  refine ⟨fun k n max hmax => ?_, hcounters, fun hquiet => ?_⟩
  · have hlimit := hs.within k n
    rw [hmax] at hlimit
    have := of_decide_eq_false hlimit
    have := hs.granted_le (k := k) (n := n)
    omega
  · obtain ⟨order, hperm, hseq, hafter, hvisits⟩ := ho.order
    have hclimbing : ∀ k n, climbing s.procs k n = 0 := fun k n => tally_zero fun proc hproc => by
      obtain ⟨result, -, -, -, hholds, -⟩ := hdone hquiet proc hproc
      exact hholds k n
    have hrefused : ∀ call ∈ refusals s.procs, call.releases = false ∧
        ∃ u, tree.Visits unused order u ∧ tree.Crowded u call := by
      intro call hcall
      refine ⟨?_, ?_⟩
      · obtain ⟨proc, -, hproc, rfl⟩ := mem_refusals.mp hcall
        unfold refused at hproc
        rw [Bool.and_eq_true, Bool.not_eq_true'] at hproc
        exact hproc.1
      · rcases ho.stands call hcall with ⟨τ, hτ, hcrowded⟩ | hcrowded
        · exact ⟨_, hvisits τ (Nat.le_of_lt_succ (List.mem_range.mp hτ)), hcrowded⟩
        · refine ⟨_, hvisits s.world.ticks (Nat.le_refl _), hcrowded.mono fun k n => ?_⟩
          rw [hclimbing]
          exact Nat.sub_le _ _
    obtain ⟨order', hperm', hseq', hafter'⟩ := BudgetTree.insert_all hseq hrefused
    refine ⟨order', ?_, hseq', ?_⟩
    · refine hperm'.trans ((hperm.append_left _).trans (answers_perm fun proc hproc => ?_))
      obtain ⟨result, hrest, -, -, -, hcase⟩ := hdone hquiet proc hproc
      exact ⟨result, hrest, hcase⟩
    · rw [hafter', hafter, hs.counted_now]
      funext k n
      have hbegun : tally (begun tree k n) s.procs = tally (asks tree k n) s.procs := by
        apply tally_congr
        intro proc hproc
        obtain ⟨result, -, -, hbegun, -⟩ := hdone hquiet proc hproc
        exact hbegun k n
      have := hcounters hquiet k n
      rw [hbegun]
      omega

end Steps

/-! ## Runs -/

section Runs

instance (tree : BudgetTree) : ∀ s call, Decidable ((steady tree).starts s call) :=
  fun s call => inferInstanceAs (Decidable (Starts s call))

instance (tree : BudgetTree) : ∀ s i op, Decidable ((steady tree).acts s i op) :=
  fun s i op => inferInstanceAs (Decidable (Keeping tree s i op))

instance (tree : BudgetTree) : ∀ s call, Decidable ((system tree).starts s call) :=
  fun s call => inferInstanceAs (Decidable (Starts s call))

instance (tree : BudgetTree) : ∀ s i op, Decidable ((system tree).acts s i op) :=
  fun _ _ _ => inferInstanceAs (Decidable True)

/-- A tracker for three tool calls under one for two. -/
def family : BudgetTree where
  budget
    | 0 => { maxToolCalls := some 2 }
    | _ => { maxToolCalls := some 3 }
  parent
    | 1 => some 0
    | _ => none
  older n p h := by
    match n with
    | 1 =>
      obtain rfl := Option.some.inj h
      exact Nat.one_pos

/-- A batch is granted and fills the root, the next one is refused, and after a release it is granted. -/
def releasedRun : BudgetPool :=
  [.start (.beginToolCalls 1 2), .act 0, .act 0, .start (.beginToolCalls 1 2), .act 1,
    .start (.releaseToolCalls 1 2), .act 2, .act 2, .start (.beginToolCalls 1 2), .act 3,
    .act 3].foldl (ProcPool.next (steady family) BudgetWorld.run) idle

theorem linearizable_released : Linearized family releasedRun ∧
    answers releasedRun.procs = [(.beginToolCalls 1 2, true), (.beginToolCalls 1 2, false),
      (.releaseToolCalls 1 2, true), (.beginToolCalls 1 2, true)] := by
  have hreaches : Reaches (steady family) idle releasedRun := by
    apply ProcPool.reaches_foldl
    exact fun _ _ => rfl
  exact ⟨linearizable hreaches, by decide +kernel⟩

/-- A batch of three counts in the tracker until the root refuses it; meanwhile the tracker refuses a call. -/
def crowdedRun : BudgetPool :=
  [.start (.beginToolCalls 1 3), .start (.beginToolCalls 1 1), .act 0, .act 1, .act 0,
    .act 0].foldl (ProcPool.next (system family) BudgetWorld.run) idle

/-- A call is refused for counts that are never granted. -/
theorem not_linearizable : ¬ ∀ (tree : BudgetTree) (s : BudgetPool),
    Reaches (system tree) idle s → Linearized tree s := by
  intro h
  have hreaches : Reaches (system family) idle crowdedRun := by
    apply ProcPool.reaches_foldl
    exact fun _ _ => rfl
  have hquiet : Quiescent crowdedRun := by
    have hall : crowdedRun.procs.all (·.returned.isSome) = true := by decide +kernel
    exact fun proc hproc => List.all_eq_true.mp hall proc hproc
  obtain ⟨order, hperm, hseq, -⟩ := (h family crowdedRun hreaches).order hquiet
  have hanswers : answers crowdedRun.procs = [(.beginToolCalls 1 3, false), (.beginToolCalls 1 1, false)] := by
    decide +kernel
  rw [hanswers] at hperm
  -- the small call comes first, or after the batch that changes nothing
  have hfits : ¬ family.Crowded unused (.beginToolCalls 1 1) := by decide
  have hfull : family.Crowded unused (.beginToolCalls 1 3) := by decide
  rcases List.perm_pair.mp hperm with rfl | rfl
  · have hsecond := hseq.2.1
    rw [BudgetTree.settle_refused rfl hfull, BudgetTree.settle_granted rfl hfits] at hsecond
    cases hsecond
  · have hfirst := hseq.1
    rw [BudgetTree.settle_granted rfl hfits] at hfirst
    cases hfirst

end Runs

end BudgetRun

end Adk
