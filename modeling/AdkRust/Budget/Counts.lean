import AdkRust.Budget.Order

/-!
# What a call has counted

What the accesses of a call added to each counter and took back from it, read off its log, and what the code
ensures of it (`program_local`): a call that begins adds its count up its chain, and takes it all back when it is
refused; a release takes back once in each tracker.
-/

namespace Adk

abbrev BudgetEntry : Type := Entry BudgetOp.Ret BudgetWorld

namespace BudgetEntry

def added (k : Counter) (n : Nat) : BudgetEntry → Nat
  | ⟨_, .reserve k' n' count _, .ok ()⟩ => if k = k' ∧ n = n' then count else 0
  | _ => 0

def takenBack (k : Counter) (n : Nat) : BudgetEntry → Nat
  | ⟨_, .fetchSub k' n' count, _⟩ => if k = k' ∧ n = n' then count else 0
  | ⟨_, .release n' count, _⟩ => if k = .toolCalls ∧ n = n' then count else 0
  | _ => 0

def refuses : BudgetEntry → Bool
  | ⟨_, .reserve .., .error _⟩ => true
  | _ => false

/-- A check saw more than a limit allows. -/
def overloaded (tree : BudgetTree) : BudgetEntry → Bool
  | ⟨_, .load k n, used⟩ => (tree.max k n).any (· < used)
  | _ => false

end BudgetEntry

def added (k : Counter) (n : Nat) (log : List BudgetEntry) : Nat := tally (BudgetEntry.added k n) log

def takenBack (k : Counter) (n : Nat) (log : List BudgetEntry) : Nat := tally (BudgetEntry.takenBack k n) log

def BudgetCall.part (call : BudgetCall) (done : List Nat) (k : Counter) (n : Nat) : Nat :=
  if k = call.counter ∧ n ∈ done then call.count else 0

section Parts

variable {call : BudgetCall} {k : Counter} {n m : Nat} {done later : List Nat} {log : List BudgetEntry}
  {entry : BudgetEntry}

@[simp] theorem added_nil : added k n [] = 0 := rfl

@[simp] theorem takenBack_nil : takenBack k n [] = 0 := rfl

@[simp] theorem added_concat : added k n (log ++ [entry]) = added k n log + entry.added k n := tally_concat _ _

@[simp] theorem takenBack_concat : takenBack k n (log ++ [entry]) = takenBack k n log + entry.takenBack k n :=
  tally_concat _ _

@[simp] theorem part_nil : call.part [] k n = 0 := if_neg fun h => by cases h.2

theorem share_eq {tree : BudgetTree} : call.share tree = call.part (tree.chain call.tracker) := rfl

/-- One tracker more. -/
theorem part_concat (hn : n ∉ done) :
    call.part (done ++ [n]) k m = call.part done k m + if k = call.counter ∧ m = n then call.count else 0 := by
  unfold BudgetCall.part
  by_cases hk : k = call.counter
  · by_cases hm : m = n
    · subst hm
      simp [hk, hn]
    · simp [hm]
  · simp [hk]

theorem part_le (hsub : ∀ n ∈ done, n ∈ later) : call.part done k n ≤ call.part later k n := by
  unfold BudgetCall.part
  by_cases h : k = call.counter ∧ n ∈ done
  · rw [if_pos h, if_pos ⟨h.1, hsub n h.2⟩]
  · rw [if_neg h]
    exact Nat.zero_le _

theorem part_zero (h : call.count = 0) : call.part done k n = 0 := by
  unfold BudgetCall.part
  rw [h, ite_self]

end Parts

/-! ## The shapes of a log -/

/-- A call has counted in some trackers and was not refused. -/
structure Climbs (call : BudgetCall) (done : List Nat) (log : List BudgetEntry) : Prop where
  added : ∀ k n, Adk.added k n log = call.part done k n
  kept : ∀ k n, Adk.takenBack k n log = 0
  unrefused : log.any BudgetEntry.refuses = false

/-- A call was refused and has still to take back in some trackers. -/
structure Backs (call : BudgetCall) (done : List Nat) (log : List BudgetEntry) : Prop where
  added : ∀ k n, Adk.added k n log = Adk.takenBack k n log + call.part done k n
  refused : log.any BudgetEntry.refuses = true

/-- A call has released in some trackers. -/
structure Gives (call : BudgetCall) (done : List Nat) (log : List BudgetEntry) : Prop where
  added : ∀ k n, Adk.added k n log = 0
  takenBack : ∀ k n, Adk.takenBack k n log = call.part done k n
  unrefused : log.any BudgetEntry.refuses = false

/-- The log of a call when it is about to make an access. -/
def BudgetCall.Before (tree : BudgetTree) (call : BudgetCall) (op : BudgetOp) (log : List BudgetEntry) : Prop :=
  match op with
  | .load _ _ => call.releases = false ∧ 0 < call.count ∧ Climbs call [] log
  | .reserve k n count max => call.releases = false ∧ k = call.counter ∧ count = call.count ∧ 0 < count ∧
      max = tree.max k n ∧ ∃ done later, tree.chain call.tracker = done ++ n :: later ∧ Climbs call done log
  | .fetchSub k n count => call.releases = false ∧ k = call.counter ∧ count = call.count ∧
      ∃ done later, tree.chain call.tracker = done ++ n :: later ∧ Backs call (done ++ [n]) log
  | .release n count => call.releases = true ∧ call.counter = .toolCalls ∧ count = call.count ∧
      ∃ done later, tree.chain call.tracker = done ++ n :: later ∧ Gives call done log

def BudgetCall.After (tree : BudgetTree) (call : BudgetCall) (result : call.Res) (log : List BudgetEntry) : Prop :=
  if call.releases then Gives call (tree.chain call.tracker) log ∧ (log = [] → call.count = 0)
  else if call.granted result then Climbs call (tree.chain call.tracker) log
  else Backs call [] log ∨ Climbs call [] log ∧ log.any (BudgetEntry.overloaded tree) = true

/-! ## One access more -/

section Access

variable {tree : BudgetTree} {call : BudgetCall} {done later : List Nat} {log : List BudgetEntry} {n : Nat}
  {w : BudgetWorld} {max : Option Nat}

theorem climbs_nil : Climbs call [] [] where
  added _ _ := part_nil.symm
  kept _ _ := rfl
  unrefused := rfl

theorem Climbs.load {k : Counter} {used : Nat} (h : Climbs call done log) :
    Climbs call done (log ++ [⟨w, .load k n, used⟩]) where
  added k' m := by
    rw [added_concat, h.added]
    rfl
  kept k' m := by
    rw [takenBack_concat, h.kept]
    rfl
  unrefused := by
    rw [List.any_append, h.unrefused]
    rfl

theorem Climbs.reserve (h : Climbs call done log) (hn : n ∉ done) :
    Climbs call (done ++ [n]) (log ++ [⟨w, .reserve call.counter n call.count max, .ok ()⟩]) where
  added k m := by
    rw [added_concat, h.added, part_concat hn]
    rfl
  kept k m := by
    rw [takenBack_concat, h.kept]
    rfl
  unrefused := by
    rw [List.any_append, h.unrefused]
    rfl

theorem Climbs.refuse {k : Counter} {count used : Nat} (h : Climbs call done log) :
    Backs call done (log ++ [⟨w, .reserve k n count max, .error used⟩]) where
  added k' m := by
    rw [added_concat, takenBack_concat, h.added, h.kept, Nat.add_comm]
    rfl
  refused := by
    rw [List.any_append, Bool.or_eq_true]
    exact .inr rfl

theorem Backs.fetchSub (h : Backs call (done ++ [n]) log) (hn : n ∉ done) :
    Backs call done (log ++ [⟨w, .fetchSub call.counter n call.count, ()⟩]) where
  added k m := by
    have hone : BudgetEntry.takenBack k m ⟨w, .fetchSub call.counter n call.count, ()⟩ =
      if k = call.counter ∧ m = n then call.count else 0 := rfl
    have hzero : BudgetEntry.added k m ⟨w, .fetchSub call.counter n call.count, ()⟩ = 0 := rfl
    rw [added_concat, takenBack_concat, h.added, part_concat hn, hone, hzero]
    omega
  refused := by
    rw [List.any_append, h.refused]
    rfl

theorem gives_nil : Gives call [] [] where
  added _ _ := rfl
  takenBack _ _ := part_nil.symm
  unrefused := rfl

theorem Gives.release (h : Gives call done log) (hcounter : call.counter = .toolCalls) (hn : n ∉ done) :
    Gives call (done ++ [n]) (log ++ [⟨w, .release n call.count, ()⟩]) where
  added k m := by
    rw [added_concat, h.added]
    rfl
  takenBack k m := by
    rw [takenBack_concat, h.takenBack, part_concat hn, hcounter]
    rfl
  unrefused := by
    rw [List.any_append, h.unrefused]
    rfl

end Access

/-! ## What the code ensures of its log -/

section Local

open ProcPool

variable {tree : BudgetTree} {call : BudgetCall}

/-- In a list without repetitions no item stands before itself. -/
theorem not_mem_done {ns done later : List Nat} {n : Nat} (hnd : ns.Nodup) (h : ns = done ++ n :: later) :
    n ∉ done := by
  intro hn
  subst h
  exact (List.nodup_append.mp hnd).2.2 n hn n List.mem_cons_self rfl

theorem reserve_local (hbegs : call.releases = false) (hcnt : 0 < call.count) {done ns : List Nat}
    (hchn : tree.chain call.tracker = done ++ ns) {log : List BudgetEntry} (h : Climbs call done log) :
    Prog.Ensures (recording BudgetWorld.laws) (call.Before tree) (fun _ log => Backs call done log)
      (fun _ log => Climbs call (done ++ ns) log) (reserve tree call.counter call.count ns) log := by
  induction ns generalizing done log with
  | nil =>
    rw [List.append_nil]
    exact ensures_pure h
  | cons n ns ih =>
    have hn : n ∉ done := not_mem_done (tree.nodup_chain call.tracker) hchn
    have hnext : tree.chain call.tracker = (done ++ [n]) ++ ns := by
      rw [hchn, List.append_assoc]
      rfl
    unfold reserve
    refine Prog.Ensures.bind (M := fun r log => match r with
      | .ok () => Climbs call (done ++ [n]) log
      | .error _ => Backs call done log) ?_ ?_
    · refine ensures_perform ⟨hbegs, rfl, rfl, hcnt, rfl, done, ns, hchn, h⟩ fun w r w' _ => ?_
      cases r with
      | ok a => exact h.reserve hn
      | error used => exact h.refuse
    · intro r log' h'
      cases r with
      | error used => exact ensures_throw h'
      | ok a =>
        have hrest := ih hnext h'
        rw [List.append_assoc] at hrest
        refine Prog.Ensures.tryCatch hrest fun violation log'' hback => ?_
        refine Prog.Ensures.bind (M := fun _ log => Backs call done log) ?_ fun _ _ h => ensures_throw h
        refine ensures_perform ⟨hbegs, rfl, rfl, done, ns, hchn, hback⟩ fun w r w' _ => ?_
        exact hback.fetchSub hn

/-- A check changes nothing, and fails only where it saw more than a limit allows. -/
theorem checkChain_local (hbegs : call.releases = false) (hcnt : 0 < call.count) (ns : List Nat)
    {log : List BudgetEntry} (h : Climbs call [] log) :
    Prog.Ensures (recording BudgetWorld.laws) (call.Before tree)
      (fun _ log => Climbs call [] log ∧ log.any (BudgetEntry.overloaded tree) = true)
      (fun _ log => Climbs call [] log) (checkChain tree ns) log := by
  induction ns generalizing log with
  | nil => exact ensures_pure h
  | cons n ns ih =>
    unfold checkChain
    refine Prog.Ensures.bind (M := fun models log => Climbs call [] log ∧
      ((tree.budget n).maxModelCalls.any (· < models) = true →
        log.any (BudgetEntry.overloaded tree) = true)) ?_ ?_
    · refine ensures_perform ⟨hbegs, hcnt, h⟩ fun w r w' _ => ⟨h.load, fun hover => ?_⟩
      rw [List.any_append, Bool.or_eq_true]
      right
      rw [List.any_cons, Bool.or_eq_true]
      exact .inl hover
    rintro models log₁ ⟨h₁, hmodels⟩
    refine Prog.Ensures.bind (M := fun tools log => Climbs call [] log ∧
      ((tree.budget n).maxModelCalls.any (· < models) = true →
        log.any (BudgetEntry.overloaded tree) = true) ∧
      ((tree.budget n).maxToolCalls.any (· < tools) = true →
        log.any (BudgetEntry.overloaded tree) = true)) ?_ ?_
    · refine ensures_perform ⟨hbegs, hcnt, h₁⟩ fun w r w' _ => ⟨h₁.load, fun hover => ?_, fun hover => ?_⟩
      · rw [List.any_append, hmodels hover]
        rfl
      · rw [List.any_append, Bool.or_eq_true]
        right
        rw [List.any_cons, Bool.or_eq_true]
        exact .inl hover
    rintro tools log₂ ⟨h₂, hmodels, htools⟩
    unfold limitViolation
    by_cases hm : (tree.budget n).maxModelCalls.any (· < models) = true
    · rw [if_pos hm]
      exact ensures_throw ⟨h₂, hmodels hm⟩
    · rw [if_neg hm]
      by_cases ht : (tree.budget n).maxToolCalls.any (· < tools) = true
      · rw [if_pos ht]
        exact ensures_throw ⟨h₂, htools ht⟩
      · rw [if_neg ht]
        exact ih h₂

theorem releaseFrom_local (hrel : call.releases = true) (hcounter : call.counter = .toolCalls)
    {done ns : List Nat} (hchn : tree.chain call.tracker = done ++ ns) {log : List BudgetEntry}
    (h : Gives call done log) :
    (releaseFrom call.count ns).Holds (recording BudgetWorld.laws) (call.Before tree)
      (fun _ log => Gives call (done ++ ns) log) log := by
  induction ns generalizing done log with
  | nil =>
    rw [List.append_nil]
    exact holds_pure.mpr h
  | cons n ns ih =>
    have hn : n ∉ done := not_mem_done (tree.nodup_chain call.tracker) hchn
    have hnext : tree.chain call.tracker = (done ++ [n]) ++ ns := by
      rw [hchn, List.append_assoc]
      rfl
    refine holds_ask.mpr ⟨⟨hrel, hcounter, rfl, done, ns, hchn, h⟩, fun w r w' _ => ?_⟩
    have hrest := ih hnext (h.release (w := w) hcounter hn)
    rw [List.append_assoc] at hrest
    exact hrest

/-- **What each call ensures of its log.** -/
theorem program_local (call : BudgetCall) :
    (call.program tree).Holds (recording BudgetWorld.laws) (call.Before tree) (call.After tree) [] := by
  cases call with
  | beginModelCall n =>
    have hbody : Prog.Ensures (recording BudgetWorld.laws) (BudgetCall.Before tree (.beginModelCall n))
        (fun _ log => Backs (.beginModelCall n) [] log ∨
          Climbs (.beginModelCall n) [] log ∧ log.any (BudgetEntry.overloaded tree) = true)
        (fun _ log => Climbs (.beginModelCall n) (tree.chain n) log) (beginModelCall tree n) [] := by
      refine Prog.Ensures.bind (M := fun _ log => Climbs (.beginModelCall n) [] log) ?_ ?_
      · have hcheck := @checkChain_local tree (.beginModelCall n) rfl Nat.one_pos (tree.chain n) [] climbs_nil
        exact hcheck.mono (fun _ _ h => h) fun _ _ h => .inr h
      · intro _ log h
        have hreserve := @reserve_local tree (.beginModelCall n) rfl Nat.one_pos [] _ rfl log h
        exact hreserve.mono (fun _ _ h => h) fun _ _ h => .inl h
    refine Prog.Holds.mono hbody fun result log h => ?_
    cases result with
    | ok a => exact h
    | error violation => exact h
  | beginToolCalls n count =>
    by_cases hcnt : count = 0
    · subst hcnt
      refine holds_pure.mpr ?_
      show Climbs _ _ _
      exact ⟨fun k m => (part_zero rfl).symm, fun _ _ => rfl, rfl⟩
    · have hrun : BudgetCall.program tree (.beginToolCalls n count) =
          (reserve tree .toolCalls count (tree.chain n)).run := by
        show (if count = 0 then _ else _ : BudgetProg Unit).run = _
        rw [if_neg hcnt]
      rw [hrun]
      have hbody := @reserve_local tree (.beginToolCalls n count) rfl (Nat.pos_of_ne_zero hcnt) [] _ rfl []
        climbs_nil
      refine Prog.Holds.mono hbody fun result log h => ?_
      cases result with
      | ok a => exact h
      | error violation => exact .inl h
  | releaseToolCalls n count =>
    by_cases hcnt : count = 0
    · subst hcnt
      refine holds_pure.mpr ⟨⟨fun _ _ => rfl, fun k m => (part_zero rfl).symm, rfl⟩, fun _ => rfl⟩
    · have hrun : BudgetCall.program tree (.releaseToolCalls n count) = releaseFrom count (tree.chain n) := by
        show (if count = 0 then _ else _) = _
        rw [if_neg hcnt]
      rw [hrun]
      have hbody := @releaseFrom_local tree (.releaseToolCalls n count) rfl rfl [] _ rfl [] gives_nil
      refine Prog.Holds.mono hbody fun result log h => ⟨h, ?_⟩
      rintro rfl
      -- the tracker's own count was taken back
      have hown := h.takenBack .toolCalls n
      have hmem : n ∈ [] ++ tree.chain n := List.mem_cons_self
      rw [takenBack_nil, BudgetCall.part, if_pos ⟨rfl, hmem⟩] at hown
      exact hown.symm

end Local

end Adk
