import AdkRust.Lib.ProcPool
import AdkRust.Spend.Ledger

/-!
# Nested budgets

The call counters of a tree of `BudgetTracker`s (`budget.rs`), and the calls that reserve and release in a
tracker and all its ancestors, one atomic access at a time.

* `BudgetTree.chain`: a tracker and its ancestors.
* `beginModelCall`, `beginToolCalls`, `releaseToolCalls`: the calls, over `BudgetOp`.
* `BudgetWorld.run`: what each access does. A reservation adds with saturation, and is taken back by a
  subtraction that wraps.

The trackers limit model calls and tool calls only: without a limit on tokens, cost or time, and with nothing
recorded as exceeded, `check` reads nothing that matters.
-/

namespace Adk

/-- The counters that calls are reserved in. -/
inductive Counter where
  | modelCalls
  | toolCalls
deriving DecidableEq

/-- The limits of a tracker. -/
structure RunBudget where
  maxModelCalls : Option Nat := none
  maxToolCalls : Option Nat := none

def RunBudget.max (budget : RunBudget) : Counter → Option Nat
  | .modelCalls => budget.maxModelCalls
  | .toolCalls => budget.maxToolCalls

/-- Trackers, numbered as they were created: a parent is created before its children. -/
structure BudgetTree where
  budget : Nat → RunBudget
  parent : Nat → Option Nat
  older : ∀ n p, parent n = some p → p < n

namespace BudgetTree

variable (tree : BudgetTree)

/-- A tracker and so many of its ancestors. -/
def chainFrom : Nat → Nat → List Nat
  | 0, _ => []
  | fuel + 1, n =>
    n :: match tree.parent n with
      | none => []
      | some p => chainFrom fuel p

/-- A tracker and its ancestors, the root last. -/
def chain (n : Nat) : List Nat := tree.chainFrom (n + 1) n

/-- The limit of a tracker on a counter. -/
def max (counter : Counter) (n : Nat) : Option Nat := (tree.budget n).max counter

variable {tree}

theorem le_of_mem_chainFrom {fuel n m : Nat} (h : m ∈ tree.chainFrom fuel n) : m ≤ n := by
  induction fuel generalizing n with
  | zero => cases h
  | succ fuel ih =>
    rw [chainFrom] at h
    rcases List.mem_cons.mp h with rfl | h
    · exact Nat.le_refl m
    · cases hp : tree.parent n with
      | none =>
        rw [hp] at h
        cases h
      | some p =>
        rw [hp] at h
        have := ih h
        have := tree.older n p hp
        omega

/-- No tracker is its own ancestor. -/
theorem nodup_chainFrom (fuel n : Nat) : (tree.chainFrom fuel n).Nodup := by
  induction fuel generalizing n with
  | zero => exact .nil
  | succ fuel ih =>
    rw [chainFrom]
    cases hp : tree.parent n with
    | none => exact List.nodup_singleton n
    | some p =>
      refine List.nodup_cons.mpr ⟨fun hmem => ?_, ih p⟩
      have := le_of_mem_chainFrom hmem
      have := tree.older n p hp
      omega

theorem nodup_chain (n : Nat) : (tree.chain n).Nodup := nodup_chainFrom _ n

end BudgetTree

/-- The limit a violation is about. -/
inductive BudgetLimit where
  | modelCalls
  | toolCalls
deriving DecidableEq

/-- Why a call was refused. -/
structure BudgetExceeded where
  limit : BudgetLimit
  used : Nat
  max : Nat
  code : String
  message : String
deriving DecidableEq

namespace BudgetExceeded

def reached (limit : BudgetLimit) (used max : Nat) : BudgetExceeded :=
  match limit with
  | .modelCalls =>
    { limit, used, max, code := "budget.model_calls",
      message := s!"budget exhausted: {used} of {max} model calls used" }
  | .toolCalls =>
    { limit, used, max, code := "budget.tool_calls",
      message := s!"budget exhausted: {used} of {max} tool calls used" }

def toolBatch (used requested max : Nat) : BudgetExceeded where
  limit := .toolCalls
  used := used
  max := max
  code := "budget.tool_calls"
  message := s!"budget exhausted: {requested} tool calls requested with {used} of {max} already used"

end BudgetExceeded

/-! ## The calls -/

/-- The atomic accesses of the calls. -/
inductive BudgetOp where
  | load (counter : Counter) (n : Nat)
  /-- Adds to a counter, unless that takes it past a limit. -/
  | reserve (counter : Counter) (n count : Nat) (max : Option Nat)
  | fetchSub (counter : Counter) (n count : Nat)
  /-- Takes back from the tool calls, down to zero. -/
  | release (n count : Nat)
deriving DecidableEq

/-- What an access answers; a reservation that is refused answers what was used. -/
abbrev BudgetOp.Ret : BudgetOp → Type
  | .load .. => Nat
  | .reserve .. => Except Nat Unit
  | .fetchSub .. => Unit
  | .release .. => Unit

/-- A program over counters. -/
abbrev BudgetProg : Type → Type := ExceptT BudgetExceeded (Prog BudgetOp BudgetOp.Ret)

def BudgetProg.access (op : BudgetOp) : BudgetProg op.Ret := ExceptT.lift (Prog.perform op)

section Calls

variable (tree : BudgetTree)

def reserveViolation (counter : Counter) (used count max : Nat) : BudgetExceeded :=
  match counter with
  | .toolCalls => if 1 < count then .toolBatch used count max else .reached .toolCalls used max
  | .modelCalls => .reached .modelCalls used max

/-- Reserves in a tracker and then in its ancestors; a tracker takes its own back when they refuse. -/
def reserve (counter : Counter) (count : Nat) : List Nat → BudgetProg Unit
  | [] => pure ()
  | n :: ancestors => do
    match ← BudgetProg.access (.reserve counter n count (tree.max counter n)) with
    | .error used => throw (reserveViolation counter used count ((tree.max counter n).getD 0))
    | .ok () =>
      tryCatch (reserve counter count ancestors) fun violation => do
        BudgetProg.access (.fetchSub counter n count)
        throw violation

def limitViolation (budget : RunBudget) (modelCalls toolCalls : Nat) : Option BudgetExceeded :=
  if budget.maxModelCalls.any (· < modelCalls) then
    some (.reached .modelCalls modelCalls (budget.maxModelCalls.getD 0))
  else if budget.maxToolCalls.any (· < toolCalls) then
    some (.reached .toolCalls toolCalls (budget.maxToolCalls.getD 0))
  else none

/-- Checks that a tracker and its ancestors exceed no limit. -/
def checkChain : List Nat → BudgetProg Unit
  | [] => pure ()
  | n :: ancestors => do
    let modelCalls ← BudgetProg.access (.load .modelCalls n)
    let toolCalls ← BudgetProg.access (.load .toolCalls n)
    match limitViolation (tree.budget n) modelCalls toolCalls with
    | some violation => throw violation
    | none => checkChain ancestors

def beginModelCall (n : Nat) : BudgetProg Unit := do
  checkChain tree (tree.chain n)
  reserve tree .modelCalls 1 (tree.chain n)

def beginToolCalls (n count : Nat) : BudgetProg Unit :=
  if count = 0 then pure () else reserve tree .toolCalls count (tree.chain n)

/-- Takes reserved tool calls back in a tracker and then in its ancestors. -/
def releaseFrom (count : Nat) : List Nat → Prog BudgetOp BudgetOp.Ret Unit
  | [] => pure ()
  | n :: ancestors => do
    Prog.perform (BudgetOp.release n count)
    releaseFrom count ancestors

def releaseToolCalls (n count : Nat) : Prog BudgetOp BudgetOp.Ret Unit :=
  if count = 0 then pure () else releaseFrom count (tree.chain n)

end Calls

inductive BudgetCall where
  | beginModelCall (n : Nat)
  | beginToolCalls (n count : Nat)
  | releaseToolCalls (n count : Nat)
deriving DecidableEq

namespace BudgetCall

abbrev Res : BudgetCall → Type
  | .beginModelCall _ => Except BudgetExceeded Unit
  | .beginToolCalls .. => Except BudgetExceeded Unit
  | .releaseToolCalls .. => Unit

def program (tree : BudgetTree) : (call : BudgetCall) → Prog BudgetOp BudgetOp.Ret call.Res
  | .beginModelCall n => (Adk.beginModelCall tree n).run
  | .beginToolCalls n count => (Adk.beginToolCalls tree n count).run
  | .releaseToolCalls n count => Adk.releaseToolCalls tree n count

def tracker : BudgetCall → Nat
  | .beginModelCall n => n
  | .beginToolCalls n _ => n
  | .releaseToolCalls n _ => n

/-- How many calls it is about. -/
def count : BudgetCall → Nat
  | .beginModelCall _ => 1
  | .beginToolCalls _ count => count
  | .releaseToolCalls _ count => count

def counter : BudgetCall → Counter
  | .beginModelCall _ => .modelCalls
  | .beginToolCalls .. => .toolCalls
  | .releaseToolCalls .. => .toolCalls

def granted : (call : BudgetCall) → call.Res → Bool
  | .beginModelCall _, result => result.isOk
  | .beginToolCalls .., result => result.isOk
  | .releaseToolCalls .., _ => true

def releases : BudgetCall → Bool
  | .releaseToolCalls .. => true
  | _ => false

end BudgetCall

/-! ## The counters -/

/-- The counters of the trackers. -/
structure BudgetWorld where
  used : Counter → Nat → Nat := fun _ _ => 0
  /-- The number of accesses so far. -/
  ticks : Nat := 0

namespace BudgetWorld

def put (w : BudgetWorld) (counter : Counter) (n value : Nat) : BudgetWorld where
  used := fun c m => if c = counter ∧ m = n then value else w.used c m
  ticks := w.ticks + 1

/-- The number of values of a counter (`u64`). -/
def modulus : Nat := 18446744073709551616

/-- What an access answers and does. -/
def run : (op : BudgetOp) → BudgetWorld → op.Ret × BudgetWorld
  | .load counter n, w => (w.used counter n, { w with ticks := w.ticks + 1 })
  | .reserve counter n count max, w =>
    let next := saturatingAdd (w.used counter n) count
    if max.any (· < next) then (.error (w.used counter n), { w with ticks := w.ticks + 1 })
    else (.ok (), w.put counter n next)
  | .fetchSub counter n count, w =>
    ((), w.put counter n ((w.used counter n + modulus - count % modulus) % modulus))
  | .release n count, w => ((), w.put .toolCalls n (w.used .toolCalls n - count))

/-- An access answers as its run does; nothing else moves the counters. -/
def laws : Laws BudgetOp BudgetOp.Ret BudgetWorld where
  answers op w r w' := (r, w') = run op w
  moves _ _ := False

end BudgetWorld

/-- A call in progress, or one that has returned. -/
abbrev BudgetProc : Type := Proc BudgetCall.Res BudgetOp.Ret BudgetWorld

/-- The counters and the calls. -/
abbrev BudgetPool : Type := ProcPool BudgetCall.Res BudgetOp.Ret BudgetWorld

end Adk
