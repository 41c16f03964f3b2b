import AdkRust.Graph.Timeline
import AdkRust.Lib.Prog

/-!
# A run and its checkpoints

`run` is `PregelExecutor::run` and the loops of `run_stream` (`executor.rs`), as a program that asks its
world to load, save and prune checkpoints, to execute super-steps, and for the time. The background write
of `Durability::Async` is part of the world, and so are the other writers of the store.

* `saveCheckpoint`, `checkpointStep`, `finishCheckpoints`, `flushBeforeSideEffects`,
  `checkpointFailedStep`: what is written when.
* `tryResume`, `loop`, `run`: a run from its start to its end.
* `World`, `laws`: what the world answers, and what happens in it beside the run. The world keeps a log of
  what the run did, which nothing reads.
* `Session`: runs one after another.
-/

namespace Adk

/-- What a run asks of its world. -/
inductive Ask where
  /-- The newest checkpoint of a thread. -/
  | load (threadId : String)
  | loadById (checkpointId : String)
  | save (cp : Checkpoint)
  | prune (threadId : String) (policy : RetentionPolicy)
  /-- Spawns `write_checkpoint`. -/
  | spawn (cp : Checkpoint)
  /-- Waits for the background write, if there is one. -/
  | await
  | clock
  /-- The id and the time of a new checkpoint. -/
  | stamp
  | superStep (e : Exec)
  /-- Marks where a run enters its loop, and whether at its entry nodes. -/
  | entered (atEntry : Bool) (e : Exec)
  /-- Marks a super-step that has completed. -/
  | completed (e : Exec)

def Ask.Answer : Ask → Type
  | load _ => Option Checkpoint
  | loadById _ => Option Checkpoint
  | save _ => Except GraphError String
  | prune .. => Unit
  | spawn _ => Unit
  | await => Except GraphError Unit
  | clock => Clock
  | stamp => String × Utc
  | superStep _ => Exec × Except MessagesFailure SuperStepResult
  | entered .. => Unit
  | completed _ => Unit

/-- A program of the executor. It ends at the first error. -/
abbrev RunM (α : Type) : Type := ExceptT GraphError (Prog Ask Ask.Answer) α

namespace Run

def ask (o : Ask) : RunM o.Answer := ExceptT.lift (Prog.perform o)

def ofResult {α : Type} (result : Except GraphError α) : RunM α := ExceptT.mk (.pure result)

variable (g : CompiledGraph) (config : ExecutionConfig) (style : Style) (restartCompleted : Bool)

/-! ## Checkpoints -/

/-- Saves a checkpoint, then trims the thread to its retention policy. -/
def writeCheckpoint (cp : Checkpoint) : RunM String := do
  let id ← ofResult (← ask (.save cp))
  match g.retention with
  | some policy => ask (.prune cp.threadId policy)
  | none => pure ()
  return id

/-- Waits for a background checkpoint write and reports its failure. -/
def awaitInflight : RunM Unit := do
  ofResult (← ask .await)

def buildCheckpoint (e : Exec) : RunM (Exec × Checkpoint) := do
  let (id, createdAt) ← ask .stamp
  let now ← ask .clock
  return Exec.buildCheckpoint config e now id createdAt

/-- Writes the run's checkpoint now, after any background write finishes. -/
def saveCheckpoint (e : Exec) : RunM (Exec × String) := do
  awaitInflight
  if g.checkpointer then
    let (e, cp) ← buildCheckpoint config e
    let id ← writeCheckpoint g cp
    return ({ e with unsaved := false }, id)
  else return (e, "")

/-- Checkpoints a completed super-step as the run's durability mode asks. -/
def checkpointStep (e : Exec) : RunM Exec := do
  if g.checkpointer then
    match config.durability with
    | .sync =>
      let (e, _) ← saveCheckpoint g config e
      return e
    | .async =>
      -- One write at a time, so versions reach the store in order.
      awaitInflight
      let (e, cp) ← buildCheckpoint config e
      ask (.spawn cp)
      return { e with unsaved := false }
    | .exit => return { e with unsaved := true }
  else return e

/-- Makes every completed super-step durable before the run returns. -/
def finishCheckpoints (e : Exec) : RunM Exec := do
  awaitInflight
  if e.unsaved then
    let (e, _) ← saveCheckpoint g config e
    return e
  else return e

/-- Whether a node of the frontier is not idempotent. -/
def sideEffecting (e : Exec) : Bool :=
  e.pendingNodes.any fun node => g.nodeEffects[node]? == some .nonIdempotent

/-- Writes every earlier checkpoint before a super-step that runs a non-idempotent node. -/
def flushBeforeSideEffects (e : Exec) : RunM Exec :=
  if sideEffecting g e then finishCheckpoints g config e else pure e

/-- Checkpoints a super-step that failed, when a resume would gain from it. A failure to write is logged,
not raised. -/
def checkpointFailedStep (e : Exec) : Prog Ask Ask.Answer Unit := do
  let anyRetryable := e.pendingNodes.any fun node => (g.retryPolicyFor node).isSome
  if anyRetryable || !e.pendingWrites.isEmpty || e.unsaved then
    let _ ← (saveCheckpoint g config e).run
  else
    let _ ← awaitInflight.run

/-! ## Starting -/

def findCheckpoint : RunM (Option Checkpoint) :=
  if g.checkpointer then
    match config.resumeFrom with
    | some id => ask (.loadById id)
    | none => ask (.load config.threadId)
  else pure none

/-- The highest version known of the thread that a checkpoint is resumed on. -/
def headVersion (cp : Checkpoint) : RunM Nat :=
  match config.resumeFrom with
  | none => pure cp.version
  -- A fork from an earlier checkpoint continues after the thread's newest.
  | some _ => do
    match ← ask (.load cp.threadId) with
    | some newest => return max cp.version newest.version
    | none => return cp.version

/-- Resumes from a checkpoint, if there is one; says whether the run starts again at its entry nodes. -/
def tryResume (input : State) : RunM (Option (Bool × Exec)) := do
  match ← findCheckpoint g config with
  | none => return none
  | some cp =>
    let head ← headVersion config cp
    let now ← ask .clock
    let e ← ofResult (Exec.restore g config restartCompleted cp head input now {})
    return some (cp.pendingNodes.isEmpty && restartCompleted && config.resumeFrom.isNone, e)

/-- Starts at the entry nodes. -/
def startFresh (input : State) : RunM Exec := do
  let loaded ← findCheckpoint g config
  let now ← ask .clock
  ofResult (Exec.start g (Exec.initializeState g loaded input) now {})

/-! ## The loop -/

/-- The run's step budget: the config's override, else the graph's own limit. -/
def recursionLimit : Nat := config.recursionLimit.getD g.recursionLimit

def pause (e : Exec) (result : SuperStepResult) (interrupt : Interrupt) : RunM Exec := do
  let now ← ask .clock
  let e ← ofResult (Exec.pauseFrontier g e result now)
  let (e, id) ← saveCheckpoint g config (style.settle e)
  throw (.interrupted ((InterruptedExecution.new config.threadId id interrupt e.state e.step).withInterrupts
    (result.interrupts.map (·.2))))

/-- Goes on from a super-step in which nothing paused. -/
def complete (e : Exec) (result : SuperStepResult) : RunM Exec := do
  -- The debug stream evaluates the routers once more.
  if style = .stream .debug then
    let _ ← ofResult (g.routeDispatches result.executedNodes e.state)
  let now ← ask .clock
  let e ← ofResult (Exec.completeStep g e result now)
  ask (.completed e)
  checkpointStep g config (style.settle e)

def superStep (e : Exec) : RunM Exec := do
  let e ← flushBeforeSideEffects g config e
  let (e, outcome) ← ask (.superStep e)
  match outcome with
  | .error (.failed error) =>
    ExceptT.lift (checkpointFailedStep g config e)
    throw error
  | .error (.aborted error) => throw error
  | .ok result =>
    match result.interrupts with
    | (_, interrupt) :: _ => pause g config style e result interrupt
    | [] => complete g config style e result

/-- The main execution loop. It ends before `fuel` does when that is the step budget. -/
def loop (fuel : Nat) (e : Exec) : RunM Exec :=
  if e.pendingNodes.isEmpty then finishCheckpoints g config e
  else
    let stepsTaken := e.step - e.runStartStep
    if recursionLimit g config ≤ stepsTaken then throw (.recursionLimitExceeded stepsTaken)
    else
      match fuel with
      | 0 => throw (.recursionLimitExceeded stepsTaken)
      | fuel + 1 => superStep g config style e >>= loop fuel

/-- **Run the graph to completion.** -/
def run (input : State) : RunM Exec := do
  let (atEntry, e) ←
    match ← tryResume g config restartCompleted input with
    | some resumed => pure resumed
    | none => do
      let e ← startFresh g config input
      pure (true, e)
  ask (.entered atEntry e)
  loop g config style (recursionLimit g config) e

/-! ## The world -/

/-- How far a `write_checkpoint` has come. -/
inductive Write where
  | save (cp : Checkpoint)
  | prune (cp : Checkpoint) (policy : RetentionPolicy)
  | done (result : Except GraphError String)

/-- How a `write_checkpoint` goes on when its checkpoint was saved, or was not. -/
def Write.afterSave (cp : Checkpoint) : Except GraphError String → Write
  | .error error => .done (.error error)
  | .ok id =>
    match g.retention with
    | some policy => .prune cp policy
    | none => .done (.ok id)

/-- What a run did. -/
inductive Mark where
  | entered (atEntry : Bool) (e : Exec)
  /-- `asked` is what the nodes of the super-step asked of the caller. -/
  | superStep (e : Exec) (outcome : Exec × Except MessagesFailure SuperStepResult)
    (asked : List (List String))
  | completed (e : Exec)
  | saved (cp : Checkpoint) (result : Except GraphError String)

structure World where
  store : MemoryStore := {}
  /-- The background write that the run has not waited for. -/
  inflight : Option Write := none
  log : List Mark := []

namespace World

/-- The world with one more thing done. -/
def mark (w : World) (m : Mark) : World := { w with log := w.log ++ [m] }

def save (w : World) (cp : Checkpoint) : Except GraphError String × World :=
  match w.store.save cp with
  | .ok store => (.ok cp.checkpointId, { w with store }.mark (.saved cp (.ok cp.checkpointId)))
  | .error error => (.error error, w.mark (.saved cp (.error error)))

end World

/-- The parent nodes that the output of a node asks for. A node that pauses asks for nothing. -/
def requestOf (output : Output) : Option (List String) :=
  match output.result with
  | some (.ok out) => if out.interrupt.isNone then out.gotoParent else none
  | _ => none

/-- What the nodes of a super-step ask for, those answered from their pending writes first. -/
def requests (e : Exec) (outputs : List Output) : List (List String) :=
  match Exec.gateBefore g e e.pendingNodes with
  | some _ => []
  | none =>
    e.pendingNodes.filterMap (fun node => e.pendingWrites[node]?.bind (·.gotoParent)) ++
      (outputs.insertionSort fun a b => a.name ≤ b.name).filterMap requestOf

/-- A super-step as a run of a style executes it, whatever its nodes meet in the world, and what its nodes
ask for. A node of a message stream has no way to ask. -/
inductive StepsTo (e : Exec) :
    Exec → Except MessagesFailure SuperStepResult → List (List String) → Prop where
  | step {env : Attempts} {recorded : List (String × Value)} {outputs : List Output} {e' : Exec}
      {result : Except GraphError SuperStepResult} (hm : style.isMessages = false)
      (h : Exec.SuperStepIn g config ∅ env recorded e outputs (e', result)) :
    StepsTo e e' (result.mapError .failed) (requests g e outputs)
  | messages {env : Attempts} {recorded : List (String × Value)} {yielded : List StreamEvent}
      {e' : Exec} {result : Except MessagesFailure SuperStepResult} (hm : style.isMessages = true)
      (h : Exec.messagesSuperStep g config env recorded e = (yielded, e', result)) :
    StepsTo e e' result (requests g e [])

def Answers : (o : Ask) → World → o.Answer → World → Prop
  | .load threadId, w, r, w' => r = w.store.load threadId ∧ w' = w
  | .loadById id, w, r, w' => r = w.store.loadById id ∧ w' = w
  | .save cp, w, r, w' => (r, w') = w.save cp
  | .prune threadId policy, w, _, w' => ∃ now, w' = { w with store := w.store.prune now threadId policy }
  | .spawn cp, w, _, w' => w' = { w with inflight := some (.save cp) }
  | .await, w, r, w' =>
    (w.inflight = none ∧ r = .ok () ∧ w' = w) ∨
      ∃ result, w.inflight = some (.done result) ∧ r = result.map (fun _ => ()) ∧
        w' = { w with inflight := none }
  | .clock, w, _, w' => w' = w
  | .stamp, w, _, w' => w' = w
  | .superStep e, w, r, w' =>
    ∃ asked, StepsTo g config style e r.1 r.2 asked ∧ w' = w.mark (.superStep e r asked)
  | .entered atEntry e, w, _, w' => w' = w.mark (.entered atEntry e)
  | .completed e, w, _, w' => w' = w.mark (.completed e)

/-- What happens beside a run: its background write goes on, and others change the store. -/
inductive Moves (others : MemoryStore → MemoryStore → Prop) : World → World → Prop where
  | saved {w w' : World} {cp : Checkpoint} {result : Except GraphError String}
      (h : w.inflight = some (.save cp)) (hsave : w.save cp = (result, w')) :
    Moves others w { w' with inflight := some (.afterSave g cp result) }
  | pruned {w : World} {cp : Checkpoint} {policy : RetentionPolicy} (now : Utc)
      (h : w.inflight = some (.prune cp policy)) :
    Moves others w { w with
      store := w.store.prune now cp.threadId policy
      inflight := some (.done (.ok cp.checkpointId)) }
  | others {w : World} {store : MemoryStore} (h : others w.store store) :
    Moves others w { w with store }

def laws (others : MemoryStore → MemoryStore → Prop) : Laws Ask Ask.Answer World where
  answers := Answers g config style
  moves := Moves g others

def Mark.isSave : Mark → Bool
  | .saved .. => true
  | _ => false

/-- What a run did beside saving. -/
def World.deeds (w : World) : List Mark := w.log.filter fun m => !m.isSave

/-- **Runs one after another** on one store: what they did, and the store that they left. A run may end or
be dropped at any point. `starts` is what holds when a run starts. -/
inductive Session (others : MemoryStore → MemoryStore → Prop)
    (starts : List Mark → ExecutionConfig → Style → MemoryStore → Prop) :
    List Mark → MemoryStore → Prop where
  | new (store : MemoryStore) : Session others starts [] store
  | run {history : List Mark} {store : MemoryStore} {config : ExecutionConfig} {style : Style}
      {input : State} {p : Prog Ask Ask.Answer (Except GraphError Exec)} {w : World}
      (h : Session others starts history store) (hstarts : starts history config style store)
      (hreach : Prog.Reaches (laws g config style others)
        ((run g config style restartCompleted input).run, { store }) (p, w)) :
    Session others starts (history ++ w.deeds) w.store

end Run

end Adk
