import AdkRust.Graph.Run

/-!
# A graph as a node of another

`SubgraphNode` (`subgraph.rs`): the channels it exchanges with the graph that holds it (`projectOut`),
the thread of its runs (`childThread`), and what it
makes of the outcome of a run (`output`). The runs themselves are those of `Run.run`.
-/

namespace Adk

/-- One graph running as a node of another. -/
structure SubgraphNode where
  name : String
  graph : CompiledGraph
  /-- Parent channel to subgraph channel, applied before the subgraph runs. -/
  inputs : List (String × String) := []
  /-- Subgraph channel to parent channel, applied after it finishes. -/
  outputs : List (String × String) := []
  /-- Whether channels the two schemas share pass through without being named. -/
  shareByName : Bool := true

/-- The outcome of a run that finished. -/
structure GraphOutcome where
  state : State
  gotoParent : Option (List String)

/-- What a run that finished reports of its executor. -/
def GraphOutcome.ofExec (e : Exec) : GraphOutcome := ⟨e.state, e.gotoParent⟩

namespace SubgraphNode

variable (self : SubgraphNode)

/-- Channels shared by name, when that is enabled. -/
def sharedWith (parent : StateSchema) : List String :=
  if self.shareByName then
    self.graph.schema.channels.keys.filter fun name => parent.channels.contains name
  else []

def copyChannels (state : State) (channels : List (String × String)) (copied : State) : State :=
  channels.foldl (fun copied channel =>
    match state[channel.1]? with
    | some value => copied.insert channel.2 value
    | none => copied) copied

/-- Builds the parent's updates from the subgraph's final state. -/
def projectOut (childState : State) (parentSchema : StateSchema) : Dict Value :=
  let shared := (self.sharedWith parentSchema).map fun name => (name, name)
  copyChannels childState self.outputs (copyChannels childState shared ∅)

/-- The thread one activation of the subgraph runs on. -/
def childThread (parentThread : String) (step : Nat) : String :=
  s!"{parentThread}/{self.name}@{step}"

/-- What the node returns for an outcome of its run. `confirmation` is how a pause for a tool confirmation
is reported under the name of the node inside; any other pause is a pause of the whole run. -/
def output (confirmation : String → Interrupt → Option Interrupt) (ctx : NodeContext) :
    Except GraphError GraphOutcome → Except GraphError NodeOutput
  | .ok outcome =>
    .ok { updates := self.projectOut outcome.state ctx.parentSchema, goto := outcome.gotoParent }
  | .error (.interrupted inner) =>
    match confirmation self.name inner.interrupt with
    | some pause => .ok { interrupt := some pause }
    | none =>
      let message :=
        match inner.interrupt with
        | .dynamic message _ => message
        | other => other.toString
      let data :=
        match inner.interrupt with
        | .dynamic _ (some data) => [("data", data)]
        | _ => []
      let payload := data ++ [("subgraph", Value.string self.name),
        ("thread", .string (self.childThread ctx.config.threadId ctx.step))]
      .ok { interrupt := some (.dynamic s!"{self.name}: {message}" (some (.object payload))) }
  | .error error => .error error

end SubgraphNode

end Adk
