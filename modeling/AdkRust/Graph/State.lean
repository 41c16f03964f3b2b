import AdkRust.Graph.Value

/-!
# Graph state

A graph's state maps channels to values, and the schema says how an update to a channel is merged
(`state.rs`).
-/

namespace Adk

/-- Graph state: a map of channel names to values. -/
abbrev State : Type := Dict Value

/-- How an update is merged into a channel. -/
inductive Reducer where
  | overwrite
  | append
  | sum
  | custom (f : Value → Value → Value)

structure Channel where
  name : String
  reducer : Reducer := .overwrite
  default : Option Value := none

namespace Channel

def list (name : String) : Channel :=
  { name, reducer := .append, default := some (.array []) }

end Channel

/-- The channels a graph declares. -/
structure StateSchema where
  channels : Dict Channel := ∅

namespace StateSchema

def getReducer (schema : StateSchema) (channel : String) : Reducer :=
  (schema.channels[channel]?.map (·.reducer)).getD .overwrite

/-- The first of `keys` the schema does not declare; `none` when it declares no channel. -/
def firstUndeclared (schema : StateSchema) (keys : List String) : Option String :=
  if schema.channels.isEmpty then none
  else keys.find? (fun key => !schema.channels.contains key)

/-- What a reducer makes of a channel's current value and an update to it. -/
def reduce : Reducer → Value → Value → Value
  | .overwrite, _, value => value
  | .append, current, value =>
    let arr := match current with
      | .array a => a
      | .null => []
      | _ => [current]
    match value with
    | .array items => .array (arr ++ items)
    | _ => .array (arr ++ [value])
  | .sum, current, value => .ofFloat (current.asF64.getD 0 + value.asF64.getD 0)
  | .custom f, current, value => f current value

def applyUpdate (schema : StateSchema) (state : State) (key : String) (value : Value) : State :=
  state.insert key (reduce (schema.getReducer key) (state.getD key .null) value)

/-- Applies updates one after another. -/
def applyUpdates (schema : StateSchema) (state : State) (updates : List (String × Value)) :
    State :=
  updates.foldl (fun state (key, value) => schema.applyUpdate state key value) state

/-- The state of the declared defaults. -/
def initializeState (schema : StateSchema) : State :=
  schema.channels.filterMap (fun _ channel => channel.default)

end StateSchema

/-- What one node of an unfinished super-step produced. -/
structure PendingWrite where
  updates : Dict Value := ∅
  goto : Option (List String) := none
  gotoParent : Option (List String) := none
deriving DecidableEq

end Adk
