import AdkRust.Graph.Node

/-!
# Fan-in nodes

A deferred node waits for its predecessors (`deferred.rs`).

* `FanInTracker`: the arrivals of one waiting node, in recording order.
* `FanInSnapshot`: what a checkpoint carries of the waiting nodes. `FanInSnapshot.fromMetadata`
  reads back what `toValue` wrote (`fromMetadata_toValue`), and `restore` rebuilds the trackers
  that `capture` was given (`restore_capture`).

A moment stands in a checkpoint's metadata as its nanoseconds rather than as RFC 3339 text.
-/

namespace Adk

/-- How the outputs of several predecessors are combined. -/
inductive MergeStrategy where
  | collect
  | mergeMap
  | first
  | custom (f : List Value → Value)

structure DeferredNodeConfig where
  mergeStrategy : MergeStrategy := .collect
  fanInTimeout : Option Duration := none
  minPredecessors : Option Nat := none

/-! ## The tracker -/

/-- The predecessors a deferred node expects and the outputs it received so far. -/
structure FanInTracker where
  expected : Names
  received : Dict Value
  /-- The sources received, in the order they were first recorded. -/
  insertionOrder : List String
  nodup : insertionOrder.Nodup
  mem_received : ∀ s, s ∈ insertionOrder ↔ s ∈ received

namespace FanInTracker

/-- A tracker that has received nothing. -/
def new (expectedSources : List String) : FanInTracker where
  expected := Names.ofList expectedSources
  received := ∅
  insertionOrder := []
  nodup := .nil
  mem_received := by simp

/-- Whether every expected source has reported. -/
def isReady (self : FanInTracker) : Bool :=
  self.expected.toList.all self.received.contains

def record (self : FanInTracker) (sourceNode : String) (output : Value) : FanInTracker where
  expected := self.expected
  received := self.received.insert sourceNode output
  insertionOrder :=
    if self.received.contains sourceNode then self.insertionOrder
    else self.insertionOrder ++ [sourceNode]
  nodup := by
    have hm := self.mem_received sourceNode
    split
    · exact self.nodup
    · rename_i h
      rw [Std.ExtTreeMap.contains_iff_mem] at h
      exact List.nodup_append.mpr ⟨self.nodup, by simp, by grind⟩
  mem_received := by
    intro s
    have hm := self.mem_received
    rw [Std.ExtTreeMap.mem_insert]
    split
    · rename_i h
      rw [Std.ExtTreeMap.contains_iff_mem] at h
      grind
    · simp only [List.mem_append, List.mem_singleton, hm]
      grind

/-- The arrivals, in recording order. -/
def arrivals (self : FanInTracker) : List (String × Value) :=
  self.insertionOrder.filterMap fun s => self.received[s]?.map fun output => (s, output)

/-- The outputs, in recording order. -/
def outputs (self : FanInTracker) : List Value := self.arrivals.map (·.2)

/-- Merges the fields of every object among the outputs; a later output's field wins. -/
def mergeFields (outputs : List Value) : Dict Value :=
  outputs.foldl (fun merged output =>
    match output with
    | .object fields => fields.foldl (fun merged field => merged.insert field.1 field.2) merged
    | _ => merged) ∅

def merge (self : FanInTracker) : MergeStrategy → Value
  | .collect => .array self.outputs
  | .mergeMap => .ofDict (mergeFields self.outputs)
  | .first => ((self.insertionOrder.head?).bind (self.received[·]?)).getD .null
  | .custom f => f self.outputs

/-- How many outputs were received. -/
def receivedCount (self : FanInTracker) : Nat := self.received.size

/-- How many sources are expected. -/
def expectedCount (self : FanInTracker) : Nat := self.expected.size

/-- The expected sources that have not reported. -/
def pendingSources (self : FanInTracker) : List String :=
  self.expected.toList.filter fun s => !self.received.contains s

/-! ### What recording does to the arrivals -/

@[simp] theorem new_expected (sources : List String) :
    (new sources).expected = Names.ofList sources := rfl

@[simp] theorem new_received (sources : List String) : (new sources).received = ∅ := rfl

@[simp] theorem new_arrivals (sources : List String) : (new sources).arrivals = [] := rfl

@[simp] theorem record_expected (t : FanInTracker) (s : String) (v : Value) :
    (t.record s v).expected = t.expected := rfl

@[simp] theorem record_received (t : FanInTracker) (s : String) (v : Value) :
    (t.record s v).received = t.received.insert s v := rfl

theorem ext' {t u : FanInTracker} (he : t.expected = u.expected)
    (hr : t.received = u.received) (ho : t.insertionOrder = u.insertionOrder) : t = u := by
  cases t; cases u; simp_all

theorem arrivals_fst (t : FanInTracker) : t.arrivals.map Prod.fst = t.insertionOrder := by
  have hm := t.mem_received
  rw [arrivals]
  generalize t.insertionOrder = order at hm
  have hsub : ∀ s ∈ order, s ∈ t.received := fun s hs => (hm s).mp hs
  clear hm
  induction order with
  | nil => rfl
  | cons s order ih =>
    obtain ⟨v, hv⟩ := Std.ExtTreeMap.isSome_getElem?_iff_mem.mpr (hsub s (by simp)) |>
      Option.isSome_iff_exists.mp
    simp [hv, ih fun s hs => hsub s (by simp [hs])]

theorem arrivals_nodup (t : FanInTracker) : (t.arrivals.map Prod.fst).Nodup := by
  rw [arrivals_fst]; exact t.nodup

theorem mem_arrivals {t : FanInTracker} {s : String} {v : Value} :
    (s, v) ∈ t.arrivals ↔ t.received[s]? = some v := by
  have hm := t.mem_received s
  simp only [arrivals, List.mem_filterMap, Option.map_eq_some_iff, Prod.mk.injEq]
  constructor
  · rintro ⟨_, _, _, h, rfl, rfl⟩
    exact h
  · intro h
    refine ⟨s, hm.mpr ?_, v, h, rfl, rfl⟩
    exact Std.ExtTreeMap.isSome_getElem?_iff_mem.mp (by simp [h])

theorem lookup_arrivals (t : FanInTracker) (s : String) : t.arrivals.lookup s = t.received[s]? := by
  ext v
  rw [Dict.lookup_eq_some_iff t.arrivals_nodup, mem_arrivals]

def recordAll (t : FanInTracker) (arrivals : List (String × Value)) : FanInTracker :=
  arrivals.foldl (fun t arrival => t.record arrival.1 arrival.2) t

@[simp] theorem recordAll_nil (t : FanInTracker) : t.recordAll [] = t := rfl

@[simp] theorem recordAll_cons (t : FanInTracker) (a : String × Value)
    (as : List (String × Value)) : t.recordAll (a :: as) = (t.record a.1 a.2).recordAll as := rfl

@[simp] theorem recordAll_append (t : FanInTracker) (as bs : List (String × Value)) :
    t.recordAll (as ++ bs) = (t.recordAll as).recordAll bs := List.foldl_append ..

@[simp] theorem recordAll_expected (t : FanInTracker) (as : List (String × Value)) :
    (t.recordAll as).expected = t.expected := by
  induction as generalizing t with
  | nil => rfl
  | cons a as ih => rw [recordAll_cons, ih, record_expected]

theorem recordAll_received (t : FanInTracker) (as : List (String × Value)) :
    (t.recordAll as).received = as.foldl (fun d a => d.insert a.1 a.2) t.received := by
  induction as generalizing t with
  | nil => rfl
  | cons a as ih => rw [recordAll_cons, ih, record_received, List.foldl_cons]

/-- Arrivals of distinct new sources are recorded in their order. -/
theorem recordAll_insertionOrder (t : FanInTracker) {as : List (String × Value)}
    (h : (as.map Prod.fst).Nodup) (hd : ∀ a ∈ as, a.1 ∉ t.received) :
    (t.recordAll as).insertionOrder = t.insertionOrder ++ as.map Prod.fst := by
  induction as generalizing t with
  | nil => simp
  | cons a as ih =>
    rw [List.map_cons, List.nodup_cons] at h
    have ha : t.received.contains a.1 = false := by
      rw [← Bool.not_eq_true, Std.ExtTreeMap.contains_iff_mem]; exact hd a (by simp)
    rw [recordAll_cons, ih _ h.2]
    · simp [record, ha]
    · intro b hb
      rw [record_received, Std.ExtTreeMap.mem_insert, not_or]
      refine ⟨?_, hd b (by simp [hb])⟩
      rw [Std.LawfulEqCmp.compare_eq_iff_eq]
      exact fun e => h.1 (List.mem_map.mpr ⟨b, hb, e.symm⟩)

theorem recordAll_arrivals {t e : FanInTracker} (he : e.expected = t.expected)
    (h0 : e.arrivals = []) : e.recordAll t.arrivals = t := by
  have hfst := e.arrivals_fst
  rw [h0, List.map_nil] at hfst
  have hrec : e.received = ∅ := Std.ExtTreeMap.ext_getElem? fun k => by
    rw [← lookup_arrivals, h0]; simp
  refine ext' (by rw [recordAll_expected, he]) ?_ ?_
  · rw [recordAll_received, hrec]
    refine Std.ExtTreeMap.ext_getElem? fun k => ?_
    rw [Dict.getElem?_foldl_insert t.arrivals_nodup, lookup_arrivals]; simp
  · rw [recordAll_insertionOrder _ t.arrivals_nodup (by simp [hrec]), ← hfst, arrivals_fst]; rfl

end FanInTracker

/-! ## The snapshot a checkpoint carries -/

/-- One reading of the process's monotonic clock and of the wall clock. -/
structure Clock where
  instant : Nat
  utc : Utc

/-- One deferred node's recorded arrivals, and when it started to wait. -/
structure PendingFanIn where
  arrivals : List (String × Value)
  waitingSince : Utc
deriving DecidableEq

/-- The fan-in arrivals a checkpoint carries. -/
structure FanInSnapshot where
  version : Nat
  nodes : Dict PendingFanIn
  /-- Predecessors whose next arrival a node ignores. -/
  abandoned : Dict (List String)

/-- What a checkpoint restores of the fan-in nodes still waiting. -/
structure RestoredFanIn where
  trackers : Dict FanInTracker
  started : Dict Nat
  abandoned : Dict Names

def fanInMetadataKey : String := "adk.graph.fanIn"

def fanInSnapshotVersion : Nat := 1

/-- An arrival in a checkpoint's metadata. -/
def arrivalToValue (arrival : String × Value) : Value :=
  .object [("output", arrival.2), ("source", .string arrival.1)]

/-- Reads an arrival back. -/
def arrivalOfValue (v : Value) : Option (String × Value) := do
  let source ← (← v.get? "source").asStr
  let output ← v.get? "output"
  return (source, output)

namespace PendingFanIn

/-- The arrivals in a checkpoint's metadata. -/
def toValue (self : PendingFanIn) : Value :=
  .object [("arrivals", .array (self.arrivals.map arrivalToValue)),
    ("waitingSince", .ofInt self.waitingSince)]

/-- Reads the arrivals back. -/
def ofValue (v : Value) : Option PendingFanIn := do
  let items ← (← v.get? "arrivals").asArray
  let arrivals ← items.mapM arrivalOfValue
  let waitingSince ← (← v.get? "waitingSince").asInt
  return { arrivals, waitingSince }

theorem ofValue_toValue (self : PendingFanIn) : ofValue self.toValue = some self := by
  have : (self.arrivals.map arrivalToValue).mapM arrivalOfValue = some self.arrivals :=
    Value.mapM_map fun _ _ => rfl
  change ((self.arrivals.map arrivalToValue).mapM arrivalOfValue).bind
    (fun arrivals => some { arrivals, waitingSince := self.waitingSince }) = some self
  rw [this]; rfl

end PendingFanIn

namespace FanInSnapshot

/-- Captures every waiting tracker and abandoned predecessor, or `none` when there is neither. -/
def capture (trackers : Dict FanInTracker) (started : Dict Nat) (abandoned : Dict Names)
    (now : Clock) : Option FanInSnapshot :=
  if trackers.isEmpty && abandoned.toList.all (fun entry => entry.2.isEmpty) then none
  else some {
    version := fanInSnapshotVersion
    nodes := trackers.map fun node tracker =>
      let waited := (started[node]?.map fun start => now.instant - start).getD 0
      { arrivals := tracker.arrivals, waitingSince := now.utc - waited }
    abandoned := (abandoned.filter fun _ sources => !sources.isEmpty).map
      fun _ sources => sources.toList }

/-- Serializes the snapshot for checkpoint metadata. -/
def toValue (self : FanInSnapshot) : Value :=
  let nodes := ("nodes", Value.ofDictWith PendingFanIn.toValue self.nodes)
  let version := ("version", Value.ofInt self.version)
  if self.abandoned.isEmpty then .object [nodes, version]
  else .object [("abandoned", .ofDictWith .ofStrings self.abandoned), nodes, version]

/-- Deserializes a snapshot. A snapshot without abandoned predecessors has none. -/
def ofValue (v : Value) : Option FanInSnapshot := do
  let version ← (← v.get? "version").asInt
  let nodes ← (← v.get? "nodes").asDictWith PendingFanIn.ofValue
  let abandoned ← match v.get? "abandoned" with
    | none => some ∅
    | some abandoned => abandoned.asDictWith Value.asStrings
  if version < 0 then none else return { version := version.toNat, nodes, abandoned }

theorem ofValue_toValue (self : FanInSnapshot) : ofValue self.toValue = some self := by
  have hnds := Value.asDictWith_ofDictWith PendingFanIn.ofValue_toValue self.nodes
  have habandoned := Value.asDictWith_ofDictWith Value.asStrings_ofStrings self.abandoned
  rw [toValue]
  split
  · rename_i he
    have he : self.abandoned = ∅ := Std.ExtTreeMap.isEmpty_iff.mp he
    simp [ofValue, Value.get?, Value.asObject, Value.asInt, Value.ofInt, List.lookup_cons, hnds, ← he]
  · simp [ofValue, Value.get?, Value.asObject, Value.asInt, Value.ofInt, List.lookup_cons, hnds,
      habandoned]

/-- Reads the snapshot from checkpoint metadata; `none` when the key is absent. -/
def fromMetadata (metadata : Dict Value) : Except GraphError (Option FanInSnapshot) :=
  match metadata[fanInMetadataKey]? with
  | none => .ok none
  | some value =>
    match ofValue value with
    | none => .error (.checkpointError s!"checkpoint metadata '{fanInMetadataKey}' is malformed")
    | some snapshot =>
      if snapshot.version = fanInSnapshotVersion then .ok (some snapshot)
      else .error (.checkpointError
        (s!"checkpoint metadata '{fanInMetadataKey}' has layout version {snapshot.version}, but " ++
          s!"this adk-graph release reads version {fanInSnapshotVersion}; resume the thread " ++
          "with the release that wrote it"))

/-- Rebuilds the trackers, their wait start times, and the abandoned predecessors. The expected
sources are those of the graph being resumed. -/
def restore (self : FanInSnapshot) (upstream : String → List String) (now : Clock) :
    RestoredFanIn where
  trackers := self.nodes.map fun node pending =>
    (FanInTracker.new (upstream node)).recordAll pending.arrivals
  started := self.nodes.map fun _ pending =>
    let waited := (now.utc - pending.waitingSince).toNat
    if waited ≤ now.instant then now.instant - waited else now.instant
  abandoned := self.abandoned.map fun _ sources => Names.ofList sources

variable {self : FanInSnapshot} {trackers : Dict FanInTracker} {started : Dict Nat}
  {abandoned : Dict Names} {now : Clock}

theorem fromMetadata_toValue {metadata : Dict Value} (hv : self.version = fanInSnapshotVersion)
    (hm : metadata[fanInMetadataKey]? = some self.toValue) :
    fromMetadata metadata = .ok (some self) := by
  simp [fromMetadata, hm, ofValue_toValue, hv]

theorem capture_version (h : capture trackers started abandoned now = some self) :
    self.version = fanInSnapshotVersion := by
  rw [capture] at h
  split at h
  · cases h
  · cases h; rfl

theorem restore_capture_trackers {now' : Clock} {upstream : String → List String}
    (h : capture trackers started abandoned now = some self)
    (hup : ∀ node tracker, trackers[node]? = some tracker →
      tracker.expected = Names.ofList (upstream node)) :
    (self.restore upstream now').trackers = trackers := by
  rw [capture] at h
  split at h
  · cases h
  · cases h
    refine Std.ExtTreeMap.ext_getElem? fun node => ?_
    simp only [restore, Std.ExtTreeMap.getElem?_map, Option.map_map]
    cases ht : trackers[node]? with
    | none => rfl
    | some tracker =>
      simp only [Option.map_some, Function.comp_apply, Option.some.injEq]
      exact FanInTracker.recordAll_arrivals (hup node tracker ht).symm rfl

theorem restore_capture_abandoned {now' : Clock} {upstream : String → List String}
    (h : capture trackers started abandoned now = some self)
    (hne : ∀ node : String, abandoned[node]? ≠ some ∅) :
    (self.restore upstream now').abandoned = abandoned := by
  rw [capture] at h
  split at h
  · cases h
  · cases h
    refine Std.ExtTreeMap.ext_getElem? fun node => ?_
    simp only [restore, Std.ExtTreeMap.getElem?_map, Option.map_map,
      Std.ExtTreeMap.getElem?_filter']
    cases ha : abandoned[node]? with
    | none => rfl
    | some sources =>
      have : sources ≠ ∅ := fun e => hne node (e ▸ ha)
      simp [this]

end FanInSnapshot

end Adk
