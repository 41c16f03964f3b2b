import AdkRust.Core.Event
import AdkRust.Lib.Dict
import Mathlib.Data.List.Induction
import Mathlib.Order.Bounds.Basic

/-!
# Cutting a history

Where a history may be cut (`history.rs`). The scan of `balancedCut` pairs each response with a call: by id with the
latest call, which is then no longer open, and without an id with the earliest open call of the name.

* `Pairs`: the pairs that a rule of who answers what makes of a log (`callOf`, `firstCallOf`).
* `balancedCut_isGreatest`: the cut is the largest one that separates no first answer from its call.
-/

namespace Adk

/-! ## The scan -/

/-- What the scan keeps: the open calls, and the earliest call that an answer after the cut needs. -/
structure CutScan where
  openById : Dict Nat := ∅
  openByName : Dict (List Nat) := ∅
  earliestNeeded : Nat

/-- A response at `index` answers the call at `calledAt`. -/
def CutScan.answer (scan : CutScan) (upTo index calledAt : Nat) : CutScan :=
  if calledAt < upTo ∧ upTo ≤ index then { scan with earliestNeeded := min scan.earliestNeeded calledAt } else scan

/-- One part of the event at `index`. -/
def CutScan.part (upTo index : Nat) (scan : CutScan) : Part → CutScan
  | .functionCall _ _ (some id) _ => { scan with openById := scan.openById.insert id index }
  | .functionCall name _ none _ =>
    { scan with openByName := scan.openByName.insert name (scan.openByName[name]?.getD [] ++ [index]) }
  | .functionResponse _ (some id) _ =>
    match scan.openById[id]? with
    | some calledAt => { scan with openById := scan.openById.erase id }.answer upTo index calledAt
    | none => scan
  | .functionResponse response none _ =>
    match scan.openByName[response.name]?.getD [] with
    | calledAt :: calls =>
      { scan with openByName := scan.openByName.insert response.name calls }.answer upTo index calledAt
    | [] => scan
  | _ => scan

/-- One event. Streamed partial events are ignored, as history ignores them. -/
def CutScan.event (upTo : Nat) (scan : CutScan) (entry : Event × Nat) : CutScan :=
  if entry.1.isPartial then scan
  else
    match entry.1.content with
    | none => scan
    | some content => content.parts.foldl (CutScan.part upTo entry.2) scan

def scanCut (events : List Event) (upTo : Nat) : CutScan :=
  events.zipIdx.foldl (CutScan.event upTo) { earliestNeeded := upTo }

/-! ## Who answers what -/

def mentions (events : List Event) : List (Nat × Part) :=
  events.zipIdx.flatMap fun entry =>
    if entry.1.isPartial then []
    else match entry.1.content with
      | none => []
      | some content => content.parts.map (entry.2, ·)

def Part.callsId (id : String) : Part → Bool
  | .functionCall _ _ (some callId) _ => callId = id
  | _ => false

def Part.answersId (id : String) : Part → Bool
  | .functionResponse _ (some callId) _ => callId = id
  | _ => false

def latestCall (earlier : List (Nat × Part)) (id : String) : Option Nat :=
  (earlier.reverse.find? fun mention => mention.2.callsId id).map Prod.fst

/-- The latest call with an id, unless it was answered. -/
def openCall (earlier : List (Nat × Part)) (id : String) : Option Nat :=
  (earlier.reverse.find? fun mention => mention.2.callsId id || mention.2.answersId id).bind fun mention =>
    if mention.2.callsId id then some mention.1 else none

/-- The calls of a name without an id that are not answered yet, earliest first. -/
def openCalls (earlier : List (Nat × Part)) (name : String) : List Nat :=
  earlier.foldl (fun calls mention =>
    match mention.2 with
    | .functionCall callName _ none _ => if callName = name then calls ++ [mention.1] else calls
    | .functionResponse response none _ => if response.name = name then calls.tail else calls
    | _ => calls) []

/-- The call that a response belongs to: by id the latest one, without an id the earliest one not answered yet. -/
def callOf (earlier : List (Nat × Part)) : Part → Option Nat
  | .functionResponse _ (some id) _ => latestCall earlier id
  | .functionResponse response none _ => (openCalls earlier response.name).head?
  | _ => none

def firstCallOf (earlier : List (Nat × Part)) : Part → Option Nat
  | .functionResponse _ (some id) _ => openCall earlier id
  | .functionResponse response none _ => (openCalls earlier response.name).head?
  | _ => none

/-- A response at `answeredAt` is one to the call at `calledAt`, by the given rule. -/
def Pairs (owner : List (Nat × Part) → Part → Option Nat) (log : List (Nat × Part)) (calledAt answeredAt : Nat) :
    Prop :=
  ∃ earlier part later, log = earlier ++ (answeredAt, part) :: later ∧ owner earlier part = some calledAt

/-- A cut keeps a response and not the call it belongs to. -/
def Separates (owner : List (Nat × Part) → Part → Option Nat) (log : List (Nat × Part)) (cut : Nat) : Prop :=
  ∃ calledAt answeredAt, Pairs owner log calledAt answeredAt ∧ calledAt < cut ∧ cut ≤ answeredAt

section Owner

variable {owner : List (Nat × Part) → Part → Option Nat} {log earlier : List (Nat × Part)}

theorem not_pairs_nil {i j : Nat} : ¬ Pairs owner [] i j := by
  rintro ⟨earlier, part, later, h, -⟩
  simp at h

theorem pairs_concat {index : Nat} {part : Part} {i j : Nat} :
    Pairs owner (earlier ++ [(index, part)]) i j ↔
      Pairs owner earlier i j ∨ (j = index ∧ owner earlier part = some i) := by
  constructor
  · rintro ⟨before, answer, later, h, hown⟩
    rcases List.eq_nil_or_concat later with rfl | ⟨front, last, rfl⟩
    · obtain ⟨rfl, heq⟩ := List.append_inj' h rfl
      obtain ⟨rfl, rfl⟩ := Prod.mk.inj (List.cons.inj heq).1
      exact .inr ⟨rfl, hown⟩
    · rw [List.concat_eq_append, ← List.cons_append, ← List.append_assoc] at h
      obtain ⟨rfl, -⟩ := List.append_inj' h rfl
      exact .inl ⟨before, answer, front, rfl, hown⟩
  · rintro (⟨before, answer, later, rfl, hown⟩ | ⟨rfl, hown⟩)
    · exact ⟨before, answer, later ++ [(index, part)], by simp, hown⟩
    · exact ⟨earlier, part, [], rfl, hown⟩

end Owner

section Concat

variable {earlier : List (Nat × Part)} {index : Nat} {part : Part}

theorem latestCall_concat (id : String) :
    latestCall (earlier ++ [(index, part)]) id = if part.callsId id then some index else latestCall earlier id := by
  unfold latestCall
  rw [List.reverse_append, List.reverse_singleton, List.singleton_append, List.find?_cons]
  cases h : part.callsId id <;> simp

theorem openCall_concat (id : String) :
    openCall (earlier ++ [(index, part)]) id =
      if part.callsId id then some index else if part.answersId id then none else openCall earlier id := by
  unfold openCall
  rw [List.reverse_append, List.reverse_singleton, List.singleton_append, List.find?_cons]
  cases h : part.callsId id <;> cases h' : part.answersId id <;> simp [h]

theorem latestCall_of_openCall {id : String} {i : Nat} (h : openCall earlier id = some i) :
    latestCall earlier id = some i := by
  induction earlier using List.reverseRecOn with
  | nil => cases h
  | append_singleton earlier mention ih =>
    rw [openCall_concat] at h
    rw [latestCall_concat]
    split at h
    next hcls => rw [if_pos hcls, h]
    next hcls =>
      rw [if_neg hcls]
      split at h
      next => cases h
      next => exact ih h

theorem callOf_of_firstCallOf {i : Nat} (h : firstCallOf earlier part = some i) : callOf earlier part = some i := by
  unfold firstCallOf at h
  unfold callOf
  split at h
  next => exact latestCall_of_openCall h
  next => exact h
  next => cases h

end Concat

theorem Pairs.of_first {log : List (Nat × Part)} {i j : Nat} (h : Pairs firstCallOf log i j) : Pairs callOf log i j := by
  obtain ⟨earlier, part, later, rfl, hown⟩ := h
  exact ⟨earlier, part, later, rfl, callOf_of_firstCallOf hown⟩

theorem Separates.of_first {log : List (Nat × Part)} {cut : Nat} (h : Separates firstCallOf log cut) :
    Separates callOf log cut := by
  obtain ⟨i, j, hpair, hcut⟩ := h
  exact ⟨i, j, hpair.of_first, hcut⟩

/-! ## What the scan has found -/

/-- What the scan holds when it has seen the beginning of a log. -/
structure Scanned (upTo : Nat) (earlier : List (Nat × Part)) (scan : CutScan) : Prop where
  byId : ∀ id, scan.openById[id]? = openCall earlier id
  byName : ∀ name, scan.openByName[name]?.getD [] = openCalls earlier name
  le : scan.earliestNeeded ≤ upTo
  least : ∀ i j, Pairs firstCallOf earlier i j → i < upTo → upTo ≤ j → scan.earliestNeeded ≤ i
  reached : scan.earliestNeeded < upTo → ∃ j, Pairs firstCallOf earlier scan.earliestNeeded j ∧ upTo ≤ j

theorem Scanned.start (upTo : Nat) : Scanned upTo [] { earliestNeeded := upTo } where
  byId _ := by simp [openCall]
  byName _ := by simp [openCalls]
  le := Nat.le_refl _
  least _ _ hpair := absurd hpair not_pairs_nil
  reached h := absurd h (Nat.lt_irrefl _)

section Step

variable {upTo index : Nat} {earlier : List (Nat × Part)} {scan : CutScan} {part : Part}

@[simp] theorem CutScan.answer_openById (calledAt : Nat) : (scan.answer upTo index calledAt).openById = scan.openById := by
  unfold CutScan.answer
  split <;> rfl

@[simp] theorem CutScan.answer_openByName (calledAt : Nat) :
    (scan.answer upTo index calledAt).openByName = scan.openByName := by
  unfold CutScan.answer
  split <;> rfl

theorem CutScan.answer_earliestNeeded_le (calledAt : Nat) :
    (scan.answer upTo index calledAt).earliestNeeded ≤ scan.earliestNeeded := by
  unfold CutScan.answer
  split
  next => exact Nat.min_le_left _ _
  next => exact Nat.le_refl _

/-- A part that answers nothing needs nothing. -/
theorem Scanned.pass (h : Scanned upTo earlier scan) (hown : firstCallOf earlier part = none) {next : CutScan}
    (hneed : next.earliestNeeded = scan.earliestNeeded)
    (hid : ∀ id, next.openById[id]? = openCall (earlier ++ [(index, part)]) id)
    (hname : ∀ name, next.openByName[name]?.getD [] = openCalls (earlier ++ [(index, part)]) name) :
    Scanned upTo (earlier ++ [(index, part)]) next where
  byId := hid
  byName := hname
  le := hneed ▸ h.le
  least i j hpair := by
    rw [pairs_concat, hown] at hpair
    rcases hpair with hpair | ⟨-, hnone⟩
    · exact hneed ▸ h.least i j hpair
    · cases hnone
  reached hlt := by
    rw [hneed] at hlt ⊢
    obtain ⟨j, hpair, hj⟩ := h.reached hlt
    exact ⟨j, pairs_concat.mpr (.inl hpair), hj⟩

theorem Scanned.answer (h : Scanned upTo earlier scan) {calledAt : Nat}
    (hown : firstCallOf earlier part = some calledAt) {next : CutScan}
    (hneed : next.earliestNeeded = scan.earliestNeeded)
    (hid : ∀ id, next.openById[id]? = openCall (earlier ++ [(index, part)]) id)
    (hname : ∀ name, next.openByName[name]?.getD [] = openCalls (earlier ++ [(index, part)]) name) :
    Scanned upTo (earlier ++ [(index, part)]) (next.answer upTo index calledAt) where
  byId id := by rw [CutScan.answer_openById, hid]
  byName name := by rw [CutScan.answer_openByName, hname]
  le := Nat.le_trans (CutScan.answer_earliestNeeded_le calledAt) (hneed ▸ h.le)
  least i j hpair hi hj := by
    rw [pairs_concat, hown] at hpair
    have hle : (next.answer upTo index calledAt).earliestNeeded ≤ scan.earliestNeeded :=
      hneed ▸ CutScan.answer_earliestNeeded_le calledAt
    rcases hpair with hpair | ⟨rfl, heq⟩
    · exact Nat.le_trans hle (h.least i j hpair hi hj)
    · obtain rfl := Option.some.inj heq
      unfold CutScan.answer
      rw [if_pos ⟨hi, hj⟩]
      exact Nat.min_le_right _ _
  reached hlt := by
    unfold CutScan.answer at hlt ⊢
    by_cases hcross : calledAt < upTo ∧ upTo ≤ index
    · rw [if_pos hcross] at hlt ⊢
      rcases Nat.le_total scan.earliestNeeded calledAt with hle | hle
      · simp only [hneed, Nat.min_eq_left hle] at hlt ⊢
        obtain ⟨j, hpair, hj⟩ := h.reached hlt
        exact ⟨j, pairs_concat.mpr (.inl hpair), hj⟩
      · simp only [hneed, Nat.min_eq_right hle]
        exact ⟨index, pairs_concat.mpr (.inr ⟨rfl, hown⟩), hcross.2⟩
    · rw [if_neg hcross, hneed] at hlt ⊢
      obtain ⟨j, hpair, hj⟩ := h.reached hlt
      exact ⟨j, pairs_concat.mpr (.inl hpair), hj⟩

theorem openCalls_concat (name : String) :
    openCalls (earlier ++ [(index, part)]) name =
      match part with
      | .functionCall callName _ none _ =>
        if callName = name then openCalls earlier name ++ [index] else openCalls earlier name
      | .functionResponse response none _ =>
        if response.name = name then (openCalls earlier name).tail else openCalls earlier name
      | _ => openCalls earlier name := by
  unfold openCalls
  rw [List.foldl_concat]

theorem Scanned.step (h : Scanned upTo earlier scan) (index : Nat) (part : Part) :
    Scanned upTo (earlier ++ [(index, part)]) (scan.part upTo index part) := by
  cases part with
  | functionCall name args id signature =>
    cases id with
    | some id =>
      refine h.pass rfl rfl (fun other => ?_) fun other => ?_
      · rw [openCall_concat]
        by_cases hoth : id = other
        · simp [CutScan.part, Part.callsId, hoth]
        · simp [CutScan.part, Part.callsId, Part.answersId, hoth, Dict.getElem?_insert_of_ne (Ne.symm hoth), h.byId]
      · rw [openCalls_concat]
        exact h.byName other
    | none =>
      refine h.pass rfl rfl (fun other => ?_) fun other => ?_
      · rw [openCall_concat]
        exact h.byId other
      · rw [openCalls_concat]
        by_cases hoth : name = other
        · simp [CutScan.part, hoth, h.byName]
        · simp [CutScan.part, hoth, Dict.getElem?_insert_of_ne (Ne.symm hoth), h.byName]
  | functionResponse response id annotations =>
    cases id with
    | some id =>
      simp only [CutScan.part, h.byId]
      cases hopen : openCall earlier id with
      | some calledAt =>
        refine h.answer (show firstCallOf earlier (.functionResponse response (some id) annotations) = _ from hopen) rfl (fun other => ?_) fun other => ?_
        · rw [openCall_concat]
          by_cases hoth : id = other
          · simp [Part.callsId, Part.answersId, hoth]
          · simp [Part.callsId, Part.answersId, hoth, Dict.getElem?_erase_of_ne (Ne.symm hoth), h.byId]
        · rw [openCalls_concat]
          exact h.byName other
      | none =>
        refine h.pass (show firstCallOf earlier (.functionResponse response (some id) annotations) = _ from hopen) rfl (fun other => ?_) fun other => ?_
        · rw [openCall_concat, h.byId]
          by_cases hoth : id = other
          · simp [Part.callsId, Part.answersId, ← hoth, hopen]
          · simp [Part.callsId, Part.answersId, hoth]
        · rw [openCalls_concat]
          exact h.byName other
    | none =>
      simp only [CutScan.part, h.byName]
      cases hcls : openCalls earlier response.name with
      | cons calledAt calls =>
        refine h.answer (by simp [firstCallOf, hcls]) rfl (fun other => ?_) fun other => ?_
        · rw [openCall_concat]
          exact h.byId other
        · rw [openCalls_concat]
          by_cases hoth : response.name = other
          · simp [← hoth, hcls]
          · simp [hoth, Dict.getElem?_insert_of_ne (Ne.symm hoth), h.byName]
      | nil =>
        refine h.pass (by simp [firstCallOf, hcls]) rfl (fun other => ?_) fun other => ?_
        · rw [openCall_concat]
          exact h.byId other
        · rw [openCalls_concat, h.byName]
          by_cases hoth : response.name = other
          · simp [← hoth, hcls]
          · simp [hoth]
  | _ =>
    refine h.pass rfl rfl (fun other => ?_) fun other => ?_
    · rw [openCall_concat]
      exact h.byId other
    · rw [openCalls_concat]
      exact h.byName other

theorem Scanned.parts (h : Scanned upTo earlier scan) (parts : List Part) :
    Scanned upTo (earlier ++ parts.map (index, ·)) (parts.foldl (CutScan.part upTo index) scan) := by
  induction parts generalizing earlier scan with
  | nil => simpa using h
  | cons part parts ih => simpa using ih (h.step index part)

end Step

theorem Scanned.events {upTo : Nat} {earlier : List (Nat × Part)} {scan : CutScan} (h : Scanned upTo earlier scan)
    (entries : List (Event × Nat)) :
    Scanned upTo
      (earlier ++ entries.flatMap fun entry =>
        if entry.1.isPartial then []
        else match entry.1.content with
          | none => []
          | some content => content.parts.map (entry.2, ·))
      (entries.foldl (CutScan.event upTo) scan) := by
  induction entries generalizing earlier scan with
  | nil => simpa using h
  | cons entry entries ih =>
    rw [List.flatMap_cons, ← List.append_assoc, List.foldl_cons]
    refine ih ?_
    unfold CutScan.event
    by_cases hpart : entry.1.isPartial
    · simpa [hpart] using h
    · rw [if_neg hpart, if_neg hpart]
      cases entry.1.content with
      | none => simpa using h
      | some content => exact h.parts content.parts

theorem scanned_scanCut (events : List Event) (upTo : Nat) : Scanned upTo (mentions events) (scanCut events upTo) :=
  (Scanned.start upTo).events events.zipIdx

/-! ## The cut -/

/-- The earliest call that an answer after the cut needs, or the cut. -/
def earliestNeeded (events : List Event) (upTo : Nat) : Nat := (scanCut events (min upTo events.length)).earliestNeeded

/-- The largest index at or before `upTo` where cutting keeps every function response with its call. -/
def balancedCut (events : List Event) (upTo : Nat) : Nat :=
  if earliestNeeded events upTo = min upTo events.length then min upTo events.length
  -- Moving the cut back can strand another call answered after the new cut.
  else balancedCut events (earliestNeeded events upTo)
termination_by upTo
decreasing_by
  have hle : earliestNeeded events upTo ≤ min upTo events.length := (scanned_scanCut events _).le
  omega

theorem balancedCut_isGreatest (events : List Event) (upTo : Nat) :
    IsGreatest {cut | cut ≤ upTo ∧ cut ≤ events.length ∧ ¬ Separates firstCallOf (mentions events) cut}
      (balancedCut events upTo) := by
  induction upTo using Nat.strong_induction_on with
  | _ upTo ih =>
    have hscan := scanned_scanCut events (min upTo events.length)
    rw [balancedCut, earliestNeeded]
    split
    next heq =>
      refine ⟨⟨Nat.min_le_left _ _, Nat.min_le_right _ _, ?_⟩, fun cut hcut => le_min hcut.1 hcut.2.1⟩
      rintro ⟨i, j, hpair, hi, hj⟩
      have := hscan.least i j hpair hi hj
      omega
    next hne =>
      have hlt := Nat.lt_of_le_of_ne hscan.le hne
      obtain ⟨hmem, hupper⟩ := ih _ (Nat.lt_of_lt_of_le hlt (Nat.min_le_left _ _))
      refine ⟨⟨?_, hmem.2⟩, fun cut hcut => hupper ⟨?_, hcut.2⟩⟩
      · have := hmem.1
        omega
      · -- A cut above the call that is needed would separate it from its answer.
        by_contra habove
        obtain ⟨j, hpair, hj⟩ := hscan.reached hlt
        refine hcut.2.2 ⟨_, j, hpair, by omega, ?_⟩
        have := hcut.1
        have := hcut.2.1
        omega

/-- A cut keeps every response with the call it belongs to, and as much of the history as that allows. -/
def KeepsMost (events : List Event) (upTo : Nat) : Prop :=
  IsGreatest {cut | cut ≤ upTo ∧ cut ≤ events.length ∧ ¬ Separates callOf (mentions events) cut}
    (balancedCut events upTo)

/-- The scan forgets a call when it is answered, so that only first answers hold the cut back. It is the right one
unless an answer to a call that was answered before would have moved it. -/
theorem keepsMost_iff (events : List Event) (upTo : Nat) :
    KeepsMost events upTo ↔
      ∀ cut, cut ≤ upTo → cut ≤ events.length → Separates callOf (mentions events) cut →
        Separates firstCallOf (mentions events) cut ∨
          ∃ later, cut < later ∧ later ≤ upTo ∧ later ≤ events.length ∧
            ¬ Separates callOf (mentions events) later := by
  have hfirst := balancedCut_isGreatest events upTo
  constructor
  · intro hmost cut hle hlen hsep
    by_cases hcut : Separates firstCallOf (mentions events) cut
    · exact .inl hcut
    · refine .inr ⟨balancedCut events upTo, ?_, hmost.1⟩
      have hne : cut ≠ balancedCut events upTo := fun heq => hmost.1.2.2 (heq ▸ hsep)
      exact Nat.lt_of_le_of_ne (hfirst.2 ⟨hle, hlen, hcut⟩) hne
  · intro hcond
    refine ⟨⟨hfirst.1.1, hfirst.1.2.1, fun hsep => ?_⟩, fun cut hcut => ?_⟩
    · rcases hcond _ hfirst.1.1 hfirst.1.2.1 hsep with h | ⟨later, hlt, hle, hlen, hnot⟩
      · exact hfirst.1.2.2 h
      · have := hfirst.2 ⟨hle, hlen, fun h => hnot h.of_first⟩
        omega
    · exact hfirst.2 ⟨hcut.1, hcut.2.1, fun h => hcut.2.2 h.of_first⟩

def Part.event (part : Part) : Event where
  timestamp := 0
  invocationId := "inv"
  content := some ⟨"model", [part]⟩

/-- A call that is answered twice: a cut between the answers keeps the second one without the call. -/
theorem not_keepsMost : ¬ ∀ events upTo, KeepsMost events upTo := by
  intro h
  let call := Part.functionCall "lookup" .null (some "c1") none
  let answer := Part.functionResponse { name := "lookup", response := .null } (some "c1") none
  have hneeded : earliestNeeded [call.event, answer.event, answer.event] 2 = 2 := by decide +kernel
  have hcut : balancedCut [call.event, answer.event, answer.event] 2 = 2 := by
    rw [balancedCut, hneeded]
    rfl
  have hmost := (h [call.event, answer.event, answer.event] 2).1.2.2
  rw [hcut] at hmost
  exact hmost ⟨0, 2, ⟨[(0, call), (1, answer)], answer, [], rfl, by decide⟩, by decide, by decide⟩

end Adk
