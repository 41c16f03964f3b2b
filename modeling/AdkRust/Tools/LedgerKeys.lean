import AdkRust.Tools.ActionLedger

/-!
# One key for each call

The default key of a call joins five ids with slashes, and a slash may stand in any of them. The key tells the pieces
between the slashes and no more: calls whose ids have the same pieces in order share a key,
and each finds the other's record in the ledger (`keyApart_iff`).
-/

namespace Adk

/-- A call under its own invocation. -/
structure KeyedCall where
  identity : AdkIdentity
  invocationId : String
  functionCallId : String
deriving DecidableEq

namespace KeyedCall

def key (call : KeyedCall) : String := idempotencyKey call.identity call.invocationId call.functionCallId

def ids (call : KeyedCall) : List String :=
  [call.identity.appName, call.identity.userId, call.identity.sessionId, call.invocationId, call.functionCallId]

/-- The ids, cut at their slashes. -/
def pieces (call : KeyedCall) : List (List Char) := call.ids.flatMap fun id => id.toList.splitOn '/'

theorem key_toList (call : KeyedCall) : call.key.toList = ['/'].intercalate (call.ids.map String.toList) := by
  simp [key, idempotencyKey, ids, String.toList_append, List.intercalate, List.intersperse, toString]

/-- Cutting the key cuts each of the ids. -/
theorem splitOn_key (call : KeyedCall) : call.key.toList.splitOn '/' = call.pieces := by
  simp [key_toList, pieces, ids, List.intercalate, List.intersperse, List.splitOn_append_cons_self]

theorem key_eq_iff {first second : KeyedCall} : first.key = second.key ↔ first.pieces = second.pieces := by
  constructor
  · intro h
    rw [← splitOn_key, ← splitOn_key, h]
  · intro h
    apply String.toList_injective
    rw [← @List.intercalate_splitOn Char first.key.toList _ _ '/', splitOn_key, h, ← splitOn_key,
      List.intercalate_splitOn]

end KeyedCall

/-! ## The ledger -/

inductive LedgerUse where
  | begin_ (record : ActionRecord)
  | complete (outcome : ActionOutcome) (now : Utc)
  | get

namespace ActionLedger

def use (key : String) (ledger : ActionLedger) : LedgerUse → ActionLedger
  | .begin_ record => (ledger.begin_ { record with key }).2
  | .complete outcome now => (ledger.complete key outcome now).2
  | .get => ledger

theorem use_of_ne {key other : String} (hne : other ≠ key) (ledger : ActionLedger) (use : LedgerUse) :
    ledger.use key use other = ledger other := by
  cases use with
  | begin_ record =>
    simp only [ActionLedger.use, begin_]
    split
    next => rfl
    next => simp [put, hne]
  | complete outcome now =>
    simp only [ActionLedger.use, complete]
    split
    next => rfl
    next =>
      split
      next => rfl
      next => simp [hne]
  | get => rfl

theorem foldl_use_of_ne {key other : String} (hne : other ≠ key) (ledger : ActionLedger) (uses : List LedgerUse) :
    uses.foldl (ActionLedger.use key) ledger other = ledger other := by
  induction uses generalizing ledger with
  | nil => rfl
  | cons use uses ih => rw [List.foldl_cons, ih, use_of_ne hne]

end ActionLedger

/-- The keys of two calls differ, and whatever the first does with a ledger, the lookups and the begins of the second
are answered as if it had not. -/
structure KeyApart (first second : KeyedCall) : Prop where
  key_ne : first.key ≠ second.key
  lookup : ∀ (ledger : ActionLedger) (uses : List LedgerUse),
    uses.foldl (ActionLedger.use first.key) ledger second.key = ledger second.key
  begin_ : ∀ (ledger : ActionLedger) (uses : List LedgerUse) (record : ActionRecord), record.key = second.key →
    ((uses.foldl (ActionLedger.use first.key) ledger).begin_ record).1 = (ledger.begin_ record).1

/-- Two calls are apart exactly when their ids, cut at the slashes, are not the same pieces. -/
theorem keyApart_iff (first second : KeyedCall) : KeyApart first second ↔ first.pieces ≠ second.pieces := by
  rw [Ne, ← KeyedCall.key_eq_iff]
  constructor
  · exact KeyApart.key_ne
  · intro hne
    have hkeep := fun ledger uses => ActionLedger.foldl_use_of_ne (Ne.symm hne) ledger uses
    refine ⟨hne, hkeep, fun ledger uses record hkey => ?_⟩
    unfold ActionLedger.begin_
    rw [hkey, hkeep]
    split <;> rfl

/-- Two sessions of one app whose users have a slash in their names. -/
theorem not_keyApart :
    ∃ first second : KeyedCall, first ≠ second ∧
      (∀ call ∈ [first, second],
        makeIdentity call.identity.appName call.identity.userId call.identity.sessionId = .ok call.identity) ∧
      ¬ KeyApart first second := by
  refine ⟨⟨⟨"app", "org", "team/s1"⟩, "inv", "call"⟩, ⟨⟨"app", "org/team", "s1"⟩, "inv", "call"⟩, by decide, ?_, ?_⟩
  · decide
  · intro h
    exact h.key_ne (by decide)

end Adk
