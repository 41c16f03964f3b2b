import AdkRust.Lib.Text

/-!
# Slices at byte offsets

A text is cut at a byte offset (`splitBytes`) only between two characters. Elsewhere a slice stops the program, which is
a `BadSlice` here.
-/

namespace Adk

/-- A slice that does not start and end between characters. -/
inductive BadSlice where
  | mk
deriving DecidableEq, Repr

/-- The two parts of a text at a byte offset. -/
def splitBytes : Nat → List Char → Except BadSlice (List Char × List Char)
  | n, [] => if n = 0 then .ok ([], []) else .error .mk
  | n, c :: rest =>
    if n = 0 then .ok ([], c :: rest)
    else if n < c.utf8Size then .error .mk
    else (splitBytes (n - c.utf8Size) rest).map fun (before, after) => (c :: before, after)

theorem splitBytes_append (before after : List Char) :
    splitBytes (byteLength before) (before ++ after) = .ok (before, after) := by
  induction before with
  | nil => cases after <;> rfl
  | cons c before ih =>
    have hpos : 0 < c.utf8Size := Char.utf8Size_pos c
    have hlen : byteLength (c :: before) = c.utf8Size + byteLength before := rfl
    rw [hlen, List.cons_append, splitBytes, if_neg (by omega), if_neg (by omega), Nat.add_sub_cancel_left, ih]
    rfl

theorem byteLength_append (xs ys : List Char) : byteLength (xs ++ ys) = byteLength xs + byteLength ys := by
  unfold byteLength
  rw [List.map_append, List.sum_append]

end Adk
