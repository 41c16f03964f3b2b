/-!
# SHA-256

Words of 32 bits are natural numbers. A message is padded to blocks of 64 bytes, and each block is mixed into eight words
by 64 rounds.
-/

namespace Adk

namespace Sha2

def word (n : Nat) : Nat := n % 0x100000000

def rotate (x n : Nat) : Nat := (x >>> n) ||| word (x <<< (32 - n))

/-- The first words, from the square roots of the first primes. -/
def start : List Nat :=
  [0x6a09e667, 0xbb67ae85, 0x3c6ef372, 0xa54ff53a, 0x510e527f, 0x9b05688c, 0x1f83d9ab, 0x5be0cd19]

/-- A word for each round, from the cube roots of the first primes. -/
def constants : List Nat := [
  0x428a2f98, 0x71374491, 0xb5c0fbcf, 0xe9b5dba5, 0x3956c25b, 0x59f111f1, 0x923f82a4, 0xab1c5ed5,
  0xd807aa98, 0x12835b01, 0x243185be, 0x550c7dc3, 0x72be5d74, 0x80deb1fe, 0x9bdc06a7, 0xc19bf174,
  0xe49b69c1, 0xefbe4786, 0x0fc19dc6, 0x240ca1cc, 0x2de92c6f, 0x4a7484aa, 0x5cb0a9dc, 0x76f988da,
  0x983e5152, 0xa831c66d, 0xb00327c8, 0xbf597fc7, 0xc6e00bf3, 0xd5a79147, 0x06ca6351, 0x14292967,
  0x27b70a85, 0x2e1b2138, 0x4d2c6dfc, 0x53380d13, 0x650a7354, 0x766a0abb, 0x81c2c92e, 0x92722c85,
  0xa2bfe8a1, 0xa81a664b, 0xc24b8b70, 0xc76c51a3, 0xd192e819, 0xd6990624, 0xf40e3585, 0x106aa070,
  0x19a4c116, 0x1e376c08, 0x2748774c, 0x34b0bcb5, 0x391c0cb3, 0x4ed8aa4a, 0x5b9cca4f, 0x682e6ff3,
  0x748f82ee, 0x78a5636f, 0x84c87814, 0x8cc70208, 0x90befffa, 0xa4506ceb, 0xbef9a3f7, 0xc67178f2]

/-- The bytes of a number, the highest first. -/
def bytesOf (count n : Nat) : List Nat := (List.range count).map fun i => n >>> (8 * (count - 1 - i)) % 256

/-- A message and what fills its last block. -/
def pad (message : List Nat) : List Nat :=
  message ++ [0x80] ++ List.replicate ((119 - message.length % 64) % 64) 0 ++ bytesOf 8 (8 * message.length)

def words : List Nat → List Nat
  | a :: b :: c :: d :: rest => (((a * 256 + b) * 256 + c) * 256 + d) :: words rest
  | _ => []

def nextWord (before : List Nat) : Nat :=
  let a := before.getD 14 0
  let b := before.getD 1 0
  let s0 := (rotate a 7 ^^^ rotate a 18) ^^^ (a >>> 3)
  let s1 := (rotate b 17 ^^^ rotate b 19) ^^^ (b >>> 10)
  word (before.getD 15 0 + s0 + before.getD 6 0 + s1)

/-- The words of a block with more of them, the last one first. -/
def schedule : Nat → List Nat → List Nat
  | 0, before => before
  | n + 1, before => schedule n (nextWord before :: before)

def round (state : List Nat) (k w : Nat) : List Nat :=
  match state with
  | [a, b, c, d, e, f, g, h] =>
    let s1 := (rotate e 6 ^^^ rotate e 11) ^^^ rotate e 25
    let choice := (e &&& f) ^^^ ((0xffffffff ^^^ e) &&& g)
    let t1 := h + s1 + choice + k + w
    let s0 := (rotate a 2 ^^^ rotate a 13) ^^^ rotate a 22
    let majority := ((a &&& b) ^^^ (a &&& c)) ^^^ (b &&& c)
    [word (t1 + s0 + majority), a, b, c, word (d + t1), e, f, g]
  | state => state

def rounds : List Nat → List Nat → List Nat → List Nat
  | state, k :: ks, w :: ws => rounds (round state k w) ks ws
  | state, _, _ => state

/-- The words after one more block. -/
def compress (state block : List Nat) : List Nat :=
  List.zipWith (fun a b => word (a + b)) state
    (rounds state constants (schedule 48 (words block).reverse).reverse)

/-- The words after some blocks. -/
def blocks : Nat → List Nat → List Nat → List Nat
  | 0, state, _ => state
  | n + 1, state, message => blocks n (compress state (message.take 64)) (message.drop 64)

def digest (message : List UInt8) : List UInt8 :=
  let padded := pad (message.map (·.toNat))
  (blocks (padded.length / 64) start padded).flatMap fun w => (bytesOf 4 w).map UInt8.ofNat

/-! ## A digest is 32 bytes -/

theorem length_round (state : List Nat) (k w : Nat) : (round state k w).length = state.length := by
  unfold round
  split
  next => rfl
  next => rfl

theorem length_rounds (state ks ws : List Nat) : (rounds state ks ws).length = state.length := by
  induction ks generalizing state ws with
  | nil => rfl
  | cons k ks ih =>
    cases ws with
    | nil => rfl
    | cons w ws =>
      unfold rounds
      rw [ih, length_round]

theorem length_blocks (n : Nat) (state message : List Nat) : (blocks n state message).length = state.length := by
  induction n generalizing state message with
  | zero => rfl
  | succ n ih =>
    unfold blocks
    rw [ih]
    unfold compress
    rw [List.length_zipWith, length_rounds, Nat.min_self]

theorem length_digest (message : List UInt8) : (digest message).length = 32 := by
  unfold digest
  dsimp only
  rw [List.length_flatMap]
  have hwords := length_blocks ((pad (message.map (·.toNat))).length / 64) start (pad (message.map (·.toNat)))
  have hbyt : ∀ w : Nat, ((bytesOf 4 w).map UInt8.ofNat).length = 4 := by
    intro w
    unfold bytesOf
    rw [List.length_map, List.length_map, List.length_range]
  have hsum : ∀ ws : List Nat, (ws.map fun w => ((bytesOf 4 w).map UInt8.ofNat).length).sum = 4 * ws.length := by
    intro ws
    induction ws with
    | nil => rfl
    | cons w ws ih =>
      rw [List.map_cons, List.sum_cons, List.length_cons, hbyt, ih]
      omega
  rw [hsum, hwords]
  rfl

theorem size_toArray_digest (message : List UInt8) : (digest message).toArray.size = 32 := by
  rw [List.size_toArray, length_digest]

end Sha2

end Adk
