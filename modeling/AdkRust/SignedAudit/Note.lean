import AdkRust.Lib.Text
import AdkRust.SignedAudit.Record

/-!
# Signed notes and checkpoints

A note is a text, a blank line, and one line for each signature (`note.rs`).

* `CheckpointBody`: the text of a checkpoint and its parts.

Base64 is given by an instance.
-/

namespace Adk

/-- Standard base64 with padding. -/
class Base64 where
  encode : List UInt8 → String
  decode : String → Except String (List UInt8)

namespace SignedAudit

inductive NoteError where
  | invalidKey (reason : String)
  | malformed (reason : String)
  | signing (reason : String)
deriving DecidableEq

def NoteError.display : NoteError → String
  | .invalidKey reason => s!"invalid note key: {reason}"
  | .malformed reason => s!"malformed note: {reason}"
  | .signing reason => s!"signing failed: {reason}"

/-- The byte of the signature algorithm in keys. -/
def algEd25519 : UInt8 := 0x01

/-- A signer of checkpoints: the name and the public key of its key. -/
structure AuditSigner where
  keyName : String
  publicKey : List UInt8
deriving DecidableEq

/-! ## Texts -/

/-- What is before and after the last blank line: up to the first line break of it, and from after the second. -/
def splitBlank : List Char → Option (List Char × List Char)
  | [] => none
  | c :: rest =>
    match splitBlank rest with
    | some (before, after) => some (c :: before, after)
    | none => if c = '\n' ∧ rest.head? = some '\n' then some (['\n'], rest.tail) else none

def hasBlank (text : List Char) : Bool := (splitBlank text).isSome

/-! ## Keys -/

/-- Whether a text can name a key. -/
def validName (name : List Char) : Bool := !name.isEmpty && !name.contains '+' && !name.any isWhiteSpace

/-- A public key that verifies note signatures. -/
structure NoteVerifier where
  name : String
  keyHash : Nat
  publicKey : List UInt8
deriving DecidableEq

/-- A number of four bytes, the highest first. -/
def toBeBytes (n : Nat) : List UInt8 :=
  [UInt8.ofNat (n / 2 ^ 24), UInt8.ofNat (n / 2 ^ 16), UInt8.ofNat (n / 2 ^ 8), UInt8.ofNat n]

/-- The number that bytes write, the highest first. -/
def fromBeBytes (bytes : List UInt8) : Nat := bytes.foldl (fun n byte => n * 2 ^ 8 + byte.toNat) 0

section Keys

variable [Sha256]

def keyHash (name : String) (key : List UInt8) : Nat :=
  fromBeBytes ((Sha256.digest (asBytes name ++ asBytes "\n" ++ key)).toList.take 4)

namespace NoteVerifier

def fromPublicKey (name : String) (publicKey : List UInt8) : Except NoteError NoteVerifier :=
  if !validName name.toList then .error (.invalidKey s!"invalid key name '{name}'")
  else if publicKey.length ≠ 32 then .error (.invalidKey "ed25519 public key must be 32 bytes")
  else .ok { name, keyHash := SignedAudit.keyHash name (algEd25519 :: publicKey), publicKey }

def hex8 (n : Nat) : List Char :=
  (List.range 8).reverse.map fun place => Nat.digitChar (n / 16 ^ place % 16)

/-- A verifier key as text. -/
def display [Base64] (verifier : NoteVerifier) : String :=
  s!"{verifier.name}+{String.ofList (hex8 verifier.keyHash)}+{Base64.encode (algEd25519 :: verifier.publicKey)}"

end NoteVerifier

def AuditSigner.verifierKey [Base64] (signer : AuditSigner) : String :=
  match NoteVerifier.fromPublicKey signer.keyName signer.publicKey with
  | .ok verifier => verifier.display
  | .error _ => ""

end Keys

/-! ## Notes -/

/-- What a signature line begins with. -/
def signaturePrefix : List Char := ['\u2014', ' ']

/-! ## Checkpoints -/

structure CheckpointBody where
  origin : String
  size : Nat
  rootHash : AuditHash
deriving DecidableEq

namespace CheckpointBody

/-- The text that gets signed. -/
def toText [Base64] (body : CheckpointBody) : String :=
  s!"{body.origin}\n{body.size}\n{Base64.encode body.rootHash.bytes.toList}\n"

end CheckpointBody

end SignedAudit

end Adk
