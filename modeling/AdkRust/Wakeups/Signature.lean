import AdkRust.SignedAudit.Note
import AdkRust.Wakeups.Webhook

/-!
# Signed webhooks

A delivery carries its id, the seconds it was signed at, and one MAC for each secret of its signer, over
`id.timestamp.body` (`webhook.rs`). The MAC and base64 are given by instances.

* `WebhookSigner.sign`: the headers of a delivery.
* `WebhookVerifier.verify`: the timestamp first, then the signatures.
* `InMemoryWebhookReplayGuard.record`: whether an id is new, until it expires.
-/

namespace Adk

open SignedAudit (asBytes)

/-- The MAC of a message under a key (HMAC-SHA256). -/
class Hmac where
  mac (key message : List UInt8) : List UInt8

/-- An error of a secret or a delivery. -/
inductive WebhookError where
  | invalidSecret (reason : String)
  | missingHeader (header : String)
  | malformedHeader (header reason : String)
  | signatureMismatch
  | timestampExpired (ageSeconds maxAgeSeconds : Nat)
  | timestampInFuture (skewSeconds maxSkewSeconds : Nat)
  | replayed (id : String)
deriving DecidableEq

def WebhookError.code : WebhookError → String
  | .invalidSecret _ => "webhook.invalid_secret"
  | .missingHeader _ => "webhook.missing_header"
  | .malformedHeader _ _ => "webhook.malformed_header"
  | .signatureMismatch => "webhook.signature_mismatch"
  | .timestampExpired _ _ => "webhook.timestamp_expired"
  | .timestampInFuture _ _ => "webhook.timestamp_in_future"
  | .replayed _ => "webhook.replayed"

/-! ## Numbers -/

/-- A number as text. -/
def showInt (n : Int) : List Char :=
  if n < 0 then '-' :: Nat.toDigits 10 n.natAbs else Nat.toDigits 10 n.natAbs

/-- The number that some digits write. -/
def parseNat (digits : List Char) : Option Nat :=
  if digits ≠ [] ∧ digits.all Char.isDigit = true then some (Nat.ofDigitChars 10 digits 0) else none

/-- The number that a text writes, with a sign or without (`str::parse`). -/
def parseInt : List Char → Option Int
  | '-' :: digits => (parseNat digits).map fun (n : Nat) => -(n : Int)
  | '+' :: digits => (parseNat digits).map fun (n : Nat) => (n : Int)
  | digits => (parseNat digits).map fun (n : Nat) => (n : Int)

/-- The number of 64 bits that a text writes. -/
def parseI64 (text : List Char) : Option Int64 :=
  match parseInt text with
  | some n => if -2 ^ 63 ≤ n ∧ n < 2 ^ 63 then some (Int64.ofInt n) else none
  | none => none

/-! ### What is read back -/

theorem parseNat_toDigits (n : Nat) : parseNat (Nat.toDigits 10 n) = some n := by
  have hdig : (Nat.toDigits 10 n).all Char.isDigit = true := by
    rw [List.all_eq_true]
    intro c hc
    exact Nat.isDigit_of_mem_toDigits (by omega) (by omega) hc
  unfold parseNat
  rw [if_pos ⟨Nat.toDigits_ne_nil, hdig⟩, Nat.ofDigitChars_ten_toDigits]

theorem parseInt_showInt (n : Int) : parseInt (showInt n) = some n := by
  unfold showInt
  by_cases hneg : n < 0
  · rw [if_pos hneg]
    show (parseNat (Nat.toDigits 10 n.natAbs)).map (fun (m : Nat) => -(m : Int)) = some n
    rw [parseNat_toDigits, Option.map_some]
    congr 1
    omega
  · rw [if_neg hneg]
    have hpar := parseNat_toDigits n.natAbs
    -- the first character is a digit
    cases hdig : Nat.toDigits 10 n.natAbs with
    | nil =>
      rw [hdig] at hpar
      cases hpar
    | cons c digits =>
      have hmem : c ∈ Nat.toDigits 10 n.natAbs := by
        rw [hdig]
        exact List.mem_cons_self
      have hc := Nat.isDigit_of_mem_toDigits (by omega) (by omega) hmem
      rw [hdig] at hpar
      unfold parseInt
      split
      next h =>
        obtain ⟨rfl, -⟩ := List.cons.inj h
        cases hc
      next h =>
        obtain ⟨rfl, -⟩ := List.cons.inj h
        cases hc
      next =>
        rw [hpar, Option.map_some]
        congr 1
        omega

theorem parseI64_showInt (n : Int64) : parseI64 (showInt n.toInt) = some n := by
  unfold parseI64
  rw [parseInt_showInt]
  have h1 := n.le_toInt
  have h2 := n.toInt_lt
  dsimp only
  rw [if_pos ⟨h1, h2⟩, Int64.ofInt_toInt]

def IsNumeric (c : Char) : Prop := c = '-' ∨ c = '+' ∨ c.isDigit = true

theorem isNumeric_of_parseNat {digits : List Char} {n : Nat} (h : parseNat digits = some n) : ∀ c ∈ digits, IsNumeric c := by
  unfold parseNat at h
  split at h
  next hdig => exact fun c hc => .inr (.inr (List.all_eq_true.mp hdig.2 c hc))
  next => cases h

theorem isNumeric_of_parseI64 {text : List Char} {n : Int64} (h : parseI64 text = some n) : ∀ c ∈ text, IsNumeric c := by
  unfold parseI64 at h
  split at h
  next m hm =>
    -- what is left of the sign is digits
    unfold parseInt at hm
    split at hm
    next digits =>
      obtain ⟨k, hk, -⟩ := Option.map_eq_some_iff.mp hm
      intro c hc
      rcases List.mem_cons.mp hc with rfl | hc
      · exact .inl rfl
      · exact isNumeric_of_parseNat hk c hc
    next digits =>
      obtain ⟨k, hk, -⟩ := Option.map_eq_some_iff.mp hm
      intro c hc
      rcases List.mem_cons.mp hc with rfl | hc
      · exact .inr (.inl rfl)
      · exact isNumeric_of_parseNat hk c hc
    next =>
      obtain ⟨k, hk, -⟩ := Option.map_eq_some_iff.mp hm
      exact isNumeric_of_parseNat hk
  next => cases h

theorem IsNumeric.code {c : Char} (h : IsNumeric c) : c.toNat = 43 ∨ c.toNat = 45 ∨ 48 ≤ c.toNat ∧ c.toNat ≤ 57 := by
  rcases h with rfl | rfl | h
  · exact .inr (.inl rfl)
  · exact .inl rfl
  · exact .inr (.inr (Char.isDigit_iff_toNat.mp h))

theorem IsNumeric.not_whiteSpace {c : Char} (h : IsNumeric c) : isWhiteSpace c = false := by
  have hcode := h.code
  unfold isWhiteSpace
  simp only [decide_eq_false_iff_not]
  omega

/-! ### Words -/

theorem wordsFrom_word {word rest : List Char} (start : List Char) (h : ∀ c ∈ word, isWhiteSpace c = false) :
    wordsFrom start (word ++ rest) = wordsFrom (start ++ word) rest := by
  induction word generalizing start with
  | nil => rw [List.nil_append, List.append_nil]
  | cons c word ih =>
    rw [List.cons_append, wordsFrom, if_neg (by rw [h c List.mem_cons_self]; exact Bool.false_ne_true),
      ih _ fun d hd => h d (List.mem_cons_of_mem c hd), List.append_assoc]
    rfl

theorem splitWhitespace_intercalate {words : List (List Char)}
    (h : ∀ word ∈ words, word ≠ [] ∧ ∀ c ∈ word, isWhiteSpace c = false) :
    splitWhitespace ([' '].intercalate words) = words := by
  induction words with
  | nil => rfl
  | cons word words ih =>
    obtain ⟨hne, hword⟩ := h word List.mem_cons_self
    have hrest := ih fun other hoth => h other (List.mem_cons_of_mem word hoth)
    cases words with
    | nil =>
      have hwords := @wordsFrom_word word [] [] hword
      rw [List.append_nil, List.nil_append] at hwords
      rw [List.intercalate_singleton]
      unfold splitWhitespace
      rw [hwords, wordsFrom, if_neg hne]
    | cons next words =>
      rw [List.intercalate_cons_cons]
      unfold splitWhitespace at hrest ⊢
      rw [List.append_assoc, wordsFrom_word [] hword, List.nil_append, List.singleton_append, wordsFrom,
        if_pos (by decide), if_neg hne, hrest]

/-! ### Bytes -/

theorem mem_asBytes {text : String} {byte : UInt8} :
    byte ∈ asBytes text ↔ ∃ c ∈ text.toList, byte ∈ String.utf8EncodeChar c := by
  have hbyt : asBytes text = text.toList.flatMap String.utf8EncodeChar := by
    show text.toByteArray.data.toList = _
    rw [← String.utf8Encode_toList]
    exact List.toList_data_toByteArray
  rw [hbyt, List.mem_flatMap]

theorem asBytes_inj {text text' : String} (h : asBytes text = asBytes text') : text = text' := by
  have hdata : text.toByteArray.data = text'.toByteArray.data := Array.toList_inj.mp h
  exact String.toByteArray_inj.mp (ByteArray.ext hdata)

def dot : UInt8 := 46

theorem dot_notMem {text : String} (h : ∀ c ∈ text.toList, IsNumeric c) : dot ∉ asBytes text := by
  intro hmem
  obtain ⟨c, hc, hbyte⟩ := mem_asBytes.mp hmem
  have hcode := (h c hc).code
  have hval : c.val.toNat = c.toNat := rfl
  have hsingle : String.utf8EncodeChar c = [UInt8.ofNat c.val.toNat] := by
    unfold String.utf8EncodeChar
    exact if_pos (by omega)
  rw [hsingle, List.mem_singleton] at hbyte
  have hnat := congrArg UInt8.toNat hbyte
  rw [UInt8.toNat_ofNat'] at hnat
  have hdot : dot.toNat = 46 := rfl
  omega

/-! ## Secrets -/

/-- A secret that signs and verifies. -/
structure WebhookSecret where
  key : List UInt8
  nonempty : key ≠ []
deriving DecidableEq

namespace WebhookSecret

/-- What a MAC is over. -/
def signedText (id timestamp : List UInt8) (body : List UInt8) : List UInt8 :=
  id ++ asBytes "." ++ timestamp ++ asBytes "." ++ body

variable [Hmac]

def mac (secret : WebhookSecret) (id timestamp : String) (body : List UInt8) : List UInt8 :=
  Hmac.mac secret.key (signedText (asBytes id) (asBytes timestamp) body)

def signature [Base64] (secret : WebhookSecret) (id : String) (timestamp : Int64) (body : List UInt8) : String :=
  s!"v1,{Base64.encode (secret.mac id (String.ofList (showInt timestamp.toInt)) body)}"

end WebhookSecret

/-! ## Signing -/

/-- The headers of one attempt. -/
structure SignedWebhook where
  id : String
  timestamp : Int64
  signature : String

/-- The headers as a receiver sees them. -/
def SignedWebhook.asHeaders (signed : SignedWebhook) : WebhookHeaders where
  id := signed.id
  timestamp := String.ofList (showInt signed.timestamp.toInt)
  signature := signed.signature

/-- Signs deliveries with each of its secrets. -/
structure WebhookSigner where
  secrets : List WebhookSecret

def WebhookSigner.sign [Hmac] [Base64] (signer : WebhookSigner) (id : String) (timestamp : Int64) (body : List UInt8) :
    SignedWebhook where
  id
  timestamp
  signature := " ".intercalate (signer.secrets.map fun secret => secret.signature id timestamp body)

/-! ## Verifying -/

def secondNanos : Nat := 1000000000

/-- The seconds of a moment since the epoch (`DateTime::timestamp`). -/
def unixSeconds (moment : Utc) : Int := moment / secondNanos

/-- The first second of the year -262143 (`DateTime::<Utc>::MIN_UTC`). -/
def minUtcSeconds : Int := -8334601228800

/-- The moment of some seconds, when there is one (`DateTime::from_timestamp`). -/
def fromTimestamp (seconds : Int) : Option Utc :=
  if minUtcSeconds ≤ seconds ∧ seconds * secondNanos ≤ maxUtc then some (seconds * secondNanos) else none

/-- Verifies deliveries with any of its secrets. -/
structure WebhookVerifier where
  secrets : List WebhookSecret
  tolerance : Duration := 300 * secondNanos

namespace WebhookVerifier

/-- The MACs that a signature header holds. -/
def candidates [Base64] (signature : String) : List (List UInt8) :=
  (splitWhitespace signature.toList).filterMap fun entry =>
    (stripPrefix "v1," (String.ofList entry)).bind fun encoded => (Base64.decode encoded).toOption

variable [Hmac] [Base64]

/-- Whether a delivery has the MAC of one of the secrets. -/
def matched (verifier : WebhookVerifier) (headers : WebhookHeaders) (timestamp : List Char) (body : List UInt8) : Bool :=
  verifier.secrets.any fun secret =>
    (candidates headers.signature).any fun candidate =>
      decide (secret.mac headers.id (String.ofList timestamp) body = candidate)

/-- Checks the timestamp, then the signature. -/
def verify (verifier : WebhookVerifier) (now : Utc) (headers : WebhookHeaders) (body : List UInt8) :
    Except WebhookError VerifiedWebhook :=
  let rawTimestamp := trimmed headers.timestamp.toList
  match parseI64 rawTimestamp with
  | none => .error (.malformedHeader "webhook-timestamp" "not an integer number of seconds")
  | some timestamp =>
    let now := unixSeconds now
    let tolerance := verifier.tolerance / secondNanos
    let distance := (now - timestamp.toInt).natAbs
    if tolerance < distance then
      .error (if timestamp.toInt < now then .timestampExpired distance tolerance
        else .timestampInFuture distance tolerance)
    else if candidates headers.signature = [] then
      .error (.malformedHeader "webhook-signature" "no `v1,<base64>` signature")
    else if verifier.matched headers rawTimestamp body = false then .error .signatureMismatch
    else
      match fromTimestamp timestamp.toInt with
      | none => .error (.malformedHeader "webhook-timestamp" "out of range")
      | some timestamp => .ok { id := headers.id, timestamp }

end WebhookVerifier

/-! ## Replays -/

/-- The longest span (`Duration::MAX`). -/
def maxDuration : Duration := (2 ^ 64 - 1) * secondNanos + (secondNanos - 1)

/-- How long the id of a delivery must be kept. -/
def replayWindow (tolerance : Duration) : Duration := min (2 * tolerance) maxDuration

/-- The ids that were accepted, and until when each is kept. -/
structure InMemoryWebhookReplayGuard where
  seen : String → Option Utc := fun _ => none

def InMemoryWebhookReplayGuard.record (guard : InMemoryWebhookReplayGuard) (now : Utc) (id : String) (keepUntil : Utc) :
    Bool × InMemoryWebhookReplayGuard :=
  let seen := fun id => (guard.seen id).filter fun until_ => decide (now < until_)
  if (seen id).isSome then (false, { seen })
  else (true, { seen := fun other => if other = id then some keepUntil else seen other })

end Adk
