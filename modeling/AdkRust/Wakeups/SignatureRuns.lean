import AdkRust.Lib.Radix64
import AdkRust.Wakeups.Signature
import Mathlib.Data.List.Induction

/-!
# What is accepted was signed, and once

Any signers sign anything, and any deliveries arrive, each verified with the secrets that the receiver has then. An
accepted delivery is recorded in one guard.

* `SignedOnce`: what is accepted was signed, what was signed is accepted, and no delivery of it is new twice.
* `signedOnce_orderly`: **it holds where no id splits elsewhere and no delivery comes after its id expired.**
* `not_signedOnce`: a delivery at the end of the tolerance comes when its id has just expired.
-/

namespace Adk

open SignedAudit (asBytes)

/-- What the receivers rely on of base64: it is read back, and has no white space. -/
class LawfulBase64 [Base64] : Prop where
  decode_encode : ∀ bytes, Base64.decode (Base64.encode bytes) = .ok bytes
  not_whiteSpace : ∀ bytes, ∀ c ∈ (Base64.encode bytes).toList, isWhiteSpace c = false

/-! ## Histories -/

structure SignedMessage where
  secrets : List WebhookSecret
  id : String
  timestamp : Int64
  body : List UInt8

/-- A delivery that was accepted: when it was, and whether its id was new. -/
structure AcceptedDelivery where
  webhook : VerifiedWebhook
  body : List UInt8
  now : Utc
  firstSeen : Option Bool

/-- What happens: a signer signs, or a delivery arrives, is verified and, when it is accepted, recorded. -/
inductive WebhookEvent where
  | sign (signer : WebhookSigner) (id : String) (timestamp : Int64) (body : List UInt8)
  | deliver (secrets : List WebhookSecret) (headers : WebhookHeaders) (body : List UInt8) (now recordedAt : Utc)

structure WebhookHistory where
  signed : List SignedMessage := []
  guard : InMemoryWebhookReplayGuard := {}
  deliveries : List AcceptedDelivery := []
  /-- The last reading of the clock. -/
  clock : Utc := minUtcSeconds * secondNanos

namespace WebhookHistory

/-- Until when the id of a delivery is kept; there may be no such moment. -/
def keepUntil (tolerance : Duration) (now : Utc) : Option Utc := checkedAddSigned now (replayWindow tolerance)

def accept (h : WebhookHistory) (tolerance : Duration) (webhook : VerifiedWebhook) (body : List UInt8)
    (now recordedAt : Utc) : WebhookHistory :=
  match keepUntil tolerance now with
  | none => { h with clock := recordedAt, deliveries := h.deliveries ++ [⟨webhook, body, now, none⟩] }
  | some keepUntil =>
    let (first, guard) := h.guard.record recordedAt webhook.id keepUntil
    { h with guard, clock := recordedAt, deliveries := h.deliveries ++ [⟨webhook, body, now, some first⟩] }

end WebhookHistory

/-! ## Texts and moments -/

def Within (tolerance : Duration) (now : Utc) (seconds : Int) : Prop :=
  (now - seconds * secondNanos).natAbs ≤ tolerance

def dotsOf (id : String) : Nat := (asBytes id).count dot

def WebhookHeaders.claimed (headers : WebhookHeaders) : Option VerifiedWebhook :=
  ((parseI64 (trimmed headers.timestamp.toList)).bind fun timestamp => fromTimestamp timestamp.toInt).map
    fun timestamp => { id := headers.id, timestamp }

theorem unixSeconds_of_fromTimestamp {seconds : Int} {moment : Utc} (h : fromTimestamp seconds = some moment) :
    moment = seconds * secondNanos ∧ unixSeconds moment = seconds := by
  unfold fromTimestamp at h
  split at h
  next =>
    obtain rfl := Option.some.inj h
    refine ⟨rfl, ?_⟩
    unfold unixSeconds
    exact Int.mul_ediv_cancel seconds (by decide)
  next => cases h

/-- Two texts that are joined at dots are of the same parts, where the first parts have as many dots and the second ones
none. -/
theorem join_inj {xs xs' ys ys' : List UInt8} (hcnt : xs.count dot = xs'.count dot)
    (h : xs ++ dot :: ys = xs' ++ dot :: ys') : xs = xs' ∧ ys = ys' := by
  rcases List.append_eq_append_iff.mp h with ⟨zs, rfl, hz⟩ | ⟨zs, rfl, hz⟩
  · cases zs with
    | nil =>
      rw [List.append_nil]
      exact ⟨rfl, (List.cons.inj hz).2⟩
    | cons z zs =>
      obtain ⟨rfl, -⟩ := List.cons.inj hz
      rw [List.count_append, List.count_cons_self] at hcnt
      omega
  · cases zs with
    | nil =>
      rw [List.append_nil]
      exact ⟨rfl, (List.cons.inj hz).2.symm⟩
    | cons z zs =>
      obtain ⟨rfl, -⟩ := List.cons.inj hz
      rw [List.count_append, List.count_cons_self] at hcnt
      omega

theorem signedText_inj {id id' timestamp timestamp' body body' : List UInt8} (hid : id.count dot = id'.count dot)
    (hts : dot ∉ timestamp) (hts' : dot ∉ timestamp')
    (h : WebhookSecret.signedText id timestamp body = WebhookSecret.signedText id' timestamp' body') :
    id = id' ∧ timestamp = timestamp' ∧ body = body' := by
  have hdot : asBytes "." = [dot] := by decide +kernel
  unfold WebhookSecret.signedText at h
  rw [hdot] at h
  simp only [List.append_assoc, List.singleton_append] at h
  obtain ⟨rfl, hrest⟩ := join_inj hid h
  have hnone : timestamp.count dot = timestamp'.count dot := by
    rw [List.count_eq_zero.mpr hts, List.count_eq_zero.mpr hts']
  obtain ⟨rfl, rfl⟩ := join_inj hnone hrest
  exact ⟨rfl, rfl, rfl⟩

section Histories

variable [Hmac] [Base64]

def SignedMessage.headers (signed : SignedMessage) : WebhookHeaders :=
  ((WebhookSigner.mk signed.secrets).sign signed.id signed.timestamp signed.body).asHeaders

namespace WebhookHistory

def next (tolerance : Duration) (h : WebhookHistory) : WebhookEvent → WebhookHistory
  | .sign signer id timestamp body => { h with signed := h.signed ++ [⟨signer.secrets, id, timestamp, body⟩] }
  | .deliver secrets headers body now recordedAt =>
    match WebhookVerifier.verify ⟨secrets, tolerance⟩ now headers body with
    | .error _ => { h with clock := now }
    | .ok webhook => h.accept tolerance webhook body now recordedAt

def of (tolerance : Duration) (events : List WebhookEvent) : WebhookHistory := events.foldl (next tolerance) {}

end WebhookHistory

/-- No MAC of the receiver's secrets is delivered that no signer has made with them. -/
def Unforged (h : WebhookHistory) (secrets : List WebhookSecret) (headers : WebhookHeaders) : Prop :=
  ∀ secret ∈ secrets, ∀ candidate ∈ WebhookVerifier.candidates headers.signature, ∀ message,
    candidate = Hmac.mac secret.key message → ∃ signed ∈ h.signed, secret ∈ signed.secrets ∧
      candidate = secret.mac signed.id (String.ofList (showInt signed.timestamp.toInt)) signed.body

/-- The clock does not go back, and MACs are not forged. -/
def Possible (h : WebhookHistory) : WebhookEvent → Prop
  | .sign .. => True
  | .deliver secrets headers _ now recordedAt =>
    h.clock ≤ now ∧ now ≤ recordedAt ∧ recordedAt ≤ maxUtc ∧ Unforged h secrets headers

/-! ## The property -/

/-- **What is accepted was signed, what was signed is accepted, and no delivery of it is new twice.** -/
structure SignedOnce (tolerance : Duration) (events : List WebhookEvent) : Prop where
  sound : ∀ before secrets headers body now recordedAt after webhook,
    events = before ++ .deliver secrets headers body now recordedAt :: after →
    WebhookVerifier.verify ⟨secrets, tolerance⟩ now headers body = .ok webhook →
    webhook.id = headers.id ∧ ∃ signed ∈ (WebhookHistory.of tolerance before).signed, signed.id = headers.id ∧
      parseI64 (trimmed headers.timestamp.toList) = some signed.timestamp ∧
      webhook.timestamp = signed.timestamp.toInt * secondNanos ∧ signed.body = body ∧
      ∃ secret ∈ signed.secrets, secret ∈ secrets
  complete : ∀ before secrets signed now recordedAt after,
    events = before ++ .deliver secrets signed.headers signed.body now recordedAt :: after →
    signed ∈ (WebhookHistory.of tolerance before).signed → (∃ secret ∈ signed.secrets, secret ∈ secrets) →
    Within tolerance now signed.timestamp.toInt →
    WebhookVerifier.verify ⟨secrets, tolerance⟩ now signed.headers signed.body =
      .ok ⟨signed.id, signed.timestamp.toInt * secondNanos⟩
  once : (WebhookHistory.of tolerance events).deliveries.Pairwise fun delivery delivery' =>
    delivery.webhook = delivery'.webhook → delivery.body = delivery'.body →
    ¬ (delivery.firstSeen = some true ∧ delivery'.firstSeen = some true)

/-! ## Where it holds -/

/-- A delivery whose text splits where it was joined, whose timestamp is a moment that the clock's whole seconds reach
within those of the tolerance, and that does not come when its id has expired. -/
structure OrderlyDelivery (tolerance : Duration) (h : WebhookHistory) (secrets : List WebhookSecret)
    (headers : WebhookHeaders) (body : List UInt8) (now recordedAt : Utc) : Prop where
  splits : ∀ signed ∈ h.signed, (∃ secret ∈ signed.secrets, secret ∈ secrets) →
    WebhookSecret.signedText (asBytes signed.id) (asBytes (String.ofList (showInt signed.timestamp.toInt))) signed.body =
      WebhookSecret.signedText (asBytes headers.id) (asBytes (String.ofList (trimmed headers.timestamp.toList))) body →
    dotsOf signed.id = dotsOf headers.id
  fits : ∀ signed ∈ h.signed, (∃ secret ∈ signed.secrets, secret ∈ secrets) → headers = signed.headers →
    body = signed.body → Within tolerance now signed.timestamp.toInt →
    (fromTimestamp signed.timestamp.toInt).isSome = true ∧
      signed.timestamp.toInt - unixSeconds now ≤ (tolerance / secondNanos : Nat)
  kept : ∀ delivery ∈ h.deliveries, delivery.firstSeen = some true → headers.claimed = some delivery.webhook →
    delivery.body = body → (unixSeconds now - unixSeconds delivery.webhook.timestamp).natAbs ≤ tolerance / secondNanos →
    recordedAt < delivery.now + replayWindow tolerance

def Orderly (tolerance : Duration) (h : WebhookHistory) : WebhookEvent → Prop
  | .sign .. => True
  | .deliver secrets headers body now recordedAt => OrderlyDelivery tolerance h secrets headers body now recordedAt

/-! ## What is accepted -/

variable {secrets : List WebhookSecret} {tolerance : Duration} {now : Utc} {body : List UInt8}
  {webhook : VerifiedWebhook}

/-- What an accepted delivery has passed. -/
theorem verify_eq_ok {headers : WebhookHeaders}
    (h : WebhookVerifier.verify ⟨secrets, tolerance⟩ now headers body = .ok webhook) :
    ∃ timestamp, parseI64 (trimmed headers.timestamp.toList) = some timestamp ∧
      (unixSeconds now - timestamp.toInt).natAbs ≤ tolerance / secondNanos ∧
      (∃ secret ∈ secrets, ∃ candidate ∈ WebhookVerifier.candidates headers.signature,
        candidate = secret.mac headers.id (String.ofList (trimmed headers.timestamp.toList)) body) ∧
      fromTimestamp timestamp.toInt = some webhook.timestamp ∧ webhook.id = headers.id := by
  unfold WebhookVerifier.verify at h
  dsimp only at h
  split at h
  next => cases h
  next timestamp hts =>
    refine ⟨timestamp, hts, ?_⟩
    split at h
    next => cases h
    next hfr =>
      split at h
      next => cases h
      next =>
        split at h
        next => cases h
        next hmatched =>
          split at h
          next => cases h
          next moment hmom =>
            obtain rfl := Except.ok.inj h
            refine ⟨Nat.le_of_not_lt hfr, ?_, hmom, rfl⟩
            rw [Bool.not_eq_false] at hmatched
            obtain ⟨secret, hsecret, hany⟩ := List.any_eq_true.mp hmatched
            obtain ⟨candidate, hcand, heq⟩ := List.any_eq_true.mp hany
            exact ⟨secret, hsecret, candidate, hcand, (of_decide_eq_true heq).symm⟩

theorem verify_claimed {headers : WebhookHeaders}
    (h : WebhookVerifier.verify ⟨secrets, tolerance⟩ now headers body = .ok webhook) :
    headers.claimed = some webhook := by
  obtain ⟨timestamp, hts, -, -, hmom, hid⟩ := verify_eq_ok h
  unfold WebhookHeaders.claimed
  rw [hts, Option.bind_some, hmom, Option.map_some, ← hid]

/-- **A delivery that is accepted was signed**, where its text splits as it was joined. -/
theorem verify_sound {h : WebhookHistory} {headers : WebhookHeaders} {recordedAt : Utc}
    (hinj : ∀ key, Function.Injective (Hmac.mac key)) (hunforged : Unforged h secrets headers)
    (hordly : OrderlyDelivery tolerance h secrets headers body now recordedAt)
    (hverify : WebhookVerifier.verify ⟨secrets, tolerance⟩ now headers body = .ok webhook) :
    webhook.id = headers.id ∧ ∃ signed ∈ h.signed, signed.id = headers.id ∧
      parseI64 (trimmed headers.timestamp.toList) = some signed.timestamp ∧
      webhook.timestamp = signed.timestamp.toInt * secondNanos ∧ signed.body = body ∧
      ∃ secret ∈ signed.secrets, secret ∈ secrets := by
  obtain ⟨timestamp, hts, -, ⟨secret, hsecret, candidate, hcand, hmac⟩, hmom, hid⟩ := verify_eq_ok hverify
  refine ⟨hid, ?_⟩
  -- the MAC is of a text that was signed
  obtain ⟨signed, hsigned, hshared, hmade⟩ := hunforged secret hsecret candidate hcand _ hmac
  have htext := hinj secret.key (hmade.symm.trans hmac)
  have hdots := hordly.splits signed hsigned ⟨secret, hshared, hsecret⟩ htext
  have hraw : dot ∉ asBytes (String.ofList (trimmed headers.timestamp.toList)) := by
    apply dot_notMem
    rw [String.toList_ofList]
    exact isNumeric_of_parseI64 hts
  have hshown : dot ∉ asBytes (String.ofList (showInt signed.timestamp.toInt)) := by
    apply dot_notMem
    rw [String.toList_ofList]
    exact isNumeric_of_parseI64 (parseI64_showInt signed.timestamp)
  obtain ⟨hid', htime, hbody⟩ := signedText_inj hdots hshown hraw htext
  have hch : showInt signed.timestamp.toInt = trimmed headers.timestamp.toList :=
    String.ofList_injective (asBytes_inj htime)
  have hpar := parseI64_showInt signed.timestamp
  rw [hch] at hpar
  obtain rfl := Option.some.inj (hts.symm.trans hpar)
  exact ⟨signed, hsigned, asBytes_inj hid', hts, (unixSeconds_of_fromTimestamp hmom).1, hbody, secret, hshared,
    hsecret⟩

theorem candidates_headers [LawfulBase64] (signed : SignedMessage) :
    WebhookVerifier.candidates signed.headers.signature = signed.secrets.map fun secret =>
      secret.mac signed.id (String.ofList (showInt signed.timestamp.toInt)) signed.body := by
  have hwords : splitWhitespace signed.headers.signature.toList = signed.secrets.map fun secret =>
      (secret.signature signed.id signed.timestamp signed.body).toList := by
    show splitWhitespace (" ".intercalate (signed.secrets.map _)).toList = _
    rw [String.toList_intercalate, List.map_map]
    apply splitWhitespace_intercalate
    intro word hword
    obtain ⟨secret, -, rfl⟩ := List.mem_map.mp hword
    unfold Function.comp WebhookSecret.signature
    simp only [String.toList_append, toString]
    refine ⟨by simp, fun c hc => ?_⟩
    rcases List.mem_append.mp hc with hc | hc
    · have hv1 : ("v1,".toList.all fun c => !isWhiteSpace c) = true := by decide +kernel
      simpa using List.all_eq_true.mp hv1 c (by simpa using hc)
    · exact LawfulBase64.not_whiteSpace _ c (by simpa using hc)
  unfold WebhookVerifier.candidates
  rw [hwords, List.filterMap_map]
  rw [← List.filterMap_eq_map]
  apply List.filterMap_congr
  intro secret _
  have hstrip : stripPrefix "v1," (secret.signature signed.id signed.timestamp signed.body) = some (Base64.encode
      (secret.mac signed.id (String.ofList (showInt signed.timestamp.toInt)) signed.body)) := by
    apply stripPrefix_eq_some.mpr
    unfold WebhookSecret.signature
    simp [toString]
  dsimp only [Function.comp]
  rw [String.ofList_toList, hstrip, Option.bind_some, LawfulBase64.decode_encode]
  rfl

theorem verify_of_mac {secret : WebhookSecret} {headers : WebhookHeaders} {timestamp : Int64} {moment : Utc}
    (hts : headers.timestamp = String.ofList (showInt timestamp.toInt)) (hsecret : secret ∈ secrets)
    (hmac : secret.mac headers.id headers.timestamp body ∈ WebhookVerifier.candidates headers.signature)
    (hfr : (unixSeconds now - timestamp.toInt).natAbs ≤ tolerance / secondNanos)
    (hmom : fromTimestamp timestamp.toInt = some moment) :
    WebhookVerifier.verify ⟨secrets, tolerance⟩ now headers body = .ok ⟨headers.id, moment⟩ := by
  have hpar := parseI64_showInt timestamp
  have htrimmed : trimmed headers.timestamp.toList = showInt timestamp.toInt := by
    rw [hts, String.toList_ofList]
    exact trimmed_eq fun c hc => (isNumeric_of_parseI64 hpar c hc).not_whiteSpace
  have hne : WebhookVerifier.candidates headers.signature ≠ [] := List.ne_nil_of_mem hmac
  have hmatched : WebhookVerifier.matched ⟨secrets, tolerance⟩ headers (showInt timestamp.toInt) body = true := by
    apply List.any_eq_true.mpr
    refine ⟨secret, hsecret, List.any_eq_true.mpr ⟨_, hmac, decide_eq_true ?_⟩⟩
    rw [hts]
  unfold WebhookVerifier.verify
  dsimp only
  rw [htrimmed, hpar]
  dsimp only
  rw [if_neg (Nat.not_lt.mpr hfr), if_neg hne, hmatched, if_neg (by decide), hmom]

/-- **A delivery of what was signed is accepted**, where its timestamp is a moment that the whole seconds reach. -/
theorem verify_complete [LawfulBase64] {h : WebhookHistory}
    {signed : SignedMessage} {recordedAt : Utc} (hsigned : signed ∈ h.signed)
    (hshared : ∃ secret ∈ signed.secrets, secret ∈ secrets) (hwin : Within tolerance now signed.timestamp.toInt)
    (hordly : OrderlyDelivery tolerance h secrets signed.headers signed.body now recordedAt) :
    WebhookVerifier.verify ⟨secrets, tolerance⟩ now signed.headers signed.body =
      .ok ⟨signed.id, signed.timestamp.toInt * secondNanos⟩ := by
  obtain ⟨hsome, hlag⟩ := hordly.fits signed hsigned hshared rfl rfl hwin
  obtain ⟨moment, hmom⟩ := Option.isSome_iff_exists.mp hsome
  obtain ⟨secret, hsecret, hconfigured⟩ := hshared
  have hfr : (unixSeconds now - signed.timestamp.toInt).natAbs ≤ tolerance / secondNanos := by
    unfold Within at hwin
    unfold unixSeconds secondNanos at hlag ⊢
    unfold secondNanos at hwin
    omega
  have hmac : secret.mac signed.headers.id signed.headers.timestamp signed.body ∈
      WebhookVerifier.candidates signed.headers.signature := by
    rw [candidates_headers]
    exact List.mem_map_of_mem hsecret
  have hverify := verify_of_mac rfl hconfigured hmac hfr hmom
  rw [(unixSeconds_of_fromTimestamp hmom).1] at hverify
  exact hverify

end Histories

/-! ## What is remembered -/

namespace WebhookHistory

/-- An id that was new is remembered until it expires. -/
def Remembers (tolerance : Duration) (h : WebhookHistory) : Prop :=
  ∀ delivery ∈ h.deliveries, delivery.firstSeen = some true → h.clock < delivery.now + replayWindow tolerance →
    h.guard.seen delivery.webhook.id = some (delivery.now + replayWindow tolerance)

/-- No message is new twice. -/
def Once (h : WebhookHistory) : Prop := h.deliveries.Pairwise fun delivery delivery' =>
  delivery.webhook = delivery'.webhook → delivery.body = delivery'.body →
  ¬ (delivery.firstSeen = some true ∧ delivery'.firstSeen = some true)

end WebhookHistory

theorem record_kept {guard : InMemoryWebhookReplayGuard} {now keepUntil until_ : Utc} {id id' : String}
    (hseen : guard.seen id' = some until_) (hlt : now < until_) :
    (guard.record now id keepUntil).2.seen id' = some until_ ∧ (id' = id → (guard.record now id keepUntil).1 = false) := by
  have hfilter : (guard.seen id').filter (fun until_ => decide (now < until_)) = some until_ := by
    rw [hseen]
    exact if_pos (decide_eq_true hlt)
  unfold InMemoryWebhookReplayGuard.record
  dsimp only
  split
  next => exact ⟨hfilter, fun _ => rfl⟩
  next hnew =>
    have hne : id' ≠ id := by
      rintro rfl
      rw [hfilter] at hnew
      exact hnew rfl
    exact ⟨(if_neg hne).trans hfilter, fun h => (hne h).elim⟩

theorem record_new {guard : InMemoryWebhookReplayGuard} {now keepUntil : Utc} {id : String}
    (h : (guard.record now id keepUntil).1 = true) : (guard.record now id keepUntil).2.seen id = some keepUntil := by
  unfold InMemoryWebhookReplayGuard.record at h ⊢
  dsimp only at h ⊢
  split at h
  next => cases h
  next hnew =>
    rw [if_neg hnew]
    exact if_pos rfl

theorem accept_once {tolerance : Duration} {h : WebhookHistory} {webhook : VerifiedWebhook} {body : List UInt8}
    {now recordedAt : Utc} (hclk : h.clock ≤ recordedAt) (hrem : h.Remembers tolerance) (honce : h.Once)
    (hkept : ∀ delivery ∈ h.deliveries, delivery.firstSeen = some true → webhook = delivery.webhook →
      delivery.body = body → recordedAt < delivery.now + replayWindow tolerance) :
    (h.accept tolerance webhook body now recordedAt).Remembers tolerance ∧
      (h.accept tolerance webhook body now recordedAt).Once := by
  unfold WebhookHistory.accept
  cases huntil : WebhookHistory.keepUntil tolerance now with
  | none =>
    refine ⟨fun delivery hmem hfst hlt => ?_, ?_⟩
    · rcases List.mem_append.mp hmem with hold | hnew
      · exact hrem delivery hold hfst (lt_of_le_of_lt hclk hlt)
      · obtain rfl := List.mem_singleton.mp hnew
        cases hfst
    · refine List.pairwise_append.mpr ⟨honce, List.pairwise_singleton _ _, fun delivery _ last hlast => ?_⟩
      obtain rfl := List.mem_singleton.mp hlast
      rintro - - ⟨-, hfst⟩
      cases hfst
  | some keepUntil =>
    obtain ⟨-, rfl⟩ := checkedAddSigned_eq_some.mp huntil
    refine ⟨fun delivery hmem hfst hlt => ?_, ?_⟩
    · rcases List.mem_append.mp hmem with hold | hnew
      · exact (record_kept (hrem delivery hold hfst (lt_of_le_of_lt hclk hlt)) hlt).1
      · obtain rfl := List.mem_singleton.mp hnew
        exact record_new (Option.some.inj hfst)
    · refine List.pairwise_append.mpr ⟨honce, List.pairwise_singleton _ _, fun delivery hold last hlast => ?_⟩
      obtain rfl := List.mem_singleton.mp hlast
      rintro hsame hbody ⟨hfst, hlast⟩
      have hlt := hkept delivery hold hfst hsame.symm hbody
      have hseen := @record_kept _ _ (now + replayWindow tolerance) _ webhook.id _
        (hrem delivery hold hfst (lt_of_le_of_lt hclk hlt)) hlt
      have hfls := hseen.2 (congrArg VerifiedWebhook.id hsame)
      have htrue : _ = true := Option.some.inj hlast
      rw [hfls] at htrue
      cases htrue

section Runs

variable [Hmac] [Base64] {tolerance : Duration}

/-- What holds of each event of a run and the history before it. -/
def Throughout (tolerance : Duration) (P : WebhookHistory → WebhookEvent → Prop) (events : List WebhookEvent) : Prop :=
  ∀ before event after, events = before ++ event :: after → P (WebhookHistory.of tolerance before) event

variable {events : List WebhookEvent} {event : WebhookEvent}

theorem Throughout.before {P : WebhookHistory → WebhookEvent → Prop} (h : Throughout tolerance P (events ++ [event])) :
    Throughout tolerance P events ∧ P (WebhookHistory.of tolerance events) event := by
  refine ⟨fun before event' after hsp => h before event' (after ++ [event]) ?_, h events event [] rfl⟩
  rw [hsp, List.append_assoc, List.cons_append]

theorem throughout_nil (P : WebhookHistory → WebhookEvent → Prop) : Throughout tolerance P [] := by
  intro before event after hsp
  cases before with
  | nil => cases hsp
  | cons _ _ => cases hsp

theorem Throughout.concat {P : WebhookHistory → WebhookEvent → Prop}
    (h : Throughout tolerance P events) (hlast : P (WebhookHistory.of tolerance events) event) :
    Throughout tolerance P (events ++ [event]) := by
  intro before event' after hsp
  rcases List.eq_nil_or_concat after with rfl | ⟨after, last, rfl⟩
  · obtain ⟨rfl, heq⟩ := List.append_inj' hsp rfl
    obtain rfl := (List.cons.inj heq).1
    exact hlast
  · rw [List.concat_eq_append, ← List.cons_append, ← List.append_assoc] at hsp
    exact h before event' after (List.append_inj' hsp rfl).1

theorem next_once {h : WebhookHistory} (hpossible : Possible h event)
    (hordly : Orderly tolerance h event) (hrem : h.Remembers tolerance) (honce : h.Once) :
    (h.next tolerance event).Remembers tolerance ∧ (h.next tolerance event).Once := by
  cases event with
  | sign signer id timestamp body => exact ⟨hrem, honce⟩
  | deliver secrets headers body now recordedAt =>
    obtain ⟨hnow, hrecd, -, -⟩ := hpossible
    unfold WebhookHistory.next
    dsimp only
    cases hverify : WebhookVerifier.verify ⟨secrets, tolerance⟩ now headers body with
    | error error =>
      exact ⟨fun delivery hmem hfst hlt => hrem delivery hmem hfst (lt_of_le_of_lt hnow hlt), honce⟩
    | ok webhook =>
      refine accept_once (hnow.trans hrecd) hrem honce fun delivery hmem hfst hsame hbody => ?_
      subst hsame
      obtain ⟨timestamp, -, hfr, -, hmom, -⟩ := verify_eq_ok hverify
      refine hordly.kept delivery hmem hfst (verify_claimed hverify) hbody ?_
      rw [(unixSeconds_of_fromTimestamp hmom).2]
      exact hfr

theorem of_once (hpossible : Throughout tolerance Possible events)
    (hordly : Throughout tolerance (Orderly tolerance) events) :
    (WebhookHistory.of tolerance events).Remembers tolerance ∧ (WebhookHistory.of tolerance events).Once := by
  induction events using List.reverseRecOn with
  | nil => exact ⟨fun _ hmem => (by cases hmem), List.Pairwise.nil⟩
  | append_singleton events event ih =>
    obtain ⟨hrem, honce⟩ := ih hpossible.before.1 hordly.before.1
    unfold WebhookHistory.of
    rw [List.foldl_concat]
    exact next_once hpossible.before.2 hordly.before.2 hrem honce

/-- **In every orderly run, what is accepted was signed, what was signed is accepted, and no delivery of it is new
twice.** -/
theorem signedOnce_orderly [LawfulBase64] (hinj : ∀ key, Function.Injective (Hmac.mac key))
    {events : List WebhookEvent} (hpossible : Throughout tolerance Possible events)
    (horderly : Throughout tolerance (Orderly tolerance) events) : SignedOnce tolerance events where
  sound before _ _ _ _ _ after _ hsplit hverify :=
    verify_sound hinj (hpossible before _ after hsplit).2.2.2 (horderly before _ after hsplit) hverify
  complete before _ _ _ _ after hsplit hsigned hshared hwithin :=
    verify_complete hsigned hshared hwithin (horderly before _ after hsplit)
  once := (of_once hpossible horderly).2

end Runs

/-! ## The end of the tolerance -/

section Replayed

local instance webhookBase64 : Base64 where
  encode := Radix64.encode
  decode text := match Radix64.decode text with
    | some bytes => .ok bytes
    | none => .error "Invalid symbol"

local instance lawfulBase64 : LawfulBase64 where
  decode_encode bytes := by
    unfold Base64.decode Base64.encode webhookBase64
    dsimp only
    rw [Radix64.decode_encode]
  not_whiteSpace bytes c hc := by
    have hmem : c ∈ Radix64.encodeChars bytes := by
      rw [← String.toList_ofList (l := Radix64.encodeChars bytes)]
      exact hc
    have hsymbols : (('=' :: Radix64.alphabet).all fun c => !isWhiteSpace c) = true := by decide +kernel
    simpa using List.all_eq_true.mp hsymbols c (Radix64.mem_symbols hmem)

def referenceSecret : WebhookSecret where
  key :=
    [49, 242, 144, 246, 191, 6, 41, 138, 171, 79, 8, 212, 60, 63, 8, 44, 246, 72, 163, 98, 218, 45, 164, 176]
  nonempty := by simp

def referenceMessage : SignedMessage :=
  ⟨[referenceSecret], "msg_p5jXN8AQM9LWM0D4loKWxJek", 1614265330, asBytes "\x7b\"test\": 2432232314\x7d"⟩

def referenceText : List UInt8 := asBytes "msg_p5jXN8AQM9LWM0D4loKWxJek.1614265330.\x7b\"test\": 2432232314\x7d"

def referenceMac : List UInt8 :=
  [131, 72, 76, 245, 43, 4, 248, 228, 207, 37, 49, 173, 254, 217, 136, 42, 212, 178, 102, 81, 55, 184, 82, 68, 45,
   89, 77, 32, 226, 201, 212, 225]

/-- A MAC that is that of the reference message for its text, and no other text's. -/
local instance referenceHmac : Hmac where
  mac key message := if key = referenceSecret.key ∧ message = referenceText then referenceMac
    else List.replicate 33 0 ++ message

theorem mac_injective (key : List UInt8) : Function.Injective (Hmac.mac key) := by
  have hlen : ∀ message : List UInt8, referenceMac ≠ List.replicate 33 0 ++ message := by
    intro message h
    have hlengths := congrArg List.length h
    rw [List.length_append, List.length_replicate] at hlengths
    have hmac : referenceMac.length = 32 := by decide
    omega
  intro message message' h
  unfold Hmac.mac referenceHmac at h
  dsimp only at h
  split at h
  next hmsg =>
    split at h
    next hmsg' => rw [hmsg.2, hmsg'.2]
    next => exact (hlen _ h).elim
  next =>
    split at h
    next => exact (hlen _ h.symm).elim
    next => exact List.append_cancel_left h

/-- The reference message, delivered unchanged. -/
def redelivered (now : Utc) : WebhookEvent :=
  .deliver [referenceSecret] referenceMessage.headers referenceMessage.body now now

def referenceSigned : WebhookEvent :=
  .sign ⟨[referenceSecret]⟩ referenceMessage.id referenceMessage.timestamp referenceMessage.body

def fiveMinutes : Duration := 300 * secondNanos

theorem redelivered_unforged {h : WebhookHistory} (hsigned : referenceMessage ∈ h.signed) :
    Unforged h [referenceSecret] referenceMessage.headers := by
  intro secret hsecret candidate hcand _ _
  obtain rfl := List.mem_singleton.mp hsecret
  rw [candidates_headers] at hcand
  obtain rfl := List.mem_singleton.mp hcand
  exact ⟨referenceMessage, hsigned, List.mem_singleton_self _, rfl⟩

/-- The reference message as it is accepted. -/
def referenceWebhook : VerifiedWebhook := ⟨referenceMessage.id, 1614265330 * (secondNanos : Int)⟩

def referenceHistory : WebhookHistory := { signed := [referenceMessage] }

/-- A delivery of it within the tolerance is accepted. -/
theorem next_redelivered (h : WebhookHistory) {now : Utc}
    (hfr : (unixSeconds now - 1614265330).natAbs ≤ fiveMinutes / secondNanos) :
    h.next fiveMinutes (redelivered now) = h.accept fiveMinutes referenceWebhook referenceMessage.body now now := by
  have hmac : referenceSecret.mac referenceMessage.headers.id referenceMessage.headers.timestamp referenceMessage.body ∈
      WebhookVerifier.candidates referenceMessage.headers.signature := by
    rw [candidates_headers]
    exact List.mem_singleton_self _
  have hverify := verify_of_mac rfl (List.mem_singleton_self referenceSecret) hmac hfr
    (if_pos (by decide) : fromTimestamp referenceMessage.timestamp.toInt = some _)
  unfold redelivered WebhookHistory.next
  dsimp only
  rw [hverify]
  rfl

theorem of_redelivered {now : Utc} (hfr : (unixSeconds now - 1614265330).natAbs ≤ fiveMinutes / secondNanos) :
    WebhookHistory.of fiveMinutes ([referenceSigned] ++ [redelivered now]) =
      referenceHistory.accept fiveMinutes referenceWebhook referenceMessage.body now now :=
  next_redelivered referenceHistory hfr

theorem of_redelivered_twice {now now' : Utc}
    (hfr : (unixSeconds now - 1614265330).natAbs ≤ fiveMinutes / secondNanos)
    (hfr' : (unixSeconds now' - 1614265330).natAbs ≤ fiveMinutes / secondNanos) :
    WebhookHistory.of fiveMinutes ([referenceSigned] ++ [redelivered now] ++ [redelivered now']) =
      (referenceHistory.accept fiveMinutes referenceWebhook referenceMessage.body now now).accept fiveMinutes
        referenceWebhook referenceMessage.body now' now' := by
  unfold WebhookHistory.of
  rw [List.foldl_concat, next_redelivered _ hfr']
  exact congrArg (fun h : WebhookHistory => h.accept fiveMinutes referenceWebhook referenceMessage.body now' now')
    (of_redelivered hfr)

/-- A delivery as early as it is accepted, and one as late. -/
def replayed : List WebhookEvent :=
  [referenceSigned] ++ [redelivered ((1614265330 - 300) * secondNanos)] ++ [redelivered ((1614265330 + 300) * secondNanos)]

theorem replayed_possible : Throughout fiveMinutes Possible replayed := by
  refine Throughout.concat (Throughout.concat (Throughout.concat (throughout_nil _) trivial) ?_) ?_
  · exact ⟨by decide +kernel, by decide, by decide, redelivered_unforged (List.mem_singleton_self _)⟩
  · rw [of_redelivered (by decide)]
    refine ⟨by decide +kernel, by decide, by decide, redelivered_unforged ?_⟩
    exact List.mem_singleton_self _

/-- **The second one comes when the id has just expired**: both are new. -/
theorem not_signedOnce : (∀ key, Function.Injective (Hmac.mac key)) ∧ Throughout fiveMinutes Possible replayed ∧
    ¬ SignedOnce fiveMinutes replayed := by
  refine ⟨mac_injective, replayed_possible, fun h => ?_⟩
  have hrun : (WebhookHistory.of fiveMinutes replayed).deliveries.map (fun delivery =>
      (delivery.webhook.id, delivery.webhook.timestamp, delivery.body, delivery.firstSeen)) =
      List.replicate 2 (referenceMessage.id, 1614265330 * (secondNanos : Int), referenceMessage.body, some true) := by
    unfold replayed
    rw [of_redelivered_twice (by decide) (by decide)]
    decide +kernel
  obtain ⟨first, rest, hlist, hfirst, hrest⟩ := List.map_eq_cons_iff.mp hrun
  obtain ⟨second, rest, rfl, hsecond, -⟩ := List.map_eq_cons_iff.mp hrest
  have honce := h.once
  rw [hlist] at honce
  have hpair := List.rel_of_pairwise_cons honce List.mem_cons_self
  simp only [Prod.mk.injEq] at hfirst hsecond
  obtain ⟨hid, htimestamp, hbody, hseen⟩ := hfirst
  obtain ⟨hid', htimestamp', hbody', hseen'⟩ := hsecond
  have hwebhook : first.webhook = second.webhook := by
    cases hw : first.webhook
    cases hw' : second.webhook
    rw [hw] at hid htimestamp
    rw [hw'] at hid' htimestamp'
    rw [VerifiedWebhook.mk.injEq]
    exact ⟨hid.trans hid'.symm, htimestamp.trans htimestamp'.symm⟩
  exact hpair hwebhook (hbody.trans hbody'.symm) ⟨hseen, hseen'⟩

/-- A delivery when it was signed, and another one as late as it is accepted. -/
def retried : List WebhookEvent :=
  [referenceSigned] ++ [redelivered (1614265330 * secondNanos)] ++ [redelivered ((1614265330 + 300) * secondNanos)]

theorem redelivered_orderly {h : WebhookHistory} {now : Utc} (hsigned : h.signed = [referenceMessage])
    (hlag : 1614265330 - unixSeconds now ≤ (fiveMinutes / secondNanos : Nat))
    (hkept : ∀ delivery ∈ h.deliveries, now < delivery.now + replayWindow fiveMinutes) :
    Orderly fiveMinutes h (redelivered now) where
  splits signed hmem _ _ := by
    rw [hsigned, List.mem_singleton] at hmem
    rw [hmem]
    rfl
  fits signed hmem _ _ _ _ := by
    rw [hsigned, List.mem_singleton] at hmem
    rw [hmem]
    exact ⟨by decide +kernel, hlag⟩
  kept delivery hmem _ _ _ _ := hkept delivery hmem

/-- Both are accepted, and the second one is no new message. -/
theorem signedOnce_orderly_retried : SignedOnce fiveMinutes retried ∧
    (WebhookHistory.of fiveMinutes retried).deliveries.map (·.firstSeen) = [some true, some false] := by
  refine ⟨signedOnce_orderly mac_injective ?_ ?_, ?_⟩
  · refine Throughout.concat (Throughout.concat (Throughout.concat (throughout_nil _) trivial) ?_) ?_
    · exact ⟨by decide +kernel, by decide, by decide, redelivered_unforged (List.mem_singleton_self _)⟩
    · rw [of_redelivered (by decide)]
      refine ⟨by decide +kernel, by decide, by decide, redelivered_unforged ?_⟩
      exact List.mem_singleton_self _
  · refine Throughout.concat (Throughout.concat (Throughout.concat (throughout_nil _) trivial) ?_) ?_
    · exact redelivered_orderly rfl (by decide +kernel) (by decide +kernel)
    · rw [of_redelivered (by decide)]
      exact redelivered_orderly rfl (by decide +kernel) (by decide +kernel)
  · unfold retried
    rw [of_redelivered_twice (by decide) (by decide)]
    decide +kernel

end Replayed

end Adk
