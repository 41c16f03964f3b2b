import AdkRust.Core.ToolCall
import AdkRust.Lib.Text
import AdkRust.SignedAudit.JsonWriting

/-!
# Fingerprints of tool calls

The key that a decision is recorded under tells the acting agent, the tool and the exact arguments. It tells the origin
only up to control characters, which are cleaned, and reads a missing origin as one of two empty texts
(`fingerprint_eq_iff`).

* `writeCanonical_inj`: canonical arguments tell the arguments.
* `namesCall_iff`: when a fingerprint names one call.
-/

namespace Adk

open Binary64 SignedAudit

/-- What `serde_json` writes of a scalar: an integer with its digits, a double with a point or an exponent that tell
it, and a text with its quotes and control characters escaped. -/
class SerdeText extends JsonText, FloatReading where
  text_null : text .null = "null"
  text_bool : ∀ b, text (.bool b) = toString b
  text_int : ∀ n : Int, text (.number (.int n)) = toString n
  text_string : ∀ s, text (.string s) = writeString s
  isDecimal_text : ∀ bits, IsFinite bits → isDecimal (text (.number (.float bits))).toList
  asInteger_text : ∀ bits, IsFinite bits → asInteger (text (.number (.float bits))) = none
  readFloat_text : ∀ bits, IsFinite bits → readFloat (text (.number (.float bits))) = some bits

section Canonical

variable [SerdeText]

def serdeNumber (n : Number) : String := JsonText.text (.number n)

/-- Canonical arguments are JSON with the members in the order of their names. -/
theorem writeCanonical_eq (value : Value) : writeCanonical value = jsonText serdeNumber (· ≤ ·) value := by
  induction value using Value.induct with
  | null => simp [writeCanonical, jsonText, SerdeText.text_null]
  | bool b => cases b <;> simp [writeCanonical, jsonText, SerdeText.text_bool, toString]
  | number n => simp [writeCanonical, jsonText, serdeNumber]
  | string s => simp [writeCanonical, jsonText, SerdeText.text_string]
  | array items ih =>
    have hits : writeItems items = itemTexts serdeNumber (· ≤ ·) items := by
      induction items with
      | nil => rfl
      | cons item items ihs =>
        rw [List.forall_mem_cons] at ih
        exact congrArg₂ List.cons ih.1 (ihs ih.2)
    simp [writeCanonical, jsonText, hits]
  | object members ih =>
    have hmems : writeFields members = memberTexts serdeNumber (· ≤ ·) members := by
      induction members with
      | nil => rfl
      | cons member members ihs =>
        rw [List.forall_mem_cons] at ih
        exact congrArg₂ (fun text texts => (member.1, text) :: texts) ih.1 (ihs ih.2)
    simp [writeCanonical, jsonText, hmems, SerdeText.text_string]

theorem readsAs_serdeNumber {n : Number} (h : n.Held) : ReadsAs serdeNumber id n := by
  cases n with
  | int n =>
    refine ⟨?_, ?_⟩
    · simp only [serdeNumber, SerdeText.text_int]
      exact readNumber_int h
    · simp only [serdeNumber, SerdeText.text_int]
      exact numeric_toString n
  | float bits =>
    have hdecimal := SerdeText.isDecimal_text bits h
    refine ⟨?_, numeric_of_isDecimal hdecimal⟩
    simp only [serdeNumber, readNumber, String.ofList_toList, SerdeText.asInteger_text bits h, if_pos hdecimal,
      SerdeText.readFloat_text bits h]
    rfl

theorem readable_of_held {value : Value} (h : value.Held) : Readable serdeNumber id value :=
  h.imp fun _ => readsAs_serdeNumber

/-- Canonical arguments tell the arguments. -/
theorem writeCanonical_inj {a b : Value} (ha : a.Held) (hb : b.Held) (h : writeCanonical a = writeCanonical b) :
    a = b := by
  have hread : ∀ {value : Value}, value.Held → readJson (writeCanonical value) = some value := by
    intro value hheld
    rw [writeCanonical_eq, readJson_jsonText (readable_of_held hheld), Value.mapNumbers_id]
  exact Option.some.inj ((hread ha).symm.trans ((congrArg readJson h).trans (hread hb)))

/-- The separator is a control character, and escaped in every string. -/
theorem separator_notMem_writeCanonical {value : Value} (h : value.Held) : '\x1f' ∉ (writeCanonical value).toList := by
  rw [writeCanonical_eq]
  intro hmem
  have hnumeric := h.imp fun n hn => (readsAs_serdeNumber hn).numeric
  exact absurd (mem_jsonText hnumeric hmem) (by decide)

end Canonical

theorem Value.same_self (value : Value) : value.same value = true := by
  induction value using Value.induct with
  | null => rfl
  | bool b => simp [Value.same]
  | number n => cases n <;> simp [Value.same]
  | string s => simp [Value.same]
  | array items ih =>
    rw [Value.same]
    induction items with
    | nil => rfl
    | cons item items ihs =>
      rw [List.forall_mem_cons] at ih
      simp [Value.sameItems, ih.1, ihs ih.2]
  | object members ih =>
    rw [Value.same]
    induction members with
    | nil => rfl
    | cons member members ihs =>
      rw [List.forall_mem_cons] at ih
      simp [Value.sameFields, ih.1, ihs ih.2]

namespace ToolConfirmationRequest

/-! ## Cleaned parts -/

theorem separator_notMem_clean (part : String) : '\x1f' ∉ (clean part).toList := by
  unfold clean
  rw [String.toList_ofList]
  intro h
  obtain ⟨c, -, hc⟩ := List.mem_map.mp h
  split at hc
  next => exact absurd hc (by decide)
  next hctl =>
    subst hc
    exact hctl (by decide)

theorem clean_of_problem {part : String} (h : AgentId.problem part = none) : clean part = part := by
  have hctl : ∀ c ∈ part.toList, ¬ AgentId.isControl c = true := by
    unfold AgentId.problem at h
    split at h
    next => cases h
    next =>
      split at h
      next => cases h
      next => exact List.find?_eq_none.mp (Option.map_eq_none_iff.mp h)
  unfold clean
  rw [List.map_congr_left fun c hc => if_neg (hctl c hc), List.map_id', String.ofList_toList]

/-- The agent's part of a fingerprint. -/
def agentText (request : ToolConfirmationRequest) : String :=
  (request.acting.map fun acting => clean acting.agent.id.asStr).getD ""

/-- The origin as a fingerprint has it: cleaned, and two empty texts when it is missing. -/
def cleanOrigin (request : ToolConfirmationRequest) : String × String :=
  (request.origin.map fun origin => (clean origin.source, clean origin.declarationDigest)).getD ("", "")

def agentId (request : ToolConfirmationRequest) : Option AgentId := request.acting.map fun acting => acting.agent.id

theorem separator_notMem_agentText (request : ToolConfirmationRequest) : '\x1f' ∉ request.agentText.toList := by
  unfold agentText
  cases request.acting with
  | none => simp
  | some acting => exact separator_notMem_clean _

theorem separator_notMem_cleanOrigin (request : ToolConfirmationRequest) :
    '\x1f' ∉ request.cleanOrigin.1.toList ∧ '\x1f' ∉ request.cleanOrigin.2.toList := by
  unfold cleanOrigin
  cases request.origin with
  | none => simp
  | some origin => exact ⟨separator_notMem_clean _, separator_notMem_clean _⟩

theorem agentId_eq_iff {a b : AgentId} : a = b ↔ a.asStr = b.asStr := by
  constructor
  · intro h
    rw [h]
  · intro h
    cases a
    cases b
    simpa using h

/-- An agent's id is not empty and has no control characters, so that its part tells it. -/
theorem agentText_inj {first second : ToolConfirmationRequest} :
    first.agentText = second.agentText ↔ first.agentId = second.agentId := by
  have hid : ∀ id : AgentId, clean id.asStr = id.asStr := fun id => clean_of_problem id.valid
  have hemp : ∀ id : AgentId, id.asStr ≠ "" := by
    intro id h
    have hval := id.valid
    rw [h] at hval
    exact absurd hval (by decide)
  unfold agentText agentId
  cases first.acting with
  | none =>
    cases second.acting with
    | none => simp
    | some acting => simpa [hid] using (hemp acting.agent.id).symm
  | some acting =>
    cases second.acting with
    | none => simpa [hid] using hemp acting.agent.id
    | some other =>
      simp only [Option.map_some, Option.getD_some, hid, Option.some.injEq]
      exact agentId_eq_iff.symm

section Fingerprint

theorem separator_split {xs ys xs' ys' : List Char} (hx : '\x1f' ∉ xs) (hx' : '\x1f' ∉ xs') :
    xs ++ '\x1f' :: ys = xs' ++ '\x1f' :: ys' ↔ xs = xs' ∧ ys = ys' := by
  constructor
  · intro h
    have hreverse := congrArg List.reverse h
    simp only [List.reverse_append, List.reverse_cons, List.append_assoc, List.singleton_append] at hreverse
    obtain ⟨hys, hxs⟩ := append_cons_inj (by simpa using hx) (by simpa using hx') hreverse
    exact ⟨List.reverse_injective hxs, List.reverse_injective hys⟩
  · rintro ⟨rfl, rfl⟩
    rfl

variable [SerdeText] {first second : ToolConfirmationRequest}

theorem fingerprint_toList (request : ToolConfirmationRequest) :
    request.fingerprint.toList =
      request.agentText.toList ++ '\x1f' :: (request.cleanOrigin.1.toList ++ '\x1f' ::
        (request.cleanOrigin.2.toList ++ '\x1f' :: (request.toolName.toList ++ '\x1f' ::
          (writeCanonical request.args).toList))) := by
  unfold fingerprint agentText cleanOrigin toolCallFingerprint
  cases request.origin <;> simp [String.toList_append]

theorem fingerprint_eq_iff (hfst : first.args.Held) (hsec : second.args.Held) :
    first.fingerprint = second.fingerprint ↔
      first.agentId = second.agentId ∧ first.cleanOrigin = second.cleanOrigin ∧ first.toolName = second.toolName ∧
        first.args = second.args := by
  rw [← agentText_inj, ← String.toList_inj, fingerprint_toList, fingerprint_toList,
    separator_split (separator_notMem_agentText _) (separator_notMem_agentText _),
    separator_split (separator_notMem_cleanOrigin _).1 (separator_notMem_cleanOrigin _).1,
    separator_split (separator_notMem_cleanOrigin _).2 (separator_notMem_cleanOrigin _).2,
    Prod.ext_iff]
  simp only [String.toList_inj, and_assoc]
  refine and_congr_right fun _ => and_congr_right fun _ => and_congr_right fun _ => ?_
  constructor
  · intro h
    -- The tool's name may have separators of its own, and the arguments have none.
    obtain ⟨hname, hargs⟩ := append_cons_inj (separator_notMem_writeCanonical hfst)
      (separator_notMem_writeCanonical hsec) h
    exact ⟨String.toList_injective hname, writeCanonical_inj hfst hsec (String.toList_injective hargs)⟩
  · rintro ⟨hname, hargs⟩
    rw [hname, hargs]

/-! ## One call -/

def SameCall (first second : ToolConfirmationRequest) : Prop :=
  first.agentId = second.agentId ∧ first.origin = second.origin ∧ first.toolName = second.toolName ∧
    first.args.same second.args = true

/-- The fingerprints are equal exactly for one call, and a decision recorded under one of them is not found for the
other when the calls differ. -/
structure NamesCall (first second : ToolConfirmationRequest) : Prop where
  eq_iff : first.fingerprint = second.fingerprint ↔ SameCall first second
  apart : ¬ SameCall first second → ∀ (approvals : Dict ToolApproval) (decision : ToolApproval),
    (approvals.insert first.fingerprint decision)[second.fingerprint]? = approvals[second.fingerprint]?

/-- Fingerprints name calls, unless two origins are told apart by control characters or by being missing, or two
arguments are equal only because a zero has no sign. -/
theorem namesCall_iff (hfirst : first.args.Held) (hsecond : second.args.Held) :
    NamesCall first second ↔
      (first.agentId = second.agentId → first.toolName = second.toolName →
        (first.args = second.args → first.cleanOrigin = second.cleanOrigin → first.origin = second.origin) ∧
        (first.origin = second.origin → first.args.same second.args = true → first.args = second.args)) := by
  have hfingerprint := fingerprint_eq_iff hfirst hsecond
  have horigin : first.origin = second.origin → first.cleanOrigin = second.cleanOrigin := by
    intro h
    rw [cleanOrigin, cleanOrigin, h]
  have hargs : first.args = second.args → first.args.same second.args = true := by
    intro h
    rw [h]
    exact Value.same_self _
  have hnames : NamesCall first second ↔ (first.fingerprint = second.fingerprint ↔ SameCall first second) := by
    refine ⟨NamesCall.eq_iff, fun h => ⟨h, fun hother approvals decision => ?_⟩⟩
    exact Dict.getElem?_insert_of_ne (fun heq => hother (h.mp heq.symm)) decision
  rw [hnames, hfingerprint, SameCall]
  constructor
  · intro h hagent htool
    exact ⟨fun hv hc => (h.mp ⟨hagent, hc, htool, hv⟩).2.1, fun ho hs => (h.mpr ⟨hagent, ho, htool, hs⟩).2.2.2⟩
  · intro h
    constructor
    · rintro ⟨hagent, hc, htool, hv⟩
      exact ⟨hagent, (h hagent htool).1 hv hc, htool, hargs hv⟩
    · rintro ⟨hagent, ho, htool, hs⟩
      exact ⟨hagent, horigin ho, htool, (h hagent htool).2 ho hs⟩

end Fingerprint

/-! ## Origins that are not told apart -/

theorem isDecimal_zeroPoint (n : Nat) : isDecimal ('0' :: '.' :: Nat.toDigits 10 n) = true := by
  have hdig : ∀ c ∈ Nat.toDigits 10 n, c.isDigit = true := fun c hc =>
    Nat.isDigit_of_mem_toDigits (by decide) (by decide) hc
  have htake : (Nat.toDigits 10 n).takeWhile Char.isDigit = Nat.toDigits 10 n := List.takeWhile_eq_self_iff.mpr hdig
  have hdrop : (Nat.toDigits 10 n).dropWhile Char.isDigit = [] := List.dropWhile_eq_nil_iff.mpr hdig
  have hne : Nat.toDigits 10 n ≠ [] := Nat.toDigits_ne_nil
  simp [isDecimal, skipInteger, skipFraction, skipDigits, htake, hdrop, hne, skipExponent]

theorem point_notMem_toString (n : Int) : '.' ∉ (toString n).toList := by
  rw [Int.toString_eq_repr]
  cases n with
  | ofNat n => simpa [Int.repr, Nat.repr] using not_mem_toDigits (n := n) (c := '.') (by decide)
  | negSucc n => simpa [Int.repr, Nat.repr] using not_mem_toDigits (n := n + 1) (c := '.') (by decide)

theorem toList_zeroPoint (n : Nat) : ("0." ++ toString n).toList = '0' :: '.' :: Nat.toDigits 10 n := by
  simp [String.toList_append, Nat.toString_eq_repr, Nat.repr]

/-- Scalars as `serde_json` writes them, but for doubles, which are told by the number of their bits. -/
@[reducible] def plainSerde : SerdeText where
  text
    | .number (.int n) => toString n
    | .number (.float bits) => "0." ++ toString bits.toNat
    | .string s => writeString s
    | .bool b => toString b
    | _ => "null"
  readFloat text := (String.ofList (text.toList.drop 2)).toNat?.map UInt64.ofNat
  text_null := rfl
  text_bool _ := rfl
  text_int _ := rfl
  text_string _ := rfl
  isDecimal_text bits _ := by
    rw [toList_zeroPoint]
    exact isDecimal_zeroPoint _
  asInteger_text bits _ := by
    refine Option.eq_none_iff_forall_ne_some.mpr fun n hn => ?_
    have hpoint := point_notMem_toString n
    rw [← (asInteger_eq_some.mp hn).1, toList_zeroPoint] at hpoint
    simp at hpoint
  readFloat_text bits _ := by
    have hdigits : String.ofList (Nat.toDigits 10 bits.toNat) = bits.toNat.repr := rfl
    rw [toList_zeroPoint]
    simp [hdigits]

def transferBy (id : AgentId) : ToolConfirmationRequest where
  toolName := "transfer"
  args := .object [("amount", .number (.int 40))]
  acting := some { agent := { id } }

theorem held_transferBy (id : AgentId) : (transferBy id).args.Held :=
  Value.all_object.mpr ⟨List.pairwise_singleton _ _, by
    simp [Value.All, Number.Held, FitsWord]⟩

theorem namesCall_transferBy :
    @NamesCall plainSerde (transferBy ⟨"urn:adk:agent:ops/treasurer", by decide⟩)
      (transferBy ⟨"urn:adk:agent:ops/intern", by decide⟩) := by
  let _ : SerdeText := plainSerde
  exact (namesCall_iff (held_transferBy _) (held_transferBy _)).mpr fun hagent => absurd hagent (by decide)

/-- Two publishers whose names differ in a control character. -/
theorem not_namesCall : ¬ ∀ (_ : SerdeText) (first second : ToolConfirmationRequest), first.args.Held → second.args.Held →
    NamesCall first second := by
  intro h
  let request (source : String) : ToolConfirmationRequest :=
    { toolName := "wire", args := .null, origin := some ⟨source, "sha256:00"⟩ }
  let _ : SerdeText := plainSerde
  have hnames := h plainSerde (request "mcp:bank\x01") (request "mcp:bank\x02") trivial trivial
  have hsame := hnames.eq_iff.mp (by decide)
  exact absurd hsame.2.1 (by decide)

end ToolConfirmationRequest

end Adk
