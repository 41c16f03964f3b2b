import AdkRust.Core.Principal
import AdkRust.Lib.Text
import Mathlib.Data.List.Basic

/-!
# Derived principals

The principal of an agent for which none is configured (`acting.rs`). Its id is a URN of the names of the app and the
agent, in which an empty name is spelled as an underscore, cut to the length cap.

* `encodeName_inj`: a name is read back from its spelling.
* `AgentPrincipal.derived_separates`: which names have one derived principal.
-/

namespace Adk

/-- A name as part of a URN. -/
def encodeName (name : String) : List Char :=
  if name.isEmpty then ['_']
  else name.toUTF8.data.toList.flatMap fun byte =>
    let c := Char.ofNat byte.toNat
    if byte.toNat < 128 ∧ (c.isAlphanum ∨ c ∈ ['-', '.', '_', '~']) then [c]
    else ['%', (Nat.digitChar (byte.toNat / 16)).toUpper, (Nat.digitChar (byte.toNat % 16)).toUpper]

/-- The principal of an agent that has none of its own. A text of this form always passes the checks. -/
def AgentPrincipal.derived (appName agentName : String) : Option AgentPrincipal :=
  let id := "urn:adk:agent:".toList ++ encodeName appName ++ '/' :: encodeName agentName
  (AgentId.new (String.ofList (id.take maxAgentIdLen))).toOption.map fun id => { id }

def spelledName (name : String) : String := if name.isEmpty then "_" else name

/-- The URN of two names, before it is cut. -/
def agentUrn (appName agentName : String) : List Char :=
  "urn:adk:agent:".toList ++ encodeName appName ++ '/' :: encodeName agentName

/-! ## Spellings -/

/-- The spelling of a byte of a name. -/
def encodeByte (byte : UInt8) : List Char :=
  if byte.toNat < 128 ∧ ((Char.ofNat byte.toNat).isAlphanum ∨ Char.ofNat byte.toNat ∈ ['-', '.', '_', '~']) then
    [Char.ofNat byte.toNat]
  else ['%', (Nat.digitChar (byte.toNat / 16)).toUpper, (Nat.digitChar (byte.toNat % 16)).toUpper]

theorem encodeName_eq (name : String) : encodeName name = (spelledName name).toUTF8.data.toList.flatMap encodeByte := by
  unfold encodeName spelledName
  split
  · rfl
  · rfl

def escapeDigit (c : Char) : Nat := if c.isDigit then c.toNat - 48 else c.toNat - 55

/-- The byte that a spelling begins with. -/
def firstByte : List Char → Nat
  | [] => 0
  | c :: rest => if c = '%' then escapeDigit (rest.getD 0 c) * 16 + escapeDigit (rest.getD 1 c) else c.toNat

theorem firstByte_encodeByte : ∀ b < 256, firstByte (encodeByte (UInt8.ofNat b)) = b := by decide +kernel

/-- A byte is read back from its spelling, whatever follows. -/
theorem firstByte_append (byte : UInt8) (rest : List Char) : firstByte (encodeByte byte ++ rest) = byte.toNat := by
  have hfst := firstByte_encodeByte byte.toNat byte.toNat_lt
  rw [UInt8.ofNat_toNat] at hfst
  rw [← hfst]
  unfold encodeByte
  split
  next hpln =>
    have hpercent : Char.ofNat byte.toNat ≠ '%' := by
      intro heq
      rw [heq] at hpln
      exact absurd hpln.2 (by decide)
    simp only [List.cons_append, firstByte, if_neg hpercent]
  next => rfl

theorem encodeName_inj {name name' : String} (h : encodeName name = encodeName name') :
    spelledName name = spelledName name' := by
  have hne : ∀ byte, encodeByte byte ≠ [] := by
    intro byte
    unfold encodeByte
    split <;> exact List.cons_ne_nil _ _
  have hcode : ∀ byte byte' rest, encodeByte byte ++ rest = encodeByte byte' → byte = byte' := by
    intro byte byte' rest heq
    have hread := firstByte_append byte rest
    rw [heq, ← List.append_nil (encodeByte byte'), firstByte_append] at hread
    exact UInt8.toNat_inj.mp hread.symm
  rw [encodeName_eq, encodeName_eq] at h
  have hbyt := flatMap_inj hne hcode h
  exact String.toByteArray_inj.mp (ByteArray.ext (Array.toList_inj.mp hbyt))

theorem encodeByte_chars : ∀ b < 256, (encodeByte (UInt8.ofNat b)).all (fun c =>
    c.toNat < 128 && !AgentId.isControl c && c != '/') = true := by decide +kernel

/-- The characters of a spelling are printable ASCII. -/
theorem encodeName_chars {name : String} {c : Char} (h : c ∈ encodeName name) :
    c.toNat < 128 ∧ AgentId.isControl c = false ∧ c ≠ '/' := by
  rw [encodeName_eq, List.mem_flatMap] at h
  obtain ⟨byte, -, hc⟩ := h
  have hch := encodeByte_chars byte.toNat byte.toNat_lt
  rw [UInt8.ofNat_toNat, List.all_eq_true] at hch
  simpa [and_assoc] using hch c hc

theorem agentUrn_chars {appName agentName : String} {c : Char} (h : c ∈ agentUrn appName agentName) :
    c.toNat < 128 ∧ AgentId.isControl c = false := by
  have hpln : "urn:adk:agent:/".toList.all (fun c => c.toNat < 128 && !AgentId.isControl c) = true := by decide
  rw [List.all_eq_true] at hpln
  have hspelled : ∀ {name}, c ∈ encodeName name → c.toNat < 128 ∧ AgentId.isControl c = false := fun hname =>
    ⟨(encodeName_chars hname).1, (encodeName_chars hname).2.1⟩
  unfold agentUrn at h
  rw [List.mem_append, List.mem_append, List.mem_cons] at h
  rcases h with (hsch | happ) | rfl | hagent
  · have happend : "urn:adk:agent:/".toList = "urn:adk:agent:".toList ++ ['/'] := rfl
    have hmem : c ∈ "urn:adk:agent:/".toList := by
      rw [happend]
      exact List.mem_append_left _ hsch
    simpa using hpln c hmem
  · exact hspelled happ
  · decide
  · exact hspelled hagent

theorem agentUrn_inj {app agent app' agent' : String} (h : agentUrn app agent = agentUrn app' agent') :
    spelledName app = spelledName app' ∧ spelledName agent = spelledName agent' := by
  have hsl : ∀ {name}, '/' ∉ encodeName name := fun hmem => (encodeName_chars hmem).2.2 rfl
  unfold agentUrn at h
  rw [List.append_assoc, List.append_assoc] at h
  obtain ⟨happ, hagent⟩ := append_cons_inj hsl hsl (List.append_cancel_left h)
  exact ⟨encodeName_inj happ, encodeName_inj hagent⟩

theorem AgentId.new_asStr (id : AgentId) : AgentId.new id.asStr = .ok id := by
  unfold AgentId.new
  split
  next error hproblem =>
    rw [id.valid] at hproblem
    cases hproblem
  next => rfl

namespace AgentPrincipal

theorem derived_ok (appName agentName : String) : ∃ principal, derived appName agentName = some principal ∧
    principal.id.asStr = String.ofList ((agentUrn appName agentName).take maxAgentIdLen) := by
  have hval : AgentId.problem (String.ofList ((agentUrn appName agentName).take maxAgentIdLen)) = none := by
    have hch : ∀ c ∈ (agentUrn appName agentName).take maxAgentIdLen,
        c.toNat < 128 ∧ AgentId.isControl c = false := fun c hc => agentUrn_chars (List.mem_of_mem_take hc)
    unfold AgentId.problem
    rw [if_neg, if_neg, String.toList_ofList, List.find?_eq_none.mpr]
    · rfl
    · intro c hc
      rw [(hch c hc).2]
      exact Bool.false_ne_true
    · rw [utf8ByteSize_ofList, byteLength_of_ascii fun c hc => (hch c hc).1, List.length_take]
      omega
    · obtain ⟨rest, hrest⟩ : ∃ rest, agentUrn appName agentName = 'u' :: rest := ⟨_, rfl⟩
      have hcap : maxAgentIdLen = 511 + 1 := rfl
      rw [hrest, hcap, List.take_succ_cons, String.isEmpty_iff, ← String.toList_inj, String.toList_ofList]
      exact List.cons_ne_nil _ _
  obtain ⟨id, hid⟩ : ∃ id : AgentId, id.asStr = String.ofList ((agentUrn appName agentName).take maxAgentIdLen) :=
    ⟨⟨_, hval⟩, rfl⟩
  have hnew := AgentId.new_asStr id
  rw [hid] at hnew
  refine ⟨{ id }, ?_, hid⟩
  unfold agentUrn at hnew
  unfold derived
  dsimp only
  rw [hnew]
  rfl

/-- Two names have one principal if they are spelled alike, or if what is kept of their URNs is the same. -/
theorem derived_separates (app agent app' agent' : String) :
    ∃ principal principal', derived app agent = some principal ∧ derived app' agent' = some principal' ∧
      AgentId.new principal.id.asStr = .ok principal.id ∧
      (principal.id = principal'.id ↔
        spelledName app = spelledName app' ∧ spelledName agent = spelledName agent' ∨
        maxAgentIdLen ≤ (agentUrn app agent).length ∧ maxAgentIdLen ≤ (agentUrn app' agent').length ∧
          (agentUrn app agent).take maxAgentIdLen = (agentUrn app' agent').take maxAgentIdLen) := by
  obtain ⟨principal, hderived, hid⟩ := derived_ok app agent
  obtain ⟨principal', hderived', hid'⟩ := derived_ok app' agent'
  refine ⟨principal, principal', hderived, hderived', AgentId.new_asStr _, ?_⟩
  have hsame : principal.id = principal'.id ↔
      (agentUrn app agent).take maxAgentIdLen = (agentUrn app' agent').take maxAgentIdLen := by
    rw [← String.ofList_inj, ← hid, ← hid']
    refine ⟨congrArg AgentId.asStr, fun h => ?_⟩
    cases hp : principal.id
    cases hp' : principal'.id
    rw [hp, hp'] at h
    simpa using h
  rw [hsame]
  constructor
  · intro htake
    by_cases hlong : maxAgentIdLen ≤ (agentUrn app agent).length ∧ maxAgentIdLen ≤ (agentUrn app' agent').length
    · exact .inr ⟨hlong.1, hlong.2, htake⟩
    · have hlengths := congrArg List.length htake
      rw [List.length_take, List.length_take] at hlengths
      rw [List.take_of_length_le (by omega), List.take_of_length_le (by omega)] at htake
      exact .inl (agentUrn_inj htake)
  · rintro (⟨happ, hagent⟩ | ⟨-, -, htake⟩)
    · unfold agentUrn
      rw [encodeName_eq app, encodeName_eq agent, encodeName_eq app', encodeName_eq agent', happ, hagent]
    · exact htake

/-- An agent without a name and one that is named by an underscore have one id. -/
theorem derived_collides : ¬ ∀ app agent app' agent' : String,
    (derived app agent).map (·.id) = (derived app' agent').map (·.id) → app = app' ∧ agent = agent' := by
  intro h
  have hsame : derived "" "clerk" = derived "_" "clerk" := rfl
  obtain ⟨happ, -⟩ := h "" "clerk" "_" "clerk" (by rw [hsame])
  exact absurd happ (by decide)

end AgentPrincipal

end Adk
