import AdkRust.Schema.Visits
import Mathlib.Algebra.Ring.Nat

/-!
# Inlining ends, is bounded, and is exact where nothing forbids it

* `resolve_ends`: with enough steps an expansion ends. What it does next is smaller, or one definition deeper.
* `resolve_keeps`: it leaves no reference at a place it visits, and pays for what it copies.
* `Reaches`: where the inlining of a schema gets to, and which definitions are open there.
* `resolveRefs_exact`: **if no definition is reached in its own inlining, the result is the whole substitution.**
-/

namespace Adk

namespace Schema

/-! ## References and places -/

/-- A schema has another one at a place, or is it. -/
inductive Visited : Value → Value → Prop where
  | self (schema : Value) : Visited schema schema
  | inside {schema place sub : Value} (hplace : place ∈ places schema) (h : Visited place sub) : Visited schema sub

/-- No reference is left in a schema. -/
def Clean (schema : Value) : Prop := ∀ sub, Visited schema sub → reference sub = none

variable {schema : Value} {definitions : Fields}

theorem Clean.of_places (h : reference schema = none) (hplaces : ∀ place ∈ places schema, Clean place) :
    Clean schema := by
  intro sub hsub
  cases hsub with
  | self => exact h
  | inside hpl hsub => exact hplaces _ hpl sub hsub

theorem reference_eq_some {found : String × Fields} : reference schema = some found ↔
    ∃ fields, schema = .object fields ∧ fields.lookup "$ref" = some (.string found.1) ∧
      found.2 = fields.filter fun field => field.1 ≠ "$ref" := by
  constructor
  · intro h
    cases schema with
    | object fields =>
      obtain ⟨text, htext, rfl⟩ := Option.map_eq_some_iff.mp h
      obtain ⟨value, hlook, hstr⟩ := Option.bind_eq_some_iff.mp htext
      cases value with
      | string s =>
        obtain rfl := Option.some.inj hstr
        exact ⟨fields, rfl, hlook, rfl⟩
      | _ => cases hstr
    | _ => cases h
  · obtain ⟨text, siblings⟩ := found
    rintro ⟨fields, rfl, hlook, rfl⟩
    show ((fields.lookup "$ref").bind Value.asStr).map _ = _
    rw [hlook]
    rfl

section Merged

variable {schema : Value} {found : String × Fields} (hfnd : reference schema = some found)
include hfnd

/-- The keywords beside a reference have no other. -/
theorem lookup_siblings : found.2.lookup "$ref" = none := by
  obtain ⟨fields, -, -, hsiblings⟩ := reference_eq_some.mp hfnd
  rw [hsiblings]
  exact lookup_without_self

theorem places_siblings {place : Value} (h : place ∈ places (.object found.2)) : place ∈ places schema := by
  obtain ⟨fields, rfl, -, hsiblings⟩ := reference_eq_some.mp hfnd
  obtain ⟨location, hlocation, value, hlook, hsub⟩ := mem_places.mp h
  have hne : location.1 ≠ "$ref" := by
    intro heq
    exact notMem_locations (.inl rfl) (heq ▸ List.mem_map_of_mem hlocation)
  rw [hsiblings, lookup_without_ne hne] at hlook
  exact mem_places.mpr ⟨location, hlocation, value, hlook, hsub⟩

theorem reference_fallback : reference (.object (extend fallback found.2)) = none := by
  rw [reference_eq_none, lookup_extend, lookup_siblings hfnd]
  rfl

theorem places_fallback {place : Value} (h : place ∈ places (.object (extend fallback found.2))) :
    place ∈ places schema := by
  obtain ⟨location, hlocation, value, hlook, hsub⟩ := mem_places.mp h
  have hne : location.1 ≠ "type" := by
    intro heq
    exact notMem_locations (.inr rfl) (heq ▸ List.mem_map_of_mem hlocation)
  have hnone : List.lookup location.1 fallback = none := lookup_cons_ne hne
  rw [lookup_extend, hnone, Option.or_none] at hlook
  exact places_siblings hfnd (mem_places.mpr ⟨location, hlocation, value, hlook, hsub⟩)

/-- A definition that takes the place of a reference makes the schema no larger than both. -/
theorem countValues_extend (definition : Fields) :
    countValues (.object (extend definition found.2)) ≤ countFields definition + countValues schema := by
  obtain ⟨fields, rfl, hlook, hsiblings⟩ := reference_eq_some.mp hfnd
  have hextend := countFields_extend definition found.2
  have hless := countFields_without_lt hlook
  rw [← hsiblings] at hless
  rw [countValues, countValues]
  omega

end Merged

theorem definitionOf_mem {text : String} {named : String × Fields}
    (h : definitionOf definitions text = some named) : countFields named.2 ≤ countFields definitions := by
  obtain ⟨name, -, hname⟩ := Option.bind_eq_some_iff.mp h
  obtain ⟨definition, hdefn, rfl⟩ := Option.map_eq_some_iff.mp hname
  obtain ⟨value, hlook, hobject⟩ := Option.bind_eq_some_iff.mp hdefn
  have hle := countValues_le_fields (mem_of_lookup hlook)
  cases value with
  | object fields =>
    obtain rfl := Option.some.inj hobject
    exact (Nat.le_succ _).trans hle
  | _ => cases hobject

theorem inlinable_eq_some {expanding : List String} {depth budget : Nat} {text : String}
    {named : String × Fields} : inlinable definitions expanding depth budget text = some named ↔
      definitionOf definitions text = some named ∧ depth ≤ 10 ∧ named.1 ∉ expanding ∧
        countValues (.object named.2) ≤ budget := by
  unfold inlinable
  rw [Option.bind_eq_some_iff]
  constructor
  · rintro ⟨other, hoth, h⟩
    split at h
    · next hcond =>
      obtain rfl := Option.some.inj h
      exact ⟨hoth, hcond⟩
    · cases h
  · rintro ⟨hnmd, hcond⟩
    exact ⟨named, hnmd, if_pos hcond⟩

/-! ## Steps -/

section Steps

variable {definitions : Fields} {fuel depth : Nat} {expanding : List String} {state : Expansion} {schema : Value}
  {found named : String × Fields}

theorem resolve_plain (h : reference schema = none) : resolve definitions (fuel + 1) expanding depth state schema =
    visit (resolve definitions fuel expanding depth) state schema := by
  rw [resolve, h, Option.elim_none]

theorem resolve_fallback (h : reference schema = some found)
    (hnone : inlinable definitions expanding depth state.budget found.1 = none) :
    resolve definitions (fuel + 1) expanding depth state schema =
      visit (resolve definitions fuel expanding depth) state (.object (extend fallback found.2)) := by
  rw [resolve, h, Option.elim_some, hnone, Option.elim_none]

theorem resolve_inline (h : reference schema = some found)
    (hsome : inlinable definitions expanding depth state.budget found.1 = some named) :
    resolve definitions (fuel + 1) expanding depth state schema =
      resolve definitions fuel (expanding ++ [named.1]) (depth + 1) (state.copy named.2)
        (.object (extend named.2 found.2)) := by
  rw [resolve, h, Option.elim_some, hsome, Option.elim_some]

theorem substitute_plain {copies : Nat} (h : reference schema = none) :
    substitute definitions (fuel + 1) copies schema = visit (substitute definitions fuel) copies schema := by
  rw [substitute, h, Option.elim_none]

theorem substitute_inline {copies : Nat} (h : reference schema = some found) :
    substitute definitions (fuel + 1) copies schema = (definitionOf definitions found.1).bind fun named =>
      substitute definitions fuel (copies + countValues (.object named.2)) (.object (extend named.2 found.2)) := by
  rw [substitute, h, Option.elim_some]

end Steps

/-! ## An expansion ends -/

/-- Some steps are enough for the schemas of a size that are nested deep enough in definitions. -/
def Ends (definitions : Fields) (hops size : Nat) : Prop :=
  ∃ enough, ∀ fuel, enough ≤ fuel → ∀ expanding depth schema, 11 ≤ depth + hops → countValues schema ≤ size →
    ∀ state, (resolve definitions fuel expanding depth state schema).isSome

/-- The sub-schemas are smaller, and a definition is one deeper. -/
theorem Ends.step {hops size : Nat} (hsmaller : Ends definitions hops size)
    (hdeeper : ∃ enough, ∀ fuel, enough ≤ fuel → ∀ expanding depth schema, 11 ≤ depth + hops → depth ≤ 10 →
      countValues schema ≤ countFields definitions + (size + 1) →
        ∀ state, (resolve definitions fuel expanding (depth + 1) state schema).isSome) :
    Ends definitions hops (size + 1) := by
  obtain ⟨enough, hsmaller⟩ := hsmaller
  obtain ⟨enough', hdeeper⟩ := hdeeper
  refine ⟨max enough enough' + 1, fun fuel hfuel expanding depth schema hdepth hsize state => ?_⟩
  obtain ⟨fuel, rfl⟩ : ∃ n, fuel = n + 1 := ⟨fuel - 1, by omega⟩
  have hplaces (schema' : Value) (hle : ∀ place ∈ places schema', place ∈ places schema) :
      (visit (resolve definitions fuel expanding depth) state schema').isSome := by
    refine visit_isSome (fun place hpl state => ?_) state
    have hless := countValues_places (hle place hpl)
    exact hsmaller fuel (by omega) expanding depth place hdepth (by omega) state
  cases hfnd : reference schema with
  | none =>
    rw [resolve_plain hfnd]
    exact hplaces schema fun _ h => h
  | some found =>
    cases hnmd : inlinable definitions expanding depth state.budget found.1 with
    | none =>
      rw [resolve_fallback hfnd hnmd]
      exact hplaces _ fun _ h => places_fallback hfnd h
    | some named =>
      obtain ⟨hdefn, hshallow, -⟩ := inlinable_eq_some.mp hnmd
      have hextend := countValues_extend hfnd named.2
      have hmem := definitionOf_mem hdefn
      rw [resolve_inline hfnd hnmd]
      exact hdeeper fuel (by omega) _ depth _ hdepth hshallow (by omega) _

theorem ends (definitions : Fields) (hops size : Nat) : Ends definitions hops size := by
  induction hops generalizing size with
  | zero =>
    induction size with
    | zero =>
      refine ⟨0, fun fuel _ expanding depth schema _ hsize => ?_⟩
      have := countValues_pos schema
      omega
    | succ size ih => exact ih.step ⟨0, fun fuel _ expanding depth schema hdepth hshallow => by omega⟩
  | succ hops ihops =>
    induction size with
    | zero =>
      refine ⟨0, fun fuel _ expanding depth schema _ hsize => ?_⟩
      have := countValues_pos schema
      omega
    | succ size ih =>
      obtain ⟨enough, henough⟩ := ihops (countFields definitions + (size + 1))
      exact ih.step ⟨enough, fun fuel hfuel expanding depth schema hdepth _ hsize =>
        henough fuel hfuel expanding (depth + 1) schema (by omega) hsize⟩

/-- More steps change nothing. -/
theorem resolve_more (definitions : Fields) (fuel : Nat) (expanding : List String) (depth : Nat) (schema : Value) :
    Simulates (resolve definitions fuel expanding depth) (resolve definitions (fuel + 1) expanding depth) Eq
      (fun _ => True) schema := by
  induction fuel generalizing expanding depth schema with
  | zero => exact ⟨fun _ _ => trivial, fun _ h => (nomatch h)⟩
  | succ fuel ih =>
    refine ⟨fun _ _ => trivial, ?_⟩
    rintro state other schema' state' rfl hrun -
    cases hfnd : reference schema with
    | none =>
      rw [resolve_plain hfnd] at hrun ⊢
      exact (visit_simulates (fun sub _ => ih expanding depth sub) hrun trivial).2 rfl
    | some found =>
      cases hnmd : inlinable definitions expanding depth state.budget found.1 with
      | none =>
        rw [resolve_fallback hfnd hnmd] at hrun ⊢
        exact (visit_simulates (fun sub _ => ih expanding depth sub) hrun trivial).2 rfl
      | some named =>
        rw [resolve_inline hfnd hnmd] at hrun ⊢
        exact (ih _ _ _).step rfl hrun trivial

theorem resolve_le {fuel fuel' : Nat} (hle : fuel ≤ fuel') {expanding : List String} {depth : Nat}
    {state : Expansion} {result : Value × Expansion}
    (h : resolve definitions fuel expanding depth state schema = some result) :
    resolve definitions fuel' expanding depth state schema = some result := by
  induction hle with
  | refl => exact h
  | step _ ih =>
    obtain ⟨state', hst', rfl⟩ := (resolve_more definitions _ expanding depth schema).step rfl ih trivial
    exact hst'

/-- **An expansion ends.** -/
theorem resolve_ends (definitions : Fields) (depth : Nat) (schema : Value) : ∃ enough result, ∀ fuel, enough ≤ fuel →
    resolveRefs definitions fuel depth schema = some result := by
  obtain ⟨enough, henough⟩ := ends definitions 11 (countValues schema)
  obtain ⟨result, hres⟩ := Option.isSome_iff_exists.mp
    (henough enough le_rfl [] depth schema (by omega) le_rfl { budget := maxInlinedRefNodes, copied := [] })
  exact ⟨enough, result, fun fuel hfuel => resolve_le hfuel hres⟩

/-! ## What is left and what is copied -/

/-- What was paid and what may still be. -/
def Expansion.total (state : Expansion) : Nat := state.budget + (state.copied.map countValues).sum

theorem Expansion.total_copy {state : Expansion} {definition : Fields}
    (h : countValues (.object definition) ≤ state.budget) : (state.copy definition).total = state.total := by
  show state.budget - countValues (.object definition) + ((.object definition :: state.copied).map countValues).sum =
    state.budget + (state.copied.map countValues).sum
  rw [List.map_cons, List.sum_cons]
  omega

/-- **An expansion leaves no reference behind and pays for what it copies.** -/
theorem resolve_keeps (definitions : Fields) (total fuel : Nat) (expanding : List String) (depth : Nat) :
    Keeps (resolve definitions fuel expanding depth) (fun state => state.total = total) Clean := by
  induction fuel generalizing expanding depth with
  | zero => exact ⟨fun _ h => (nomatch h)⟩
  | succ fuel ih =>
    refine ⟨fun {state schema schema' state'} hInv hrun => ?_⟩
    have hvis (before : Value) (hnone : reference before = none)
        (hrun : visit (resolve definitions fuel expanding depth) state before = some (schema', state')) :
        state'.total = total ∧ Clean schema' ∧ (IsObject before → IsObject schema') := by
      obtain ⟨hInv', houts, hobject, href⟩ := visit_keeps (ih expanding depth) hInv hrun
      exact ⟨hInv', .of_places (href hnone) houts, hobject⟩
    cases hfnd : reference schema with
    | none =>
      rw [resolve_plain hfnd] at hrun
      exact hvis schema hfnd hrun
    | some found =>
      cases hnmd : inlinable definitions expanding depth state.budget found.1 with
      | none =>
        rw [resolve_fallback hfnd hnmd] at hrun
        obtain ⟨hInv', hcln, hobject⟩ := hvis _ (reference_fallback hfnd) hrun
        exact ⟨hInv', hcln, fun _ => hobject ⟨_, rfl⟩⟩
      | some named =>
        obtain ⟨-, -, -, haffordable⟩ := inlinable_eq_some.mp hnmd
        rw [resolve_inline hfnd hnmd] at hrun
        obtain ⟨hInv', hcln, hobject⟩ := (ih _ _).step ((Expansion.total_copy haffordable).trans hInv) hrun
        exact ⟨hInv', hcln, fun _ => hobject ⟨_, rfl⟩⟩

/-! ## Where nothing forbids it -/

/-- The inlining of a schema gets to a sub-schema, with some definitions open. The keywords beside a reference belong to
the inlining of its definition. -/
inductive Reaches (definitions : Fields) (root : Value) : List String → Value → Prop where
  | start : Reaches definitions root [] root
  | inside {names : List String} {schema place : Value} (h : Reaches definitions root names schema)
      (hplace : place ∈ places schema) : Reaches definitions root names place
  | inline {names : List String} {schema : Value} {found named : String × Fields} (h : Reaches definitions root names schema)
      (hfound : reference schema = some found) (hnamed : definitionOf definitions found.1 = some named) :
      Reaches definitions root (names ++ [named.1]) (.object (extend named.2 found.2))

/-- Nothing forbids the inlining of a schema: every reference is known, no definition is reached in its own inlining, and
none is too deep. -/
structure Free (definitions : Fields) (depth : Nat) (root : Value) : Prop where
  known : ∀ {names schema found}, Reaches definitions root names schema → reference schema = some found →
    (definitionOf definitions found.1).isSome
  acyclic : ∀ {names schema}, Reaches definitions root names schema → names.Nodup
  shallow : ∀ {names schema}, Reaches definitions root names schema → depth + names.length ≤ 11

section Exact

variable {definitions : Fields} {depth : Nat} {root : Value} (hfree : Free definitions depth root)
include hfree

/-- Some steps are enough for the substitution of schemas of a size, that many definitions below the last. -/
theorem substitute_ends (hops size : Nat) : ∃ enough, ∀ fuel, enough ≤ fuel → ∀ names schema,
    Reaches definitions root names schema → 11 ≤ depth + names.length + hops → countValues schema ≤ size →
      ∀ copies, (substitute definitions fuel copies schema).isSome := by
  have hstep {hops size : Nat} (hsmaller : ∃ enough, ∀ fuel, enough ≤ fuel → ∀ names schema,
        Reaches definitions root names schema → 11 ≤ depth + names.length + hops → countValues schema ≤ size →
          ∀ copies, (substitute definitions fuel copies schema).isSome)
      (hdeeper : ∃ enough, ∀ fuel, enough ≤ fuel → ∀ names schema, Reaches definitions root names schema →
        12 ≤ depth + names.length + hops → countValues schema ≤ countFields definitions + (size + 1) →
          ∀ copies, (substitute definitions fuel copies schema).isSome) :
      ∃ enough, ∀ fuel, enough ≤ fuel → ∀ names schema, Reaches definitions root names schema →
        11 ≤ depth + names.length + hops → countValues schema ≤ size + 1 →
          ∀ copies, (substitute definitions fuel copies schema).isSome := by
    obtain ⟨enough, hsmaller⟩ := hsmaller
    obtain ⟨enough', hdeeper⟩ := hdeeper
    refine ⟨max enough enough' + 1, fun fuel hfuel names schema hreas hdepth hsize copies => ?_⟩
    obtain ⟨fuel, rfl⟩ : ∃ n, fuel = n + 1 := ⟨fuel - 1, by omega⟩
    cases hfnd : reference schema with
    | none =>
      rw [substitute_plain hfnd]
      refine visit_isSome (fun place hpl copies => ?_) copies
      have hless := countValues_places hpl
      exact hsmaller fuel (by omega) names place (hreas.inside hpl) hdepth (by omega) copies
    | some found =>
      obtain ⟨named, hnmd⟩ := Option.isSome_iff_exists.mp (hfree.known hreas hfnd)
      have hextend := countValues_extend hfnd named.2
      have hmem := definitionOf_mem hnmd
      rw [substitute_inline hfnd, hnmd, Option.bind_some]
      refine hdeeper fuel (by omega) _ _ (hreas.inline hfnd hnmd) ?_ (by omega) _
      rw [List.length_append, List.length_singleton]
      omega
  have hzero {hops : Nat} : ∃ enough, ∀ fuel, enough ≤ fuel → ∀ names schema, Reaches definitions root names schema →
      11 ≤ depth + names.length + hops → countValues schema ≤ 0 →
        ∀ copies, (substitute definitions fuel copies schema).isSome := by
    refine ⟨0, fun fuel _ names schema _ _ hsize => ?_⟩
    have := countValues_pos schema
    omega
  induction hops generalizing size with
  | zero =>
    induction size with
    | zero => exact hzero
    | succ size ih =>
      refine hstep ih ⟨0, fun fuel _ names schema hreas hdepth => ?_⟩
      have := hfree.shallow hreas
      omega
  | succ hops ihops =>
    induction size with
    | zero => exact hzero
    | succ size ih =>
      obtain ⟨enough, henough⟩ := ihops (countFields definitions + (size + 1))
      exact hstep ih ⟨enough, fun fuel hfuel names schema hreas hdepth hsize =>
        henough fuel hfuel names schema hreas (by omega) hsize⟩

/-- **Where nothing forbids it, an expansion substitutes.** -/
theorem substitute_simulates (fuel : Nat) {names : List String} {schema : Value}
    (hreas : Reaches definitions root names schema) :
    Simulates (substitute definitions fuel) (resolve definitions fuel names (depth + names.length))
      (fun copies state => copies + state.budget = maxInlinedRefNodes) (· ≤ maxInlinedRefNodes) schema := by
  induction fuel generalizing names schema with
  | zero => exact ⟨fun h => (nomatch h), fun _ h => (nomatch h)⟩
  | succ fuel ih =>
    cases hfnd : reference schema with
    | none =>
      have hvis {copies schema' copies'} (hrun : substitute definitions (fuel + 1) copies schema = some (schema', copies'))
          (hQ : copies' ≤ maxInlinedRefNodes) := by
        rw [substitute_plain hfnd] at hrun
        exact visit_simulates (fun place hpl => ih (hreas.inside hpl)) hrun hQ
      refine ⟨fun hrun hQ => (hvis hrun hQ).1, fun hR hrun hQ => ?_⟩
      rw [resolve_plain hfnd]
      exact (hvis hrun hQ).2 hR
    | some found =>
      obtain ⟨named, hnmd⟩ := Option.isSome_iff_exists.mp (hfree.known hreas hfnd)
      have hinline := hreas.inline hfnd hnmd
      have hlen : (names ++ [named.1]).length = names.length + 1 := by simp
      refine ⟨fun hrun hQ => ?_, fun {copies state schema' copies'} hR hrun hQ => ?_⟩
      · rw [substitute_inline hfnd, hnmd, Option.bind_some] at hrun
        exact (Nat.le_add_right _ _).trans ((ih hinline).bound hrun hQ)
      · rw [substitute_inline hfnd, hnmd, Option.bind_some] at hrun
        have hpaid : copies + countValues (.object named.2) ≤ maxInlinedRefNodes := (ih hinline).bound hrun hQ
        have hdepth := hfree.shallow hinline
        have hfr : named.1 ∉ names := by
          have hnd := hfree.acyclic hinline
          rw [List.nodup_append] at hnd
          intro hmem
          exact hnd.2.2 _ hmem _ (List.mem_singleton_self _) rfl
        have hsome : inlinable definitions names (depth + names.length) state.budget found.1 = some named :=
          inlinable_eq_some.mpr ⟨hnmd, by omega, hfr, by omega⟩
        rw [resolve_inline hfnd hsome, Nat.add_assoc, ← hlen]
        refine (ih hinline).step ?_ hrun hQ
        show copies + countValues (.object named.2) + (state.budget - countValues (.object named.2)) = _
        omega

end Exact

/-- **Inlining ends, is bounded, and is exact where nothing forbids it.** -/
theorem resolveRefs_exact (definitions : Fields) (depth : Nat) (schema : Value) : ∃ enough result state,
    (∀ fuel, enough ≤ fuel → resolveRefs definitions fuel depth schema = some (result, state)) ∧ Clean result ∧
      (state.copied.map countValues).sum ≤ maxInlinedRefNodes ∧
      (Free definitions depth schema → ∃ full copies, (∃ fuel, substitute definitions fuel 0 schema = some (full, copies)) ∧
        (copies ≤ maxInlinedRefNodes → result = full)) := by
  obtain ⟨enough, ⟨result, state⟩, hrun⟩ := resolve_ends definitions depth schema
  obtain ⟨htotal, hclean, -⟩ := (resolve_keeps definitions maxInlinedRefNodes enough [] depth).step rfl (hrun enough le_rfl)
  refine ⟨enough, result, state, hrun, hclean, ?_, fun hfree => ?_⟩
  · exact (Nat.le_add_left _ _).trans (le_of_eq htotal)
  · obtain ⟨enough', henough⟩ := substitute_ends hfree 11 (countValues schema)
    obtain ⟨⟨full, copies⟩, hfull⟩ := Option.isSome_iff_exists.mp
      (henough enough' le_rfl [] schema .start (by omega) le_rfl 0)
    refine ⟨full, copies, ⟨enough', hfull⟩, fun hcopies => ?_⟩
    have hstart : 0 + ({ budget := maxInlinedRefNodes, copied := [] } : Expansion).budget = maxInlinedRefNodes :=
      Nat.zero_add _
    obtain ⟨state', hstate', -⟩ := (substitute_simulates hfree enough' .start).step hstart hfull hcopies
    have hsame := hrun (max enough enough') (le_max_left _ _)
    have hmore := resolve_le (le_max_right enough enough') hstate'
    rw [resolveRefs] at hsame
    exact congrArg Prod.fst (Option.some.inj (hsame.symm.trans hmore))

/-- A reference beside another one to the same definition is taken for a recursive one: the definitions here have no
reference at all. -/
theorem not_exact_beside_a_reference : ¬∀ (definitions : Fields) (schema : Value),
    (∀ doc ∈ schema :: definitions.map Prod.snd, ∀ sub found, Visited doc sub → reference sub = some found →
      (definitionOf definitions found.1).isSome) →
    (∃ rank : String → Nat, (∀ name, rank name < 10) ∧ ∀ definition ∈ definitions, ∀ sub found named,
      Visited definition.2 sub → reference sub = some found → definitionOf definitions found.1 = some named →
        rank named.1 < rank definition.1) →
    ∀ fuel full copies, substitute definitions fuel 0 schema = some (full, copies) → copies ≤ maxInlinedRefNodes →
      ∃ enough state, resolveRefs definitions enough 0 schema = some (full, state) := by
  intro h
  let definition : Value := .object [("type", .string "string")]
  let inner : Value := .object [("$ref", .string "#/definitions/A")]
  let schema : Value := .object [("$ref", .string "#/definitions/A"), ("properties", .object [("x", inner)])]
  have hdefinition {sub found} (hsub : Visited definition sub) (hfound : reference sub = some found) : False := by
    cases hsub with
    | self => cases hfound
    | inside hplace _ => cases hplace
  have hinner {sub found} (hsub : Visited inner sub) (hfound : reference sub = some found) :
      found.1 = "#/definitions/A" := by
    cases hsub with
    | self => exact (congrArg Prod.fst (Option.some.inj hfound)).symm
    | inside hplace _ => cases hplace
  have hschema {sub found} (hsub : Visited schema sub) (hfound : reference sub = some found) :
      found.1 = "#/definitions/A" := by
    cases hsub with
    | self => exact (congrArg Prod.fst (Option.some.inj hfound)).symm
    | inside hplace hsub =>
      obtain rfl := List.mem_singleton.mp (show _ ∈ [inner] from hplace)
      exact hinner hsub hfound
  have hknown : ∀ doc ∈ schema :: [("A", definition)].map Prod.snd, ∀ sub found, Visited doc sub →
      reference sub = some found → (definitionOf [("A", definition)] found.1).isSome := by
    intro doc hdoc sub found hsub hfound
    rcases List.mem_cons.mp hdoc with rfl | hdoc
    · rw [hschema hsub hfound]
      decide
    · obtain rfl := List.mem_singleton.mp hdoc
      exact (hdefinition hsub hfound).elim
  have hrank : ∀ named ∈ [("A", definition)], ∀ sub found other, Visited named.2 sub → reference sub = some found →
      definitionOf [("A", definition)] found.1 = some other → 0 < 0 := by
    intro named hnamed sub found other hsub hfound
    obtain rfl := List.mem_singleton.mp hnamed
    exact (hdefinition hsub hfound).elim
  let expected : Value := .object [("properties", .object [("x", definition)]), ("type", .string "string")]
  let actual : Value :=
    .object [("properties", .object [("x", .object [("type", .string "object")])]), ("type", .string "string")]
  obtain ⟨enough, state, hrun⟩ := h [("A", definition)] schema hknown ⟨fun _ => 0, fun _ => Nat.zero_lt_succ 9, hrank⟩ 4
    expected 4 (by decide +kernel) (by decide)
  have hactual : (resolveRefs [("A", definition)] 4 0 schema).map Prod.fst = some actual := by decide +kernel
  obtain ⟨⟨result, state'⟩, hresult, rfl⟩ := Option.map_eq_some_iff.mp hactual
  have hsame := (resolve_le (le_max_left enough 4) hrun).symm.trans (resolve_le (le_max_right enough 4) hresult)
  have heq : expected = actual := congrArg Prod.fst (Option.some.inj hsame)
  exact absurd heq (by decide)

end Schema

end Adk
