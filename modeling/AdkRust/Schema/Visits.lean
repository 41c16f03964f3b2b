import AdkRust.Schema.References

/-!
# Visits of sub-schemas

What a visit of all sub-schemas does, from what it does at each of them.

* `visit_isSome`: it ends, if each visit does.
* `visit_simulates`: it does the same as another one, if each visit does.
* `visit_keeps`: what each visit keeps and what it leaves behind.
-/

namespace Adk

namespace Schema

/-! ## Fields -/

section Fields

variable {key key' : String} {value : Value} {fields more : Fields}

theorem lookup_cons_ne (h : key' ≠ key) : List.lookup key' ((key, value) :: fields) = fields.lookup key' := by
  rw [List.lookup_cons, beq_eq_false_iff_ne.mpr h]

theorem lookup_insertField (key' key : String) (value : Value) (fields : Fields) :
    (insertField key value fields).lookup key' = if key' = key then some value else fields.lookup key' := by
  induction fields with
  | nil =>
    by_cases h : key' = key
    · subst h
      simp [insertField]
    · rw [insertField, lookup_cons_ne h, if_neg h]
  | cons field fields ih =>
    obtain ⟨first, old⟩ := field
    unfold insertField
    by_cases h : key' = key
    · subst h
      rw [if_pos rfl]
      split
      · exact List.lookup_cons_self
      · next hne =>
        split
        · exact List.lookup_cons_self
        · rw [lookup_cons_ne hne, ih, if_pos rfl]
    · rw [if_neg h]
      split
      · next heq =>
        subst heq
        rw [lookup_cons_ne h, lookup_cons_ne h]
      · split
        · rw [lookup_cons_ne h]
        · rw [List.lookup_cons, List.lookup_cons, ih, if_neg h]

/-- The keywords beside a reference win over those of its definition. -/
theorem lookup_extend (key : String) (fields more : Fields) :
    (extend fields more).lookup key = (more.lookup key).or (fields.lookup key) := by
  induction more with
  | nil => rfl
  | cons field more ih =>
    obtain ⟨first, value⟩ := field
    have hcons : extend fields ((first, value) :: more) = insertField first value (extend fields more) := rfl
    rw [hcons, lookup_insertField, ih]
    by_cases h : key = first
    · subst h
      rw [if_pos rfl, List.lookup_cons_self, Option.some_or]
    · rw [if_neg h, lookup_cons_ne h]

theorem lookup_setField_self {old : Value} (h : fields.lookup key = some old) :
    (setField key value fields).lookup key = some value := by
  induction fields with
  | nil => cases h
  | cons field fields ih =>
    obtain ⟨first, other⟩ := field
    have hcons : setField key value ((first, other) :: fields) =
      (if first = key then (key, value) else (first, other)) :: setField key value fields := rfl
    rw [hcons]
    by_cases hkey : first = key
    · rw [if_pos hkey, List.lookup_cons_self]
    · rw [if_neg hkey, lookup_cons_ne (Ne.symm hkey)]
      rw [lookup_cons_ne (Ne.symm hkey)] at h
      exact ih h

theorem lookup_setField_ne (h : key' ≠ key) : (setField key value fields).lookup key' = fields.lookup key' := by
  induction fields with
  | nil => rfl
  | cons field fields ih =>
    obtain ⟨first, other⟩ := field
    have hcons : setField key value ((first, other) :: fields) =
      (if first = key then (key, value) else (first, other)) :: setField key value fields := rfl
    rw [hcons]
    by_cases hkey : first = key
    · subst hkey
      rw [if_pos rfl, lookup_cons_ne h, lookup_cons_ne h, ih]
    · rw [if_neg hkey, List.lookup_cons, List.lookup_cons, ih]

theorem lookup_without_self : (fields.filter fun field => field.1 ≠ key).lookup key = none := by
  rw [List.lookup_eq_none_iff]
  intro field hfld
  have hne := (List.mem_filter.mp hfld).2
  simp only [ne_eq, decide_not, Bool.not_eq_eq_eq_not, Bool.not_true, decide_eq_false_iff_not] at hne
  exact bne_iff_ne.mpr (Ne.symm hne)

theorem lookup_without_ne (h : key' ≠ key) :
    (fields.filter fun field => field.1 ≠ key).lookup key' = fields.lookup key' := by
  induction fields with
  | nil => rfl
  | cons field fields ih =>
    obtain ⟨first, other⟩ := field
    by_cases hkey : first = key
    · subst hkey
      rw [List.filter_cons_of_neg (by simp), ih, lookup_cons_ne h]
    · rw [List.filter_cons_of_pos (by simp [hkey]), List.lookup_cons, List.lookup_cons, ih]

end Fields

/-! ## Sizes -/

section Sizes

variable {fields more : Fields} {key : String} {value : Value}

theorem countValues_pos (value : Value) : 0 < countValues value := by
  cases value <;> simp [countValues]

theorem countValues_le_items {items : List Value} (h : value ∈ items) : countValues value ≤ countItems items := by
  induction items with
  | nil => cases h
  | cons item items ih =>
    rw [countItems]
    rcases List.mem_cons.mp h with rfl | h
    · omega
    · have := ih h
      omega

theorem countValues_le_fields {field : String × Value} (h : field ∈ fields) : countValues field.2 ≤ countFields fields := by
  induction fields with
  | nil => cases h
  | cons first fields ih =>
    rw [countFields]
    rcases List.mem_cons.mp h with rfl | h
    · omega
    · have := ih h
      omega

theorem mem_of_lookup (h : fields.lookup key = some value) : (key, value) ∈ fields := by
  obtain ⟨before, after, rfl, -⟩ := List.lookup_eq_some_iff.mp h
  exact List.mem_append_right _ List.mem_cons_self

theorem countFields_without (fields : Fields) (key : String) :
    countFields (fields.filter fun field => field.1 ≠ key) ≤ countFields fields := by
  induction fields with
  | nil => exact le_rfl
  | cons field fields ih =>
    rw [List.filter_cons]
    split
    · rw [countFields, countFields]
      omega
    · rw [countFields]
      omega

theorem countFields_without_lt (h : fields.lookup key = some value) :
    countFields (fields.filter fun field => field.1 ≠ key) < countFields fields := by
  induction fields with
  | nil => cases h
  | cons field fields ih =>
    obtain ⟨first, other⟩ := field
    by_cases hkey : first = key
    · subst hkey
      rw [List.filter_cons_of_neg (by simp), countFields]
      have := countFields_without fields first
      have := countValues_pos other
      omega
    · rw [lookup_cons_ne (Ne.symm hkey)] at h
      rw [List.filter_cons_of_pos (by simp [hkey]), countFields, countFields]
      have := ih h
      omega

theorem countFields_insertField (key : String) (value : Value) (fields : Fields) :
    countFields (insertField key value fields) ≤ countValues value + countFields fields := by
  induction fields with
  | nil => exact le_rfl
  | cons field fields ih =>
    obtain ⟨first, other⟩ := field
    unfold insertField
    split
    · simp only [countFields]
      omega
    · split
      · simp only [countFields]
        omega
      · simp only [countFields]
        omega

theorem countFields_extend (fields more : Fields) :
    countFields (extend fields more) ≤ countFields fields + countFields more := by
  induction more with
  | nil => exact le_rfl
  | cons field more ih =>
    obtain ⟨key, value⟩ := field
    have hcons : extend fields ((key, value) :: more) = insertField key value (extend fields more) := rfl
    have hinsert := countFields_insertField key value (extend fields more)
    rw [hcons, countFields]
    omega

end Sizes

/-! ## Sub-schemas -/

/-- The sub-schemas of a schema. -/
def places : Value → List Value
  | .object fields => locations.flatMap fun location => (fields.lookup location.1).elim [] location.2.subs
  | _ => []

def IsObject (value : Value) : Prop := ∃ fields, value = .object fields

theorem countValues_subs {place : Place} {value sub : Value} (h : sub ∈ place.subs value) :
    countValues sub ≤ countValues value := by
  have heach {items : List Value} (h : sub ∈ items) : countValues sub ≤ countValues (.array items) :=
    (countValues_le_items h).trans (Nat.le_succ _)
  have hone {fields : Fields} (h : sub ∈ [Value.object fields]) : countValues sub ≤ countValues (.object fields) := by
    rw [List.mem_singleton.mp h]
  cases place with
  | one =>
    cases value with
    | object fields => exact hone h
    | _ => cases h
  | each =>
    cases value with
    | array items => exact heach h
    | _ => cases h
  | oneOrEach =>
    cases value with
    | object fields => exact hone h
    | array items => exact heach h
    | _ => cases h
  | members =>
    cases value with
    | object fields =>
      obtain ⟨field, hfld, rfl⟩ := List.mem_map.mp h
      exact (countValues_le_fields hfld).trans (Nat.le_succ _)
    | _ => cases h

theorem mem_subs_put {place : Place} {value sub : Value} {subs : List Value}
    (hobjects : List.Forall₂ (fun before after => IsObject before → IsObject after) (place.subs value) subs)
    (h : sub ∈ place.subs (place.put value subs)) : sub ∈ subs := by
  have hone {fields : Fields}
      (hobjects : List.Forall₂ (fun before after => IsObject before → IsObject after) [Value.object fields] subs) :
      ∃ fields', subs = [.object fields'] := by
    obtain ⟨after, haft⟩ := List.length_eq_one_iff.mp hobjects.length_eq.symm
    subst haft
    rw [List.forall₂_cons] at hobjects
    obtain ⟨fields', rfl⟩ := hobjects.1 ⟨fields, rfl⟩
    exact ⟨fields', rfl⟩
  cases place with
  | one =>
    cases value with
    | object fields =>
      obtain ⟨fields', rfl⟩ := hone hobjects
      exact h
    | _ => cases h
  | each =>
    cases value with
    | array items => exact h
    | _ => cases h
  | oneOrEach =>
    cases value with
    | object fields =>
      obtain ⟨fields', rfl⟩ := hone hobjects
      exact h
    | array items => exact h
    | _ => cases h
  | members =>
    cases value with
    | object fields =>
      obtain ⟨field, hfld, rfl⟩ := List.mem_map.mp h
      obtain ⟨i, hi, rfl⟩ := List.mem_iff_getElem.mp hfld
      rw [List.getElem_zipWith]
      exact List.getElem_mem _
    | _ => cases h

theorem mem_places {fields : Fields} {sub : Value} : sub ∈ places (.object fields) ↔
    ∃ location ∈ locations, ∃ value, fields.lookup location.1 = some value ∧ sub ∈ location.2.subs value := by
  have hfld (location : String × Place) : sub ∈ (fields.lookup location.1).elim [] location.2.subs ↔
      ∃ value, fields.lookup location.1 = some value ∧ sub ∈ location.2.subs value := by
    cases fields.lookup location.1 with
    | none => simp
    | some value => simp
  unfold places
  rw [List.mem_flatMap]
  exact exists_congr fun location => and_congr_right fun _ => hfld location

theorem places_isObject {schema sub : Value} (h : sub ∈ places schema) : IsObject schema := by
  cases schema with
  | object fields => exact ⟨fields, rfl⟩
  | _ => cases h

theorem countValues_places {schema sub : Value} (h : sub ∈ places schema) : countValues sub < countValues schema := by
  obtain ⟨fields, rfl⟩ := places_isObject h
  obtain ⟨location, -, value, hlook, hsub⟩ := mem_places.mp h
  have hle := (countValues_subs hsub).trans (countValues_le_fields (mem_of_lookup hlook))
  rw [countValues]
  exact Nat.lt_succ_of_le hle

theorem nodup_locations : (locations.map Prod.fst).Nodup := by decide

theorem notMem_locations {key : String} (h : key = "$ref" ∨ key = "type") : key ∉ locations.map Prod.fst := by
  rcases h with rfl | rfl
  · decide
  · decide

/-! ## Visits -/

section Visits

variable {σ τ : Type} {f : σ → Value → Option (Value × σ)} {g : τ → Value → Option (Value × τ)}

/-- The values that a visit of some keywords changes. -/
def AtSome (rest : List (String × Place)) (fields : Fields) (sub : Value) : Prop :=
  ∃ location ∈ rest, ∃ value, fields.lookup location.1 = some value ∧ sub ∈ location.2.subs value

variable {rest : List (String × Place)} {fields : Fields} {values : List Value} {schema : Value} {state state' : σ}

/-- A visit of one keyword leaves what is at the others. -/
theorem AtSome.later {location : String × Place} {value sub : Value}
    (hfr : location.1 ∉ rest.map Prod.fst) (h : AtSome rest (setField location.1 value fields) sub) :
    AtSome (location :: rest) fields sub := by
  obtain ⟨later, hlat, value', hlook, hsub⟩ := h
  have hne : later.1 ≠ location.1 := by
    rintro heq
    exact hfr (heq ▸ List.mem_map_of_mem hlat)
  rw [lookup_setField_ne hne] at hlook
  exact ⟨later, List.mem_cons_of_mem _ hlat, value', hlook, hsub⟩

theorem visitEach_isSome (h : ∀ sub ∈ values, ∀ state, (f state sub).isSome) (state : σ) :
    (visitEach f state values).isSome := by
  induction values generalizing state with
  | nil => rfl
  | cons value values ih =>
    obtain ⟨first, hfst⟩ := Option.isSome_iff_exists.mp (h value List.mem_cons_self state)
    obtain ⟨rest, hrest⟩ := Option.isSome_iff_exists.mp (ih (fun sub hsub => h sub (List.mem_cons_of_mem _ hsub)) first.2)
    rw [visitEach, hfst, Option.bind_some, hrest]
    rfl

theorem visitFields_isSome (hnd : (rest.map Prod.fst).Nodup)
    (h : ∀ sub, AtSome rest fields sub → ∀ state, (f state sub).isSome) (state : σ) :
    (visitFields f state rest fields).isSome := by
  induction rest generalizing fields state with
  | nil => rfl
  | cons location rest ih =>
    obtain ⟨hfr, hnd⟩ := List.nodup_cons.mp hnd
    unfold visitFields visitField
    cases hlook : fields.lookup location.1 with
    | none => exact ih hnd (fun sub ⟨later, hlat, hsub⟩ => h sub ⟨later, List.mem_cons_of_mem _ hlat, hsub⟩) state
    | some value =>
      have heach := visitEach_isSome (fun sub hsub => h sub ⟨location, List.mem_cons_self, value, hlook, hsub⟩) state
      obtain ⟨visited, hvisited⟩ := Option.isSome_iff_exists.mp heach
      rw [Option.elim_some, hvisited, Option.map_some, Option.bind_some]
      exact ih hnd (fun sub hsub => h sub (hsub.later hfr)) visited.2

theorem visit_isSome (h : ∀ sub ∈ places schema, ∀ state, (f state sub).isSome) (state : σ) :
    (visit f state schema).isSome := by
  cases schema with
  | object fields =>
    unfold visit
    rw [Option.isSome_map]
    exact visitFields_isSome nodup_locations (fun sub hsub => h sub (mem_places.mpr hsub)) state
  | _ => rfl

/-- The second visit does at a value what the first one does, while a bound on the states of the first one holds. -/
structure Simulates (f : σ → Value → Option (Value × σ)) (g : τ → Value → Option (Value × τ)) (R : σ → τ → Prop)
    (Q : σ → Prop) (value : Value) : Prop where
  bound : ∀ {state value' state'}, f state value = some (value', state') → Q state' → Q state
  step : ∀ {state other value' state'}, R state other → f state value = some (value', state') → Q state' →
    ∃ other', g other value = some (value', other') ∧ R state' other'

variable {R : σ → τ → Prop} {Q : σ → Prop}

theorem visitEach_simulates (h : ∀ sub ∈ values, Simulates f g R Q sub)
    {values' : List Value} (hvis : visitEach f state values = some (values', state')) (hQ : Q state') :
    Q state ∧ ∀ {other}, R state other → ∃ other', visitEach g other values = some (values', other') ∧ R state' other' := by
  induction values generalizing state values' with
  | nil =>
    obtain ⟨rfl, rfl⟩ := Prod.mk.inj (Option.some.inj hvis)
    exact ⟨hQ, fun hR => ⟨_, rfl, hR⟩⟩
  | cons value values ih =>
    obtain ⟨first, hfst, hmore⟩ := Option.bind_eq_some_iff.mp hvis
    obtain ⟨rest, hrest, heq⟩ := Option.map_eq_some_iff.mp hmore
    obtain ⟨rfl, rfl⟩ := Prod.mk.inj heq
    obtain ⟨hQfirst, hoth⟩ := ih (fun sub hsub => h sub (List.mem_cons_of_mem _ hsub)) hrest
    have hval := h value List.mem_cons_self
    refine ⟨hval.bound hfst hQfirst, fun {other} hR => ?_⟩
    obtain ⟨other', hg, hR'⟩ := hval.step hR hfst hQfirst
    obtain ⟨last, hg', hR''⟩ := hoth hR'
    refine ⟨last, ?_, hR''⟩
    rw [visitEach, hg, Option.bind_some, hg']
    rfl

theorem visitFields_simulates {fields' : Fields} (hnd : (rest.map Prod.fst).Nodup)
    (h : ∀ sub, AtSome rest fields sub → Simulates f g R Q sub)
    (hvis : visitFields f state rest fields = some (fields', state')) (hQ : Q state') :
    Q state ∧ ∀ {other}, R state other → ∃ other', visitFields g other rest fields = some (fields', other') ∧
      R state' other' := by
  induction rest generalizing fields state with
  | nil =>
    obtain ⟨rfl, rfl⟩ := Prod.mk.inj (Option.some.inj hvis)
    exact ⟨hQ, fun hR => ⟨_, rfl, hR⟩⟩
  | cons location rest ih =>
    obtain ⟨hfr, hnd⟩ := List.nodup_cons.mp hnd
    unfold visitFields visitField at hvis ⊢
    cases hlook : fields.lookup location.1 with
    | none =>
      rw [hlook] at hvis
      exact ih hnd (fun sub ⟨later, hlat, hsub⟩ => h sub ⟨later, List.mem_cons_of_mem _ hlat, hsub⟩) hvis
    | some value =>
      rw [hlook, Option.elim_some] at hvis
      obtain ⟨first, hfst, hrest⟩ := Option.bind_eq_some_iff.mp hvis
      obtain ⟨visited, hvisited, rfl⟩ := Option.map_eq_some_iff.mp hfst
      obtain ⟨hQfirst, hoth⟩ := ih hnd (fun sub hsub => h sub (hsub.later hfr)) hrest
      obtain ⟨hQstate, heach⟩ :=
        visitEach_simulates (fun sub hsub => h sub ⟨location, List.mem_cons_self, value, hlook, hsub⟩) hvisited hQfirst
      refine ⟨hQstate, fun {other} hR => ?_⟩
      obtain ⟨other', hg, hR'⟩ := heach hR
      obtain ⟨last, hg', hR''⟩ := hoth hR'
      refine ⟨last, ?_, hR''⟩
      rw [Option.elim_some, hg]
      exact hg'

theorem visit_simulates {schema' : Value} (h : ∀ sub ∈ places schema, Simulates f g R Q sub)
    (hvis : visit f state schema = some (schema', state')) (hQ : Q state') :
    Q state ∧ ∀ {other}, R state other → ∃ other', visit g other schema = some (schema', other') ∧ R state' other' := by
  cases schema with
  | object fields =>
    obtain ⟨visited, hvisited, heq⟩ := Option.map_eq_some_iff.mp hvis
    obtain ⟨rfl, rfl⟩ := Prod.mk.inj heq
    obtain ⟨hQstate, hoth⟩ :=
      visitFields_simulates nodup_locations (fun sub hsub => h sub (mem_places.mpr hsub)) hvisited hQ
    refine ⟨hQstate, fun {other} hR => ?_⟩
    obtain ⟨other', hg, hR'⟩ := hoth hR
    refine ⟨other', ?_, hR'⟩
    show (visitFields g other locations fields).map _ = _
    rw [hg]
    rfl
  | _ =>
    obtain ⟨rfl, rfl⟩ := Prod.mk.inj (Option.some.inj hvis)
    exact ⟨hQ, fun hR => ⟨_, rfl, hR⟩⟩

/-- What each visit keeps, and what it leaves behind. -/
structure Keeps (f : σ → Value → Option (Value × σ)) (Inv : σ → Prop) (Out : Value → Prop) : Prop where
  step : ∀ {state value value' state'}, Inv state → f state value = some (value', state') →
    Inv state' ∧ Out value' ∧ (IsObject value → IsObject value')

variable {Inv : σ → Prop} {Out : Value → Prop}

theorem visitEach_keeps (h : Keeps f Inv Out) {values' : List Value} (hInv : Inv state)
    (hvis : visitEach f state values = some (values', state')) :
    Inv state' ∧ (∀ sub ∈ values', Out sub) ∧
      List.Forall₂ (fun before after => IsObject before → IsObject after) values values' := by
  induction values generalizing state values' with
  | nil =>
    obtain ⟨rfl, rfl⟩ := Prod.mk.inj (Option.some.inj hvis)
    exact ⟨hInv, fun sub hsub => (nomatch hsub), .nil⟩
  | cons value values ih =>
    obtain ⟨first, hfst, hmore⟩ := Option.bind_eq_some_iff.mp hvis
    obtain ⟨rest, hrest, heq⟩ := Option.map_eq_some_iff.mp hmore
    obtain ⟨rfl, rfl⟩ := Prod.mk.inj heq
    obtain ⟨hInvFirst, hout, hobject⟩ := h.step hInv hfst
    obtain ⟨hInvRest, houts, hobjects⟩ := ih hInvFirst hrest
    exact ⟨hInvRest, List.forall_mem_cons.mpr ⟨hout, houts⟩, .cons hobject hobjects⟩

theorem visitFields_keeps (h : Keeps f Inv Out) {fields' : Fields} (hnd : (rest.map Prod.fst).Nodup) (hInv : Inv state)
    (hvis : visitFields f state rest fields = some (fields', state')) :
    Inv state' ∧ (∀ sub, AtSome rest fields' sub → Out sub) ∧
      ∀ key, key ∉ rest.map Prod.fst → fields'.lookup key = fields.lookup key := by
  induction rest generalizing fields state with
  | nil =>
    obtain ⟨rfl, rfl⟩ := Prod.mk.inj (Option.some.inj hvis)
    exact ⟨hInv, fun sub ⟨location, hlocation, _⟩ => (nomatch hlocation), fun key _ => rfl⟩
  | cons location rest ih =>
    obtain ⟨hfr, hnd⟩ := List.nodup_cons.mp hnd
    unfold visitFields visitField at hvis
    cases hlook : fields.lookup location.1 with
    | none =>
      rw [hlook] at hvis
      obtain ⟨hInv', houts, hframe⟩ := ih hnd hInv hvis
      refine ⟨hInv', ?_, fun key hkey => hframe key fun hmem => hkey (List.mem_cons_of_mem _ hmem)⟩
      rintro sub ⟨later, hlat, value, hval, hsub⟩
      rcases List.mem_cons.mp hlat with rfl | hlat
      · rw [hframe _ hfr, hlook] at hval
        cases hval
      · exact houts sub ⟨later, hlat, value, hval, hsub⟩
    | some value =>
      rw [hlook, Option.elim_some] at hvis
      obtain ⟨first, hfst, hrest⟩ := Option.bind_eq_some_iff.mp hvis
      obtain ⟨visited, hvisited, rfl⟩ := Option.map_eq_some_iff.mp hfst
      obtain ⟨hInvFirst, hout, hobjects⟩ := visitEach_keeps h hInv hvisited
      obtain ⟨hInv', houts, hframe⟩ := ih hnd hInvFirst hrest
      refine ⟨hInv', ?_, fun key hkey => ?_⟩
      · rintro sub ⟨later, hlat, value', hval, hsub⟩
        rcases List.mem_cons.mp hlat with rfl | hlat
        · rw [hframe _ hfr, lookup_setField_self hlook] at hval
          obtain rfl := Option.some.inj hval
          exact hout sub (mem_subs_put hobjects hsub)
        · exact houts sub ⟨later, hlat, value', hval, hsub⟩
      · rw [List.map_cons, List.mem_cons, not_or] at hkey
        rw [hframe key hkey.2, lookup_setField_ne hkey.1]

theorem reference_eq_none :
    reference (.object fields) = none ↔ (fields.lookup "$ref").bind Value.asStr = none := Option.map_eq_none_iff

theorem visit_keeps (h : Keeps f Inv Out) {schema' : Value} (hInv : Inv state)
    (hvis : visit f state schema = some (schema', state')) :
    Inv state' ∧ (∀ sub ∈ places schema', Out sub) ∧ (IsObject schema → IsObject schema') ∧
      (reference schema = none → reference schema' = none) := by
  cases schema with
  | object fields =>
    obtain ⟨visited, hvisited, heq⟩ := Option.map_eq_some_iff.mp hvis
    obtain ⟨rfl, rfl⟩ := Prod.mk.inj heq
    obtain ⟨hInv', houts, hframe⟩ := visitFields_keeps h nodup_locations hInv hvisited
    refine ⟨hInv', fun sub hsub => houts sub (mem_places.mp hsub), fun _ => ⟨_, rfl⟩, fun hnone => ?_⟩
    rw [reference_eq_none] at hnone ⊢
    rwa [hframe _ (notMem_locations (.inl rfl))]
  | _ =>
    obtain ⟨rfl, rfl⟩ := Prod.mk.inj (Option.some.inj hvis)
    exact ⟨hInv, fun sub hsub => (nomatch hsub), id, id⟩

end Visits

end Schema

end Adk
