import AdkRust.Core.Identity
import AdkRust.Core.Time
import AdkRust.Lib.Text

/-!
# The tiers of session state

A key belongs to the app, to the user, to the invocation or to the session, by how it begins (`state_utils.rs`).

* `extractStateDeltas`, `mergeStates`: a flat map and its tiers.
* `rebuildSessionState`: the session tier that events leave.
* `extractStateDeltas_session`: what is in the session tier.
-/

namespace Adk

abbrev StateMap : Type := Dict Value

/-- Where a key of the state belongs, without its prefix. -/
inductive KeyScope where
  | app (key : String)
  | user (key : String)
  | temp
  | session (key : String)
deriving DecidableEq

def keyScope (key : String) : KeyScope :=
  match stripPrefix "app:" key with
  | some clean => .app clean
  | none =>
    match stripPrefix "user:" key with
    | some clean => .user clean
    | none => if startsWith key "temp:" then .temp else .session key

structure StateDeltas where
  app : StateMap := ∅
  user : StateMap := ∅
  session : StateMap := ∅

namespace StateDeltas

/-- The tiers with one more key. -/
def insert (deltas : StateDeltas) (key : String) (value : Value) : StateDeltas :=
  match keyScope key with
  | .app clean => { deltas with app := deltas.app.insert clean value }
  | .user clean => { deltas with user := deltas.user.insert clean value }
  | .temp => deltas
  | .session key => { deltas with session := deltas.session.insert key value }

def get? (deltas : StateDeltas) : KeyScope → Option Value
  | .app key => deltas.app[key]?
  | .user key => deltas.user[key]?
  | .temp => none
  | .session key => deltas.session[key]?

end StateDeltas

/-- Splits a flat state into its tiers. -/
def extractStateDeltas (delta : StateMap) : StateDeltas :=
  delta.toList.foldl (fun deltas entry => deltas.insert entry.1 entry.2) {}

def mergeStates (app user session : StateMap) : StateMap :=
  let merged := app.toList.foldl (fun merged entry => merged.insert ("app:" ++ entry.1) entry.2) session
  user.toList.foldl (fun merged entry => merged.insert ("user:" ++ entry.1) entry.2) merged

/-- The state of a session: copies of the other tiers in what is stored do not count. -/
def mergeCurrentTiers (app user stored : StateMap) : StateMap :=
  mergeStates app user (extractStateDeltas stored).session

structure SessionEvent where
  id : String
  timestamp : Utc
  stateDelta : StateMap := ∅

def rebuildSessionState (initial : StateMap) (events : List SessionEvent) : StateMap :=
  events.foldl (fun state event => state.extend (extractStateDeltas event.stateDelta).session)
    (extractStateDeltas initial).session

/-! ## The tier of a key -/

def KeyScope.key? : KeyScope → Option String
  | .app key => some ("app:" ++ key)
  | .user key => some ("user:" ++ key)
  | .temp => none
  | .session key => some key

theorem key?_keyScope {key : String} (htemp : keyScope key ≠ .temp) : (keyScope key).key? = some key := by
  unfold keyScope at htemp ⊢
  split
  next clean hcln => exact congrArg some (stripPrefix_eq_some.mp hcln).symm
  next happ =>
    simp only [happ] at htemp
    split
    next clean hcln => exact congrArg some (stripPrefix_eq_some.mp hcln).symm
    next huser =>
      simp only [huser] at htemp
      split
      next hsta => exact absurd (if_pos hsta) htemp
      next => rfl

/-- A key is told by its place, unless it is of the invocation. -/
theorem keyScope_inj {key key' : String} (h : keyScope key = keyScope key') (htemp : keyScope key ≠ .temp) :
    key = key' := by
  have hkey := key?_keyScope htemp
  rw [h] at hkey htemp
  exact Option.some.inj (hkey.symm.trans (key?_keyScope htemp))

/-! ## What is in a tier -/

namespace StateDeltas

theorem get?_insert (deltas : StateDeltas) (key : String) (value : Value) (scope : KeyScope) :
    (deltas.insert key value).get? scope =
      if keyScope key = scope ∧ scope ≠ .temp then some value else deltas.get? scope := by
  unfold insert
  cases hkey : keyScope key <;> cases scope <;> simp [get?, Std.ExtTreeMap.getElem?_insert]

theorem get?_foldl_insert {entries : List (String × Value)} (h : (entries.map Prod.fst).Nodup) (deltas : StateDeltas)
    {key : String} (htemp : keyScope key ≠ .temp) :
    (entries.foldl (fun deltas entry => deltas.insert entry.1 entry.2) deltas).get? (keyScope key) =
      (entries.lookup key).or (deltas.get? (keyScope key)) := by
  induction entries generalizing deltas with
  | nil => simp
  | cons entry entries ih =>
    obtain ⟨key', value⟩ := entry
    rw [List.map_cons, List.nodup_cons] at h
    rw [List.foldl_cons, ih h.2, get?_insert, List.lookup_cons]
    by_cases hk : key = key'
    · subst hk
      have : entries.lookup key = none := by
        rw [List.lookup_eq_none_iff]
        intro p hp
        have hne : key ≠ p.1 := fun e => h.1 (List.mem_map.mpr ⟨p, hp, e.symm⟩)
        simp [hne]
      simp [this, htemp]
    · have hscp : keyScope key' ≠ keyScope key := fun heq => hk (keyScope_inj heq.symm htemp)
      rw [beq_false_of_ne hk, if_neg fun hand => hscp hand.1]

theorem get?_foldl_other {entries : List (String × Value)} (deltas : StateDeltas) {scope : KeyScope}
    (hnone : ∀ key, keyScope key ≠ scope) :
    (entries.foldl (fun deltas entry => deltas.insert entry.1 entry.2) deltas).get? scope = deltas.get? scope := by
  induction entries generalizing deltas with
  | nil => rfl
  | cons entry entries ih => rw [List.foldl_cons, ih, get?_insert, if_neg fun hand => hnone _ hand.1]

end StateDeltas

/-- **A key's value is in its tier.** -/
theorem extractStateDeltas_get? (delta : StateMap) {key : String} (htemp : keyScope key ≠ .temp) :
    (extractStateDeltas delta).get? (keyScope key) = delta[key]? := by
  unfold extractStateDeltas
  rw [StateDeltas.get?_foldl_insert (Dict.nodup_keys delta) {} htemp, Dict.lookup_toList]
  cases keyScope key <;> simp [StateDeltas.get?]

theorem extractStateDeltas_session (delta : StateMap) (key : String) :
    (extractStateDeltas delta).session[key]? = if keyScope key = .session key then delta[key]? else none := by
  split
  next hscp =>
    have h := @extractStateDeltas_get? delta key
    rw [hscp] at h
    exact h (by simp)
  next hscp =>
    have hnone : ∀ key', keyScope key' ≠ .session key := by
      intro key' heq
      have hkey := @key?_keyScope key' (by rw [heq]; simp)
      rw [heq] at hkey
      obtain rfl := Option.some.inj hkey
      exact hscp heq
    unfold extractStateDeltas
    show StateDeltas.get? _ (.session key) = none
    exact (StateDeltas.get?_foldl_other {} hnone).trans (by simp [StateDeltas.get?])

/-- **The session tier of a session tier is all of it.** -/
theorem extractStateDeltas_session_idem (delta : StateMap) :
    (extractStateDeltas (extractStateDeltas delta).session).session = (extractStateDeltas delta).session := by
  apply Std.ExtTreeMap.ext_getElem?
  intro key
  rw [extractStateDeltas_session, extractStateDeltas_session]
  split <;> rfl

/-! ## Merging -/

theorem getElem?_foldl_tagged (tag : String) (tier merged : StateMap) (key : String) :
    (tier.toList.foldl (fun merged entry => merged.insert (tag ++ entry.1) entry.2) merged)[key]? =
      ((stripPrefix tag key).bind (tier[·]?)).or merged[key]? := by
  have hinj : Function.Injective (tag ++ ·) := fun a b h =>
    String.toList_inj.mp (by simpa using congrArg String.toList h)
  let tagged := tier.toList.map fun entry => (tag ++ entry.1, entry.2)
  have hkeys : (tagged.map Prod.fst).Nodup := by
    have := (Dict.nodup_keys tier).map hinj
    rwa [List.map_map] at this ⊢
  have hfold := Dict.getElem?_foldl_insert hkeys merged key
  rw [List.foldl_map] at hfold
  rw [hfold]
  congr 1
  ext value
  rw [Dict.lookup_eq_some_iff hkeys, Option.bind_eq_some_iff]
  simp only [tagged, List.mem_map, Prod.mk.injEq, stripPrefix_eq_some, Prod.exists]
  constructor
  · rintro ⟨clean, _, hmem, rfl, rfl⟩
    exact ⟨clean, rfl, Std.ExtTreeMap.mem_toList_iff_getElem?_eq_some.mp hmem⟩
  · rintro ⟨clean, rfl, hget⟩
    exact ⟨clean, value, Std.ExtTreeMap.mem_toList_iff_getElem?_eq_some.mpr hget, rfl, rfl⟩

theorem stripPrefix_user {key clean : String} (h : stripPrefix "app:" key = some clean) :
    stripPrefix "user:" key = none := by
  rw [Option.eq_none_iff_forall_ne_some]
  intro rest hrest
  simpa using congrArg String.toList ((stripPrefix_eq_some.mp h).symm.trans (stripPrefix_eq_some.mp hrest))

/-- **Each key of a merged state has the value of its tier**, and splitting it gives the tiers back: copies of the app and
user tiers in what is stored are dropped, and so are keys of the invocation. -/
theorem tiers_merged (app user stored : StateMap) :
    let tiers : StateDeltas := ⟨app, user, (extractStateDeltas stored).session⟩
    let merged := mergeCurrentTiers app user stored
    (∀ key, merged[key]? = tiers.get? (keyScope key)) ∧
      ∀ scope, (extractStateDeltas merged).get? scope = tiers.get? scope := by
  intro tiers merged
  have hget : ∀ key, merged[key]? = tiers.get? (keyScope key) := by
    intro key
    have hread : merged[key]? = ((stripPrefix "user:" key).bind (user[·]?)).or
        (((stripPrefix "app:" key).bind (app[·]?)).or tiers.session[key]?) := by
      rw [← getElem?_foldl_tagged, ← getElem?_foldl_tagged]
      rfl
    have hsession := extractStateDeltas_session stored key
    unfold keyScope at hsession ⊢
    rw [hread]
    cases happ : stripPrefix "app:" key with
    | some clean => simp_all [stripPrefix_user happ, StateDeltas.get?, tiers]
    | none =>
      cases huser : stripPrefix "user:" key with
      | some clean => simp_all [StateDeltas.get?, tiers]
      | none =>
        by_cases htemp : startsWith key "temp:" = true <;> simp_all [StateDeltas.get?, tiers]
  have hkey : ∀ key, keyScope key ≠ .temp →
      (extractStateDeltas merged).get? (keyScope key) = tiers.get? (keyScope key) := by
    intro key htemp
    rw [extractStateDeltas_get? _ htemp, hget]
  refine ⟨hget, fun scope => ?_⟩
  cases scope with
  | app clean =>
    have hscope : keyScope ("app:" ++ clean) = .app clean := by rw [keyScope, stripPrefix_eq_some.mpr rfl]
    exact hscope ▸ hkey ("app:" ++ clean) (by simp [hscope])
  | user clean =>
    have huser : stripPrefix "user:" ("user:" ++ clean) = some clean := stripPrefix_eq_some.mpr rfl
    have hscope : keyScope ("user:" ++ clean) = .user clean := by
      cases happ : stripPrefix "app:" ("user:" ++ clean) with
      | some _ => cases huser.symm.trans (stripPrefix_user happ)
      | none => simp [keyScope, happ, huser]
    exact hscope ▸ hkey ("user:" ++ clean) (by simp [hscope])
  | temp => rfl
  | session key =>
    by_cases hscope : keyScope key = .session key
    · exact hscope ▸ hkey key (by simp [hscope])
    · simp [StateDeltas.get?, extractStateDeltas_session, hscope, tiers]

end Adk
