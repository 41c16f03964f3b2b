import Mathlib.Data.List.Sort
import Std.Data.ExtTreeMap
import Std.Data.ExtTreeSet

/-!
# Maps, sets and lists keyed by names

`Dict α` is a finite map from names to values and `Names` a finite set of names. Both are
extensional: two of them are equal exactly when they have the same entries, so a map that was
rebuilt from its entries is the map it came from (`ofList_toList`). Iteration (`toList`, `keys`) is
in name order.

A list sorted by name does not depend on the order it had before, as long as items with the same
name are the same item (`insertionSort_eq_of_perm`).
-/

namespace Adk

/-- A finite map from names to values. -/
abbrev Dict (α : Type) : Type := Std.ExtTreeMap String α compare

/-- A finite set of names. -/
abbrev Names : Type := Std.ExtTreeSet String compare

namespace Dict

variable {α β : Type}

/-- The map of a list of entries; a later entry of a key wins. -/
def ofList (entries : List (String × α)) : Dict α :=
  entries.foldl (fun d entry => d.insert entry.1 entry.2) ∅

variable {entries : List (String × α)} {d : Dict α} {k : String}

theorem getElem?_foldl_insert (h : (entries.map Prod.fst).Nodup) (d : Dict α) (k : String) :
    (entries.foldl (fun d entry => d.insert entry.1 entry.2) d)[k]? =
      (entries.lookup k).or d[k]? := by
  induction entries generalizing d with
  | nil => simp
  | cons entry entries ih =>
    obtain ⟨key, value⟩ := entry
    rw [List.map_cons, List.nodup_cons] at h
    rw [List.foldl_cons, ih h.2, Std.ExtTreeMap.getElem?_insert, List.lookup_cons]
    by_cases hk : k = key
    · subst hk
      have : entries.lookup k = none := by
        rw [List.lookup_eq_none_iff]
        intro p hp
        have hne : k ≠ p.1 := fun e => h.1 (List.mem_map.mpr ⟨p, hp, e.symm⟩)
        simp [hne]
      simp [this]
    · rw [beq_false_of_ne hk]
      simp [Ne.symm hk]

theorem getElem?_ofList (h : (entries.map Prod.fst).Nodup)
    (k : String) : (ofList entries)[k]? = entries.lookup k := by
  simp [ofList, getElem?_foldl_insert h]

theorem getElem?_insert_of_ne {k' : String} (h : k' ≠ k) (v : α) : (d.insert k v)[k']? = d[k']? := by
  rw [Std.ExtTreeMap.getElem?_insert, if_neg fun heq => h (Std.LawfulEqOrd.eq_of_compare heq).symm]

theorem getElem?_erase_of_ne {k' : String} (h : k' ≠ k) : (d.erase k)[k']? = d[k']? := by
  rw [Std.ExtTreeMap.getElem?_erase, if_neg fun heq => h (Std.LawfulEqOrd.eq_of_compare heq).symm]

theorem getElem?_foldl_erase {keys : List String} :
    (keys.foldl (fun d key => d.erase key) d)[k]? = if k ∈ keys then none else d[k]? := by
  induction keys generalizing d with
  | nil => simp
  | cons key keys ih =>
    rw [List.foldl_cons, ih, Std.ExtTreeMap.getElem?_erase]
    by_cases hk : key = k
    · simp [hk]
    · simp [hk, Ne.symm hk]

theorem nodup_keys (d : Dict α) : (d.toList.map Prod.fst).Nodup := by
  rw [Std.ExtTreeMap.map_fst_toList_eq_keys]
  exact Std.ExtTreeMap.nodup_keys

/-- An entry of a list with distinct keys is the one found by its key. -/
theorem lookup_eq_some_iff (h : (entries.map Prod.fst).Nodup)
    {v : α} : entries.lookup k = some v ↔ (k, v) ∈ entries := by
  induction entries with
  | nil => simp
  | cons entry entries ih =>
    obtain ⟨key, value⟩ := entry
    rw [List.map_cons, List.nodup_cons] at h
    rw [List.lookup_cons, List.mem_cons, Prod.mk.injEq]
    by_cases hk : k = key
    · subst hk
      have : (k, v) ∉ entries := fun hm => h.1 (List.mem_map.mpr ⟨_, hm, rfl⟩)
      simp [this, eq_comm]
    · rw [beq_false_of_ne hk]
      simp [hk, ih h.2]

/-- Inserting the entries of a map: its values stand over those of the other map. -/
theorem getElem?_foldl_insert_toList (e d : Dict α) (k : String) :
    (e.toList.foldl (fun d entry => d.insert entry.1 entry.2) d)[k]? = e[k]?.or d[k]? := by
  rw [getElem?_foldl_insert (nodup_keys e)]
  congr 1
  ext v
  rw [lookup_eq_some_iff (nodup_keys e), Std.ExtTreeMap.mem_toList_iff_getElem?_eq_some]

/-- A map with the entries of another one, which stand over its own. -/
def extend (d e : Dict α) : Dict α := e.toList.foldl (fun d entry => d.insert entry.1 entry.2) d

@[simp] theorem getElem?_extend (d e : Dict α) (k : String) : (d.extend e)[k]? = e[k]?.or d[k]? :=
  getElem?_foldl_insert_toList e d k

theorem lookup_toList (d : Dict α) (k : String) : d.toList.lookup k = d[k]? := by
  ext v
  rw [lookup_eq_some_iff (nodup_keys d), Std.ExtTreeMap.mem_toList_iff_getElem?_eq_some]

/-- A map rebuilt from its entries is the map. -/
@[simp] theorem ofList_toList (d : Dict α) : ofList d.toList = d :=
  Std.ExtTreeMap.ext_getElem? fun k => by
    rw [getElem?_ofList (nodup_keys d), lookup_toList]

theorem ofList_map_toList (d : Dict α) (f : String → α → β) :
    ofList (d.toList.map fun entry => (entry.1, f entry.1 entry.2)) = d.map f := by
  rw [← Std.ExtTreeMap.toList_map, ofList_toList]

end Dict

namespace Names

def ofList (names : List String) : Names := names.foldl (fun s name => s.insert name) ∅

theorem mem_foldl_insert {names : List String} {s : Names} {name : String} :
    name ∈ names.foldl (fun s name => s.insert name) s ↔ name ∈ names ∨ name ∈ s := by
  induction names generalizing s with
  | nil => simp
  | cons n names ih => rw [List.foldl_cons, ih, Std.ExtTreeSet.mem_insert]; grind

@[simp] theorem mem_ofList {names : List String} {name : String} :
    name ∈ ofList names ↔ name ∈ names := by simp [ofList, mem_foldl_insert]

/-- A set rebuilt from its members is the set. -/
@[simp] theorem ofList_toList (s : Names) : ofList s.toList = s :=
  Std.ExtTreeSet.ext_mem fun name => by simp

end Names

/-- Sorting by name forgets the order the items had. -/
theorem insertionSort_eq_of_perm {α : Type} (name : α → String) {l₁ l₂ : List α}
    (hp : l₁.Perm l₂) (hname : ∀ a ∈ l₁, ∀ b ∈ l₁, name a = name b → a = b) :
    l₁.insertionSort (fun a b => name a ≤ name b) =
      l₂.insertionSort (fun a b => name a ≤ name b) := by
  have : Std.Total (fun a b : α => name a ≤ name b) := ⟨fun a b => String.le_total _ _⟩
  have : IsTrans α (fun a b : α => name a ≤ name b) := ⟨fun a b c => String.le_trans⟩
  refine List.Perm.eq_of_pairwise ?_ (List.pairwise_insertionSort (fun a b => name a ≤ name b) _)
    (List.pairwise_insertionSort _ _) ?_
  · intro a b ha hb hab hba
    rw [List.mem_insertionSort] at ha hb
    exact hname a ha b (hp.mem_iff.mpr hb) (String.le_antisymm hab hba)
  · exact (List.perm_insertionSort _ _).trans (hp.trans (List.perm_insertionSort _ _).symm)

end Adk
