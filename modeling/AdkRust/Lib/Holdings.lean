import AdkRust.Lib.Dict

/-!
# Tables of what parties hold

Each of some parties holds an entry of a table, or none, and the table has no other entries.

* `Holdings`: a table has the entries that are held, and no two parties hold one key.
* `Holdings.take`, `Holdings.change`, `Holdings.release`: a party takes a free key, changes its entry, or gives it up.
-/

namespace Adk

variable {ε : Type}

/-- The entries of a table are those that parties hold, and a key is held by one party. -/
structure Holdings (entries : Dict ε) (held : List (Option (String × ε))) : Prop where
  held_iff : ∀ key entry, entries[key]? = some entry ↔ ∃ i : Nat, held[i]? = some (some (key, entry))
  sole : ∀ (i j : Nat) key entry entry', held[i]? = some (some (key, entry)) → held[j]? = some (some (key, entry')) →
    i = j

namespace Holdings

variable {entries entries' : Dict ε} {held : List (Option (String × ε))} {i : Nat} {key : String} {entry entry' : ε}

theorem nil : Holdings (∅ : Dict ε) [] where
  held_iff key entry := by simp
  sole i j key entry entry' h := by simp at h

/-- A party that comes holds nothing. -/
theorem push (h : Holdings entries held) : Holdings entries (held ++ [none]) := by
  have hsame : ∀ (i : Nat) key entry, (held ++ [none])[i]? = some (some (key, entry)) ↔ held[i]? = some (some (key, entry)) := by
    intro i key entry
    rw [List.getElem?_append]
    split
    next => rfl
    next hlen =>
      have hnone : held[i]? = none := List.getElem?_eq_none (by omega)
      rw [hnone]
      cases i - held.length with
      | zero => simp
      | succ n => simp
  refine ⟨fun key entry => ?_, fun i j key entry entry' hi hj => ?_⟩
  · simp only [hsame, h.held_iff]
  · exact h.sole i j key entry entry' ((hsame ..).mp hi) ((hsame ..).mp hj)

/-- A party keeps what it holds. -/
theorem same (h : Holdings entries held) {slot : Option (String × ε)} (hi : held[i]? = some slot) :
    Holdings entries (held.set i slot) := by
  obtain ⟨hlt, rfl⟩ := List.getElem?_eq_some_iff.mp hi
  rw [List.set_getElem_self hlt]
  exact h

/-- What one party holds is replaced in the table by what it holds then, under a key that no other party holds. -/
theorem set (h : Holdings entries held) {slot : Option (String × ε)} (hi : i < held.length)
    (hfree : ∀ key entry, slot = some (key, entry) → ∀ (j : Nat) entry', held[j]? = some (some (key, entry')) → j = i)
    (hents : ∀ key entry, entries'[key]? = some entry ↔
      slot = some (key, entry) ∨ entries[key]? = some entry ∧ held[i]? ≠ some (some (key, entry))) :
    Holdings entries' (held.set i slot) := by
  have hself : (held.set i slot)[i]? = some slot := List.getElem?_set_self hi
  have hoth : ∀ {j : Nat}, j ≠ i → (held.set i slot)[j]? = held[j]? := fun hne => List.getElem?_set_ne hne.symm
  refine ⟨fun key entry => ⟨fun hent => ?_, fun hheld => ?_⟩, fun j j' key entry entry' hj hj' => ?_⟩
  · rcases (hents key entry).mp hent with rfl | ⟨hent, hne⟩
    · exact ⟨i, hself⟩
    · obtain ⟨j, hj⟩ := (h.held_iff key entry).mp hent
      have hji : j ≠ i := by
        rintro rfl
        exact hne hj
      exact ⟨j, (hoth hji).trans hj⟩
  · obtain ⟨j, hj⟩ := hheld
    apply (hents key entry).mpr
    by_cases hji : j = i
    · subst hji
      rw [hself] at hj
      exact .inl (Option.some.inj hj)
    · rw [hoth hji] at hj
      exact .inr ⟨(h.held_iff key entry).mpr ⟨j, hj⟩, fun hheld => hji (h.sole j i key entry entry hj hheld)⟩
  · by_cases hji : j = i
    · by_cases hji' : j' = i
      · rw [hji, hji']
      · subst hji
        rw [hself] at hj
        rw [hoth hji'] at hj'
        exact absurd (hfree key entry (Option.some.inj hj) j' entry' hj') hji'
    · rw [hoth hji] at hj
      by_cases hji' : j' = i
      · subst hji'
        rw [hself] at hj'
        exact absurd (hfree key entry' (Option.some.inj hj') j entry hj) hji
      · rw [hoth hji'] at hj'
        exact h.sole j j' key entry entry' hj hj'

theorem take (h : Holdings entries held) (hi : held[i]? = some none) (hfree : entries[key]? = none) :
    Holdings (entries.insert key entry) (held.set i (some (key, entry))) := by
  have hnone : ∀ (j : Nat) entry', held[j]? ≠ some (some (key, entry')) := by
    intro j entry' hj
    have := (h.held_iff key entry').mpr ⟨j, hj⟩
    rw [hfree] at this
    cases this
  refine h.set (List.getElem?_eq_some_iff.mp hi).1 (fun k e hslot j entry' hj => ?_) fun k e => ?_
  · obtain ⟨rfl, -⟩ := Prod.mk.inj (Option.some.inj hslot)
    exact absurd hj (hnone j entry')
  · rw [hi, Std.ExtTreeMap.getElem?_insert]
    by_cases hk : k = key
    · subst hk
      simp [hfree]
    · simp [Ne.symm hk]

theorem change (h : Holdings entries held) (hi : held[i]? = some (some (key, entry))) :
    Holdings (entries.insert key entry') (held.set i (some (key, entry'))) := by
  refine h.set (List.getElem?_eq_some_iff.mp hi).1 (fun k e hslot j other hj => ?_) fun k e => ?_
  · obtain ⟨rfl, -⟩ := Prod.mk.inj (Option.some.inj hslot)
    exact h.sole j i _ other entry hj hi
  · rw [hi, Std.ExtTreeMap.getElem?_insert]
    by_cases hk : k = key
    · subst hk
      simp [(h.held_iff k entry).mpr ⟨i, hi⟩]
    · simp [Ne.symm hk]

/-- A party gives up the entry that it holds. -/
theorem release (h : Holdings entries held) (hi : held[i]? = some (some (key, entry))) :
    Holdings (entries.erase key) (held.set i none) := by
  refine h.set (List.getElem?_eq_some_iff.mp hi).1 (fun k e hslot => by cases hslot) fun k e => ?_
  rw [hi, Std.ExtTreeMap.getElem?_erase]
  by_cases hk : k = key
  · subst hk
    simp [(h.held_iff k entry).mpr ⟨i, hi⟩]
  · simp [Ne.symm hk]

/-- What a party holds is in the table. -/
theorem get (h : Holdings entries held) (hi : held[i]? = some (some (key, entry))) : entries[key]? = some entry :=
  (h.held_iff key entry).mpr ⟨i, hi⟩

end Holdings

end Adk
