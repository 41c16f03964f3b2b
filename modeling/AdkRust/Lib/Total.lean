import AdkRust.Lib.Dict
import Mathlib.Algebra.BigOperators.Group.List.Basic
import Mathlib.Algebra.Order.BigOperators.Group.List
import Mathlib.Algebra.Order.Ring.Nat

/-!
# Totals

The total of what some items of a list count for. A wider choice has the larger total (`total_mono`), and a
map's total moves by the entry that is inserted or erased (`total_insert`, `total_erase`).

`tally` is the sum of an amount over all items. `tally_set` is how it moves with one item, and `tally_keys` bounds
it from what holds of the items of each key.
-/

namespace Adk

variable {α : Type} {p q : α → Bool} {f : α → Nat}

/-- What the chosen items count for together. -/
def total (p : α → Bool) (f : α → Nat) (items : List α) : Nat := ((items.filter p).map f).sum

@[simp] theorem total_nil : total p f [] = 0 := rfl

theorem total_cons (a : α) (items : List α) :
    total p f (a :: items) = (if p a then f a else 0) + total p f items := by
  unfold total
  by_cases h : p a
  · simp [h]
  · simp [h]

theorem total_append (items items' : List α) :
    total p f (items ++ items') = total p f items + total p f items' := by
  simp [total]

theorem total_perm {items items' : List α} (h : items.Perm items') : total p f items = total p f items' :=
  ((h.filter p).map f).sum_eq

theorem total_mono {items : List α} (h : ∀ a ∈ items, p a = true → q a = true) :
    total p f items ≤ total q f items := by
  induction items with
  | nil => simp
  | cons a items ih =>
    have htail := ih fun b hb => h b (by simp [hb])
    rw [total_cons, total_cons]
    by_cases hp : p a
    · have hq : q a = true := h a (by simp) hp
      simp only [hp, hq, if_true]
      omega
    · simp only [hp, Bool.false_eq_true, if_false]
      omega

theorem total_eq_zero {items : List α} (h : ∀ a ∈ items, p a = false) : total p f items = 0 := by
  have : items.filter p = [] := List.filter_eq_nil_iff.mpr fun a ha => by simp [h a ha]
  simp [total, this]

theorem le_total {items : List α} {a : α} (ha : a ∈ items) (hp : p a = true) : f a ≤ total p f items := by
  induction items with
  | nil => cases ha
  | cons b items ih =>
    rw [total_cons]
    rcases List.mem_cons.mp ha with rfl | ha
    · simp [hp]
    · have := ih ha
      omega

/-! ## Sums over all items -/

/-- The sum of an amount over the items. -/
def tally (f : α → Nat) (items : List α) : Nat := (items.map f).sum

section Tally

variable {g : α → Nat} {items : List α}

@[simp] theorem tally_nil : tally f [] = 0 := rfl

@[simp] theorem tally_cons (a : α) (items : List α) : tally f (a :: items) = f a + tally f items := rfl

theorem tally_append (items items' : List α) : tally f (items ++ items') = tally f items + tally f items' := by
  unfold tally
  rw [List.map_append, List.sum_append]

theorem tally_concat (items : List α) (a : α) : tally f (items ++ [a]) = tally f items + f a := by
  rw [tally_append, tally_cons, tally_nil, Nat.add_zero]

theorem tally_add (items : List α) : tally (fun a => f a + g a) items = tally f items + tally g items := by
  induction items with
  | nil => rfl
  | cons a items ih =>
    simp only [tally_cons, ih]
    omega

theorem tally_mono (h : ∀ a ∈ items, f a ≤ g a) : tally f items ≤ tally g items := by
  induction items with
  | nil => exact Nat.le_refl _
  | cons a items ih =>
    have hhead := h a List.mem_cons_self
    have htail := ih fun b hb => h b (List.mem_cons_of_mem a hb)
    rw [tally_cons, tally_cons]
    omega

theorem tally_congr (h : ∀ a ∈ items, f a = g a) : tally f items = tally g items := by
  apply Nat.le_antisymm
  · exact tally_mono fun a ha => (h a ha).le
  · exact tally_mono fun a ha => (h a ha).ge

theorem tally_zero (h : ∀ a ∈ items, f a = 0) : tally f items = 0 := by
  rw [tally_congr h]
  induction items with
  | nil => rfl
  | cons a items ih =>
    rw [tally_cons, ih fun b hb => h b (List.mem_cons_of_mem a hb)]

/-- One item is within the sum. -/
theorem le_tally {a : α} (ha : a ∈ items) : f a ≤ tally f items := by
  induction items with
  | nil => cases ha
  | cons b items ih =>
    rw [tally_cons]
    rcases List.mem_cons.mp ha with rfl | ha
    · omega
    · have := ih ha
      omega

theorem tally_mono_at {i spare : Nat} {a : α} (ha : items[i]? = some a) (h : ∀ a ∈ items, f a ≤ g a)
    (hspare : f a + spare ≤ g a) : tally f items + spare ≤ tally g items := by
  induction items generalizing i with
  | nil => cases ha
  | cons b items ih =>
    have htail := fun c hc => h c (List.mem_cons_of_mem b hc)
    rw [tally_cons, tally_cons]
    cases i with
    | zero =>
      obtain rfl := Option.some.inj ha
      have := tally_mono htail
      omega
    | succ i =>
      have := ih ha htail
      have := h b List.mem_cons_self
      omega

/-- **How a sum moves with one item.** -/
theorem tally_set {i : Nat} {a b : α} (ha : items[i]? = some a) :
    tally f (items.set i b) + f a = tally f items + f b := by
  induction items generalizing i with
  | nil => cases ha
  | cons c items ih =>
    cases i with
    | zero =>
      obtain rfl := Option.some.inj ha
      rw [List.set_cons_zero, tally_cons, tally_cons]
      omega
    | succ i =>
      have := ih ha
      rw [List.set_cons_succ, tally_cons, tally_cons]
      omega

/-- A sum without one item. -/
theorem tally_eraseIdx {i : Nat} {a : α} (ha : items[i]? = some a) :
    tally f (items.eraseIdx i) + f a = tally f items := by
  induction items generalizing i with
  | nil => cases ha
  | cons c items ih =>
    cases i with
    | zero =>
      obtain rfl := Option.some.inj ha
      rw [List.eraseIdx_cons_zero, tally_cons]
      omega
    | succ i =>
      have := ih ha
      rw [List.eraseIdx_cons_succ, tally_cons, tally_cons]
      omega

theorem tally_keys {key : α → Nat} (h : ∀ k, tally (fun a => if key a = k then f a else 0) items ≤
      tally (fun a => if key a = k then g a else 0) items) (R : Nat → Prop) [DecidablePred R] :
    tally (fun a => if R (key a) then f a else 0) items ≤
      tally (fun a => if R (key a) then g a else 0) items := by
  -- one key more at a time, up to a bound on the keys
  have hbel : ∀ N, tally (fun a => if key a < N ∧ R (key a) then f a else 0) items ≤
      tally (fun a => if key a < N ∧ R (key a) then g a else 0) items := by
    intro N
    induction N with
    | zero =>
      rw [tally_zero fun a _ => if_neg fun h => absurd h.1 (Nat.not_lt_zero _)]
      exact Nat.zero_le _
    | succ N ih =>
      have hsp : ∀ f : α → Nat, tally (fun a => if key a < N + 1 ∧ R (key a) then f a else 0) items =
          tally (fun a => if key a < N ∧ R (key a) then f a else 0) items +
            if R N then tally (fun a => if key a = N then f a else 0) items else 0 := by
        intro f
        by_cases hN : R N
        · rw [if_pos hN, ← tally_add]
          apply tally_congr
          intro a _
          by_cases ha : key a = N
          · simp [ha, hN]
          · have : key a < N + 1 ↔ key a < N := by omega
            simp [ha, this]
        · rw [if_neg hN, Nat.add_zero]
          apply tally_congr
          intro a _
          by_cases ha : key a = N
          · simp [ha, hN]
          · have : key a < N + 1 ↔ key a < N := by omega
            simp [this]
      rw [hsp f, hsp g]
      have := h N
      by_cases hN : R N
      · rw [if_pos hN, if_pos hN]
        omega
      · rw [if_neg hN, if_neg hN]
        exact ih
  obtain ⟨N, hN⟩ : ∃ N, ∀ a ∈ items, key a < N := by
    refine ⟨tally key items + 1, fun a ha => ?_⟩
    have := le_tally (f := key) ha
    omega
  have hall : ∀ f : α → Nat, tally (fun a => if key a < N ∧ R (key a) then f a else 0) items =
      tally (fun a => if R (key a) then f a else 0) items := by
    intro f
    apply tally_congr
    intro a ha
    simp [hN a ha]
  rw [← hall f, ← hall g]
  exact hbel N

end Tally

/-! ## One item put in the place of another -/

section Replaced

variable {β : Type} {f : α → Option β} {items : List α} {i : Nat} {a b : α}

theorem filterMap_set_same (ha : items[i]? = some a) (h : f b = f a) :
    (items.set i b).filterMap f = items.filterMap f := by
  induction items generalizing i with
  | nil => cases ha
  | cons c items ih =>
    cases i with
    | zero =>
      obtain rfl := Option.some.inj ha
      rw [List.set_cons_zero, List.filterMap_cons, List.filterMap_cons, h]
    | succ i =>
      rw [List.set_cons_succ, List.filterMap_cons, List.filterMap_cons, ih ha]

/-- An item that counts in the place of one that did not. -/
theorem filterMap_set_new {c : β} (ha : items[i]? = some a) (hold : f a = none) (hnew : f b = some c) :
    ((items.set i b).filterMap f).Perm (items.filterMap f ++ [c]) := by
  induction items generalizing i with
  | nil => cases ha
  | cons d items ih =>
    cases i with
    | zero =>
      obtain rfl := Option.some.inj ha
      rw [List.set_cons_zero, List.filterMap_cons_some hnew, List.filterMap_cons_none hold]
      exact (List.perm_append_singleton _ _).symm
    | succ i =>
      rw [List.set_cons_succ, List.filterMap_cons, List.filterMap_cons]
      cases f d with
      | none => exact ih ha
      | some e => exact (ih ha).cons e

end Replaced

/-! ## Totals of maps -/

namespace Dict

variable {d : Dict α} {k : String} {v : α}

/-- A map has its entries without one, and that one. -/
theorem toList_erase_perm (h : d[k]? = some v) :
    d.toList.Perm ((k, v) :: (d.erase k).toList) := by
  have hnd : ∀ d : Dict α, d.toList.Nodup := fun d => List.Nodup.of_map _ (nodup_keys d)
  have hout : (k, v) ∉ (d.erase k).toList := by
    rw [Std.ExtTreeMap.mem_toList_iff_getElem?_eq_some]
    simp
  refine (List.perm_ext_iff_of_nodup (hnd d) (List.nodup_cons.mpr ⟨hout, hnd _⟩)).mpr ?_
  rintro ⟨k', v'⟩
  rw [List.mem_cons, Std.ExtTreeMap.mem_toList_iff_getElem?_eq_some,
    Std.ExtTreeMap.mem_toList_iff_getElem?_eq_some, Std.ExtTreeMap.getElem?_erase, Prod.mk.injEq]
  by_cases hk : k = k'
  · subst hk
    simp [h, eq_comm]
  · simp [hk, Ne.symm hk]

/-- Inserting under a new key adds its entry. -/
theorem toList_insert_perm (h : k ∉ d) (v : α) :
    (d.insert k v).toList.Perm ((k, v) :: d.toList) := by
  have herase : (d.insert k v).erase k = d := by
    refine Std.ExtTreeMap.ext_getElem? fun k' => ?_
    rw [Std.ExtTreeMap.getElem?_erase, Std.ExtTreeMap.getElem?_insert]
    by_cases hk : k = k'
    · subst hk
      simp [Std.ExtTreeMap.getElem?_eq_none h]
    · simp [hk]
  have hget : (d.insert k v)[k]? = some v := by simp
  have := toList_erase_perm hget
  rwa [herase] at this

/-- The values of a map. -/
def vals (d : Dict α) : List α := d.toList.map Prod.snd

theorem mem_vals : v ∈ d.vals ↔ ∃ k : String, d[k]? = some v := by
  simp only [vals, List.mem_map, Prod.exists, exists_eq_right,
    Std.ExtTreeMap.mem_toList_iff_getElem?_eq_some]

theorem total_erase (h : d[k]? = some v) :
    total p f d.vals = (if p v then f v else 0) + total p f (vals (d.erase k)) := by
  rw [← total_cons]
  exact total_perm ((toList_erase_perm h).map Prod.snd)

theorem total_insert (h : k ∉ d) (v : α) :
    total p f (vals (d.insert k v)) = (if p v then f v else 0) + total p f d.vals := by
  rw [← total_cons]
  exact total_perm ((toList_insert_perm h v).map Prod.snd)

/-- A map with some of the entries of another one totals no more. -/
theorem total_le {e : Dict α} (h : ∀ (k : String) (v : α), d[k]? = some v → e[k]? = some v) :
    total p f d.vals ≤ total p f e.vals := by
  have hsubset : d.toList ⊆ e.toList := by
    rintro ⟨k, v⟩ hmem
    rw [Std.ExtTreeMap.mem_toList_iff_getElem?_eq_some] at hmem ⊢
    exact h k v hmem
  obtain ⟨items, hperm, hsub⟩ := List.subperm_of_subset (List.Nodup.of_map _ (nodup_keys d)) hsubset
  unfold vals
  rw [← total_perm (hperm.map Prod.snd)]
  unfold total
  exact List.Sublist.sum_le_sum (((hsub.map Prod.snd).filter p).map f) fun _ _ => Nat.zero_le _

end Dict

end Adk
