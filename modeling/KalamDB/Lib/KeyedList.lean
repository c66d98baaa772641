import Mathlib.Data.List.Nodup

/-!
# Lists of keyed values

A list of pairs with distinct keys stands for a finite map, read by `List.lookup`. This file
says what `lookup` finds after the usual edits of such a list: dropping a key, changing the
value of a key.
-/

namespace KeyedList

open List

variable {α β : Type*} [DecidableEq α] {l : List (α × β)}

theorem lookup_cons_eq (x : α × β) (l : List (α × β)) (k : α) :
    (x :: l).lookup k = if k = x.1 then some x.2 else l.lookup k := by
  rw [lookup_cons]
  by_cases h : k = x.1
  · simp [h]
  · rw [if_neg h, beq_eq_false_iff_ne.mpr h]

/-- With distinct keys, the pairs of the list are those `lookup` finds. -/
theorem mem_iff_lookup_eq_some (h : (l.map Prod.fst).Nodup) {x : α × β} :
    x ∈ l ↔ l.lookup x.1 = some x.2 := by
  rw [lookup_eq_some_iff]
  constructor
  · intro hx
    obtain ⟨before, behind, rfl⟩ := append_of_mem hx
    rw [map_append, nodup_append] at h
    refine ⟨before, behind, rfl, fun y hy => bne_iff_ne.mpr ?_⟩
    exact (h.2.2 y.1 (mem_map_of_mem hy) x.1 mem_cons_self).symm
  · rintro ⟨before, behind, rfl, -⟩
    exact mem_append_right _ mem_cons_self

theorem lookup_isSome_iff {k : α} : (l.lookup k).isSome = true ↔ k ∈ l.map Prod.fst := by
  rw [List.lookup_isSome_iff, mem_map]
  simp only [beq_iff_eq, @eq_comm α k]

variable (l) (k k' : α)

theorem lookup_filter_ne :
    (l.filter fun x => decide (x.1 ≠ k)).lookup k' = if k' = k then none else l.lookup k' := by
  induction l with
  | nil => simp
  | cons y l ih =>
    by_cases hy : y.1 = k
    · rw [filter_cons_of_neg (by simp [hy]), ih, lookup_cons_eq, hy]
      by_cases hk : k' = k <;> simp [hk]
    rw [filter_cons_of_pos (by simp [hy]), lookup_cons_eq, lookup_cons_eq, ih]
    by_cases hk : k' = y.1
    · simp [hk, hy]
    · simp [hk]

theorem lookup_map_at (f : β → β) :
    (l.map fun x => if x.1 = k then (x.1, f x.2) else x).lookup k' =
      if k' = k then (l.lookup k').map f else l.lookup k' := by
  induction l with
  | nil => simp
  | cons y l ih =>
    have hfst : (if y.1 = k then (y.1, f y.2) else y).1 = y.1 := by split <;> rfl
    rw [map_cons, lookup_cons_eq, ih, lookup_cons_eq, hfst]
    by_cases hk : k' = y.1
    · by_cases hy : y.1 = k <;> simp [hk, hy]
    · simp [hk]

theorem map_fst_map_at (k : α) (f : β → β) :
    (l.map fun x => if x.1 = k then (x.1, f x.2) else x).map Prod.fst = l.map Prod.fst := by
  rw [map_map]
  refine map_congr_left fun x _ => ?_
  simp only [Function.comp_apply]
  split <;> rfl

variable {l}

omit [DecidableEq α] in
/-- A partial map that keeps keys keeps them in order. -/
theorem map_filterMap_sublist {γ : Type*} {l : List α} {f : α → Option β} {g : β → γ} {k : α → γ}
    (hf : ∀ x ∈ l, ∀ y, f x = some y → g y = k x) :
    ((l.filterMap f).map g).Sublist (l.map k) := by
  induction l with
  | nil => exact List.Sublist.refl []
  | cons x l ih =>
    obtain ⟨hx, hl⟩ := forall_mem_cons.mp hf
    cases hy : f x with
    | none =>
      rw [filterMap_cons_none hy]
      exact (ih hl).cons _
    | some y =>
      rw [filterMap_cons_some hy, map_cons, hx y hy]
      exact (ih hl).cons_cons _

omit [DecidableEq α] in
/-- One step of a loop that asks of each key whether it was seen before. -/
theorem nodup_map_cons_and_iff {f : α → β} {x : α} {xs : List α} {seen : List β} :
    (((x :: xs).map f).Nodup ∧ ∀ y ∈ x :: xs, f y ∉ seen) ↔
      f x ∉ seen ∧ (xs.map f).Nodup ∧ ∀ y ∈ xs, f y ∉ f x :: seen := by
  simp only [map_cons, nodup_cons, mem_map, not_exists, not_and, mem_cons,
    forall_eq_or_imp, not_or, forall_and]
  tauto

omit [DecidableEq α] in
/-- The keys of a zip are the first ones of the list of keys. -/
theorem map_fst_zip_sublist : ∀ (ks : List α) (vs : List β), ((ks.zip vs).map Prod.fst).Sublist ks
  | [], _ => List.Sublist.slnil
  | k :: ks, [] => nil_sublist (k :: ks)
  | k :: ks, _ :: vs => (map_fst_zip_sublist ks vs).cons_cons k

end KeyedList
