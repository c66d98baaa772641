import KalamDB.Lib.OrderedStore
import Mathlib.Data.List.Sort
import Mathlib.Order.Lattice
import Mathlib.Tactic.Common

/-!
# The smallest values of a list

`smallest k l` are the `k` smallest values of a list, in order. A value with `k` smaller ones beside
it does not matter (`smallest_filter_eq`). So **a search in two stages is exact**: asking parts of a
list for their smallest values and ranking the answers gives the smallest values of the list
(`smallest_eq_of_candidates`).
-/

open List

variable {α : Type*} [LinearOrder α]

def smallest (k : ℕ) (l : List α) : List α := (l.insertionSort (· ≤ ·)).take k

variable {k n : ℕ} {l l' : List α} {p : α → Bool} {x : α}

theorem smallest_congr (h : l.Perm l') : smallest k l = smallest k l' := by
  rw [smallest]
  congr 1
  refine List.Perm.eq_of_pairwise (fun a b _ _ => le_antisymm) (pairwise_insertionSort _ _)
    (pairwise_insertionSort _ _) ?_
  exact ((perm_insertionSort _ l).trans h).trans (perm_insertionSort _ l').symm

theorem mem_of_mem_smallest (h : x ∈ smallest k l) : x ∈ l :=
  (perm_insertionSort _ l).subset (take_subset k _ h)

theorem nodup_smallest (h : l.Nodup) : (smallest k l).Nodup :=
  ((perm_insertionSort _ l).nodup_iff.mpr h).sublist (take_sublist k _)

theorem take_smallest (h : k ≤ n) (l : List α) : (smallest n l).take k = smallest k l := by
  rw [smallest, take_take, min_eq_left h]
  rfl

/-- Among distinct values the `k` smallest are those with fewer than `k` smaller ones. -/
theorem mem_smallest_iff (hl : l.Nodup) :
    x ∈ smallest k l ↔ x ∈ l ∧ l.countP (fun a => decide (a < x)) < k := by
  have hperm := perm_insertionSort (· ≤ ·) l
  have hsorted : (l.insertionSort (· ≤ ·)).Pairwise fun a b => a < b :=
    (pairwise_insertionSort (· ≤ ·) l).imp₂ (fun _ _ => lt_of_le_of_ne) (hperm.nodup_iff.mpr hl)
  rw [smallest, OrderedStore.mem_take_iff hsorted, hperm.mem_iff, hperm.countP_eq]

omit [LinearOrder α] in
theorem take_filter_eq_take (h : ∀ a ∈ l.take k, p a = true) : (l.filter p).take k = l.take k := by
  have htake : (l.take k).filter p = l.take k := filter_eq_self.mpr h
  have hsplit : l.filter p = l.take k ++ (l.drop k).filter p := by
    conv_lhs => rw [← take_append_drop k l, filter_append, htake]
  rw [hsplit]
  rcases le_or_gt k l.length with hk | hk
  · exact take_left' (by rw [length_take]; omega)
  · rw [drop_eq_nil_of_le hk.le, filter_nil, append_nil, take_take, Nat.min_self]

/-- Values with `k` smaller ones may be left out. -/
theorem smallest_filter_eq (hl : l.Nodup)
    (h : ∀ x ∈ l, p x = false → k ≤ l.countP fun a => decide (a < x)) :
    smallest k (l.filter p) = smallest k l := by
  have hperm := perm_insertionSort (· ≤ ·) l
  have hsort : (l.filter p).insertionSort (· ≤ ·) = (l.insertionSort (· ≤ ·)).filter p :=
    List.Perm.eq_of_pairwise (fun a b _ _ => le_antisymm) (pairwise_insertionSort _ _)
      ((pairwise_insertionSort _ _).filter p)
      ((perm_insertionSort _ _).trans (hperm.filter p).symm)
  rw [smallest, hsort]
  refine take_filter_eq_take fun a ha => ?_
  obtain ⟨hal, hcount⟩ := (mem_smallest_iff hl).mp ha
  by_contra hp
  have := h a hal (by simpa using hp)
  omega

/-- The smallest candidates are the smallest values, when every value that is no candidate has `k`
smaller ones. -/
theorem smallest_eq_of_candidates {candidates : List α} (hl : l.Nodup) (hc : candidates.Nodup)
    (hsub : candidates ⊆ l) (h : ∀ x ∈ l, x ∉ candidates → k ≤ l.countP fun a => decide (a < x)) :
    smallest k candidates = smallest k l := by
  have hperm : candidates.Perm (l.filter fun x => decide (x ∈ candidates)) := by
    refine (perm_ext_iff_of_nodup hc (hl.filter _)).mpr fun x => ?_
    simp only [mem_filter, decide_eq_true_eq]
    exact ⟨fun hx => ⟨hsub hx, hx⟩, fun hx => hx.2⟩
  rw [smallest_congr hperm]
  exact smallest_filter_eq hl fun x hx hp => h x hx (by simpa using hp)

/-- A question for more values than may be rejected finds what `k` accepted ones leave out. -/
theorem le_countP_filter_of_notMem (hl : l.Nodup) (hx : x ∈ l)
    (hnot : x ∉ smallest (k + n) l) (hn : l.countP (fun a => !p a) ≤ n) :
    k ≤ (l.filter p).countP fun a => decide (a < x) := by
  have hmany : k + n ≤ l.countP fun a => decide (a < x) :=
    not_lt.mp fun h => hnot ((mem_smallest_iff hl).mpr ⟨hx, h⟩)
  have hsplit := ((filter_append_perm p l).countP_eq fun a => decide (a < x)).symm
  rw [countP_append] at hsplit
  have hrejected : (l.filter fun a => !p a).countP (fun a => decide (a < x)) ≤ n := by
    refine countP_le_length.trans ?_
    rwa [← countP_eq_length_filter]
  omega
