import Mathlib.Algebra.BigOperators.Group.List.Basic
import Mathlib.Algebra.GroupWithZero.Nat
import Mathlib.Data.List.Nodup
import Mathlib.Order.Lattice
import Mathlib.Tactic.Common

/-!
# Ordered stores

A store keeps values in the strict order of their keys, which the values carry. A put replaces the
value under the same key. A scan from a key begins with the least value at or above it
(`le_of_head_scanFrom`), and removing the keys of the first values leaves the others
(`entries_removeAll_of_append`). A scan with a limit returns just the values of an owner when no
others are in its reach (`forall_mem_take_filter_iff`).
-/

/-- A store ordered by the keys of its values. -/
structure OrderedStore {α κ : Type*} [LinearOrder κ] (key : α → κ) where
  entries : List α
  sorted : entries.Pairwise fun a b => key a < key b

namespace OrderedStore

open List

variable {α κ : Type*} [LinearOrder κ] {key : α → κ} {l : List α} {f : α → ℕ}

def empty : OrderedStore key := ⟨[], .nil⟩

def put (s : OrderedStore key) (a : α) : OrderedStore key where
  entries := s.entries.filter (fun b => decide (key b < key a)) ++
    a :: s.entries.filter (fun b => decide (key a < key b))
  sorted := by
    refine List.pairwise_append.mpr ⟨s.sorted.filter _, ?_, fun b hb c hc => ?_⟩
    · refine List.pairwise_cons.mpr ⟨fun c hc => ?_, s.sorted.filter _⟩
      exact of_decide_eq_true (List.mem_filter.mp hc).2
    · have hba : key b < key a := of_decide_eq_true (List.mem_filter.mp hb).2
      rcases List.mem_cons.mp hc with rfl | hc
      · exact hba
      · exact hba.trans (of_decide_eq_true (List.mem_filter.mp hc).2)

def putAll (s : OrderedStore key) (l : List α) : OrderedStore key := l.foldl put s

def removeAll (s : OrderedStore key) (keys : List κ) : OrderedStore key where
  entries := s.entries.filter fun a => decide (key a ∉ keys)
  sorted := s.sorted.filter _

/-- The values at or above a key, in order. -/
def scanFrom (s : OrderedStore key) (k : κ) : List α :=
  s.entries.filter fun a => decide (k ≤ key a)

theorem nodup (s : OrderedStore key) : s.entries.Nodup :=
  s.sorted.imp fun hlt heq => hlt.ne (congrArg key heq)

variable {s : OrderedStore key} {a b : α} {k : κ}

@[simp]
theorem mem_put : b ∈ (s.put a).entries ↔ b = a ∨ b ∈ s.entries ∧ key b ≠ key a := by
  have hne : key b ≠ key a ↔ key b < key a ∨ key a < key b := ne_iff_lt_or_gt
  simp only [put, mem_append, mem_cons, mem_filter, decide_eq_true_eq]
  tauto

theorem putAll_cons (l : List α) : s.putAll (a :: l) = (s.put a).putAll l := rfl

/-- What is read after a list of puts was put last under its key, or was there before. -/
theorem mem_of_mem_putAll (h : b ∈ (s.putAll l).entries) : b ∈ l ∨ b ∈ s.entries := by
  induction l generalizing s with
  | nil => exact .inr h
  | cons c l ih =>
    rcases ih h with hb | hb
    · exact .inl (mem_cons_of_mem c hb)
    rcases mem_put.mp hb with rfl | ⟨hb, -⟩
    · exact .inl mem_cons_self
    · exact .inr hb

/-- A value stays if no value is put under its key. -/
theorem mem_putAll_of_mem (h : b ∈ s.entries) (hkey : ∀ c ∈ l, key b ≠ key c) :
    b ∈ (s.putAll l).entries := by
  induction l generalizing s with
  | nil => exact h
  | cons c l ih =>
    refine ih (mem_put.mpr (.inr ⟨h, hkey c mem_cons_self⟩)) fun d hd => ?_
    exact hkey d (mem_cons_of_mem c hd)

/-- All values of a list with distinct keys are read after they were put. -/
theorem mem_putAll (hl : l.Pairwise fun a b => key a ≠ key b) (hb : b ∈ l) :
    b ∈ (s.putAll l).entries := by
  induction l generalizing s with
  | nil => cases hb
  | cons c l ih =>
    obtain ⟨hc, hl⟩ := pairwise_cons.mp hl
    rcases mem_cons.mp hb with rfl | hb
    · rw [putAll_cons]
      exact mem_putAll_of_mem (mem_put.mpr (.inl rfl)) hc
    · exact ih hl hb

/-- A key that is put, or had a value, has one afterwards. -/
theorem exists_mem_putAll (h : k ∈ l.map key ∨ k ∈ s.entries.map key) :
    ∃ c ∈ (s.putAll l).entries, key c = k := by
  induction l generalizing s with
  | nil => exact mem_map.mp (h.resolve_left not_mem_nil)
  | cons a l ih =>
    refine ih ?_
    by_cases hkey : k = key a
    · exact .inr (mem_map.mpr ⟨a, mem_put.mpr (.inl rfl), hkey.symm⟩)
    refine h.imp (fun h => (mem_cons.mp h).resolve_left hkey) fun h => ?_
    obtain ⟨b, hb, rfl⟩ := mem_map.mp h
    exact mem_map_of_mem (mem_put.mpr (.inr ⟨hb, hkey⟩))

@[simp]
theorem mem_removeAll {keys : List κ} :
    a ∈ (s.removeAll keys).entries ↔ a ∈ s.entries ∧ key a ∉ keys := by
  simp [removeAll]

@[simp]
theorem mem_scanFrom : a ∈ s.scanFrom k ↔ a ∈ s.entries ∧ k ≤ key a := by
  simp [scanFrom]

theorem eq_of_key_eq (ha : a ∈ s.entries) (hb : b ∈ s.entries) (h : key a = key b) : a = b :=
  inj_on_of_nodup_map (pairwise_map.mpr (s.sorted.imp ne_of_lt)) ha hb h

theorem le_of_head (h : s.entries.head? = some a) (hb : b ∈ s.entries) : key a ≤ key b := by
  obtain ⟨l, hl⟩ := head?_eq_some_iff.mp h
  have hsorted := s.sorted
  rw [hl] at hsorted hb
  rcases mem_cons.mp hb with rfl | hb
  · exact le_rfl
  · exact ((pairwise_cons.mp hsorted).1 b hb).le

theorem le_of_getLast (h : s.entries.getLast? = some a) (hb : b ∈ s.entries) : key b ≤ key a := by
  obtain ⟨l, hl⟩ := getLast?_eq_some_iff.mp h
  have hsorted := s.sorted
  rw [hl] at hsorted hb
  rcases mem_append.mp hb with hb | hb
  · exact ((pairwise_append.mp hsorted).2.2 b hb a (mem_singleton_self a)).le
  · exact (congrArg key (mem_singleton.mp hb)).le

/-- A scan begins with the least value at or above the key. -/
theorem le_of_head_scanFrom (h : (s.scanFrom k).head? = some a) (hb : b ∈ s.entries)
    (hk : k ≤ key b) : key a ≤ key b :=
  le_of_head (s := ⟨s.scanFrom k, s.sorted.filter _⟩) h (mem_scanFrom.mpr ⟨hb, hk⟩)

/-- Removing the keys of the first values leaves the others. -/
theorem entries_removeAll_of_append {r : List α} (h : s.entries = l ++ r) :
    (s.removeAll (l.map key)).entries = r := by
  have hsorted := s.sorted
  rw [h] at hsorted
  have hcross := (pairwise_append.mp hsorted).2.2
  have hl : l.filter (fun a => decide (key a ∉ l.map key)) = [] :=
    filter_eq_nil_iff.mpr fun a ha => by simpa using ⟨a, ha, rfl⟩
  have hr : r.filter (fun a => decide (key a ∉ l.map key)) = r := by
    refine filter_eq_self.mpr fun b hb => decide_eq_true fun hmem => ?_
    obtain ⟨a, ha, hkey⟩ := mem_map.mp hmem
    exact (hcross a ha b hb).ne hkey
  change s.entries.filter (fun a => decide (key a ∉ l.map key)) = r
  rw [h, filter_append, hl, hr, nil_append]

/-! ### Scans with a limit -/

/-- Among the first values are those with fewer values before them. -/
theorem mem_take_iff (hl : l.Pairwise fun a b => key a < key b) {n : ℕ} :
    a ∈ l.take n ↔ a ∈ l ∧ l.countP (fun b => decide (key b < key a)) < n := by
  induction l generalizing n with
  | nil => simp
  | cons b l ih =>
    obtain ⟨hb, hl⟩ := pairwise_cons.mp hl
    cases n with
    | zero => simp
    | succ n =>
      rw [take_succ_cons, mem_cons, mem_cons, ih hl, or_and_right]
      refine or_congr (iff_self_and.mpr ?_) (and_congr_right fun ha => ?_)
      · rintro rfl
        have hnone : (a :: l).countP (fun b => decide (key b < key a)) = 0 :=
          countP_eq_zero.mpr (by simpa using fun c hc => (hb c hc).le)
        omega
      · simp [hb a ha]

/-- How many values of a kind come before a value. -/
def countBefore (s : OrderedStore key) (p : α → Bool) (a : α) : ℕ :=
  s.entries.countP fun b => decide (key b < key a) && p b

/-- **The first values of a kind are those of an owner** when all of these are of the kind and no
more than the scan reads, and the others of the kind are out of its reach. -/
theorem forall_mem_take_filter_iff (p own : α → Bool) (n : ℕ) :
    (∀ a, a ∈ (s.entries.filter p).take n ↔ a ∈ s.entries ∧ own a = true) ↔
      (∀ a ∈ s.entries, own a = true → p a = true) ∧ s.entries.countP own ≤ n ∧
        ∀ a ∈ s.entries, p a = true → own a = false → n ≤ s.countBefore p a := by
  have hnodup := s.nodup
  have htake : ∀ a, a ∈ (s.entries.filter p).take n ↔
      (a ∈ s.entries ∧ p a = true) ∧ s.countBefore p a < n := by
    intro a
    rw [mem_take_iff (s.sorted.filter p), mem_filter, countP_filter, countBefore]
  have hlength : ∀ l : List α, l.Nodup → (∀ a ∈ l, a ∈ s.entries ∧ own a = true) →
      l.length ≤ s.entries.countP own := by
    intro l hl hmem
    rw [countP_eq_length_filter]
    exact (subperm_of_subset hl fun a ha => mem_filter.mpr (hmem a ha)).length_le
  constructor
  · intro hall
    refine ⟨fun a ha ho => ((htake a).mp ((hall a).mpr ⟨ha, ho⟩)).1.2, ?_, fun a ha hp ho => ?_⟩
    · rw [countP_eq_length_filter]
      have hsub : s.entries.filter own ⊆ (s.entries.filter p).take n :=
        fun a ha => (hall a).mpr (mem_filter.mp ha)
      exact (subperm_of_subset (hnodup.filter own) hsub).length_le.trans (length_take_le _ _)
    · by_contra hlt
      have howned := ((hall a).mp ((htake a).mpr ⟨⟨ha, hp⟩, not_le.mp hlt⟩)).2
      rw [ho] at howned
      cases howned
  · rintro ⟨hbegins, hfew, hothers⟩ a
    have hfirst : ∀ b ∈ (s.entries.filter p).take n, b ∈ s.entries ∧ own b = true := by
      intro b hb
      obtain ⟨⟨hmem, hp⟩, hlt⟩ := (htake b).mp hb
      refine ⟨hmem, ?_⟩
      by_contra ho
      exact not_lt.mpr (hothers b hmem hp (by simpa using ho)) hlt
    refine ⟨hfirst a, fun ⟨ha, ho⟩ => (htake a).mpr ⟨⟨ha, hbegins a ha ho⟩, ?_⟩⟩
    by_contra hle
    -- the first values are the owner's, and this one would be one more than the limit
    have hnot : a ∉ (s.entries.filter p).take n := fun h => hle ((htake a).mp h).2
    have hmore := hlength (a :: (s.entries.filter p).take n)
      (nodup_cons.mpr ⟨hnot, (hnodup.filter p).sublist (take_sublist _ _)⟩)
      (forall_mem_cons.mpr ⟨⟨ha, ho⟩, hfirst⟩)
    have hfull : n ≤ (s.entries.filter p).length := by
      rw [← countP_eq_length_filter]
      refine (not_lt.mp hle).trans (countP_mono_left fun b _ hb => ?_)
      exact (Bool.and_eq_true_iff.mp hb).2
    rw [length_cons, length_take_of_le hfull] at hmore
    omega

/-! ### Sums over a store -/

/-- The sum of a measure over the values. -/
def total (f : α → ℕ) (s : OrderedStore key) : ℕ := (s.entries.map f).sum

/-- A put under a new key adds the measure of the value. -/
theorem total_put (h : ∀ b ∈ s.entries, key b ≠ key a) : (s.put a).total f = s.total f + f a := by
  have hperm : (s.put a).entries.Perm (a :: s.entries) := by
    have hnodup : (a :: s.entries).Nodup := nodup_cons.mpr ⟨fun ha => h a ha rfl, s.nodup⟩
    refine (perm_ext_iff_of_nodup (s.put a).nodup hnodup).mpr fun b => ?_
    rw [mem_put, mem_cons, and_iff_left_of_imp (h b)]
  rw [total, (hperm.map f).sum_eq, map_cons, sum_cons, Nat.add_comm]
  rfl

theorem total_putAll (hl : l.Pairwise fun a b => key a ≠ key b)
    (h : ∀ b ∈ s.entries, ∀ a ∈ l, key b ≠ key a) :
    (s.putAll l).total f = s.total f + (l.map f).sum := by
  induction l generalizing s with
  | nil => rfl
  | cons c l ih =>
    obtain ⟨hc, hl⟩ := pairwise_cons.mp hl
    have hnew : ∀ b ∈ (s.put c).entries, ∀ a ∈ l, key b ≠ key a := by
      intro b hb a ha
      rcases mem_put.mp hb with rfl | ⟨hb, -⟩
      · exact hc a ha
      · exact h b hb a (mem_cons_of_mem c ha)
    rw [putAll_cons, ih hl hnew, total_put fun b hb => h b hb c mem_cons_self, map_cons,
      sum_cons, Nat.add_assoc]

end OrderedStore
