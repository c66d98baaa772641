import KalamDB.Lib.OrderedStore
import Mathlib.Data.List.Sort
import Mathlib.Data.List.Range

/-!
# Finite maps over indexes

A map from natural numbers is the list of its pairs with **rising indexes**, as an ordered store
iterates it: insertions are the puts of an ordered store (`mem_insertAll`). Everything is stated
through membership of pairs; what a range read returns is determined by the pairs in the range
(`map_between_eq`). A range that has as many pairs as indexes misses none (`exists_mem_of_full`).
-/

/-- A finite map from indexes, its pairs in the order of the indexes. -/
structure IndexMap (α : Type*) where
  toList : List (ℕ × α)
  rising : toList.Pairwise fun p q => p.1 < q.1

namespace IndexMap

open List

variable {α β γ : Type*} {p : ℕ × α} {m : IndexMap α} {l pairs : List (ℕ × α)} {v : α} {i b a : ℕ}
  {g : β → γ} {n : IndexMap β}

instance : Membership (ℕ × α) (IndexMap α) := ⟨fun m p => p ∈ m.toList⟩

theorem mem_def : p ∈ m ↔ p ∈ m.toList := Iff.rfl

/-- The indexes of a rising list differ. -/
theorem nodup_map_fst (hl : l.Pairwise fun p q => p.1 < q.1) : (l.map Prod.fst).Nodup :=
  pairwise_map.mpr (hl.imp fun hlt => hlt.ne)

/-- An index has at most one value. -/
theorem mem_unique {w : α} (hv : (i, v) ∈ m) (hw : (i, w) ∈ m) : v = w :=
  congrArg Prod.snd (inj_on_of_nodup_map (nodup_map_fst m.rising) hv hw rfl)

def empty : IndexMap α := ⟨[], .nil⟩

@[simp]
theorem not_mem_empty : p ∉ (empty : IndexMap α) := not_mem_nil

/-! ### Inserting -/

def insertList (i : ℕ) (v : α) : List (ℕ × α) → List (ℕ × α)
  | [] => [(i, v)]
  | p :: rest =>
    if i < p.1 then (i, v) :: p :: rest
    else if i = p.1 then (i, v) :: rest
    else p :: insertList i v rest

/-- The pairs as an ordered store, whose puts the insertions are. -/
def toStore (m : IndexMap α) : OrderedStore (Prod.fst : ℕ × α → ℕ) := ⟨m.toList, m.rising⟩

theorem insertList_eq (m : IndexMap α) :
    insertList p.1 p.2 m.toList = (m.toStore.put p).entries := by
  obtain ⟨l, hl⟩ := m
  induction l with
  | nil => rfl
  | cons q rest ih =>
    obtain ⟨hq, hrest⟩ := pairwise_cons.mp hl
    have hbelow : p.1 ≤ q.1 → rest.filter (fun r => decide (r.1 < p.1)) = [] := by
      intro hle
      refine filter_eq_nil_iff.mpr fun r hr => ?_
      simpa using (hle.trans_lt (hq r hr)).le
    have habove : p.1 ≤ q.1 → rest.filter (fun r => decide (p.1 < r.1)) = rest :=
      fun hle => filter_eq_self.mpr fun r hr => decide_eq_true (hle.trans_lt (hq r hr))
    have hput := ih hrest
    simp only [toStore, OrderedStore.put, insertList, filter_cons] at hput ⊢
    grind

/-- Set the value of an index. -/
def insert (m : IndexMap α) (i : ℕ) (v : α) : IndexMap α :=
  ⟨insertList i v m.toList, m.insertList_eq (p := (i, v)) ▸ (m.toStore.put (i, v)).sorted⟩

/-- Set the values of several indexes, one after the other. -/
def insertAll (m : IndexMap α) (pairs : List (ℕ × α)) : IndexMap α :=
  pairs.foldl (fun m p => m.insert p.1 p.2) m

theorem mem_insertAll : p ∈ m.insertAll pairs ↔ p ∈ (m.toStore.putAll pairs).entries := by
  induction pairs generalizing m with
  | nil => rfl
  | cons q rest ih =>
    refine ih.trans ?_
    simp only [toStore, insert, insertList_eq, OrderedStore.putAll_cons]

/-! ### Selecting -/

/-- The value of an index. -/
def get (m : IndexMap α) (i : ℕ) : Option α :=
  (m.toList.find? fun p => decide (p.1 = i)).map Prod.snd

theorem mem_of_get (h : m.get i = some v) : (i, v) ∈ m := by
  obtain ⟨p, hp, rfl⟩ := Option.map_eq_some_iff.mp h
  obtain rfl : p.1 = i := by simpa using find?_some hp
  exact mem_of_find?_eq_some hp

/-- Change or drop every value. -/
def filterMap (f : ℕ → α → Option β) (m : IndexMap α) : IndexMap β where
  toList := m.toList.filterMap fun p => (f p.1 p.2).map (p.1, ·)
  rising := by
    refine List.pairwise_filterMap.mpr (m.rising.imp fun {p q} hlt p' hp' q' hq' => ?_)
    obtain ⟨_, _, rfl⟩ := Option.map_eq_some_iff.mp hp'
    obtain ⟨_, _, rfl⟩ := Option.map_eq_some_iff.mp hq'
    exact hlt

@[simp]
theorem mem_filterMap {f : ℕ → α → Option β} {w : β} :
    (i, w) ∈ m.filterMap f ↔ ∃ v, (i, v) ∈ m ∧ f i v = some w := by
  simp only [mem_def, filterMap, List.mem_filterMap, Option.map_eq_some_iff, Prod.mk.injEq]
  constructor
  · rintro ⟨⟨j, v⟩, hp, w', hw', rfl, rfl⟩
    exact ⟨v, hp, hw'⟩
  · rintro ⟨v, hp, hw⟩
    exact ⟨(i, v), hp, w, hw, rfl, rfl⟩

/-- Keep the indexes that satisfy a test. -/
def keep (p : ℕ → Bool) (m : IndexMap α) : IndexMap α :=
  m.filterMap fun i v => if p i then some v else none

@[simp]
theorem mem_keep {p : ℕ → Bool} : (i, v) ∈ m.keep p ↔ (i, v) ∈ m ∧ p i = true := by
  simp [keep]

/-- The pairs of a range, in order. -/
def between (m : IndexMap α) (a b : ℕ) : List (ℕ × α) :=
  m.toList.filter fun p => decide (a ≤ p.1 ∧ p.1 < b)

theorem mem_between : p ∈ m.between a b ↔ p ∈ m ∧ a ≤ p.1 ∧ p.1 < b := by
  simp [between, mem_def]

/-- **Reads agree**: ranges whose pairs correspond read the same. -/
theorem map_between_eq {f : α → γ}
    (hm : ∀ i v, (i, v) ∈ m.between a b → ∃ w, (i, w) ∈ n ∧ f v = g w)
    (hn : ∀ i w, (i, w) ∈ n.between a b → ∃ v, (i, v) ∈ m) :
    (m.between a b).map (fun p => (p.1, f p.2)) = (n.between a b).map fun p => (p.1, g p.2) := by
  refine Pairwise.eq_of_mem_iff (r := fun p q => p.1 < q.1) (pairwise_map.mpr (m.rising.filter _))
    (pairwise_map.mpr (n.rising.filter _)) fun p => ?_
  obtain ⟨i, c⟩ := p
  simp only [mem_map, Prod.mk.injEq]
  constructor
  · rintro ⟨⟨j, v⟩, hv, rfl, rfl⟩
    obtain ⟨w, hw, hfg⟩ := hm j v hv
    exact ⟨(j, w), mem_between.mpr ⟨hw, (mem_between.mp hv).2⟩, rfl, hfg.symm⟩
  · rintro ⟨⟨j, w⟩, hw, rfl, rfl⟩
    obtain ⟨v, hv⟩ := hn j w hw
    have hvr := mem_between.mpr ⟨hv, (mem_between.mp hw).2⟩
    obtain ⟨w', hw', hfg⟩ := hm j v hvr
    obtain rfl := mem_unique (mem_between.mp hw).1 hw'
    exact ⟨(j, v), hvr, rfl, hfg⟩

/-- Reads agree also when the values are decoded on the way. -/
theorem filterMap_between_eq {f : α → Option γ}
    (hm : ∀ i v, (i, v) ∈ m.between a b → ∃ w, (i, w) ∈ n ∧ f v = some (g w))
    (hn : ∀ i w, (i, w) ∈ n.between a b → ∃ v, (i, v) ∈ m) :
    (m.between a b).filterMap (fun p => f p.2) = (n.between a b).map fun p => g p.2 := by
  have h := congrArg (List.filterMap Prod.snd) (map_between_eq hm hn)
  simpa using h

/-- The indexes of a range are among those between its bounds. -/
theorem subperm_range' (m : IndexMap α) (a b : ℕ) :
    ((m.between a b).map Prod.fst).Subperm (range' a (b - a)) := by
  refine subperm_of_subset (nodup_map_fst (m.rising.filter _)) fun j hj => ?_
  obtain ⟨p, hp, rfl⟩ := mem_map.mp hj
  obtain ⟨-, hap, hpb⟩ := mem_between.mp hp
  rw [mem_range'_1]
  omega

theorem length_between_le (m : IndexMap α) (a b : ℕ) : (m.between a b).length ≤ b - a := by
  simpa only [length_map, length_range'] using (m.subperm_range' a b).length_le

/-- **A full range misses no index.** -/
theorem exists_mem_of_full (h : (m.between a b).length = b - a) (ha : a ≤ i) (hb : i < b) :
    ∃ v, (i, v) ∈ m := by
  have hperm := (m.subperm_range' a b).perm_of_length_le (by simp [h])
  have hi : i ∈ (m.between a b).map Prod.fst := by
    rw [hperm.mem_iff, mem_range'_1]
    omega
  obtain ⟨p, hp, rfl⟩ := mem_map.mp hi
  exact ⟨p.2, (mem_between.mp hp).1⟩

end IndexMap
