import Mathlib.Data.List.AList
import Mathlib.Data.Set.Finite.Lattice
import Mathlib.Order.Preorder.Finite

/-!
# Latest version per key

The general theory of multi-version stores: records carry a key and a version, a reader sees
the **newest record of each key**, and some records (tombstones) are not shown.

* `IsNewest key version S r` says that `r` is a record of `S` no record of the same key
  exceeds.
* `view key version live S` is what a reader of `S` sees.
* `view_eq_iff_of_subset` is the **garbage-collection criterion**: dropping records from `S`
  leaves the view unchanged exactly when every newest record is kept, except that a hidden
  one may go when no visible record of its key resurfaces.
* `insertWinner` is the usual winner map, one entry per bucket, and `lookup_winners` reads it
  back: the entry of a bucket is a newest record of the bucket.
-/

namespace LatestVersion

open List AList

section View

variable {R K V : Type*} [LinearOrder V] (key : R → K) (version : R → V) {S T : Set R} {r : R}

/-- `r` is a record of `S` that no record of the same key exceeds. -/
def IsNewest (S : Set R) (r : R) : Prop :=
  r ∈ S ∧ ∀ r' ∈ S, key r' = key r → version r' ≤ version r

/-- The visible newest records: what a reader of `S` sees. -/
def view (live : R → Prop) (S : Set R) : Set R :=
  {r | IsNewest key version S r ∧ live r}

/-- Within one key a version identifies its record. -/
def VersionsIdentify (S : Set R) : Prop :=
  ∀ r ∈ S, ∀ r' ∈ S, key r = key r' → version r = version r' → r = r'

variable {key version}

theorem IsNewest.anti (h : IsNewest key version S r) (hTS : T ⊆ S) (hr : r ∈ T) :
    IsNewest key version T r :=
  ⟨hr, fun r' hr' hk => h.2 r' (hTS hr') hk⟩

omit [LinearOrder V] in
theorem VersionsIdentify.anti (h : VersionsIdentify key version S) (hTS : T ⊆ S) :
    VersionsIdentify key version T :=
  fun r hr r' hr' => h r (hTS hr) r' (hTS hr')

/-- Two newest records of one key are the same record. -/
theorem IsNewest.eq {r' : R} (hS : VersionsIdentify key version S) (h : IsNewest key version S r)
    (h' : IsNewest key version S r') (hk : key r = key r') : r = r' :=
  hS r h.1 r' h'.1 hk (le_antisymm (h'.2 r h.1 hk) (h.2 r' h'.1 hk.symm))

variable (key version) in
/-- In a finite store every key that occurs has a newest record. -/
theorem exists_isNewest (hfin : S.Finite) (hr : r ∈ S) :
    ∃ m, IsNewest key version S m ∧ key m = key r := by
  have hfin' : {r' ∈ S | key r' = key r}.Finite := hfin.subset (Set.sep_subset _ _)
  obtain ⟨m, ⟨hmS, hmk⟩, hmax⟩ := Set.Finite.exists_maximalFor version _ hfin' ⟨r, hr, rfl⟩
  refine ⟨m, ⟨hmS, fun r' hr' hk => ?_⟩, hmk⟩
  rcases le_total (version r') (version m) with h | h
  · exact h
  · exact hmax ⟨hr', hk.trans hmk⟩ h

/-- **Garbage-collection criterion.** Dropping records leaves the view unchanged exactly when
every newest record is kept, or is hidden and no visible record of its key resurfaces. -/
theorem view_eq_iff_of_subset {live : R → Prop} (hfin : S.Finite)
    (hid : VersionsIdentify key version S) (hTS : T ⊆ S) :
    view key version live T = view key version live S ↔
      ∀ m, IsNewest key version S m →
        m ∈ T ∨ (¬ live m ∧ ∀ r, IsNewest key version T r → key r = key m → ¬ live r) := by
  constructor
  · intro heq m hm
    by_cases hmT : m ∈ T
    · exact .inl hmT
    refine .inr ⟨fun hlive => ?_, fun r hr hk hlive => ?_⟩
    · have hview : m ∈ view key version live T := heq ▸ ⟨hm, hlive⟩
      exact hmT hview.1.1
    · have hview : r ∈ view key version live S := heq ▸ ⟨hr, hlive⟩
      have hrm : r = m := hview.1.eq hid hm hk
      exact hmT (hrm ▸ hr.1)
  · intro hkeep
    ext r
    constructor
    · rintro ⟨hr, hlive⟩
      obtain ⟨m, hm, hmk⟩ := exists_isNewest key version hfin (hTS hr.1)
      rcases hkeep m hm with hmT | ⟨-, hhidden⟩
      · have hrm : r = m := hr.eq (hid.anti hTS) (hm.anti hTS hmT) hmk.symm
        exact ⟨hrm ▸ hm, hlive⟩
      · exact absurd hlive (hhidden r hr hmk.symm)
    · rintro ⟨hr, hlive⟩
      rcases hkeep r hr with hrT | ⟨hdead, -⟩
      · exact ⟨hr.anti hTS hrT, hlive⟩
      · exact absurd hlive hdead

end View

/-! ### Winner maps -/

section Winners

variable {R B V : Type*} [DecidableEq B] [LinearOrder V] (bucket : R → B) (version : R → V) {r : R}
  {records : Set R} {m : AList fun _ : B => R} {b : B}

/-- One step of winner selection: a record replaces the entry of its bucket only when its
version is strictly greater. -/
def insertWinner (m : AList fun _ : B => R) (r : R) : AList fun _ : B => R :=
  match m.lookup (bucket r) with
  | none => m.insert (bucket r) r
  | some current => if version current < version r then m.insert (bucket r) r else m

/-- The winner of each bucket over a list of records. -/
def winners (records : List R) : AList fun _ : B => R :=
  records.foldl (insertWinner bucket version) ∅

/-- What a winner map knows about the records folded into it: the entry of a bucket is one of
its records and none of them exceeds it, and a bucket without records has no entry. -/
structure Selects (m : AList fun _ : B => R) (records : Set R) : Prop where
  sound : ∀ b r, m.lookup b = some r →
    r ∈ records ∧ bucket r = b ∧ ∀ r' ∈ records, bucket r' = b → version r' ≤ version r
  complete : ∀ r ∈ records, (m.lookup (bucket r)).isSome

variable {bucket version}

theorem Selects.empty : Selects bucket version (∅ : AList fun _ : B => R) ∅ where
  sound b r h := by simp at h
  complete r hr := hr.elim

section

variable (h : Selects bucket version m records)
include h

/-- Entering a record that no earlier record of its bucket exceeds. -/
theorem Selects.insert_of_forall_le
    (hmax : ∀ r' ∈ records, bucket r' = bucket r → version r' ≤ version r) :
    Selects bucket version (m.insert (bucket r) r) (insert r records)  where
  sound b s hs := by
    by_cases hb : b = bucket r
    · subst hb
      obtain rfl : r = s := by simpa using hs
      refine ⟨Set.mem_insert _ _, rfl, fun r' hr' hb' => ?_⟩
      rcases hr' with rfl | hr'
      · exact le_rfl
      · exact hmax r' hr' hb'
    · rw [lookup_insert_ne hb] at hs
      obtain ⟨hmem, hbs, hsmax⟩ := h.sound b s hs
      refine ⟨Set.mem_insert_of_mem _ hmem, hbs, fun r' hr' hb' => ?_⟩
      rcases hr' with rfl | hr'
      · exact absurd hb'.symm hb
      · exact hsmax r' hr' hb'
  complete s hs := by
    by_cases hb : bucket s = bucket r
    · rw [hb, lookup_insert]
      rfl
    rcases hs with rfl | hs
    · exact absurd rfl hb
    · rw [lookup_insert_ne hb]
      exact h.complete s hs

/-- Passing over a record that the entry of its bucket is not below. -/
theorem Selects.insert_of_le_current {current : R} (hcur : m.lookup (bucket r) = some current)
    (hle : version r ≤ version current) : Selects bucket version m (insert r records)  where
  sound b s hs := by
    obtain ⟨hmem, hbs, hmax⟩ := h.sound b s hs
    refine ⟨Set.mem_insert_of_mem _ hmem, hbs, fun r' hr' hb' => ?_⟩
    rcases hr' with rfl | hr'
    · subst hb'
      obtain rfl : current = s := Option.some.inj (hcur.symm.trans hs)
      exact hle
    · exact hmax r' hr' hb'
  complete s hs := by
    rcases hs with rfl | hs
    · rw [hcur]
      rfl
    · exact h.complete s hs

/-- A vacant bucket has no records. -/
theorem Selects.bucket_ne_of_lookup_eq_none (hb : m.lookup b = none) (hr : r ∈ records) :
    bucket r ≠ b := by
  rintro rfl
  have hsome := h.complete r hr
  rw [hb] at hsome
  cases hsome

/-- Winner selection keeps the specification of the map, one record at a time. -/
theorem Selects.insertWinner (r : R) :
    Selects bucket version (insertWinner bucket version m r) (insert r records) := by
  unfold LatestVersion.insertWinner
  cases hcur : m.lookup (bucket r) with
  | none =>
    exact h.insert_of_forall_le fun r' hr' hb =>
      absurd hb (h.bucket_ne_of_lookup_eq_none hcur hr')
  | some current =>
    dsimp only
    split_ifs with hlt
    · exact h.insert_of_forall_le fun r' hr' hb =>
        ((h.sound _ _ hcur).2.2 r' hr' hb).trans hlt.le
    · exact h.insert_of_le_current hcur (not_lt.mp hlt)

end

variable (bucket version) in
/-- The winner map over a list of records. -/
theorem selects_winners (records : List R) :
    Selects bucket version (winners bucket version records) {r | r ∈ records} := by
  induction records using reverseRecOn with
  | nil => simpa [winners] using Selects.empty
  | append_singleton records r ih =>
    have hset : {x | x ∈ records ++ [r]} = insert r {x | x ∈ records} := by
      ext x
      simp [or_comm]
    rw [hset, winners, foldl_concat]
    exact ih.insertWinner r

/-- When versions identify records within a bucket, the entries of a winner map are exactly
the newest records of their buckets. -/
theorem Selects.lookup_eq_some_iff (h : Selects bucket version m records)
    (hid : VersionsIdentify bucket version records) :
    m.lookup b = some r ↔ bucket r = b ∧ IsNewest bucket version records r := by
  constructor
  · intro hr
    obtain ⟨hmem, hb, hmax⟩ := h.sound b r hr
    exact ⟨hb, hmem, fun r' hr' hb' => hmax r' hr' (hb'.trans hb)⟩
  · rintro ⟨rfl, hr⟩
    obtain ⟨s, hs⟩ := Option.isSome_iff_exists.mp (h.complete r hr.1)
    obtain ⟨hmem, hb, hmax⟩ := h.sound _ _ hs
    have hsn : IsNewest bucket version records s :=
      ⟨hmem, fun r' hr' hb' => hmax r' hr' (hb'.trans hb)⟩
    rw [hs, hsn.eq hid hr hb]

/-- The values of a winner map are the newest records of the list. -/
theorem mem_values_winners_iff {records : List R}
    (hid : VersionsIdentify bucket version {r | r ∈ records}) :
    r ∈ (winners bucket version records).entries.map Sigma.snd ↔
      IsNewest bucket version {r | r ∈ records} r := by
  have hsel := selects_winners bucket version records
  rw [mem_map]
  constructor
  · rintro ⟨⟨b, s⟩, hmem, rfl⟩
    exact ((hsel.lookup_eq_some_iff hid).mp (mem_lookup_iff.mpr hmem)).2
  · intro hr
    have hlookup := (hsel.lookup_eq_some_iff hid).mpr ⟨rfl, hr⟩
    exact ⟨⟨bucket r, r⟩, mem_lookup_iff.mp hlookup, rfl⟩

/-- Each bucket has one value, so the values are distinct. -/
theorem nodup_values_winners (records : List R) :
    ((winners bucket version records).entries.map Sigma.snd).Nodup := by
  have hsel := selects_winners bucket version records
  have hkeys : ((winners bucket version records).entries.map Sigma.snd).map bucket =
      (winners bucket version records).keys := by
    rw [map_map]
    refine map_congr_left fun e he => ?_
    exact (hsel.sound e.1 e.2 (mem_lookup_iff.mpr he)).2.1
  refine List.Nodup.of_map bucket ?_
  rw [hkeys]
  exact (winners bucket version records).keys_nodup

end Winners

end LatestVersion
