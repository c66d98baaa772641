import Mathlib.Data.List.Dedup
import KalamDB.Lib.KeyedList
import KalamDB.Vector.Search

/-!
# A search ranks the current vectors

The vectors of a column are spread over the staged operations, the cache of them and the snapshot.
From a cache that is **coherent** with the content, a search ranks exactly the rows that have a
vector now (`VectorContent.vectorSearch_eq`), or that had one before the operations beyond its scan
limit (`VectorContent.seen`). A search leaves a coherent cache behind
(`VectorContent.coherent_searchHotCandidates`), so coherence holds along every sequence of searches.
-/

namespace KalamDB.Vector

open List HotCacheState AList

variable {F D S : Type} {col : VectorColumn} {c : VectorContent F col}

/-- A cache of the column's dimension and metric and of the content's snapshot has applied some of
the first pending operations; one of another dimension holds nothing. -/
structure Coherent (c : VectorContent F col) (s : HotCacheState F) : Prop where
  caughtUp : s.dimensions = col.dimensions → s.metric = col.metric →
    s.baseLastAppliedSeq = c.lastAppliedSeq →
    ∃ ops, ops <+: c.pending ∧ s.Reflects col.dimensions col.metric c.lastAppliedSeq ops
  vacant : s.dimensions ≠ col.dimensions → s.index = ∅

namespace VectorContent

/-! ### Bringing the cache up to date -/

variable {cache : Option (HotCacheState F)} {pk : String} {v : List F}

theorem pending_sorted (c : VectorContent F col) : c.pending.Pairwise fun a b => a.1 < b.1 :=
  c.staged_sorted.filter _

theorem lt_of_mem_pending {e : StagedOp F} (he : e ∈ c.pending) : c.lastAppliedSeq < e.1 :=
  of_decide_eq_true (mem_filter.mp he).2

theorem prepare_reflects (hcache : ∀ s ∈ cache, Coherent c s) :
    ∃ ops, ops <+: c.pending ∧ (HotCacheState.prepare cache col.dimensions col.metric
      c.lastAppliedSeq).Reflects col.dimensions col.metric c.lastAppliedSeq ops := by
  have hnew : ∃ ops, ops <+: c.pending ∧ (new col.dimensions col.metric
      c.lastAppliedSeq).Reflects col.dimensions col.metric c.lastAppliedSeq ops :=
    ⟨[], nil_prefix, reflects_new _ _ _⟩
  cases cache with
  | none => exact hnew
  | some s =>
    simp only [prepare]
    split
    · exact hnew
    rename_i hsame
    simp only [not_or, not_not] at hsame
    exact (hcache s rfl).caughtUp hsame.1 hsame.2.1 hsame.2.2

/-- A scan starts right after the operations that were applied. -/
theorem scanStaged_eq {ops post : List (StagedOp F)} {s : HotCacheState F}
    (hs : s.Reflects col.dimensions col.metric c.lastAppliedSeq ops)
    (hpending : c.pending = ops ++ post) :
    s.scanStaged c.staged = post.take hotIncrementalScanLimit ∧
      (∀ e ∈ ops, e.1 ≤ s.lastScannedSeq) ∧ ∀ e ∈ post, s.lastScannedSeq < e.1 := by
  have hsorted := c.pending_sorted
  rw [hpending] at hsorted
  obtain ⟨hops, -, hbefore⟩ := pairwise_append.mp hsorted
  obtain ⟨hbase, hseen, hnew⟩ : c.lastAppliedSeq ≤ s.lastScannedSeq ∧
      (∀ e ∈ ops, e.1 ≤ s.lastScannedSeq) ∧ ∀ e ∈ post, s.lastScannedSeq < e.1 := by
    have hmem : ∀ e ∈ ops ++ post, c.lastAppliedSeq < e.1 := fun e he =>
      lt_of_mem_pending (hpending ▸ he)
    rw [hs.scanned]
    rcases eq_nil_or_concat' ops with rfl | ⟨init, last, rfl⟩
    · exact ⟨le_refl _, by simp, hmem⟩
    obtain ⟨-, -, hlast⟩ := pairwise_append.mp hops
    simp only [getLast?_append]
    refine ⟨(hmem last (by simp)).le, fun e he => ?_, hbefore last (by simp)⟩
    rcases mem_append.mp he with he | he
    · exact (hlast e he last mem_cons_self).le
    · exact (congrArg Prod.fst (mem_singleton.mp he)).le
  have hscan : c.staged.filter (fun e => s.lastScannedSeq + 1 ≤ e.1) = post := by
    have hagain : c.staged.filter (fun e => decide (s.lastScannedSeq + 1 ≤ e.1)) =
        c.pending.filter fun e => decide (s.lastScannedSeq + 1 ≤ e.1) := by
      rw [pending, filter_filter]
      refine filter_congr fun e _ => ?_
      rw [← Bool.decide_and, decide_eq_decide]
      exact ⟨fun h => ⟨h, by omega⟩, fun h => h.1⟩
    have hold : ops.filter (fun e => decide (s.lastScannedSeq + 1 ≤ e.1)) = [] :=
      filter_eq_nil_iff.mpr fun e he => by
        have := hseen e he
        simp only [decide_eq_true_eq]
        omega
    have hrest : post.filter (fun e => decide (s.lastScannedSeq + 1 ≤ e.1)) = post :=
      filter_eq_self.mpr fun e he => decide_eq_true (hnew e he)
    rw [hagain, hpending, filter_append, hold, hrest, nil_append]
  exact ⟨by rw [scanStaged, hscan], hseen, hnew⟩

/-- The content as a search sees it: the pending operations that the cache has applied, and the
next ones that a scan returns. -/
def seen (c : VectorContent F col) (cache : Option (HotCacheState F)) : VectorContent F col :=
  let s := HotCacheState.prepare cache col.dimensions col.metric c.lastAppliedSeq
  { c with
    staged := c.pending.take
      (c.pending.countP (fun e => e.1 ≤ s.lastScannedSeq) + hotIncrementalScanLimit)
    staged_sorted := c.pending_sorted.take
    staged_dims := fun e he =>
      c.staged_dims e (List.mem_filter.mp (List.take_subset _ _ he)).1 }

theorem pending_seen (c : VectorContent F col) (cache : Option (HotCacheState F)) :
    (c.seen cache).pending = (c.seen cache).staged :=
  filter_eq_self.mpr fun _ he =>
    decide_eq_true (lt_of_mem_pending (c := c) (take_subset _ _ he))

/-- A search sees everything, as long as it scans all that is pending. -/
theorem vectorOf_seen (hfits : c.pending.length ≤ hotIncrementalScanLimit)
    (cache : Option (HotCacheState F)) : (c.seen cache).vectorOf = c.vectorOf := by
  funext pk
  have hall : (c.seen cache).pending = c.pending :=
    (pending_seen c cache).trans (take_of_length_le (by omega))
  rw [vectorOf, hall]
  rfl

/-- A search of the column's dimension applies what it scans. -/
theorem exists_applyStaged (hcache : ∀ s ∈ cache, Coherent c s) :
    let s := prepare cache col.dimensions col.metric c.lastAppliedSeq
    ∃ s', s.applyStaged c.lastAppliedSeq (s.scanStaged c.staged) = (.ok (), s') ∧
      s'.Reflects col.dimensions col.metric c.lastAppliedSeq (c.seen cache).pending := by
  intro s
  obtain ⟨ops, ⟨post, hpost⟩, hs⟩ := prepare_reflects hcache
  obtain ⟨hscan, hseen, hnew⟩ := scanStaged_eq hs hpost.symm
  have hmem : ∀ e ∈ post.take hotIncrementalScanLimit, e ∈ post ∧ e ∈ c.pending := fun e he =>
    ⟨take_subset _ _ he, hpost ▸ mem_append_right _ (take_subset _ _ he)⟩
  have hsorted : (post.take hotIncrementalScanLimit).Pairwise fun a b => a.1 < b.1 := by
    have := c.pending_sorted
    rw [← hpost] at this
    exact (pairwise_append.mp this).2.1.take
  obtain ⟨s', happly, hreflects⟩ := hs.applyStaged _ hsorted (fun e he => hnew e (hmem e he).1)
    (fun e he => lt_of_mem_pending (hmem e he).2)
    fun e he => c.staged_dims e (mem_filter.mp (hmem e he).2).1
  have hcount : c.pending.countP (fun e => decide (e.1 ≤ s.lastScannedSeq)) = ops.length := by
    rw [← hpost, countP_append, countP_eq_length.mpr fun e he =>
      decide_eq_true (hseen e he), countP_eq_zero.mpr fun e he => by simpa using hnew e he]
    rfl
  refine ⟨s', hscan ▸ happly, ?_⟩
  rw [pending_seen]
  change s'.Reflects _ _ _ (c.pending.take (c.pending.countP _ + hotIncrementalScanLimit))
  rwa [hcount, ← hpost, take_length_add_append]

/-- A search of another dimension leaves a cache without vectors. -/
theorem index_of_ne (hcache : ∀ s ∈ cache, Coherent c s) {dimensions : ℕ}
    (hne : dimensions ≠ col.dimensions) :
    let s := prepare cache dimensions col.metric c.lastAppliedSeq
    let s' := (s.applyStaged c.lastAppliedSeq (s.scanStaged c.staged)).2
    s'.index = ∅ ∧ s'.dimensions = dimensions := by
  intro s
  have hs : s.index = ∅ ∧ s.dimensions = dimensions := by
    cases cache with
    | none => exact ⟨rfl, rfl⟩
    | some s =>
      simp only [prepare, s]
      split
      · exact ⟨rfl, rfl⟩
      rename_i hsame
      simp only [not_or, not_not] at hsame
      exact ⟨(hcache _ rfl).vacant (hsame.1 ▸ hne), hsame.1⟩
  have happlied := index_applyStaged hs.1 c.lastAppliedSeq (s.scanStaged c.staged)
    fun e he v hv => by
      rw [hs.2, c.staged_dims e (mem_filter.mp (take_subset _ _ he)).1 v hv]
      exact hne.symm
  exact ⟨happlied.1, happlied.2.trans hs.2⟩

/-! ### The rows that have a vector -/

theorem base_nodup (c : VectorContent F col) : (c.base.map Prod.fst).Nodup := by
  unfold base
  cases readSnapshot c.snapshotPath c.files with
  | none => exact nodup_nil
  | some file => exact file.pks_nodup

theorem mem_current : (pk, v) ∈ c.current ↔ c.vectorOf pk = some v := by
  simp only [current, mem_filterMap, Option.map_eq_some_iff, Prod.mk.injEq, mem_dedup]
  constructor
  · rintro ⟨_, -, v', hv, rfl, rfl⟩
    exact hv
  · refine fun hv => ⟨pk, ?_, v, hv, rfl, rfl⟩
    rw [vectorOf] at hv
    split at hv
    · next htouched =>
      obtain ⟨e, he, hpk⟩ := any_eq_true.mp htouched
      exact mem_append_left _ (mem_map.mpr ⟨e, he, beq_iff_eq.mp hpk⟩)
    · exact mem_append_right _ (KeyedList.lookup_isSome_iff.mp (by rw [hv]; rfl))

theorem current_nodup (c : VectorContent F col) : c.current.Nodup := by
  refine (nodup_dedup _).filterMap fun pk pk' e he he' => ?_
  obtain ⟨v, -, rfl⟩ := Option.map_eq_some_iff.mp he
  obtain ⟨v', -, heq⟩ := Option.map_eq_some_iff.mp he'
  exact (congrArg Prod.fst heq).symm

theorem mem_indexEntries {s : HotCacheState F} :
    (pk, v) ∈ s.indexEntries ↔ s.index.lookup pk = some v := by
  rw [← Option.mem_def, mem_lookup_iff, HotCacheState.indexEntries, mem_map]
  exact ⟨fun ⟨e, he, heq⟩ => by cases heq; exact he, fun h => ⟨_, h, rfl⟩⟩

theorem indexEntries_nodup (s : HotCacheState F) : (s.indexEntries.map Prod.fst).Nodup := by
  rw [HotCacheState.indexEntries, map_map]
  exact s.index.nodupKeys

variable {s : HotCacheState F}

/-- Up to date with all pending operations. -/
abbrev UpToDate (c : VectorContent F col) (s : HotCacheState F) : Prop :=
  s.Reflects col.dimensions col.metric c.lastAppliedSeq c.pending

theorem touched_iff (hs : c.UpToDate s) (pk : String) :
    pk ∈ s.latestSeqByPk.keys ↔ c.pending.any (·.2.pk == pk) = true := by
  rw [← AList.mem_keys, hs.touched]
  simp

theorem current_ids_nodup (c : VectorContent F col) : (c.current.map Prod.fst).Nodup := by
  refine c.current_nodup.map_on ?_
  rintro ⟨pk, v⟩ hv ⟨_, v'⟩ hv' rfl
  rw [mem_current] at hv hv'
  rw [Option.some.inj (hv.symm.trans hv')]

/-- The rows that have a vector: those of an up-to-date cache, and those of the snapshot that no
pending operation touches. -/
theorem current_perm (hs : c.UpToDate s) :
    c.current.Perm (c.base.filter (fun e => !s.latestSeqByPk.keys.contains e.1) ++
      s.indexEntries) := by
  have hindex : ∀ pk v, (pk, v) ∈ s.indexEntries → pk ∈ s.latestSeqByPk.keys := by
    intro pk v h
    rw [mem_indexEntries, hs.vector] at h
    obtain ⟨e, he, -⟩ := Option.bind_eq_some_iff.mp h
    obtain ⟨hmem, hpk⟩ := mem_filter.mp (mem_of_getLast? he)
    exact (touched_iff hs pk).mpr (any_eq_true.mpr ⟨e, hmem, hpk⟩)
  refine (perm_ext_iff_of_nodup c.current_nodup ?_).mpr fun ⟨pk, v⟩ => ?_
  · refine nodup_append.mpr ⟨c.base_nodup.of_map.filter _, (indexEntries_nodup s).of_map, ?_⟩
    rintro ⟨pk, v⟩ hbase _ hi rfl
    simpa [hindex pk v hi] using (mem_filter.mp hbase).2
  · rw [mem_current, mem_append, mem_filter, vectorOf,
      KeyedList.mem_iff_lookup_eq_some c.base_nodup]
    by_cases h : pk ∈ s.latestSeqByPk.keys
    · rw [if_pos ((touched_iff hs pk).mp h), mem_indexEntries, hs.vector]
      simp [h]
    rw [if_neg fun ht => h ((touched_iff hs pk).mpr ht)]
    have hnot : (pk, v) ∉ s.indexEntries := fun hi => h (hindex pk v hi)
    simp [h, hnot]

end VectorContent

/-! ### The ranking -/

section

variable {order : String → ℕ} [LinearOrder D] {distance : VectorMetric → List F → List F → D}

/-- Candidates with distinct row ids are all kept. -/
theorem bestDistanceByPk_perm {candidates : List (Candidate D)}
    (hplaced : ∀ e ∈ candidates, candidate order (ofLex e).1 (pkOf e) = e)
    (h : (candidates.map pkOf).Nodup) :
    ((bestDistanceByPk candidates).entries.map fun e => candidate order e.2 e.1).Perm
      candidates := by
  -- the fold adds to what is there, as long as the next row ids are new
  suffices hfold : ∀ (add : (AList fun _ : String => D) → Candidate D → AList fun _ : String => D),
      (∀ best e, pkOf e ∉ best → add best e = best.insert (pkOf e) (ofLex e).1) →
      ∀ (l : List (Candidate D)) best, (∀ e ∈ l, candidate order (ofLex e).1 (pkOf e) = e) →
      (l.map pkOf).Nodup → (∀ e ∈ l, pkOf e ∉ best) →
      ((l.foldl add best).entries.map fun e => candidate order e.2 e.1).Perm
        (best.entries.map (fun e => candidate order e.2 e.1) ++ l) by
    refine hfold _ (fun best e hnew => ?_) candidates ∅ hplaced h fun e _ => notMem_empty _
    rw [lookup_eq_none.mpr hnew]
  intro add hadd l
  induction l with
  | nil => simp
  | cons e l ih =>
    intro best hplaced hnodup hnew
    obtain ⟨hfirst, hrest⟩ := nodup_cons.mp hnodup
    have hnone := hnew e mem_cons_self
    rw [foldl_cons, hadd best e hnone]
    refine (ih _ (fun e' he' => hplaced e' (mem_cons_of_mem e he')) hrest
      fun e' he' hmem => ?_).trans ?_
    · rcases (mem_insert _).mp hmem with heq | hmem
      · exact hfirst (mem_map.mpr ⟨e', he', heq⟩)
      · exact hnew e' (mem_cons_of_mem e he') hmem
    · rw [entries_insert_of_notMem hnone, map_cons, hplaced e mem_cons_self]
      exact perm_middle.symm

namespace VectorContent

variable {n : ℕ} {queryVector : List F} {cache : Option (HotCacheState F)}
  {score : VectorMetric → D → S} {args : VectorSearchArgs F}

theorem search_candidates_eq (s : HotCacheState F) (queryVector : List F) (n : ℕ) :
    (s.search order distance queryVector n).candidates = smallest (n + s.latestSeqByPk.keys.length)
        (s.indexEntries.map (measure order distance s.metric queryVector)) := by
  simp only [search]
  split
  · next h =>
    rcases Bool.or_eq_true_iff.mp h with h | h
    · rw [isEmpty_iff.mp h]
      simp [smallest]
    · rw [beq_iff_eq.mp h]
      rfl
  · rfl

theorem search_touchedPks (s : HotCacheState F) (queryVector : List F) (n : ℕ) :
    (s.search order distance queryVector n).touchedPks = s.latestSeqByPk.keys := by
  simp only [search]
  split <;> rfl

omit [LinearOrder D] in
/-- Rows with distinct ids hold each of some ids once at most. -/
theorem countP_pkOf_le {l : List (Candidate D)} (hl : (l.map pkOf).Nodup) (keys : List String) :
    l.countP (fun e => !!keys.contains (pkOf e)) ≤ keys.length := by
  have hkeys : (l.filter fun e => !!keys.contains (pkOf e)).map pkOf ⊆ keys := by
    intro pk hpk
    obtain ⟨e, he, rfl⟩ := mem_map.mp hpk
    simpa using (mem_filter.mp he).2
  rw [countP_eq_length_filter]
  simpa using (subperm_of_subset (hl.sublist (filter_sublist.map _)) hkeys).length_le

/-- **The candidates of both indexes rank like all vectors.** -/
theorem rank_eq (hs : c.UpToDate s) (queryVector : List F) {k : ℕ} (hkn : k ≤ n) :
    rank order ((smallest (n + s.latestSeqByPk.keys.length)
        (c.base.map (measure order distance col.metric queryVector))).filter
          (fun e => !s.latestSeqByPk.keys.contains (pkOf e)) ++
        (s.search order distance queryVector n).candidates) k =
      smallest k (c.measured order distance queryVector) := by
  rw [search_candidates_eq, hs.metric_eq]
  let cold := c.base.map (measure order distance col.metric queryVector)
  let hot := s.indexEntries.map (measure order distance col.metric queryVector)
  let untouched : Candidate D → Bool := fun e => !s.latestSeqByPk.keys.contains (pkOf e)
  have hperm : (c.measured order distance queryVector).Perm (cold.filter untouched ++ hot) := by
    have hmap := (current_perm hs).map (measure order distance col.metric queryVector)
    rw [map_append] at hmap
    exact filter_map ▸ hmap
  have hids : ((cold.filter untouched ++ hot).map pkOf).Nodup := by
    rw [← (hperm.map _).nodup_iff, measured, map_map]
    exact c.current_ids_nodup
  have hall := hids.of_map
  obtain ⟨-, hhot, hapart⟩ := nodup_append.mp hall
  have hbase : (cold.map pkOf).Nodup := by
    rw [map_map]
    exact c.base_nodup
  let candidates := (smallest (n + s.latestSeqByPk.keys.length) cold).filter untouched ++
    smallest (n + s.latestSeqByPk.keys.length) hot
  have hcold : ∀ x ∈ (smallest (n + s.latestSeqByPk.keys.length) cold).filter untouched,
      x ∈ cold.filter untouched := fun x hx =>
    mem_filter.mpr ⟨mem_of_mem_smallest (mem_filter.mp hx).1, (mem_filter.mp hx).2⟩
  have hsub : candidates ⊆ cold.filter untouched ++ hot :=
    append_subset.mpr ⟨fun x hx => mem_append_left _ (hcold x hx),
      fun x hx => mem_append_right _ (mem_of_mem_smallest hx)⟩
  have hcandidates : candidates.Nodup := nodup_append.mpr
    ⟨(nodup_smallest hbase.of_map).filter _, nodup_smallest hhot, fun x hx y hy =>
      hapart x (hcold x hx) y (mem_of_mem_smallest hy)⟩
  have hrejected : cold.countP (fun e => !untouched e) ≤ s.latestSeqByPk.keys.length :=
    countP_pkOf_le hbase _
  have hplaced : ∀ e ∈ candidates, candidate order (ofLex e).1 (pkOf e) = e := by
    intro e he
    rcases mem_append.mp (hsub he) with he | he
    · obtain ⟨-, -, rfl⟩ := mem_map.mp (mem_filter.mp he).1
      rfl
    · obtain ⟨-, -, rfl⟩ := mem_map.mp he
      rfl
  have hbest : ((bestDistanceByPk candidates).entries.map fun e => candidate order e.2 e.1).Perm
      candidates := bestDistanceByPk_perm hplaced (hcandidates.map_on fun x hx y hy =>
        inj_on_of_nodup_map hids (hsub hx) (hsub hy))
  rw [rank, smallest_congr hbest, smallest_congr hperm]
  refine smallest_eq_of_candidates hall hcandidates hsub fun x hx hnot => ?_
  rw [countP_append]
  rw [mem_append, not_or] at hnot
  rcases mem_append.mp hx with hx | hx
  · obtain ⟨hxcold, huntouched⟩ := mem_filter.mp hx
    have := le_countP_filter_of_notMem hbase.of_map hxcold
      (fun h => hnot.1 (mem_filter.mpr ⟨h, huntouched⟩)) hrejected
    omega
  · have hmany := (mem_smallest_iff hhot).not.mp hnot.2
    have : ¬hot.countP (fun a => decide (a < x)) < n + s.latestSeqByPk.keys.length :=
      fun h => hmany ⟨hx, h⟩
    omega

theorem resolveScope_metadata (henabled : col.enabled = true) :
    resolveScope .shared (some c.metadata) =
      .ok (some ⟨col.metric, c.lastAppliedSeq, c.snapshotPath⟩) := by
  simp [resolveScope, metadata, henabled]

theorem readSnapshot_filter_eq_none (hlen : queryVector.length = col.dimensions) :
    (readSnapshot c.snapshotPath c.files).filter (·.dimensions ≠ queryVector.length) = none := by
  cases h : readSnapshot c.snapshotPath c.files with
  | none => rfl
  | some file => simp [(c.snapshot_ok file h).1, hlen]

theorem baseCandidates_eq (c : VectorContent F col) (queryVector : List F) (n : ℕ)
    (touchedPks : List String) :
    baseCandidates order distance (readSnapshot c.snapshotPath c.files) queryVector n touchedPks =
      (smallest n (c.base.map (measure order distance col.metric queryVector))).filter
        fun e => !touchedPks.contains (pkOf e) := by
  unfold base
  cases h : readSnapshot c.snapshotPath c.files with
  | none => simp [baseCandidates, smallest]
  | some file =>
    simp only [baseCandidates, VixSnapshotFile.search, (c.snapshot_ok file h).2]
    rfl

section

variable (hcache : ∀ s ∈ cache, Coherent c s)
include hcache

/-- **A search leaves a coherent cache.** -/
theorem coherent_searchHotCandidates (queryVector : List F) (n : ℕ) :
    ∀ s ∈ (searchHotCandidates order distance c.staged cache c.lastAppliedSeq col.metric queryVector
      n).2, Coherent c s := by
  have hkept : Coherent c
      ((prepare cache queryVector.length col.metric c.lastAppliedSeq).applyStaged c.lastAppliedSeq
        ((prepare cache queryVector.length col.metric c.lastAppliedSeq).scanStaged
          c.staged)).2 := by
    by_cases hlen : queryVector.length = col.dimensions
    · obtain ⟨s', happly, hs⟩ := exists_applyStaged hcache
      rw [hlen, happly]
      have hseen : (c.seen cache).pending <+: c.pending := pending_seen c cache ▸ take_prefix _ _
      exact ⟨fun _ _ _ => ⟨_, hseen, hs⟩, fun h => absurd hs.dimensions_eq h⟩
    · obtain ⟨hempty, hdims⟩ := index_of_ne hcache hlen
      exact ⟨fun h => absurd (hdims.symm.trans h) hlen, fun _ => hempty⟩
  unfold searchHotCandidates
  split
  · exact hcache
  · dsimp only
    split <;> next happly =>
      rintro s ⟨⟩
      rwa [happly] at hkept

/-- **A search of the column's dimension ranks the vectors that it sees**, filters the first of them
and returns as many as the limit allows. -/
theorem vectorSearch_eq (henabled : col.enabled = true)
    (hlen : args.queryVector.length = col.dimensions)
    (physicalFilter : Option (String × S → Bool)) (limit : Option ℕ) :
    (c.vectorSearch order distance score cache args physicalFilter limit).1 =
      .ok (finalizeDeferredBatch
        ((smallest (vectorScanLimits physicalFilter.isSome args.topK limit).1
          ((c.seen cache).measured order distance args.queryVector)).map fun e =>
            (pkOf e, score col.metric (ofLex e).1))
        physicalFilter (vectorScanLimits physicalFilter.isSome args.topK limit).2) := by
  obtain ⟨s', happly, hs⟩ := exists_applyStaged hcache
  have hhot : ∀ n, searchHotCandidates order distance c.staged cache c.lastAppliedSeq col.metric
      args.queryVector n = (.ok (s'.search order distance args.queryVector n), some s') := by
    intro n
    have hne : args.queryVector.isEmpty = false := by simpa using args.queryVector_ne
    simp only [searchHotCandidates, hne, Bool.false_eq_true, ↓reduceIte, hlen, happly]
  have hlimit : ∀ k, k ≤ candidateLimit k := fun k => le_max_right _ _
  simp only [vectorSearch, produceBatch, resolveScope_metadata henabled,
    readSnapshot_filter_eq_none hlen, hhot, search_touchedPks, baseCandidates_eq]
  rw [← rank_eq hs args.queryVector (hlimit _)]
  rfl

/-- A search of another dimension finds nothing in the staged operations. -/
theorem candidates_of_ne (hlen : queryVector.length ≠ col.dimensions) {hot : HotSearchResult D}
    (hhot : (searchHotCandidates order distance c.staged cache c.lastAppliedSeq
      col.metric queryVector n).1 = .ok hot) : hot.candidates = [] := by
  have hempty := (index_of_ne hcache hlen).1
  unfold searchHotCandidates at hhot
  split at hhot
  · cases hhot
    rfl
  dsimp only at hhot
  split at hhot
  · cases hhot
  rename_i s' happly
  cases hhot
  rw [happly] at hempty
  rw [search_candidates_eq, HotCacheState.indexEntries, hempty]
  simp [smallest]

end

theorem finalizeDeferredBatch_nil {R : Type} (physicalFilter : Option (R → Bool))
    (limit : Option ℕ) : finalizeDeferredBatch [] physicalFilter limit = [] := by
  cases physicalFilter <;> cases limit <;> simp [finalizeDeferredBatch]

/-- A search of another dimension, or without an index, returns no row. -/
theorem rows_eq_nil (hcache : ∀ s ∈ cache, Coherent c s)
    (h : col.enabled = true → args.queryVector.length ≠ col.dimensions)
    {physicalFilter : Option (String × S → Bool)} {limit : Option ℕ} {rows : List (String × S)}
    (hrows : (c.vectorSearch order distance score cache args physicalFilter limit).1 = .ok rows) :
    rows = [] := by
  cases henabled : col.enabled with
  | false =>
    simp only [vectorSearch, metadata, henabled] at hrows
    exact (Except.ok.inj hrows).symm.trans (finalizeDeferredBatch_nil _ _)
  | true =>
    have hlen := h henabled
    simp only [vectorSearch, produceBatch, resolveScope_metadata henabled] at hrows
    split at hrows
    · cases hrows
    rename_i hnone
    -- a snapshot would have been rejected
    have hbase : readSnapshot c.snapshotPath c.files = none := by
      cases hfile : readSnapshot c.snapshotPath c.files with
      | none => rfl
      | some file => simp [hfile, (c.snapshot_ok file hfile).1, hlen.symm] at hnone
    split at hrows
    · cases hrows
    rename_i hot _ hhot
    have hcandidates := candidates_of_ne hcache hlen (congrArg Prod.fst hhot)
    rw [← Except.ok.inj hrows, hbase, hcandidates]
    simp [baseCandidates, rank, bestDistanceByPk, smallest, finalizeDeferredBatch_nil]

end VectorContent

end

end KalamDB.Vector
