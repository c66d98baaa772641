import Mathlib.Data.List.Sort
import KalamDB.Flush.Shared

/-!
# What the flush's scan reads and drops

The scan loop of a flush interleaves three things: batches read from a moving cursor, a
winner map, and deletes of superseded keys from the very store that is being scanned. This
file separates them.

* **The fold.** Whatever sequence of rows is read, as long as it is ascending, the winner map
  holds the newest read row of each bucket, and the rows gone from the hot store (or queued
  to go) are exactly the `Dropped` ones: those superseded within their bucket, and those that
  were **read twice** (`Reads`, `Reads.foldl`).
* **The batches.** Deletes only ever hit rows at or before the cursor, so the batches are
  those of the unchanged store (`Frontier.scan_eq`). Each batch starts at the last key of the
  one before, so the rows at the positive multiples of `b - 1` are read twice. A batch size
  of one re-reads every row until the delete batch fills up and removes it.

`scanLoop_spec` puts the two together: the loop ends, it reads every row, and it reads a row
twice exactly at the batch boundaries.
-/

namespace KalamDB

open LatestVersion List HotStore SharedTableRow Nat

namespace ScanState

variable (pkField : String) (hot₀ : HotStore) {row r x c : SharedTableRow} {s : ScanState}
  {ρ batch l init rest : List SharedTableRow} {b : ℕ}

/-- A row is gone, or queued to go, after the rows `ρ` were read: a newer row of its bucket
was read, or it was read twice. -/
def Dropped (ρ : List SharedTableRow) (r : SharedTableRow) : Prop :=
  r ∈ ρ ∧
    (¬ IsNewest (flushBucket pkField) SharedTableRow.version {x | x ∈ ρ} r ∨ 2 ≤ ρ.count r)

/-- The hot store after the queued deletes. -/
def Retains (s : ScanState) (r : SharedTableRow) : Prop :=
  r ∈ s.hot.rows ∧ r.version ∉ s.superseded

/-- The state of the scan after the rows `ρ` of the store `hot₀` were read, in that order. -/
structure Reads (ρ : List SharedTableRow) (s : ScanState) : Prop where
  subset : ∀ r ∈ ρ, r ∈ hot₀.rows
  ascending : ρ.Pairwise fun a b => a.version ≤ b.version
  latest : Selects (flushBucket pkField) SharedTableRow.version s.latest {x | x ∈ ρ}
  retains_iff : ∀ r, s.Retains r ↔ r ∈ hot₀.rows ∧ ¬ Dropped pkField ρ r
  hot_subset : ∀ r ∈ s.hot.rows, r ∈ hot₀.rows
  superseded_lt : s.superseded.length < DELETE_BATCH_SIZE

variable {pkField hot₀}

/-! ### One row -/

/-- The winner map of the loop is a winner map. -/
theorem trackLatestVersion_fst (latest : LatestVersions) (row : SharedTableRow) :
    (trackLatestVersion latest row pkField).1 =
      insertWinner (flushBucket pkField) version latest row := by
  unfold trackLatestVersion insertWinner
  cases latest.lookup (flushBucket pkField row) with
  | none => rfl
  | some current =>
    dsimp only
    split_ifs <;> rfl

/-- **One row** enters the winner map, and costs the store at most the key that lost. -/
theorem processRow_spec (s : ScanState) (row : SharedTableRow) :
    (s.processRow pkField row).latest = (trackLatestVersion s.latest row pkField).1 ∧
      (s.processRow pkField row).cursor = s.cursor ∧
      (∀ r, (s.processRow pkField row).Retains r ↔
        s.Retains r ∧ (trackLatestVersion s.latest row pkField).2 ≠ some r.version) ∧
      (∀ r ∈ (s.processRow pkField row).hot.rows, r ∈ s.hot.rows) ∧
      (s.superseded.length < DELETE_BATCH_SIZE →
        (s.processRow pkField row).superseded.length < DELETE_BATCH_SIZE) := by
  unfold processRow
  rcases trackLatestVersion s.latest row pkField with ⟨latest, _ | displaced⟩
  · exact ⟨rfl, rfl, by simp [Retains], fun _ => id, id⟩
  have hne : ∀ r : SharedTableRow, some displaced ≠ some r.version ↔ r.version ≠ displaced := by
    intro r
    rw [ne_eq, Option.some.injEq]
    exact ne_comm
  dsimp only
  split_ifs with hfull
  · refine ⟨rfl, rfl, fun r => ?_, fun r hr => (mem_deleteBatch.mp hr).1, fun _ => zero_lt_succ _⟩
    simp only [Retains, mem_deleteBatch, mem_append, mem_singleton,
      not_mem_nil, not_false_eq_true, and_true, not_or, hne]
    exact and_assoc.symm
  · refine ⟨rfl, rfl, fun r => ?_, fun _ => id, fun _ => not_le.mp hfull⟩
    simp only [Retains, mem_append, mem_singleton, not_or, hne]
    exact and_assoc.symm

/-- `Dropped` with the superseding row named. -/
theorem dropped_iff :
    Dropped pkField ρ r ↔ r ∈ ρ ∧
      ((∃ x ∈ ρ, flushBucket pkField x = flushBucket pkField r ∧ r.version < x.version) ∨
        2 ≤ ρ.count r) := by
  unfold Dropped IsNewest
  refine and_congr_right fun hr => or_congr_left ?_
  simp only [Set.mem_ofPred_eq, hr, true_and, not_forall, not_le, exists_prop]

/-- Reading a row that no earlier one exceeds drops the older rows of its bucket, and the row
itself if it had been read. -/
theorem dropped_concat (hle : ∀ x ∈ ρ, x.version ≤ row.version) :
    Dropped pkField (ρ ++ [row]) r ↔ Dropped pkField ρ r ∨
      r ∈ ρ ∧ flushBucket pkField row = flushBucket pkField r ∧
        (r.version < row.version ∨ r = row) := by
  simp only [dropped_iff, mem_append, mem_singleton, count_append, count_singleton, beq_iff_eq]
  constructor
  · rintro ⟨hr, ⟨x, hx, hb, hlt⟩ | hcount⟩
    · have hxrow : x.version ≤ row.version := hx.elim (hle x) fun heq => heq ▸ le_rfl
      have hrρ : r ∈ ρ := hr.resolve_right fun heq => not_lt.mpr hxrow (heq ▸ hlt)
      rcases hx with hx | rfl
      · exact .inl ⟨hrρ, .inl ⟨x, hx, hb, hlt⟩⟩
      · exact .inr ⟨hrρ, hb, .inl hlt⟩
    · split_ifs at hcount with heq
      · subst heq
        exact .inr ⟨one_le_count_iff.mp (by omega), rfl, .inr rfl⟩
      · exact .inl ⟨hr.resolve_right fun h => heq h.symm, .inr hcount⟩
  · rintro (⟨hr, ⟨x, hx, hlt⟩ | hcount⟩ | ⟨hr, hb, hlt | rfl⟩)
    · exact ⟨.inl hr, .inl ⟨x, .inl hx, hlt⟩⟩
    · exact ⟨.inl hr, .inr (hcount.trans (le_add_right _ _))⟩
    · exact ⟨.inl hr, .inl ⟨row, .inr rfl, hb, hlt⟩⟩
    · have hone : 1 ≤ ρ.count r := one_le_count_iff.mpr hr
      exact ⟨.inl hr, .inr (by rw [if_pos rfl]; omega)⟩

section

variable (h : Reads pkField hot₀ ρ s)
include h

theorem Reads.versionsIdentify :
    VersionsIdentify (flushBucket pkField) version {x | x ∈ ρ} :=
  fun r hr x hx _ hv => eq_of_version_eq (h.subset r hr) (h.subset x hx) hv

/-- The version that `trackLatestVersion` returns is that of the bucket's winner so far. -/
theorem Reads.trackLatestVersion_snd (hle : ∀ x ∈ ρ, x.version ≤ row.version) (hr : r ∈ hot₀.rows) :
    (trackLatestVersion s.latest row pkField).2 = some r.version ↔
      s.latest.lookup (flushBucket pkField row) = some r := by
  unfold trackLatestVersion
  cases hcur : s.latest.lookup (flushBucket pkField row) with
  | none => simp
  | some current =>
    have hcρ : current ∈ ρ := (h.latest.sound _ _ hcur).1
    have hiff : current.version = r.version ↔ current = r :=
      ⟨eq_of_version_eq (h.subset current hcρ) hr, congrArg _⟩
    dsimp only
    split_ifs with hlt
    · simp [hiff]
    · -- a row that is not newer is the current one, read again
      have heq : row.version = current.version := le_antisymm (not_lt.mp hlt) (hle current hcρ)
      simp [heq, hiff]

/-- **One row read.** Beyond what was dropped already, reading a row that no earlier one
exceeds drops exactly the version that `trackLatestVersion` returns. -/
theorem Reads.dropped_concat_iff (hrow : row ∈ hot₀.rows)
    (hle : ∀ x ∈ ρ, x.version ≤ row.version) (hr : r ∈ hot₀.rows) :
    Dropped pkField (ρ ++ [row]) r ↔
      Dropped pkField ρ r ∨ (trackLatestVersion s.latest row pkField).2 = some r.version := by
  rw [dropped_concat hle, h.trackLatestVersion_snd hle hr,
    h.latest.lookup_eq_some_iff h.versionsIdentify]
  constructor
  · rintro (hdrop | ⟨hrρ, hb, -⟩)
    · exact .inl hdrop
    · by_cases hnew : IsNewest (flushBucket pkField) version {x | x ∈ ρ} r
      · exact .inr ⟨hb.symm, hnew⟩
      · exact .inl ⟨hrρ, .inl hnew⟩
  · rintro (hdrop | ⟨hb, hnew⟩)
    · exact .inl hdrop
    · exact .inr ⟨hnew.1, hb.symm, (hle r hnew.1).lt_or_eq.imp_right (eq_of_version_eq hr hrow)⟩

end

theorem Reads.start : Reads pkField hot₀ [] (ScanState.start hot₀) where
  subset := by simp
  ascending := List.Pairwise.nil
  latest := by simpa [ScanState.start] using Selects.empty
  retains_iff r := by simp [Retains, ScanState.start, Dropped]
  hot_subset r hr := hr
  superseded_lt := zero_lt_succ _

theorem Reads.concat (h : Reads pkField hot₀ ρ s) (hrow : row ∈ hot₀.rows)
    (hle : ∀ x ∈ ρ, x.version ≤ row.version) :
    Reads pkField hot₀ (ρ ++ [row]) (s.processRow pkField row) := by
  obtain ⟨hlatest, -, hretains, hhot, hsuperseded⟩ := s.processRow_spec row
  refine ⟨forall_mem_append.mpr ⟨h.subset, forall_mem_singleton.mpr hrow⟩,
    pairwise_append.mpr ⟨h.ascending, pairwise_singleton _ _, by simpa using hle⟩, ?_, fun r => ?_,
    fun r hr => h.hot_subset r (hhot r hr), hsuperseded h.superseded_lt⟩
  · have hset : {x | x ∈ ρ ++ [row]} = insert row {x | x ∈ ρ} := by
      ext x
      simp [or_comm]
    rw [hlatest, trackLatestVersion_fst, hset]
    exact h.latest.insertWinner row
  · rw [hretains, h.retains_iff, and_assoc]
    refine and_congr_right fun hr => ?_
    rw [h.dropped_concat_iff hrow hle hr, not_or]

/-- **The fold over a batch.** -/
theorem Reads.foldl (h : Reads pkField hot₀ ρ s) (hmem : ∀ r ∈ batch, r ∈ hot₀.rows)
    (hasc : (ρ ++ batch).Pairwise fun a b => a.version ≤ b.version) :
    Reads pkField hot₀ (ρ ++ batch) (batch.foldl (processRow pkField) s) := by
  induction batch generalizing ρ s with
  | nil => simpa using h
  | cons row batch ih =>
    have hle : ∀ x ∈ ρ, x.version ≤ row.version := fun x hx =>
      (pairwise_append.mp hasc).2.2 x hx row mem_cons_self
    have hassoc : ρ ++ row :: batch = (ρ ++ [row]) ++ batch := by simp
    rw [hassoc] at hasc ⊢
    exact ih (h.concat (hmem row mem_cons_self) hle)
      (fun r hr => hmem r (mem_cons_of_mem _ hr)) hasc

@[simp]
theorem foldl_processRow_cursor (batch : List SharedTableRow) (s : ScanState) :
    (batch.foldl (processRow pkField) s).cursor = s.cursor := by
  induction batch generalizing s with
  | nil => rfl
  | cons row batch ih => rw [foldl_cons, ih, (s.processRow_spec row).2.1]

/-- Moving the cursor reads nothing. -/
theorem Reads.setCursor (h : Reads pkField hot₀ ρ s) (c : Option VersionId) :
    Reads pkField hot₀ ρ { s with cursor := c } :=
  ⟨h.subset, h.ascending, h.latest, h.retains_iff, h.hot_subset, h.superseded_lt⟩

/-! ### Batches of at least two rows -/

variable (pkField hot₀) in
/-- The scan before a batch: `l` are the rows the cursor has in front of it, of which only the
first may have been read, once, as the last row of the batch before. -/
structure Frontier (ρ l : List SharedTableRow) (s : ScanState) : Prop where
  reads : Reads pkField hot₀ ρ s
  subset : ∀ r ∈ l, r ∈ hot₀.rows
  sorted : l.Pairwise fun a b => a.version < b.version
  mem_iff : ∀ r ∈ hot₀.rows, r ∈ l ↔ HotStore.atOrAfter s.cursor r
  ahead : ∀ r ∈ ρ, ∀ x ∈ l, r.version ≤ x.version
  fresh : ∀ x ∈ l.tail, x ∉ ρ
  once : ∀ x ∈ l.head?, ρ.count x ≤ 1

theorem Frontier.start : Frontier pkField hot₀ [] hot₀.rows (ScanState.start hot₀) where
  reads := Reads.start
  subset r hr := hr
  sorted := hot₀.sorted
  mem_iff r hr := by simp [ScanState.start, atOrAfter, hr]
  ahead := by simp
  fresh := by simp
  once := by simp

section

variable (h : Frontier pkField hot₀ ρ l s)
include h

theorem Frontier.nodup : l.Nodup := h.sorted.imp fun hlt heq => absurd (heq ▸ hlt) (lt_irrefl _)

/-- Rows in front of the cursor are still in the store: the deletes lag behind. -/
theorem Frontier.not_dropped (hx : x ∈ l) : ¬ Dropped pkField ρ x := by
  rintro ⟨hxρ, hnew | hcount⟩
  · exact hnew ⟨hxρ, fun r hr _ => h.ahead r hr x hx⟩
  · obtain ⟨head, tail, rfl⟩ := exists_cons_of_ne_nil (ne_nil_of_mem hx)
    rcases mem_cons.mp hx with rfl | hx
    · have hle := h.once x rfl
      omega
    · exact h.fresh x hx hxρ

/-- The batch is the one of the unchanged store. -/
theorem Frontier.scan_eq (b : ℕ) : s.hot.scan s.cursor b = l.take b := by
  have hfilter : s.hot.rows.filter (atOrAfter s.cursor) = l := by
    refine (s.hot.sorted.filter _).eq_of_mem_iff h.sorted fun r => ?_
    rw [mem_filter]
    constructor
    · rintro ⟨hr, hat⟩
      exact (h.mem_iff r (h.reads.hot_subset r hr)).mpr hat
    · intro hr
      have hhot : r ∈ hot₀.rows := h.subset r hr
      exact ⟨((h.reads.retains_iff r).mpr ⟨hhot, h.not_dropped hr⟩).1, (h.mem_iff r hhot).mp hr⟩
  rw [scan, hfilter]

theorem Frontier.ascending_append (hsub : batch.Sublist l) :
    (ρ ++ batch).Pairwise fun a b => a.version ≤ b.version :=
  pairwise_append.mpr ⟨h.reads.ascending, (h.sorted.sublist hsub).imp fun hlt => hlt.le,
    fun r hr x hx => h.ahead r hr x (hsub.subset hx)⟩

end

/-- After a full batch the last row read is the first one in front of the cursor. -/
theorem Frontier.next (h : Frontier pkField hot₀ ρ (init ++ x :: rest) s) (hinit : init ≠ []) :
    Frontier pkField hot₀ (ρ ++ (init ++ [x])) (x :: rest)
      ((init ++ [x]).foldl (processRow pkField) { s with cursor := some x.version }) := by
  obtain ⟨-, hsorted, hbefore⟩ := pairwise_append.mp h.sorted
  have hafter : ∀ y ∈ x :: rest, x.version ≤ y.version :=
    forall_mem_cons.mpr ⟨le_rfl, fun y hy => ((pairwise_cons.mp hsorted).1 y hy).le⟩
  have hsub : (init ++ [x]).Sublist (init ++ x :: rest) := by simp
  have hx : x ∈ init ++ x :: rest := mem_append_right init mem_cons_self
  refine ⟨(h.reads.setCursor _).foldl (fun r hr => h.subset r (hsub.subset hr))
    (h.ascending_append hsub), fun r hr => h.subset r (mem_append_right init hr), hsorted,
    fun r hr => ?_, fun r hr y hy => ?_, fun y hy => ?_, ?_⟩
  · rw [foldl_processRow_cursor, atOrAfter, decide_eq_true_eq]
    refine ⟨hafter r, fun hle => ?_⟩
    have hmem : r ∈ init ++ x :: rest := by
      refine (h.mem_iff r hr).mpr ?_
      have hat := (h.mem_iff x (h.subset x hx)).mp hx
      revert hat
      cases s.cursor with
      | none => exact id
      | some c =>
        simp only [atOrAfter, decide_eq_true_eq]
        exact fun hc => hc.trans hle
    exact (mem_append.mp hmem).resolve_left fun hr =>
      not_le.mpr (hbefore r hr x mem_cons_self) hle
  · rcases mem_append.mp hr with hr | hr
    · exact h.ahead r hr y (mem_append_right init hy)
    rcases mem_append.mp hr with hr | hr
    · exact (hbefore r hr y hy).le
    rw [mem_singleton.mp hr]
    exact hafter y hy
  all_goals
    obtain ⟨first, init, rfl⟩ := exists_cons_of_ne_nil hinit
    have hnodup : (first :: init ++ [x] ++ rest).Nodup := by simpa using h.nodup
  · intro hmem
    rcases mem_append.mp hmem with hmem | hmem
    · exact h.fresh y (mem_append_right init (mem_cons_of_mem x hy)) hmem
    · exact (nodup_append.mp hnodup).2.2 y hmem y hy rfl
  · rintro _ ⟨⟩
    have hunread : ρ.count x = 0 :=
      count_eq_zero.mpr (h.fresh x (mem_append_right init mem_cons_self))
    rw [count_append, hunread, zero_add]
    exact nodup_iff_count_le_one.mp (nodup_append.mp hnodup).1 x

/-- **The loop with batches of at least two rows** reads what is in front of the cursor, and
reads a row twice exactly at the batch boundaries. -/
theorem Frontier.scanLoop (h : Frontier pkField hot₀ ρ l s) (hb : 2 ≤ b) (fuel : ℕ)
    (hfuel : l.length < fuel) :
    ∃ s' ρ', scanLoop pkField b fuel s = some s' ∧ Reads pkField hot₀ (ρ ++ ρ') s' ∧
      (∀ r, r ∈ ρ' ↔ r ∈ l) ∧
      ∀ i r, l[i]? = some r → (2 ≤ ρ'.count r ↔ 0 < i ∧ (b - 1) ∣ i) := by
  induction fuel generalizing ρ l s with
  | zero => omega
  | succ fuel ih =>
    have hnodup := h.nodup
    rw [ScanState.scanLoop, h.scan_eq]
    rcases Nat.lt_or_ge l.length b with hshort | hfull
    · -- a short batch is the rest of the store
      have htake : l.take b = l := take_of_length_le hshort.le
      rw [htake]
      cases hl : l.getLast? with
      | none =>
        obtain rfl : l = [] := getLast?_eq_none_iff.mp hl
        exact ⟨s, [], rfl, by simpa using h.reads, by simp, by simp⟩
      | some last =>
        dsimp only
        rw [if_pos hshort]
        refine ⟨_, l, rfl, (h.reads.setCursor _).foldl h.subset
          (h.ascending_append (List.Sublist.refl l)), fun r => Iff.rfl, fun i r hi => ?_⟩
        have hone : l.count r ≤ 1 := nodup_iff_count_le_one.mp hnodup r
        refine iff_of_false (by omega) ?_
        rintro ⟨hpos, hdvd⟩
        obtain ⟨hi, -⟩ := List.getElem?_eq_some_iff.mp hi
        exact absurd (Nat.le_of_dvd hpos hdvd) (by omega)
    · -- a full batch: its last row is the first of the next one
      obtain ⟨init, x, rest, rfl, hinit⟩ :
          ∃ init x rest, l = init ++ x :: rest ∧ init.length = b - 1 := by
        have hlast : b - 1 < l.length := by omega
        refine ⟨l.take (b - 1), l[b - 1], l.drop (b - 1 + 1), ?_, by rw [length_take]; omega⟩
        rw [← drop_eq_getElem_cons hlast, take_append_drop]
      obtain rfl : b = init.length + 1 := by omega
      rw [take_length_add_append, take_succ_cons, take_zero, getLast?_concat]
      dsimp only
      rw [if_neg (by simp)]
      rw [length_append, length_cons] at hfuel
      obtain ⟨s', ρ', hloop, hreads, hmem, hcount⟩ :=
        ih (h.next (length_pos_iff.mp (by omega))) (by rw [length_cons]; omega)
      refine ⟨s', init ++ [x] ++ ρ', hloop, by rwa [← append_assoc], fun r => ?_, fun i r hi => ?_⟩
      · simp only [mem_append, hmem, mem_cons]
        tauto
      have hbatch : (init ++ [x] ++ rest).Nodup := by simpa using hnodup
      rw [count_append, (nodup_append.mp hbatch).1.count]
      rcases lt_trichotomy i init.length with hlt | rfl | hgt
      · -- strictly inside the batch
        rw [getElem?_append_left hlt] at hi
        have hr := mem_of_getElem? hi
        have hrest : ρ'.count r = 0 := count_eq_zero.mpr fun hρ' =>
          (nodup_append.mp hnodup).2.2 r hr r ((hmem r).mp hρ') rfl
        rw [if_pos (mem_append_left _ hr)]
        refine iff_of_false (by omega) ?_
        rintro ⟨hpos, hdvd⟩
        exact Nat.not_dvd_of_pos_of_lt hpos hlt hdvd
      · -- the boundary row itself
        obtain rfl : x = r := by simpa using hi
        have hagain : 0 < ρ'.count x := count_pos_iff.mpr ((hmem x).mpr mem_cons_self)
        rw [if_pos (by simp)]
        exact iff_of_true (by omega) ⟨by omega, dvd_rfl⟩
      · rw [getElem?_append_right hgt.le] at hi
        have hiff := hcount (i - init.length) r hi
        obtain ⟨j, hj⟩ : ∃ j, i - init.length = j + 1 := ⟨i - init.length - 1, by omega⟩
        rw [hj] at hi
        rw [if_neg fun hr => (nodup_append.mp hbatch).2.2 r hr r (mem_of_getElem? hi) rfl,
          Nat.zero_add, hiff, Nat.add_sub_cancel, Nat.dvd_sub_self_right]
        constructor
        · rintro ⟨-, hdvd | hle⟩
          · exact ⟨by omega, hdvd⟩
          · omega
        · rintro ⟨-, hdvd⟩
          exact ⟨by omega, .inl hdvd⟩

/-! ### Batches of one row -/

variable (pkField hot₀) in
/-- The scan with a batch size of one: the cursor stands on `c`, `l` are the rows after it, and
every row before it has been read twice. -/
structure AtRow (ρ : List SharedTableRow) (c : SharedTableRow) (l : List SharedTableRow)
    (s : ScanState) : Prop where
  reads : Reads pkField hot₀ ρ s
  cursor : s.cursor = some c.version
  mem : c ∈ ρ
  le : ∀ r ∈ ρ, r.version ≤ c.version
  subset : ∀ r ∈ l, r ∈ hot₀.rows
  sorted : l.Pairwise fun a b => a.version < b.version
  mem_iff : ∀ r ∈ hot₀.rows, r ∈ l ↔ c.version < r.version
  twice : ∀ r ∈ hot₀.rows, r.version < c.version → 2 ≤ ρ.count r

section

variable (h : AtRow pkField hot₀ ρ c l s)
include h

theorem AtRow.mem_hot₀ : c ∈ hot₀.rows := h.reads.subset c h.mem

theorem AtRow.isNewest : IsNewest (flushBucket pkField) version {x | x ∈ ρ} c :=
  ⟨h.mem, fun r hr _ => h.le r hr⟩

/-- Once the cursor row has left the store it was read twice. -/
theorem AtRow.twice_of_notMem (hc : c ∉ s.hot.rows) : 2 ≤ ρ.count c := by
  have hdropped : Dropped pkField ρ c := by
    by_contra hnot
    exact hc ((h.reads.retains_iff c).mpr ⟨h.mem_hot₀, hnot⟩).1
  exact hdropped.2.resolve_left fun hnew => hnew h.isNewest

theorem AtRow.twice_of_le (hc : c ∉ s.hot.rows) (hr : r ∈ hot₀.rows)
    (hle : r.version ≤ c.version) : 2 ≤ ρ.count r := by
  rcases hle.lt_or_eq with hlt | heq
  · exact h.twice r hr hlt
  · obtain rfl := eq_of_version_eq hr h.mem_hot₀ heq
    exact h.twice_of_notMem hc

/-- The store in front of the cursor: the cursor row, unless it is gone, and the rest. -/
theorem AtRow.scan_eq :
    s.hot.scan s.cursor 1 = ((if c ∈ s.hot.rows then [c] else []) ++ l).take 1 := by
  have hunread : ∀ r ∈ l, r ∈ s.hot.rows := by
    intro r hr
    have hlt := (h.mem_iff r (h.subset r hr)).mp hr
    refine ((h.reads.retains_iff r).mpr ⟨h.subset r hr, fun hd => ?_⟩).1
    exact not_le.mpr hlt (h.le r hd.1)
  have hfilter : s.hot.rows.filter (atOrAfter s.cursor) =
      (if c ∈ s.hot.rows then [c] else []) ++ l := by
    refine (s.hot.sorted.filter _).eq_of_mem_iff ?_ fun r => ?_
    · refine pairwise_append.mpr ⟨?_, h.sorted, fun a ha r hr => ?_⟩
      · split_ifs
        · exact pairwise_singleton _ _
        · exact List.Pairwise.nil
      · split_ifs at ha
        · rw [mem_singleton.mp ha]
          exact (h.mem_iff r (h.subset r hr)).mp hr
        · cases ha
    · rw [mem_filter, mem_append, h.cursor, atOrAfter, decide_eq_true_eq]
      constructor
      · rintro ⟨hr, hle⟩
        have hr₀ := h.reads.hot_subset r hr
        rcases hle.lt_or_eq with hlt | heq
        · exact .inr ((h.mem_iff r hr₀).mpr hlt)
        · obtain rfl := eq_of_version_eq h.mem_hot₀ hr₀ heq
          simp [hr]
      · rintro (hr | hr)
        · split_ifs at hr with hc
          · rw [mem_singleton.mp hr]
            exact ⟨hc, le_rfl⟩
          · cases hr
        · exact ⟨hunread r hr, ((h.mem_iff r (h.subset r hr)).mp hr).le⟩
  rw [scan, hfilter]

/-- Reading the cursor row again. -/
theorem AtRow.again :
    AtRow pkField hot₀ (ρ ++ [c]) c l
      (processRow pkField { s with cursor := some c.version } c)  where
  reads := (h.reads.setCursor _).concat h.mem_hot₀ h.le
  cursor := (processRow_spec _ c).2.1
  mem := mem_append_left _ h.mem
  le := forall_mem_append.mpr ⟨h.le, forall_mem_singleton.mpr le_rfl⟩
  subset := h.subset
  sorted := h.sorted
  mem_iff := h.mem_iff
  twice r hr hlt := (h.twice r hr hlt).trans (List.Sublist.count_le r (sublist_append_left ρ [c]))

end

/-- Going on to the next row, with every row before it read twice. -/
theorem Reads.enter (h : Reads pkField hot₀ ρ s) (hsub : ∀ r ∈ x :: l, r ∈ hot₀.rows)
    (hsorted : (x :: l).Pairwise fun a b => a.version < b.version)
    (hle : ∀ r ∈ ρ, r.version ≤ x.version)
    (hbefore : ∀ r ∈ hot₀.rows, r ∉ x :: l → r.version < x.version ∧ 2 ≤ ρ.count r) :
    AtRow pkField hot₀ (ρ ++ [x]) x l
      (processRow pkField { s with cursor := some x.version } x) := by
  obtain ⟨hxl, hl⟩ := pairwise_cons.mp hsorted
  refine ⟨(h.setCursor _).concat (hsub x mem_cons_self) hle, (processRow_spec _ x).2.1,
    mem_append_right _ (mem_singleton_self x),
    forall_mem_append.mpr ⟨hle, forall_mem_singleton.mpr le_rfl⟩,
    fun r hr => hsub r (mem_cons_of_mem _ hr), hl, fun r hr => ⟨hxl r, fun hlt => ?_⟩,
    fun r hr hlt => ?_⟩
  · have hmem : r ∈ x :: l := by
      by_contra hrl
      exact hlt.asymm (hbefore r hr hrl).1
    exact (mem_cons.mp hmem).resolve_left fun heq => lt_irrefl _ (heq ▸ hlt)
  · have hrl : r ∉ x :: l := by
      intro hmem
      rcases mem_cons.mp hmem with rfl | hrl
      · exact lt_irrefl _ hlt
      · exact hlt.asymm (hxl r hrl)
    exact (hbefore r hr hrl).2.trans (List.Sublist.count_le r (sublist_append_left ρ [x]))

/-- Going on to the next row once the cursor row is gone. -/
theorem AtRow.advance (h : AtRow pkField hot₀ ρ c (x :: l) s) (hc : c ∉ s.hot.rows) :
    AtRow pkField hot₀ (ρ ++ [x]) x l
      (processRow pkField { s with cursor := some x.version } x) := by
  have hcx : c.version < x.version := (h.mem_iff x (h.subset x mem_cons_self)).mp mem_cons_self
  refine h.reads.enter h.subset h.sorted (fun r hr => (h.le r hr).trans hcx.le) fun r hr hrl => ?_
  have hle : r.version ≤ c.version := not_lt.mp fun hlt => hrl ((h.mem_iff r hr).mpr hlt)
  exact ⟨hle.trans_lt hcx, h.twice_of_le hc hr hle⟩

/-- What is left to do: rows after the cursor, and re-reads until the delete batch is full. -/
def singleMeasure (c : SharedTableRow) (l : List SharedTableRow) (s : ScanState) : ℕ :=
  (DELETE_BATCH_SIZE + 2) * l.length +
    if c ∈ s.hot.rows then DELETE_BATCH_SIZE + 1 - s.superseded.length else 0

/-- A re-read queues the cursor row once more, or deletes it. -/
theorem AtRow.singleMeasure_again (h : AtRow pkField hot₀ ρ c l s) (hc : c ∈ s.hot.rows) :
    singleMeasure c l (processRow pkField { s with cursor := some c.version } c) <
      singleMeasure c l s := by
  have hlookup : s.latest.lookup (flushBucket pkField c) = some c :=
    (h.reads.latest.lookup_eq_some_iff h.reads.versionsIdentify).mpr ⟨rfl, h.isNewest⟩
  have htrack : trackLatestVersion s.latest c pkField = (s.latest, some c.version) := by
    simp [trackLatestVersion, hlookup]
  have hlt := h.reads.superseded_lt
  unfold singleMeasure processRow
  rw [htrack]
  dsimp only
  split_ifs with hfull hmem
  · exact absurd (mem_append_right _ (mem_singleton_self _)) (mem_deleteBatch.mp hmem).2
  · omega
  · rw [length_append, length_singleton]
    omega

/-- **The loop with batches of one row** reads every row at least twice. -/
theorem AtRow.scanLoop (h : AtRow pkField hot₀ ρ c l s) (fuel : ℕ)
    (hfuel : singleMeasure c l s < fuel) :
    ∃ s' ρ', scanLoop pkField 1 fuel s = some s' ∧ Reads pkField hot₀ ρ' s' ∧
      ∀ r ∈ hot₀.rows, 2 ≤ ρ'.count r := by
  induction fuel generalizing ρ l c s with
  | zero => omega
  | succ fuel ih =>
    rw [ScanState.scanLoop, h.scan_eq]
    by_cases hc : c ∈ s.hot.rows
    · rw [if_pos hc]
      exact ih h.again (lt_of_lt_of_le (h.singleMeasure_again hc) (Nat.lt_succ_iff.mp hfuel))
    rw [if_neg hc]
    cases l with
    | nil =>
      refine ⟨s, ρ, rfl, h.reads, fun r hr => h.twice_of_le hc hr (not_lt.mp fun hlt => ?_)⟩
      exact not_mem_nil ((h.mem_iff r hr).mpr hlt)
    | cons x l =>
      have hle : singleMeasure x l (processRow pkField { s with cursor := some x.version } x) ≤
          (DELETE_BATCH_SIZE + 2) * l.length + (DELETE_BATCH_SIZE + 1) := by
        unfold singleMeasure
        split_ifs <;> omega
      have hs : singleMeasure c (x :: l) s =
          (DELETE_BATCH_SIZE + 2) * l.length + (DELETE_BATCH_SIZE + 2) := by
        rw [singleMeasure, if_neg hc, length_cons, Nat.mul_succ, Nat.add_zero]
      have hdecreasing : singleMeasure x l
          (processRow pkField { s with cursor := some x.version } x) < fuel := by omega
      exact ih (h.advance hc) hdecreasing

/-! ### The whole scan -/

/-- The rows a scan of the store reads more than once: all of them with a batch size of one,
else those at the positive multiples of one less than the batch size. -/
def ReadTwice (batchSize : ℕ) (hot : HotStore) (r : SharedTableRow) : Prop :=
  r ∈ hot.rows ∧
    (batchSize = 1 ∨ ∃ i, hot.rows[i]? = some r ∧ 0 < i ∧ (batchSize - 1) ∣ i)

variable (pkField hot₀) in
/-- **The scan loop ends** with every row read, the boundary rows twice. -/
theorem scanLoop_spec (hb : 0 < b) :
    ∃ s ρ, scanLoop pkField b (scanFuel hot₀.rows.length) (.start hot₀) = some s ∧
      Reads pkField hot₀ ρ s ∧ (∀ r, r ∈ ρ ↔ r ∈ hot₀.rows) ∧
      ∀ r, 2 ≤ ρ.count r ↔ ReadTwice b hot₀ r := by
  have hfuel : scanFuel hot₀.rows.length =
      (DELETE_BATCH_SIZE + 2) * hot₀.rows.length + (DELETE_BATCH_SIZE + 1) + 1 := Nat.mul_succ _ _
  have hread : ∀ r (ρ : List SharedTableRow), 2 ≤ ρ.count r → r ∈ ρ :=
    fun r ρ h2 => one_le_count_iff.mp (by omega)
  have hstart : Frontier pkField hot₀ [] hot₀.rows (.start hot₀) := Frontier.start
  rcases Nat.lt_or_ge b 2 with hlt | hge
  · obtain rfl : b = 1 := by omega
    obtain ⟨s, ρ, hs, hreads, htwice⟩ :
        ∃ s ρ, scanLoop pkField 1 (scanFuel hot₀.rows.length) (.start hot₀) = some s ∧
          Reads pkField hot₀ ρ s ∧ ∀ r ∈ hot₀.rows, 2 ≤ ρ.count r := by
      rw [hfuel, scanLoop, hstart.scan_eq]
      cases hrows : hot₀.rows with
      | nil => exact ⟨_, [], rfl, Reads.start, by simp⟩
      | cons x l =>
        have hat : AtRow pkField hot₀ ([] ++ [x]) x l
            (processRow pkField { start hot₀ with cursor := some x.version } x) :=
          Reads.start.enter (fun r hr => hrows ▸ hr) (hrows ▸ hot₀.sorted) (by simp)
            fun r hr hrl => absurd (hrows ▸ hr) hrl
        obtain ⟨s, ρ, hs, hreads, htwice⟩ := hat.scanLoop
          ((DELETE_BATCH_SIZE + 2) * (x :: l).length + (DELETE_BATCH_SIZE + 1)) (by
            unfold singleMeasure
            rw [length_cons, Nat.mul_succ]
            split_ifs <;> omega)
        exact ⟨s, ρ, hs, hreads, by rwa [hrows] at htwice⟩
    have hmem : ∀ r, r ∈ ρ ↔ r ∈ hot₀.rows := fun r =>
      ⟨hreads.subset r, fun hr => hread r ρ (htwice r hr)⟩
    refine ⟨s, ρ, hs, hreads, hmem, fun r => ⟨fun h2 => ?_, fun h => htwice r h.1⟩⟩
    exact ⟨(hmem r).mp (hread r ρ h2), .inl rfl⟩
  · obtain ⟨s, ρ, hs, hreads, hmem, hcount⟩ :=
      hstart.scanLoop hge (scanFuel hot₀.rows.length) (by rw [hfuel, Nat.add_mul]; omega)
    refine ⟨s, ρ, hs, hreads, hmem, fun r => ?_⟩
    constructor
    · intro h2
      have hr : r ∈ hot₀.rows := (hmem r).mp (hread r ρ h2)
      obtain ⟨i, hi⟩ := mem_iff_getElem?.mp hr
      exact ⟨hr, .inr ⟨i, hi, (hcount i r hi).mp h2⟩⟩
    · rintro ⟨hr, rfl | ⟨i, hi, hpos, hdvd⟩⟩
      · omega
      · exact (hcount i r hi).mpr ⟨hpos, hdvd⟩

end ScanState

end KalamDB
