import KalamDB.Lib.KeyedList
import KalamDB.Transactions.OverlayScan

/-!
# Reading your own writes

The staged table, compared key by key with the overlay (`StandsFor`), and with it the rows a
scan inside the transaction returns. The scan looks at the overlay only for keys that the
committed scan returned and for keys the transaction inserted. `Covers` says, for each committed
row and the changes staged for it, when that is enough; without a limit it is exact, and under a
limit the matching rows have to stay besides (`reads_own_writes_iff`).
-/

namespace KalamDB.Transactions

open Raft KeyedList List ScopedPkKey TransactionOverlay TransactionOverlayEntry

/-! ### The staged table, key by key -/

theorem lookup_applyStaged (rows : List KeyedRow) (m : StagedMutation) (key : String) :
    (applyStaged rows m).lookup key =
      if key = m.primaryKey then stagedRow (rows.lookup key) m else rows.lookup key := by
  unfold applyStaged stagedRow
  split
  · rw [lookup_filter_ne]
  split
  · rw [lookup_append, lookup_filter_ne, lookup_cons_eq]
    by_cases hkey : key = m.primaryKey <;> simp [hkey]
  · exact lookup_map_at rows m.primaryKey key fun row => mergeRow row m.payload

theorem lookup_foldl_applyStaged (staged : List StagedMutation) (rows : List KeyedRow)
    (key : String) : (staged.foldl applyStaged rows).lookup key =
      (staged.filter fun m => decide (key = m.primaryKey)).foldl stagedRow (rows.lookup key) := by
  induction staged generalizing rows with
  | nil => rfl
  | cons m staged ih =>
    rw [foldl_cons, ih, lookup_applyStaged]
    by_cases hkey : key = m.primaryKey <;> simp [hkey]

theorem nodup_applyStaged {rows : List KeyedRow} (h : (rows.map Prod.fst).Nodup)
    (m : StagedMutation) : ((applyStaged rows m).map Prod.fst).Nodup := by
  have hkept : ((rows.filter fun x => decide (x.1 ≠ m.primaryKey)).map Prod.fst).Nodup :=
    h.sublist (filter_sublist.map Prod.fst)
  unfold applyStaged
  split
  · exact hkept
  split
  · rw [map_append, nodup_append]
    refine ⟨hkept, nodup_singleton _, ?_⟩
    simp
  · rwa [map_fst_map_at rows m.primaryKey fun row => mergeRow row m.payload]

namespace TransactionScan

variable (s : TransactionScan) {e : TransactionOverlayEntry} {key : String} {x y : KeyedRow}
  {rows : List KeyedRow} {α : Type}

theorem standsFor_foldl (staged : List StagedMutation) (overlay : TransactionOverlay)
    (rows : List KeyedRow) (key : String) (h : StandsFor (s.committed.lookup key)
      ((overlay.entriesByTable s.tableId).lookup ⟨s.overlayUser, key⟩) (rows.lookup key)) :
    StandsFor (s.committed.lookup key)
      (((staged.foldl applyEntry overlay).entriesByTable s.tableId).lookup ⟨s.overlayUser, key⟩)
      (((staged.filter s.concerns).foldl applyStaged rows).lookup key) := by
  induction staged generalizing overlay rows with
  | nil => exact h
  | cons m staged ih =>
    by_cases hconcerns : s.concerns m = true
    · rw [filter_cons_of_pos hconcerns]
      refine ih _ _ ?_
      obtain ⟨htable, huser⟩ : m.tableId = s.tableId ∧
          (forEntry m).userId = s.overlayUser := by simpa [concerns] using hconcerns
      rw [lookup_applyEntry, lookup_applyStaged]
      by_cases hkey : key = m.primaryKey
      · have hscoped : forEntry m = ⟨s.overlayUser, key⟩ := by
          rw [← huser, hkey, ← forEntry_primaryKey m]
        rw [if_pos ⟨htable, hscoped⟩, if_pos hkey]
        exact h.mergeEntry m
      · have hscoped : forEntry m ≠ ⟨s.overlayUser, key⟩ := fun heq =>
          hkey (by rw [← forEntry_primaryKey m, heq])
        rw [if_neg fun hsame => hscoped hsame.2, if_neg hkey]
        exact h
    · rw [filter_cons_of_neg hconcerns]
      refine ih _ _ ?_
      have hother : ¬(m.tableId = s.tableId ∧ forEntry m = ⟨s.overlayUser, key⟩) :=
        fun hsame => hconcerns (by simp [concerns, hsame.1, hsame.2])
      rw [lookup_applyEntry, if_neg hother]
      exact h

/-- The effective entry of every key stands for its row of the staged table. -/
theorem standsFor (key : String) :
    StandsFor (s.committed.lookup key) (s.entry key) (s.stagedTable.lookup key) :=
  s.standsFor_foldl s.staged (.new s.transactionId) s.committed key rfl

/-- The row of a key as the transaction sees it: the changes staged for the key, applied in order
to its committed row. -/
def stagedAt (key : String) : Option Row :=
  (((s.staged.filter s.concerns).filter fun m => decide (key = m.primaryKey)).foldl stagedRow
    (s.committed.lookup key)).map (conform s.schema)

theorem stagedAt_eq (key : String) :
    s.stagedAt key = (s.stagedTable.lookup key).map (conform s.schema) := by
  rw [stagedAt, stagedTable, lookup_foldl_applyStaged]

theorem nodup_stagedTable : (s.stagedTable.map Prod.fst).Nodup :=
  foldlRecOn (motive := fun rows : List KeyedRow => (rows.map Prod.fst).Nodup) _ _
    s.keys_nodup fun _ h m _ => nodup_applyStaged h m

/-! ### The rows the transaction inserted -/

/-- The effective entry is a live insert. -/
def isInsert (entry : TransactionOverlayEntry) : Bool :=
  !TransactionOverlayEntry.isDeleted entry && decide (entry.operationKind = .insert)

theorem entries_keyed : s.overlay.EntriesKeyed fun m => m ∈ s.staged :=
  TransactionOverlay.EntriesKeyed.foldl (fun tableId key entry h => by simp [new] at h) fun _ h => h

theorem inserted_exact : s.overlay.InsertedKeysExact :=
  TransactionOverlay.InsertedKeysExact.foldl (fun tableId key => by simp [new]) s.staged

theorem primaryKey_of_entry (h : s.entry key = some e) : e.primaryKey = key := by
  obtain ⟨-, hkey, -⟩ := s.entries_keyed s.tableId _ e h
  rw [← forEntry_primaryKey e, hkey]

/-- An entry of the table is of the scanned scope when its user passes the scan's test. -/
theorem scope_of_entry {key : ScopedPkKey} (h : s.entries.lookup key = some e) :
    (s.overlayUser = none ∨ e.userId = s.overlayUser) ↔ key.userId = s.overlayUser := by
  obtain ⟨htable, rfl, m, hm, hmtable, hmtype⟩ := s.entries_keyed s.tableId key e h
  rcases s.kinds m hm (hmtable.trans htable) with ⟨htype, huser⟩ | ⟨htype, huser⟩
  all_goals
    rw [hmtype] at htype
    simp [forEntry, htype, huser]

theorem mem_insertedEntries {key : ScopedPkKey} :
    ⟨key, e⟩ ∈ s.insertedEntries ↔ key = ⟨s.overlayUser, e.primaryKey⟩ ∧
      s.entry e.primaryKey = some e ∧ isInsert e = true := by
  rw [insertedEntries, mem_filter, ← AList.mem_lookup_iff]
  simp only [Bool.and_eq_true, Bool.or_eq_true, decide_eq_true_eq, Option.isNone_iff_eq_none]
  have hexact : s.entries.lookup key = some e →
      (key ∈ s.overlay.insertedKeys s.tableId ↔ isInsert e = true) := by
    intro hlookup
    have hentry : (s.overlay.entriesByTable s.tableId).lookup key = some e := hlookup
    simp [s.inserted_exact s.tableId key, hentry, isInsert]
  constructor
  · rintro ⟨hlookup, hinserted, hscope⟩
    obtain ⟨-, hfor, -⟩ := s.entries_keyed s.tableId key e hlookup
    have hkey : key = ⟨s.overlayUser, e.primaryKey⟩ := by
      rw [← (s.scope_of_entry hlookup).mp hscope, ← forEntry_primaryKey e, hfor]
    refine ⟨hkey, ?_, (hexact hlookup).mp hinserted⟩
    rw [entry, ← hkey, hlookup]
  · rintro ⟨rfl, hlookup, hinsert⟩
    exact ⟨hlookup, (hexact hlookup).mpr hinsert, (s.scope_of_entry hlookup).mpr rfl⟩

theorem mem_inserted : e ∈ s.inserted ↔ s.entry e.primaryKey = some e ∧ isInsert e = true := by
  rw [inserted, mem_insertionSort, mem_map]
  constructor
  · rintro ⟨⟨key, e⟩, he, rfl⟩
    exact (s.mem_insertedEntries.mp he).2
  · exact fun h => ⟨⟨⟨s.overlayUser, e.primaryKey⟩, e⟩, s.mem_insertedEntries.mpr ⟨rfl, h⟩, rfl⟩

/-- Two inserted rows have different keys. -/
theorem nodup_inserted : (s.inserted.map fun e => e.primaryKey).Nodup := by
  have hsorted : s.inserted.Perm (s.insertedEntries.map Sigma.snd) := perm_insertionSort _ _
  rw [(hsorted.map _).nodup_iff, map_map]
  refine List.Nodup.map_on ?_ (s.entries.nodupKeys.nodup.filter _)
  rintro ⟨key, e⟩ ha ⟨key', e'⟩ hb hkeys
  obtain ⟨rfl, hentry, -⟩ := s.mem_insertedEntries.mp ha
  obtain ⟨rfl, hentry', -⟩ := s.mem_insertedEntries.mp hb
  have hsame : e.primaryKey = e'.primaryKey := hkeys
  rw [hsame, hentry', Option.some.injEq] at hentry
  subst hentry
  rfl

/-! ### The rows of the scan -/

theorem mem_matching :
    x ∈ s.matching rows ↔
      s.filter x.2 = true ∧ ∃ row, (x.1, row) ∈ rows ∧ conform s.schema row = x.2 := by
  rw [matching, mem_filter, mem_map, and_comm]
  refine and_congr_right fun _ => ⟨?_, ?_⟩
  · rintro ⟨y, hy, rfl⟩
    exact ⟨y.2, hy, rfl⟩
  · rintro ⟨row, hrow, hx⟩
    exact ⟨(x.1, row), hrow, by rw [hx]⟩

theorem nodup_matching (h : (rows.map Prod.fst).Nodup) :
    ((s.matching rows).map Prod.fst).Nodup := by
  refine List.Nodup.sublist (filter_sublist.map Prod.fst) ?_
  rw [map_map]
  exact h

variable (limit : Option ℕ)

theorem takeLimit_sublist (rows : List α) : (takeLimit limit rows).Sublist rows := by
  cases limit with
  | none => exact List.Sublist.refl rows
  | some n => exact take_sublist n rows

theorem length_takeLimit (rows : List α) : (takeLimit limit rows).length = match limit with
      | none => rows.length
      | some n => min n rows.length := by
  cases limit with
  | none => rfl
  | some n => exact length_take

theorem base_sublist : s.base.Sublist s.committed := (takeLimit_sublist _ _).trans filter_sublist

theorem nodup_base : (s.base.map Prod.fst).Nodup :=
  s.keys_nodup.sublist (s.base_sublist.map Prod.fst)

theorem filter_of_mem_base (h : x ∈ s.base) : s.filter x.2 = true := by
  have hmem : x ∈ s.committed.filter fun x => s.filter x.2 := (takeLimit_sublist _ _).subset h
  exact (mem_filter.mp hmem).2

theorem fst_of_overlaid (h : s.overlaid x = some y) : y.1 = x.1 := by
  unfold overlaid at h
  split at h
  · rw [← Option.some.inj h]
  split at h
  · cases h
  · rw [← Option.some.inj h]

theorem mem_appended :
    x ∈ s.appended ↔ x.1 ∉ s.base.map Prod.fst ∧ ∃ e, s.entry x.1 = some e ∧ isInsert e = true ∧
      overlayPayloadWithoutInventedVersion e.payload = x.2 := by
  simp only [appended, mem_map, mem_filter, mem_inserted]
  constructor
  · rintro ⟨e, ⟨⟨hentry, hinsert⟩, hbase⟩, rfl⟩
    exact ⟨by simpa using hbase, e, hentry, hinsert, rfl⟩
  · rintro ⟨hbase, e, hentry, hinsert, hrow⟩
    have hkey := s.primaryKey_of_entry hentry
    exact ⟨e, ⟨⟨hkey ▸ hentry, hinsert⟩, by simpa [hkey] using hbase⟩, by rw [hkey, hrow]⟩

theorem nodup_merged : (s.merged.map Prod.fst).Nodup := by
  rw [merged, map_append, nodup_append]
  have hsublist : ((s.base.filterMap s.overlaid).map Prod.fst).Sublist (s.base.map Prod.fst) :=
    map_filterMap_sublist fun _ _ _ => s.fst_of_overlaid
  refine ⟨s.nodup_base.sublist hsublist, ?_, ?_⟩
  · rw [appended, map_map]
    exact s.nodup_inserted.sublist (filter_sublist.map _)
  · rintro key hkey key' hkey' rfl
    obtain ⟨x, hx, rfl⟩ := mem_map.mp hkey'
    exact (s.mem_appended.mp hx).1 (hsublist.subset hkey)

/-! ### The rows it should return -/

theorem mem_expected :
    x ∈ s.expected ↔ s.filter x.2 = true ∧ s.stagedAt x.1 = some x.2 := by
  rw [expected, mem_matching, stagedAt_eq, Option.map_eq_some_iff]
  simp only [mem_iff_lookup_eq_some s.nodup_stagedTable]

/-- An inserted row is in the staged table as it was inserted. -/
theorem mem_expected_of_isInsert (hentry : s.entry x.1 = some e) (hinsert : isInsert e = true) :
    x ∈ s.expected ↔ s.filter x.2 = true ∧
      conform s.schema (overlayPayloadWithoutInventedVersion e.payload) = x.2 := by
  obtain ⟨hlive, hkind⟩ : ¬isDeleted e = true ∧ e.operationKind = .insert := by
    simpa [isInsert] using hinsert
  have hstands := s.standsFor x.1
  rw [hentry, StandsFor, if_neg hlive, if_pos hkind] at hstands
  obtain ⟨row, hlookup, hsame⟩ := hstands
  have hconform : conform s.schema row =
      conform s.schema (overlayPayloadWithoutInventedVersion e.payload) := by
    simp only [conform, hsame _]
  rw [mem_expected, stagedAt_eq, hlookup, ← hconform]
  simp

/-- A committed row without staged changes is a row of the staged table. -/
theorem stagedAt_of_untouched (hx : x ∈ s.committed) (hentry : s.entry x.1 = none) :
    s.stagedAt x.1 = some x.2 := by
  have hstands := s.standsFor x.1
  rw [hentry, (mem_iff_lookup_eq_some s.keys_nodup).mp hx] at hstands
  rw [stagedAt_eq, hstands, Option.map_some, s.conformed x hx]

/-- A key that is neither committed nor inserted has no row. -/
theorem stagedAt_of_absent (hkey : s.committed.lookup key = none)
    (hentry : (s.entry key).any isInsert = false) : s.stagedAt key = none := by
  have hstands := s.standsFor key
  rw [stagedAt_eq, Option.map_eq_none_iff]
  rw [hkey] at hstands
  cases hlookup : s.entry key with
  | none =>
    rw [hlookup] at hstands
    exact hstands
  | some e =>
    rw [hlookup] at hstands hentry
    rw [StandsFor] at hstands
    cases hdeleted : isDeleted e with
    | true => rwa [if_pos hdeleted] at hstands
    | false =>
      have hkind : ¬e.operationKind = .insert := by simpa [isInsert, hdeleted] using hentry
      rw [hdeleted, if_neg Bool.false_ne_true, if_neg hkind] at hstands
      rcases hstands with hnone | ⟨c, -, hc, -⟩
      · exact hnone
      · cases hc

/-! ### When the two agree -/

/-- **What the overlay can answer**: a condition on every committed row, the changes staged for its
key and the filter. -/
structure Covers : Prop where
  /-- No staged change of a row that matches puts a null where the schema refuses it. -/
  changed_fit : ∀ x ∈ s.committed, s.filter x.2 = true → ∀ e, s.entry x.1 = some e →
    TransactionOverlayEntry.isDeleted e = false →
      fitsSchema s.schema (mergeRow x.2 e.payload) = true
  /-- Nor does an inserted row. -/
  inserted_fit : ∀ key e, (∀ x ∈ s.committed, s.filter x.2 = true → x.1 ≠ key) →
    s.entry key = some e → isInsert e = true →
      fitsSchema s.schema (overlayPayloadWithoutInventedVersion e.payload) = true
  /-- A row that matches and was staged anew looks as if it had only been changed. -/
  staged_anew : ∀ x ∈ s.committed, s.filter x.2 = true → ∀ e, s.entry x.1 = some e →
    TransactionOverlayEntry.isDeleted e = false →
      (s.stagedAt x.1).filter s.filter =
        (some (conform s.schema (mergeRow x.2 e.payload))).filter s.filter
  /-- A row that does not match is not changed into one that does. -/
  changed_in : ∀ x ∈ s.committed, s.filter x.2 = false → ∀ e, s.entry x.1 = some e →
    isInsert e = false → (s.stagedAt x.1).filter s.filter = none

/-- What a limited scan needs besides: no matching row is deleted or changed into one that does not
match, since the committed scan returns no row in its place. -/
structure KeepsMatches : Prop where
  kept : ∀ x ∈ s.committed, s.filter x.2 = true → ∀ e, s.entry x.1 = some e →
    TransactionOverlayEntry.isDeleted e = false ∧
      s.filter (conform s.schema (mergeRow x.2 e.payload)) = true
  inserted_fit : ∀ key e, s.entry key = some e → isInsert e = true →
    fitsSchema s.schema (overlayPayloadWithoutInventedVersion e.payload) = true

theorem overlaid_of_live (h : s.entry x.1 = some e) (hlive : isDeleted e = false) :
    s.overlaid x = some (x.1, mergeRow x.2 e.payload) := by
  simp [overlaid, h, hlive]

/-- The two ways in which a scanned row stays a row. -/
theorem overlaid_eq_some_iff :
    s.overlaid x = some y ↔ s.entry x.1 = none ∧ x = y ∨
      ∃ e, s.entry x.1 = some e ∧ isDeleted e = false ∧
        (x.1, mergeRow x.2 e.payload) = y := by
  unfold overlaid
  cases hentry : s.entry x.1 with
  | none => simp
  | some e => cases hdeleted : isDeleted e <;> simp

variable {s} {row : Row}

/-- What the scan returns for a key that the committed scan returned. -/
theorem mem_matching_merged_of_base (hx : x ∈ s.base) :
    (x.1, row) ∈ s.matching s.merged ↔
      s.filter row = true ∧ ∃ y, s.overlaid x = some y ∧ conform s.schema y.2 = row := by
  rw [mem_matching]
  refine and_congr_right fun _ => ⟨?_, ?_⟩
  · rintro ⟨row', hrow', hconform⟩
    rcases mem_append.mp hrow' with hscanned | happended
    · obtain ⟨b, hb, hy⟩ := mem_filterMap.mp hscanned
      obtain rfl : b = x := inj_on_of_nodup_map s.nodup_base hb hx (s.fst_of_overlaid hy).symm
      exact ⟨_, hy, hconform⟩
    · exact absurd (mem_map_of_mem hx) (s.mem_appended.mp happended).1
  · rintro ⟨y, hy, hconform⟩
    refine ⟨y.2, mem_append_left _ (mem_filterMap.mpr ⟨x, hx, ?_⟩), hconform⟩
    rw [hy, ← s.fst_of_overlaid hy]

/-- What it returns for any other key. -/
theorem mem_matching_merged_of_not_base (hkey : key ∉ s.base.map Prod.fst) :
    (key, row) ∈ s.matching s.merged ↔ s.filter row = true ∧ ∃ e, s.entry key = some e ∧
      isInsert e = true ∧
        conform s.schema (overlayPayloadWithoutInventedVersion e.payload) = row := by
  rw [mem_matching]
  refine and_congr_right fun _ => ⟨?_, ?_⟩
  · rintro ⟨row', hrow', hconform⟩
    rcases mem_append.mp hrow' with hscanned | happended
    · obtain ⟨b, hb, hy⟩ := mem_filterMap.mp hscanned
      exact absurd (mem_map.mpr ⟨b, hb, (s.fst_of_overlaid hy).symm⟩) hkey
    · obtain ⟨-, e, hentry, hinsert, rfl⟩ := s.mem_appended.mp happended
      exact ⟨e, hentry, hinsert, hconform⟩
  · rintro ⟨e, hentry, hinsert, hconform⟩
    exact ⟨_, mem_append_right _ (s.mem_appended.mpr ⟨hkey, e, hentry, hinsert, rfl⟩), hconform⟩

theorem mem_committed_of_base (h : x ∈ s.base) : x ∈ s.committed ∧ s.filter x.2 = true :=
  ⟨s.base_sublist.subset h, s.filter_of_mem_base h⟩

/-- The rows of the committed scan when the limit cuts none off. -/
theorem mem_base (h : s.base = s.committed.filter fun x => s.filter x.2) :
    x ∈ s.base ↔ x ∈ s.committed ∧ s.filter x.2 = true := by
  rw [h, mem_filter]

theorem not_mem_base_keys (h : s.base = s.committed.filter fun x => s.filter x.2) :
    key ∉ s.base.map Prod.fst ↔ ∀ x ∈ s.committed, s.filter x.2 = true → x.1 ≠ key := by
  simp only [mem_map, mem_base h, not_exists, not_and, and_imp]

/-- The merged rows fit, provided that the inserted ones do. -/
theorem Covers.merged_fit (h : s.Covers) (hinserted : ∀ key ∉ s.base.map Prod.fst, ∀ e,
      s.entry key = some e → isInsert e = true →
        fitsSchema s.schema (overlayPayloadWithoutInventedVersion e.payload) = true) :
    ∀ y ∈ s.merged, fitsSchema s.schema y.2 = true := by
  intro y hy
  rcases mem_append.mp hy with hy | hy
  · obtain ⟨x, hx, hy⟩ := mem_filterMap.mp hy
    obtain ⟨hcommitted, hmatches⟩ := mem_committed_of_base hx
    rcases s.overlaid_eq_some_iff.mp hy with ⟨-, rfl⟩ | ⟨e, hentry, hlive, rfl⟩
    · exact s.fits x hcommitted
    · exact h.changed_fit x hcommitted hmatches e hentry hlive
  · obtain ⟨hkey, e, hentry, hinsert, hrow⟩ := s.mem_appended.mp hy
    exact hrow ▸ hinserted y.1 hkey e hentry hinsert

/-- For a key of the committed scan, the scan returns the row of the staged table. -/
theorem Covers.mem_matching_iff (h : s.Covers) (hx : x ∈ s.base) :
    (x.1, row) ∈ s.matching s.merged ↔ (x.1, row) ∈ s.expected := by
  obtain ⟨hcommitted, hmatches⟩ := mem_committed_of_base hx
  rw [mem_matching_merged_of_base hx, mem_expected]
  refine and_congr_right fun hfilter => ?_
  cases hentry : s.entry x.1 with
  | none =>
    simp [overlaid, hentry, s.conformed x hcommitted, s.stagedAt_of_untouched hcommitted hentry]
  | some e =>
    cases hdeleted : isDeleted e with
    | true =>
      have hstands := s.standsFor x.1
      rw [hentry, StandsFor, if_pos hdeleted] at hstands
      simp [overlaid, hentry, hdeleted, stagedAt_eq, hstands]
    | false =>
      have hanew := h.staged_anew x hcommitted hmatches e hentry hdeleted
      have hsame := congrArg (· = some row) hanew
      simp only [Option.filter_eq_some_iff, hfilter, and_true, Option.some.injEq] at hsame
      simp [s.overlaid_of_live hentry hdeleted, hsame]

/-- What the scan returns is in the staged table. -/
theorem Covers.matching_subset (h : s.Covers) : s.matching s.merged ⊆ s.expected := by
  rintro ⟨key, row⟩ hmem
  by_cases hkey : key ∈ s.base.map Prod.fst
  · obtain ⟨x, hx, rfl⟩ := mem_map.mp hkey
    exact (h.mem_matching_iff hx).mp hmem
  · obtain ⟨hfilter, e, hentry, hinsert, hconform⟩ :=
      (mem_matching_merged_of_not_base hkey).mp hmem
    exact (s.mem_expected_of_isInsert hentry hinsert).mpr ⟨hfilter, hconform⟩

/-- With the whole committed scan at hand, the scan returns every row of the answer. -/
theorem Covers.expected_subset (h : s.Covers)
    (hbase : s.base = s.committed.filter fun x => s.filter x.2) :
    s.expected ⊆ s.matching s.merged := by
  rintro ⟨key, row⟩ hmem
  by_cases hkey : key ∈ s.base.map Prod.fst
  · obtain ⟨x, hx, rfl⟩ := mem_map.mp hkey
    exact (h.mem_matching_iff hx).mpr hmem
  obtain ⟨hfilter, hstaged⟩ := s.mem_expected.mp hmem
  by_cases hinsert : (s.entry key).any isInsert = true
  · obtain ⟨e, hentry, hinsert⟩ := (Option.any_eq_true _ _).mp hinsert
    exact (mem_matching_merged_of_not_base hkey).mpr
      ⟨hfilter, e, hentry, hinsert, ((s.mem_expected_of_isInsert hentry hinsert).mp hmem).2⟩
  rw [Bool.not_eq_true] at hinsert
  cases hcommitted : s.committed.lookup key with
  | none => rw [s.stagedAt_of_absent hcommitted hinsert] at hstaged; cases hstaged
  | some committed =>
    -- A committed row that does not match has no row in the answer.
    have hx := (mem_iff_lookup_eq_some s.keys_nodup (x := (key, committed))).mpr hcommitted
    have hother : s.filter committed = false := by
      by_contra hmatches
      exact (not_mem_base_keys hbase).mp hkey _ hx (by simpa using hmatches) rfl
    cases hentry : s.entry key with
    | none =>
      cases (s.stagedAt_of_untouched hx hentry).symm.trans hstaged
      rw [hother] at hfilter
      cases hfilter
    | some e =>
      rw [hentry] at hinsert
      have hnone := h.changed_in _ hx hother e hentry hinsert
      rw [hstaged, Option.filter_some, if_pos hfilter] at hnone
      cases hnone

variable (s) in
theorem readsOwnWrites_iff :
    s.ReadsOwnWrites ↔ (∀ x ∈ s.merged, fitsSchema s.schema x.2 = true) ∧
      IsLimitOf s.limit (takeLimit s.limit (s.matching s.merged)) s.expected := by
  rw [ReadsOwnWrites, execute, ← all_eq_true]
  split
  · next hfit => simp only [hfit, true_and, Except.ok.injEq, exists_eq_left']
  · next hfit => simp only [hfit, false_and, reduceCtorEq, exists_false]

variable (s) in
theorem nodup_matching_merged : (s.matching s.merged).Nodup :=
  .of_map _ (s.nodup_matching s.nodup_merged)

/-- It is enough to return as many rows of the answer as the limit asks for. -/
theorem Covers.isLimitOf (h : s.Covers)
    (hlength : (takeLimit s.limit (s.matching s.merged)).length =
      (takeLimit s.limit s.expected).length) :
    IsLimitOf s.limit (takeLimit s.limit (s.matching s.merged)) s.expected := by
  have hsublist := takeLimit_sublist s.limit (s.matching s.merged)
  exact ⟨(s.nodup_matching_merged.sublist hsublist).subperm fun _ hx =>
    h.matching_subset (hsublist.subset hx), hlength.trans (length_takeLimit s.limit s.expected)⟩

theorem Covers.readsOwnWrites (h : s.Covers)
    (hbase : s.base = s.committed.filter fun x => s.filter x.2) : s.ReadsOwnWrites := by
  refine s.readsOwnWrites_iff.mpr ⟨h.merged_fit fun key hkey e hentry hinsert =>
    h.inserted_fit key e ((not_mem_base_keys hbase).mp hkey) hentry hinsert, h.isLimitOf ?_⟩
  have hexpected : s.expected.Nodup := .of_map _ (s.nodup_matching s.nodup_stagedTable)
  have hperm : (s.matching s.merged).Perm s.expected :=
    (perm_ext_iff_of_nodup s.nodup_matching_merged hexpected).mpr fun x =>
      ⟨fun hx => h.matching_subset hx, fun hx => h.expected_subset hbase hx⟩
  rw [length_takeLimit, length_takeLimit, hperm.length_eq]

/-- Without a limit the condition is also necessary. -/
theorem ReadsOwnWrites.covers (h : s.ReadsOwnWrites) (hlimit : s.limit = none) : s.Covers := by
  have hbase : s.base = s.committed.filter fun x => s.filter x.2 := by rw [base, hlimit]; rfl
  obtain ⟨hfit, hsubperm, hlength⟩ := s.readsOwnWrites_iff.mp h
  rw [hlimit] at hsubperm hlength
  have hsame : ∀ {x}, x ∈ s.expected ↔ x ∈ s.matching s.merged :=
    (hsubperm.perm_of_length_le hlength.ge).mem_iff.symm
  refine ⟨fun x hx hmatches e hentry hlive => ?_, fun key e hkey hentry hinsert => ?_,
    fun x hx hmatches e hentry hlive => ?_, fun x hx hother e hentry hinsert => ?_⟩
  · exact hfit _ (mem_append_left _ (mem_filterMap.mpr
      ⟨x, (mem_base hbase).mpr ⟨hx, hmatches⟩, s.overlaid_of_live hentry hlive⟩))
  · exact hfit (key, _) (mem_append_right _ (s.mem_appended.mpr
      ⟨(not_mem_base_keys hbase).mpr hkey, e, hentry, hinsert, rfl⟩))
  · apply Option.ext
    intro row
    have hrow := hsame (x := (x.1, row))
    rw [mem_expected, mem_matching_merged_of_base ((mem_base hbase).mpr ⟨hx, hmatches⟩),
      s.overlaid_of_live hentry hlive] at hrow
    simpa [Option.filter_eq_some_iff, and_comm] using hrow
  · rw [Option.filter_eq_none_iff]
    intro row hstaged hfilter
    have hkey : x.1 ∉ s.base.map Prod.fst := by
      rw [not_mem_base_keys hbase]
      rintro y hy hmatches hkey
      rw [inj_on_of_nodup_map s.keys_nodup hy hx hkey, hother] at hmatches
      cases hmatches
    obtain ⟨-, e', hentry', hinsert', -⟩ := (mem_matching_merged_of_not_base hkey).mp
      (hsame.mp (s.mem_expected.mpr ⟨hfilter, hstaged⟩))
    cases hentry.symm.trans hentry'
    exact absurd hinsert' (by simp [hinsert])

/-- Under a limit, the rows of the committed scan already make up the answer, or it has cut none
off. -/
theorem Covers.readsOwnWrites_of_keeps (h : s.Covers) (hkeeps : s.KeepsMatches) :
    s.ReadsOwnWrites := by
  by_cases hbase : s.base = s.committed.filter fun x => s.filter x.2
  · exact h.readsOwnWrites hbase
  cases hlimit : s.limit with
  | none => exact absurd (by rw [base, hlimit]; rfl) hbase
  | some n =>
    have hbaseLength : s.base.length = n := by
      rw [base, hlimit, takeLimit] at hbase ⊢
      rw [length_take, Nat.min_eq_left]
      by_contra hlt
      exact hbase (take_of_length_le (Nat.le_of_not_le hlt))
    -- Every scanned row stays and matches, so there are at least as many rows.
    have hstays : s.base.map Prod.fst ⊆ (s.matching s.merged).map Prod.fst := by
      intro key hkey
      obtain ⟨x, hx, rfl⟩ := mem_map.mp hkey
      obtain ⟨hcommitted, hmatches⟩ := mem_committed_of_base hx
      have hy : ∃ y, s.overlaid x = some y ∧ s.filter (conform s.schema y.2) = true := by
        cases hentry : s.entry x.1 with
        | none =>
          refine ⟨x, by simp [overlaid, hentry], ?_⟩
          rwa [s.conformed x hcommitted]
        | some e =>
          obtain ⟨hlive, hfilter⟩ := hkeeps.kept x hcommitted hmatches e hentry
          exact ⟨_, s.overlaid_of_live hentry hlive, hfilter⟩
      obtain ⟨y, hy, hfilter⟩ := hy
      exact mem_map.mpr ⟨_, (mem_matching_merged_of_base hx).mpr ⟨hfilter, y, hy, rfl⟩, rfl⟩
    have hmatching := (s.nodup_base.subperm hstays).length_le
    have hexpected := (s.nodup_matching_merged.subperm h.matching_subset).length_le
    rw [length_map, length_map, hbaseLength] at hmatching
    refine s.readsOwnWrites_iff.mpr ⟨h.merged_fit fun key _ e => hkeeps.inserted_fit key e,
      h.isLimitOf ?_⟩
    simp only [length_takeLimit, hlimit]
    omega

variable (s)

end TransactionScan

/-! ### Writes that are not read -/

def ordersSchema : List ScanColumn :=
  [⟨"id", .null, false⟩, ⟨"state", .null, true⟩, ⟨"note", .null, true⟩,
    ⟨SystemColumnNames.VERSION, .int64 0, false⟩,
    ⟨SystemColumnNames.DELETED, .boolean false, false⟩]

def orderRow (pk state note : String) (version : Int64) : Row :=
  ⟨[("id", .utf8 pk), ("state", .utf8 state), ("note", .utf8 note),
    (SystemColumnNames.VERSION, .int64 version), (SystemColumnNames.DELETED, .boolean false)]⟩

def stageOrder (order : ℕ) (kind : OperationKind) (pk : String) (payload : Row) :
    StagedMutation where
  transactionId := "tx"
  mutationOrder := order
  tableId := ("shop", "orders")
  tableType := .shared
  userId := none
  operationKind := kind
  primaryKey := pk
  payload := payload
  tombstone := kind = .delete

/-- A scan of a table with an open order `a` and a closed order `b`, after staged changes. -/
def orderScan (staged : List (OperationKind × String × Row)) (filter : Row → Bool)
    (limit : Option ℕ) : TransactionScan where
  transactionId := "tx"
  tableId := ("shop", "orders")
  overlayUser := none
  schema := ordersSchema
  committed := [("a", orderRow "a" "open" "fragile" 10), ("b", orderRow "b" "closed" "" 11)]
  staged := staged.zipIdx.map fun m => stageOrder m.2 m.1.1 m.1.2.1 m.1.2.2
  filter := filter
  limit := limit
  keys_nodup := by decide
  conformed := by decide
  fits := by decide
  kinds := by
    intro m hm _
    obtain ⟨x, -, rfl⟩ := List.mem_map.mp hm
    exact .inl ⟨rfl, rfl⟩

/-- A scan for one order after `c` was inserted. -/
def scanAfterInsert : TransactionScan :=
  orderScan [(.insert, "c", ⟨[("id", .utf8 "c")]⟩)] (fun _ => true) (some 1)

end KalamDB.Transactions
