import Mathlib.Data.List.Sort
import KalamDB.Transactions.Overlay

/-!
# Reads inside a transaction

A scan inside a transaction runs the committed scan first, with the caller's filter and limit,
then lays the transaction's overlay over the rows it returned, and filters once more:

* a scanned row whose key has a staged entry is dropped or **merged** with the entry's payload;
* rows the transaction inserted are appended when their key was not scanned;
* staged updates of rows that were not scanned are left out.

A row is listed here with the text of its primary key, under which both sides look it up.
`stagedTable` is what the scan stands for: the staged mutations applied in order to the
committed rows. The two agree under the condition of `reads_own_writes_iff`.
-/

namespace KalamDB.Transactions

open Raft TransactionOverlayEntry TransactionOverlay

/-! ### Rows -/

variable {row : Row} {m : StagedMutation}

/-- A column of the scanned schema, with the value of a row that does not store it. -/
structure ScanColumn where
  name : String
  missing : ScalarValue
  nullable : Bool
  deriving DecidableEq

/-- A row with the text of its primary key. -/
abbrev KeyedRow : Type := String × Row

/-- A row as the record batch holds it: one cell for each column of the schema. -/
def conform (schema : List ScanColumn) (row : Row) : Row :=
  ⟨schema.map fun column => (column.name, (row.get column.name).getD column.missing)⟩

/-- A record batch refuses a null in a column that is not nullable. -/
def fitsSchema (schema : List ScanColumn) (row : Row) : Bool :=
  schema.all fun column =>
    column.nullable || decide ((row.get column.name).getD column.missing ≠ .null)

def fillMissingDeletedFlag (row : Row) : Row :=
  match row.get SystemColumnNames.DELETED with
  | none | some .null => row.insert SystemColumnNames.DELETED (.boolean false)
  | some _ => row

/-- Staged values laid over a row. The version of the row stays. -/
def mergeRow (base overlay : Row) : Row :=
  fillMissingDeletedFlag (base.mergeFrom (overlay.remove SystemColumnNames.VERSION))

/-- A staged row; it has no version before the commit. -/
def overlayPayloadWithoutInventedVersion (payload : Row) : Row :=
  fillMissingDeletedFlag (payload.remove SystemColumnNames.VERSION)

/-- The first rows up to a limit. -/
def takeLimit {α : Type} : Option ℕ → List α → List α
  | none, rows => rows
  | some n, rows => rows.take n

/-! ### The scan -/

/-- A scan of one table by a transaction. `committed` are the rows visible at the snapshot, in
scan order; `staged` are the mutations the transaction staged so far. -/
structure TransactionScan where
  transactionId : TransactionId
  tableId : TableId
  /-- The reading user of a user table. -/
  overlayUser : Option UserId
  schema : List ScanColumn
  committed : List KeyedRow
  staged : List StagedMutation
  filter : Row → Bool
  limit : Option ℕ
  keys_nodup : (committed.map Prod.fst).Nodup
  conformed : ∀ x ∈ committed, conform schema x.2 = x.2
  fits : ∀ x ∈ committed, fitsSchema schema x.2 = true
  kinds : ∀ m ∈ staged, m.tableId = tableId →
    m.tableType = .shared ∧ overlayUser = none ∨ m.tableType = .user ∧ overlayUser ≠ none

namespace TransactionScan

variable (s : TransactionScan)

def overlay : TransactionOverlay :=
  s.staged.foldl TransactionOverlay.applyEntry (.new s.transactionId)

def entries : TableEntries := s.overlay.entriesByTable s.tableId

/-- The effective entry of a key of the scanned scope. -/
def entry (key : String) : Option TransactionOverlayEntry := s.entries.lookup ⟨s.overlayUser, key⟩

/-- The committed scan: the filter, then the limit. -/
def base : List KeyedRow := takeLimit s.limit (s.committed.filter fun x => s.filter x.2)

/-- A scanned row under the overlay. -/
def overlaid (x : KeyedRow) : Option KeyedRow :=
  match s.entry x.1 with
  | none => some x
  | some entry =>
    if TransactionOverlayEntry.isDeleted entry then none
    else some (x.1, mergeRow x.2 entry.payload)

/-- The entries of rows inserted by the transaction, of the reading user in a user table. -/
def insertedEntries : List (Σ _ : ScopedPkKey, TransactionOverlayEntry) :=
  s.entries.entries.filter fun e =>
    decide (e.1 ∈ s.overlay.insertedKeys s.tableId) &&
      (s.overlayUser.isNone || decide (e.2.userId = s.overlayUser))

/-- The inserted rows in the order of their mutations. -/
def inserted : List TransactionOverlayEntry :=
  (s.insertedEntries.map Sigma.snd).insertionSort fun a b => a.mutationOrder ≤ b.mutationOrder

def appended : List KeyedRow :=
  (s.inserted.filter fun entry => decide (entry.primaryKey ∉ s.base.map Prod.fst)).map
    fun entry => (entry.primaryKey, overlayPayloadWithoutInventedVersion entry.payload)

def merged : List KeyedRow := s.base.filterMap s.overlaid ++ s.appended

/-- The rows that match, in the form of the record batch. -/
def matching (rows : List KeyedRow) : List KeyedRow :=
  (rows.map fun x => (x.1, conform s.schema x.2)).filter fun x => s.filter x.2

/-- **The scan**: the merged rows as a record batch, the filter once more, and the limit of the
query above. -/
def execute : Except String (List KeyedRow) :=
  if s.merged.all fun x => fitsSchema s.schema x.2 then
    .ok (takeLimit s.limit (s.matching s.merged))
  else .error "Failed to build record batch"

/-! ### What it stands for -/

/-- A mutation of the scanned table in the scanned scope. -/
def concerns (m : StagedMutation) : Bool :=
  decide (m.tableId = s.tableId) && decide ((ScopedPkKey.forEntry m).userId = s.overlayUser)

end TransactionScan

/-- One staged mutation: an insert adds the row, an update merges the changed columns over the
row that is there, a delete removes it. -/
def applyStaged (rows : List KeyedRow) (m : StagedMutation) : List KeyedRow :=
  if TransactionOverlayEntry.isDeleted m then rows.filter fun x => decide (x.1 ≠ m.primaryKey)
  else if m.operationKind = .insert then
    (rows.filter fun x => decide (x.1 ≠ m.primaryKey)) ++
      [(m.primaryKey, overlayPayloadWithoutInventedVersion m.payload)]
  else rows.map fun x => if x.1 = m.primaryKey then (x.1, mergeRow x.2 m.payload) else x

/-- A limit of a list of rows: as many of them as the limit asks for. -/
def IsLimitOf (limit : Option ℕ) (rows all : List KeyedRow) : Prop :=
  rows.Subperm all ∧ rows.length = match limit with
    | none => all.length
    | some n => min n all.length

namespace TransactionScan

variable (s : TransactionScan)

/-- The table as the transaction sees it. -/
def stagedTable : List KeyedRow := (s.staged.filter s.concerns).foldl applyStaged s.committed

/-- Its rows that match the filter. -/
def expected : List KeyedRow := s.matching s.stagedTable

/-- **Read your writes**: the scan returns the filter and limit of the staged table. -/
def ReadsOwnWrites : Prop := ∃ rows, s.execute = .ok rows ∧ IsLimitOf s.limit rows s.expected

end TransactionScan

/-! ### Cells of merged rows -/

/-- Two rows with the same cell in every column. -/
def SameCells (row row' : Row) : Prop := ∀ column, row.get column = row'.get column

/-- The cell of the `_deleted` column after it was filled. -/
def deletedFlag : Option ScalarValue → ScalarValue
  | none | some .null => .boolean false
  | some value => value

@[simp]
theorem version_ne_deleted : SystemColumnNames.VERSION ≠ SystemColumnNames.DELETED := by decide

/-- A staged cell over the cell below it. -/
def mergeCell (column : String) (value below : Option ScalarValue) : Option ScalarValue :=
  if column = SystemColumnNames.DELETED then some (deletedFlag (value.or below))
  else if column = SystemColumnNames.VERSION then below
  else value.or below

theorem get_fillMissingDeletedFlag (row : Row) (column : String) :
    (fillMissingDeletedFlag row).get column =
      if column = SystemColumnNames.DELETED then
        some (deletedFlag (row.get SystemColumnNames.DELETED))
      else row.get column := by
  unfold fillMissingDeletedFlag deletedFlag
  split <;> by_cases h : column = SystemColumnNames.DELETED <;> simp_all

theorem deletedFlag_or (value below : Option ScalarValue) :
    deletedFlag (value.or (some (deletedFlag below))) = deletedFlag (value.or below) := by
  cases value with
  | some value => rfl
  | none => cases below with
    | none => rfl
    | some below => cases below <;> rfl

/-- Two cells laid over a third one after the other. -/
theorem mergeCell_mergeCell (column : String) (second first below : Option ScalarValue) :
    mergeCell column second (mergeCell column first below) =
      mergeCell column (second.or first) below := by
  unfold mergeCell
  split
  · rw [deletedFlag_or, Option.or_assoc]
  · split
    · rfl
    · rw [Option.or_assoc]

theorem get_mergeRow (base payload : Row) (column : String) :
    (mergeRow base payload).get column =
      mergeCell column (payload.get column) (base.get column) := by
  rw [mergeRow, get_fillMissingDeletedFlag, mergeCell]
  by_cases hdeleted : column = SystemColumnNames.DELETED
  · simp [hdeleted, version_ne_deleted.symm]
  · by_cases hversion : column = SystemColumnNames.VERSION <;> simp [hdeleted, hversion]

/-- A staged row is its payload over no row. -/
theorem get_overlayPayload (payload : Row) (column : String) :
    (overlayPayloadWithoutInventedVersion payload).get column =
      mergeCell column (payload.get column) none := by
  rw [overlayPayloadWithoutInventedVersion, get_fillMissingDeletedFlag, mergeCell]
  by_cases hdeleted : column = SystemColumnNames.DELETED <;>
    simp [hdeleted, version_ne_deleted.symm]

/-! ### An effective entry stands for the mutations of its key -/

/-- What a staged mutation makes of the row of its key. -/
def stagedRow (row : Option Row) (m : StagedMutation) : Option Row :=
  if TransactionOverlayEntry.isDeleted m then none
  else if m.operationKind = .insert then some (overlayPayloadWithoutInventedVersion m.payload)
  else row.map fun row => mergeRow row m.payload

/-- The row a key has when its effective entry is known. An update entry does not tell whether
the row was deleted before. -/
def StandsFor (committed : Option Row) : Option TransactionOverlayEntry → Option Row → Prop
  | none, row => row = committed
  | some entry, row =>
    if TransactionOverlayEntry.isDeleted entry then row = none
    else if entry.operationKind = .insert then
      ∃ r, row = some r ∧ SameCells r (overlayPayloadWithoutInventedVersion entry.payload)
    else row = none ∨
      ∃ c r, committed = some c ∧ row = some r ∧ SameCells r (mergeRow c entry.payload)

/-- The entry of a key after one more mutation: an update of a live entry lays its columns over the
entry and leaves an insert an insert, every other mutation replaces the entry. -/
def nextEntry : Option TransactionOverlayEntry → StagedMutation → TransactionOverlayEntry
  | none, m => m
  | some e, m =>
    if isDeleted e = false ∧ m.operationKind = .update ∧ m.tombstone = false then
      { m with
        payload := e.payload.mergeFrom m.payload
        operationKind := if e.operationKind = .insert then .insert else .update }
    else m

theorem TransactionOverlay.mergeEntry_eq_nextEntry (current : Option TransactionOverlayEntry)
    (m : StagedMutation) : mergeEntry current m = nextEntry current m := by
  rcases current with - | e
  · simp [mergeEntry, nextEntry]
  · cases he : isDeleted e <;> cases hkind : m.operationKind <;> cases htomb : m.tombstone <;>
      simp [mergeEntry, nextEntry, he, isDeleted.eq_def m, hkind, htomb]

/-- The entry of a mutation that replaces whatever was there: an update finds the committed row, or
none. -/
theorem standsFor_self {committed row : Option Row}
    (hrow : m.operationKind = .update → m.tombstone = false → row = committed ∨ row = none) :
    StandsFor committed (some m) (stagedRow row m) := by
  rw [StandsFor, stagedRow]
  split
  · rfl
  split
  · exact ⟨_, rfl, fun _ => rfl⟩
  have hupdate : m.operationKind = .update ∧ m.tombstone = false := by
    cases hkind : m.operationKind <;> simp_all [isDeleted]
  rcases hrow hupdate.1 hupdate.2 with rfl | rfl
  · cases row with
    | none => exact .inl rfl
    | some c => exact .inr ⟨c, _, rfl, rfl, fun _ => rfl⟩
  · exact .inl rfl

theorem StandsFor.mergeEntry {committed row : Option Row} {current : Option TransactionOverlayEntry}
    (h : StandsFor committed current row) (m : StagedMutation) :
    StandsFor committed (some (mergeEntry current m)) (stagedRow row m) := by
  rw [mergeEntry_eq_nextEntry]
  cases current with
  | none => exact standsFor_self fun _ _ => .inl h
  | some e =>
    rw [StandsFor] at h
    rw [nextEntry]
    split
    · next hmerges =>
      obtain ⟨hlive, hupdate, htombstone⟩ := hmerges
      rw [hlive] at h
      by_cases hinsert : e.operationKind = .insert
      · obtain ⟨r, rfl, hsame⟩ := (if_pos hinsert).mp h
        simp [StandsFor, stagedRow, isDeleted, hupdate, htombstone, hinsert]
        intro column
        rw [get_mergeRow, hsame, get_overlayPayload, mergeCell_mergeCell, get_overlayPayload,
          Row.get_mergeFrom]
      · simp [StandsFor, stagedRow, isDeleted, hupdate, htombstone, hinsert] at h ⊢
        rcases h with rfl | ⟨c, hc, r, rfl, hsame⟩
        · exact .inl rfl
        · refine .inr ⟨c, hc, _, rfl, fun column => ?_⟩
          rw [get_mergeRow, hsame, get_mergeRow, mergeCell_mergeCell, get_mergeRow,
            Row.get_mergeFrom]
    · next hreplaces =>
      refine standsFor_self fun hupdate htombstone => .inr ?_
      have hgone : isDeleted e = true := by
        by_contra hlive
        exact hreplaces ⟨by simpa using hlive, hupdate, htombstone⟩
      rwa [if_pos hgone] at h

/-! ### The overlay and the staged table, key by key -/

@[simp]
theorem ScopedPkKey.forEntry_primaryKey (m : StagedMutation) :
    (ScopedPkKey.forEntry m).primaryKey = m.primaryKey := by
  unfold forEntry
  split <;> rfl

namespace TransactionOverlay

variable {overlay : TransactionOverlay} {p : StagedMutation → Prop}

theorem lookup_applyEntry (overlay : TransactionOverlay) (m : StagedMutation) (tableId : TableId)
    (key : ScopedPkKey) :
    ((overlay.applyEntry m).entriesByTable tableId).lookup key =
      if m.tableId = tableId ∧ ScopedPkKey.forEntry m = key then
        some (mergeEntry ((overlay.entriesByTable tableId).lookup key) m)
      else (overlay.entriesByTable tableId).lookup key := by
  by_cases htable : m.tableId = tableId
  · subst htable
    by_cases hkey : ScopedPkKey.forEntry m = key
    · subst hkey
      simp [applyEntry, mergeVisibleEntry]
    · simp [applyEntry, hkey, AList.lookup_insert_ne (Ne.symm hkey)]
  · simp [applyEntry, htable, Function.update_of_ne (Ne.symm htable)]

/-- The keys of inserted rows are those whose entry is a live insert. -/
def InsertedKeysExact (overlay : TransactionOverlay) : Prop :=
  ∀ tableId key, key ∈ overlay.insertedKeys tableId ↔
    ∃ entry, (overlay.entriesByTable tableId).lookup key = some entry ∧
      TransactionOverlayEntry.isDeleted entry = false ∧ entry.operationKind = .insert

theorem mem_setMembership {keys : TableId → Finset ScopedPkKey} {tableId tableId' : TableId}
    {entryKey key : ScopedPkKey} {isMember : Bool} :
    key ∈ setMembership keys tableId entryKey isMember tableId' ↔
      if tableId = tableId' ∧ entryKey = key then isMember = true else key ∈ keys tableId' := by
  by_cases htable : tableId = tableId'
  · subst htable
    by_cases hkey : entryKey = key
    · subst hkey
      cases isMember <;> simp [setMembership]
    · cases isMember <;> simp [setMembership, hkey, Ne.symm hkey]
  · simp [setMembership, htable, Function.update_of_ne (Ne.symm htable)]

theorem InsertedKeysExact.applyEntry (h : overlay.InsertedKeysExact) (m : StagedMutation) :
    (overlay.applyEntry m).InsertedKeysExact := by
  intro tableId key
  rw [lookup_applyEntry]
  simp only [TransactionOverlay.applyEntry, mem_setMembership]
  split
  · next hsame =>
    obtain ⟨rfl, rfl⟩ := hsame
    rw [mergeVisibleEntry]
    simp
  · exact h tableId key

theorem InsertedKeysExact.foldl (h : overlay.InsertedKeysExact) (staged : List StagedMutation) :
    (staged.foldl TransactionOverlay.applyEntry overlay).InsertedKeysExact :=
  List.foldlRecOn staged _ h fun _ h m _ => h.applyEntry m

/-- Entries are stored under the key of their row and keep the kind of their table. -/
def EntriesKeyed (p : StagedMutation → Prop) (overlay : TransactionOverlay) : Prop :=
  ∀ tableId key entry, (overlay.entriesByTable tableId).lookup key = some entry →
    entry.tableId = tableId ∧ ScopedPkKey.forEntry entry = key ∧
      ∃ m, p m ∧ m.tableId = entry.tableId ∧ m.tableType = entry.tableType

theorem mergeEntry_eq (current : Option TransactionOverlayEntry) (m : StagedMutation) :
    ∃ payload kind,
      mergeEntry current m = { m with payload := payload, operationKind := kind } := by
  unfold mergeEntry
  split
  · exact ⟨_, _, rfl⟩
  split
  · exact ⟨_, _, rfl⟩
  split
  · exact ⟨_, _, rfl⟩
  · split <;> exact ⟨_, _, rfl⟩

theorem EntriesKeyed.applyEntry (h : overlay.EntriesKeyed p) (hm : p m) :
    (overlay.applyEntry m).EntriesKeyed p := by
  intro tableId key entry hentry
  rw [lookup_applyEntry] at hentry
  split at hentry
  · next hsame =>
    obtain ⟨rfl, rfl⟩ := hsame
    obtain ⟨payload, kind, hmerged⟩ :=
      mergeEntry_eq ((overlay.entriesByTable m.tableId).lookup (ScopedPkKey.forEntry m)) m
    rw [hmerged, Option.some.injEq] at hentry
    subst hentry
    exact ⟨rfl, rfl, m, hm, rfl, rfl⟩
  · exact h tableId key entry hentry

theorem EntriesKeyed.foldl (h : overlay.EntriesKeyed p) {staged : List StagedMutation}
    (hstaged : ∀ m ∈ staged, p m) :
    (staged.foldl TransactionOverlay.applyEntry overlay).EntriesKeyed p :=
  List.foldlRecOn staged _ h fun _ h m hm => h.applyEntry (hstaged m hm)

end TransactionOverlay

end KalamDB.Transactions
