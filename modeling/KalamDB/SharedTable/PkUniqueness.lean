import KalamDB.SharedTable.HotUnique
import KalamDB.SharedTable.KeyText

/-!
# Primary keys across both tiers

A key is **live** when its newest version over hot and cold storage is not deleted. An `INSERT`
should succeed when its key is not live. So should an `UPDATE` that changes the key of a row, and
it should leave no live row under the old key.

There are several ways to a key. An insert looks the key up in the hot index and then asks the cold
files one by one. An `UPDATE` in SQL inserts the row under its new key and deletes the old one. The
provider's own `update` reads the new key back from its text, looks at the hot store only and
rewrites the row in place, so that nothing covers an older version of it. An update by key does not
check the new key at all.
-/

namespace KalamDB.SharedTable

open Fallible PkIndex List Provider TableRow Option

variable {type : PkType}

/-! ### Updates that change the key -/

variable {key : type.Key} {r : TableRow type} {hot : HotRows type} {p : Provider type}

/-- The newest hot row with the index bytes of a value. -/
def HotRows.latestHotPkEntryOf (hot : HotRows type) (pkValue : ScalarValue) :
    Option (TableRow type) :=
  (hot.rows.filter fun r => decide (r.keyBytes = scalarValueToBytes pkValue)).argmax
    TableRow.version

namespace Provider

variable (p : Provider type)

def coldRows : List (TableRow type) := p.cold.flatMap ColdFile.rows

def rows : List (TableRow type) := p.hot.rows ++ p.coldRows

def pkExistsInCold (pkValue : String) : Bool :=
  match parseStringAsScalar type pkValue with
  | some key => p.cold.any fun file => file.mayHold key && file.pkExists key
  | none => false

/-- The live hot row of a key given as text. -/
def findRowKeyByIdField (idValue : String) : Option VersionId :=
  match p.hot.latestHotPkEntryOf (parsePkValue idValue) with
  | some row => if row.deleted then none else some row.version
  | none =>
    -- a cold row has no hot key to return, and nothing says that it exists
    if p.pkExistsInCold idValue then none else none

def validatePkUpdate (tableId : String) (updates : Updates type) (current : type.Key) :
    Except KalamDbError Unit :=
  match updates.key with
  | none => .ok ()
  | some new =>
    if new = current then .ok ()
    else if p.isAutoIncrementPk then
      .error (.invalidOperation ("Cannot modify auto-increment primary key column '" ++ p.pkName ++
        "' in table " ++ tableId))
    else if (p.findRowKeyByIdField (pkText new)).isSome then
      .error (.alreadyExists ("Primary key violation: value '" ++ pkText new ++
        "' already exists in column '" ++ p.pkName ++ "' (UPDATE would create duplicate)"))
    else .ok ()

/-- The row of a version, from the hot store or else from the cold files. -/
def loadRow (version : VersionId) : Option (TableRow type) :=
  p.rows.find? fun r => decide (r.version = version)

/-- Update of a row given by its version. The key of the row goes through its display text. -/
def update (tableId : String) (rowId : VersionId) (updates : Updates type) (version : VersionId) :
    Except KalamDbError (HotRows type) :=
  match p.loadRow rowId with
  | none => .error (.notFound "Row not found for update")
  | some prior => do
    p.validatePkUpdate tableId updates prior.key
    let text := (type.cell prior.key).display
    match parseStringAsScalar type text with
    | some key => p.updateByPkValue key updates version
    | none => .error (.invalidOperation ("Failed to parse '" ++ text ++ "' as UUID"))

/-- Update in SQL: the row is inserted under its new key, and the old key is deleted. -/
def relocate (old new : type.Key) (fields : Row) (insertVersion deleteVersion : VersionId) :
    Except KalamDbError (HotRows type) :=
  if p.isAutoIncrementPk then
    .error (.invalidOperation ("Cannot modify auto-increment primary key column '" ++ p.pkName ++
      "'"))
  else do
    let hot ← p.persistInsertBatchRows [(new, fields)] [insertVersion] true
    return { p with hot := hot }.deleteByPkValue old deleteVersion

end Provider

/-! ### Live keys -/

/-- The newest version of the key is not deleted. -/
def LiveIn (rows : List (TableRow type)) (key : type.Key) : Prop :=
  ∃ r ∈ rows, r.key = key ∧ r.deleted = false ∧ ∀ s ∈ rows, s.key = key → s.version ≤ r.version

/-- Only the rows of the key matter. -/
theorem liveIn_congr {rows rows' : List (TableRow type)}
    (h : ∀ r, r.key = key → (r ∈ rows ↔ r ∈ rows')) : LiveIn rows key ↔ LiveIn rows' key := by
  constructor
  · rintro ⟨r, hr, hkey, hlive, hmax⟩
    exact ⟨r, (h r hkey).mp hr, hkey, hlive, fun s hs hskey => hmax s ((h s hskey).mpr hs) hskey⟩
  · rintro ⟨r, hr, hkey, hlive, hmax⟩
    exact ⟨r, (h r hkey).mpr hr, hkey, hlive, fun s hs hskey => hmax s ((h s hskey).mp hs) hskey⟩

/-- A shared table as its writes and flushes leave it: a version belongs to one row, and no cold
row of a key is newer than a hot one. -/
structure TableState (type : PkType) extends Provider type where
  eq_of_version : ∀ r ∈ toProvider.rows, ∀ s ∈ toProvider.rows, r.version = s.version → r = s
  hot_newer : ∀ r ∈ hot.rows, ∀ s ∈ toProvider.coldRows, s.key = r.key → s.version ≤ r.version

/-- The key is live in hot and cold storage together. -/
def Provider.Live (p : Provider type) (key : type.Key) : Prop := LiveIn p.rows key

/-- The hot row that a lookup of the key comes across: the newest one with its index bytes. -/
def HotRows.Finds (hot : HotRows type) (key : type.Key) (r : TableRow type) : Prop :=
  r ∈ hot.rows ∧ r.keyBytes = scalarValueToBytes (type.cell key) ∧
    ∀ s ∈ hot.rows, s.keyBytes = scalarValueToBytes (type.cell key) → s.version ≤ r.version

/-- No hot row has the index bytes of the key. -/
def HotRows.FindsNone (hot : HotRows type) (key : type.Key) : Prop :=
  ∀ r ∈ hot.rows, r.keyBytes ≠ scalarValueToBytes (type.cell key)

theorem finds_of_latestHotPkEntry (h : hot.latestHotPkEntry key = some r) : hot.Finds key r :=
  have hmem := HotRows.mem_of_latestHotPkEntry h
  ⟨hmem.1, hmem.2, fun _ => HotRows.le_of_latestHotPkEntry h⟩

theorem findsNone_of_latestHotPkEntry (h : hot.latestHotPkEntry key = none) : hot.FindsNone key :=
  fun _ => HotRows.keyBytes_ne_of_latestHotPkEntry h

section

variable (h : hot.Finds key r)
include h

theorem HotRows.Finds.eq {s : TableRow type} (hs : hot.Finds key s) :
    r = s :=
  hot.eq_of_version_eq h.1 hs.1 (le_antisymm (hs.2.2 r h.1 h.2.1) (h.2.2 s hs.1 hs.2.1))

theorem HotRows.Finds.latestHotPkEntry_eq : hot.latestHotPkEntry key = some r := by
  cases hlatest : hot.latestHotPkEntry key with
  | none => exact absurd h.2.1 (findsNone_of_latestHotPkEntry hlatest r h.1)
  | some s => rw [h.eq (finds_of_latestHotPkEntry hlatest)]

/-- A found row is also what a lookup of its own key comes across. -/
theorem HotRows.Finds.self : hot.Finds r.key r :=
  ⟨h.1, rfl, fun s hs hbytes => h.2.2 s hs (hbytes.trans h.2.1)⟩

end

theorem HotRows.finds_iff : hot.Finds key r ↔ hot.latestHotPkEntry key = some r :=
  ⟨Finds.latestHotPkEntry_eq, finds_of_latestHotPkEntry⟩

/-- Without UUIDs a lookup comes across rows of its own key. -/
theorem HotRows.Finds.key_eq (htype : type ≠ .uuid) (h : hot.Finds key r) : r.key = key := by
  refine ((scalarValueToBytes_eq_iff type r.key key).mp h.2.1).resolve_right fun halike => ?_
  cases type
  case uuid => exact htype rfl
  all_goals exact halike

/-! ### Which keys an insert takes for live -/

namespace Provider

variable {p : Provider type} {fields : Row} {version : VersionId}

/-- A cold file that is not pruned shows the key as live, taken by itself. -/
def Shown (p : Provider type) (key : type.Key) : Prop :=
  ∃ file ∈ p.cold, file.mayHold key = true ∧ file.pkExists key = true

/-- The lookups of an insert come across a live row. -/
def Taken (p : Provider type) (key : type.Key) : Prop :=
  match p.hot.latestHotPkEntry key with
  | some r => r.deleted = false
  | none => p.Shown key

theorem checkPkExists_eq_none_iff : p.checkPkExists key = none ↔ ¬p.Shown key := by
  rw [checkPkExists, map_eq_none_iff, find?_eq_none]
  constructor
  · rintro h ⟨file, hfile, hboth⟩
    exact h file hfile (Bool.and_eq_true_iff.mpr hboth)
  · exact fun h file hfile hboth => h ⟨file, hfile, Bool.and_eq_true_iff.mp hboth⟩

theorem exists_insert_eq_ok_iff :
    (∃ hot, p.insert key fields version = .ok hot) ↔ p.isAutoIncrementPk = true ∨ ¬p.Taken key := by
  have hinsert : (∃ hot, p.insert key fields version = .ok hot) ↔
      ∃ predecessor, p.insertPredecessor key = .ok predecessor := by
    simp only [insert, bind_eq_ok_iff]
    exact ⟨fun ⟨_, pred, h, _⟩ => ⟨pred, h⟩, fun ⟨pred, h⟩ => ⟨_, pred, h, rfl⟩⟩
  rw [hinsert, insertPredecessor, Taken]
  by_cases hauto : p.isAutoIncrementPk = true
  · simp [hauto]
  rw [if_neg hauto, or_iff_right hauto]
  cases p.hot.latestHotPkEntry key with
  | some row => cases hdel : row.deleted <;> simp [hdel]
  | none =>
    rw [← checkPkExists_eq_none_iff]
    cases p.checkPkExists key <;> simp

theorem pkExistsBatchInCold_singleton_eq_none_iff :
    p.pkExistsBatchInCold [key] = none ↔ ¬p.Shown key := by
  rw [pkExistsBatchInCold, findSome?_eq_none_iff]
  constructor
  · rintro h ⟨file, hfile, hheld, hexists⟩
    have hnone := h file hfile
    simp [hheld, hexists] at hnone
  · intro h file hfile
    cases hheld : file.mayHold key with
    | false => simp [hheld]
    | true =>
      have hexists : file.pkExists key = false :=
        Bool.eq_false_iff.mpr fun hexists => h ⟨file, hfile, hheld, hexists⟩
      simp [hexists]

theorem validateInsertBatch_singleton_eq_ok_iff {tombstones : List (String × TableRow type)} :
    p.validateInsertBatch [key] = .ok tombstones ↔ ¬p.Taken key ∧
      ((p.hot.latestHotPkEntry key).map fun row => (pkText key, row)).toList = tombstones := by
  have hcheck : p.checkBatchKeys [] [key] = .ok () := rfl
  unfold validateInsertBatch Taken
  rw [hcheck]
  simp only [scanHotPkInsert]
  cases p.hot.latestHotPkEntry key with
  | none =>
    rw [← pkExistsBatchInCold_singleton_eq_none_iff]
    cases hcold : p.pkExistsBatchInCold [key] <;>
      simp [bind_eq_ok_iff, pure_eq_ok_iff, hcold]
  | some row =>
    cases hdel : row.deleted with
    | false => simp [hdel, bind_eq_ok_iff]
    | true =>
      have hcold : p.pkExistsBatchInCold [] = none := by
        simp [pkExistsBatchInCold]
      simp [hdel, bind_eq_ok_iff, hcold, pure_eq_ok_iff]

/-- One row through the batch path. -/
theorem persistInsertBatchRows_singleton_eq_ok_iff :
    p.persistInsertBatchRows [(key, fields)] [version] true = .ok hot ↔
      ¬p.Taken key ∧
        p.hot.replace (p.hot.latestHotPkEntry key) ⟨version, false, key, fields⟩ = hot := by
  simp only [persistInsertBatchRows, isEmpty_cons, Bool.false_eq_true, if_false, if_true,
    bind_eq_ok_iff, map_cons, map_nil, validateInsertBatch_singleton_eq_ok_iff]
  cases p.hot.latestHotPkEntry key with
  | none => simp [pure_eq_ok_iff, HotRows.insertBatch, HotRows.replace]
  | some row => simp [pure_eq_ok_iff, HotRows.replaceBatch]

end Provider

namespace TableState

variable (t : TableState type) {previous : Option (TableRow type)} (updates : Updates type)
  (version : VersionId)

theorem live_iff_of_finds (h : t.hot.Finds key r) (hkey : r.key = key) :
    t.Live key ↔ r.deleted = false := by
  have hr : r ∈ t.rows := mem_append_left _ h.1
  have hmax : ∀ s ∈ t.rows, s.key = key → s.version ≤ r.version := by
    intro s hs hskey
    rcases mem_append.mp hs with hs | hs
    · exact h.2.2 s hs (by rw [keyBytes, hskey])
    · exact t.hot_newer r h.1 s hs (hskey.trans hkey.symm)
  refine ⟨?_, fun hlive => ⟨r, hr, hkey, hlive, hmax⟩⟩
  rintro ⟨s, hs, hskey, hlive, hsmax⟩
  rwa [t.eq_of_version r hr s hs (le_antisymm (hsmax r hr hkey) (hmax s hs hskey))]

/-- A lookup that comes across the row of another key, with the wrong answer for this one. -/
def Misled (key : type.Key) : Prop :=
  ∃ r, t.hot.Finds key r ∧ r.key ≠ key ∧ (r.deleted = true ↔ t.Live key)

/-- A deleted key that a cold file, taken by itself, shows as live. -/
def Resurfaces (key : type.Key) : Prop := t.hot.FindsNone key ∧ ¬t.Live key ∧ t.Shown key

/-- A live key that is cold only, in files whose filters deny it. -/
def Denied (key : type.Key) : Prop := t.hot.FindsNone key ∧ t.Live key ∧ ¬t.Shown key

/-- The lookups of an insert tell the truth about the key. -/
def Truthful (key : type.Key) : Prop := ¬t.Misled key ∧ ¬t.Resurfaces key ∧ ¬t.Denied key

/-- **An insert sees exactly the live keys, but for these three cases.** -/
theorem taken_iff_live_iff (key : type.Key) : (t.Taken key ↔ t.Live key) ↔ t.Truthful key := by
  simp only [Provider.Taken, Truthful, Misled, HotRows.finds_iff]
  cases hlatest : t.hot.latestHotPkEntry key with
  | none =>
    have hnone := findsNone_of_latestHotPkEntry hlatest
    simp only [reduceCtorEq, false_and, exists_false, not_false_eq_true, true_and, Resurfaces,
      Denied, hnone]
    tauto
  | some r =>
    have hfinds := finds_of_latestHotPkEntry hlatest
    have hfound : ¬t.hot.FindsNone key := fun h => h r hfinds.1 hfinds.2.1
    simp only [Resurfaces, Denied, hfound, false_and, not_false_eq_true, and_true, some.injEq,
      exists_eq_left']
    by_cases hkey : r.key = key
    · simp [t.live_iff_of_finds hfinds hkey]
    · cases r.deleted <;> simp [hkey]

/-! ### Rewriting a row in place -/

/-- A replacement among other rows leaves the rows of a kind as they are. -/
theorem mem_replace_of_not {P : TableRow type → Prop}
    (row : TableRow type) (hrow : ¬P row) (hfresh : ∀ r ∈ p.rows, r.version < row.version)
    (hprevious : ∀ old ∈ previous, old ∈ p.hot.rows ∧ ¬P old) (hr : P r) :
    r ∈ (p.hot.replace previous row).rows ↔ r ∈ p.hot.rows := by
  rw [HotRows.mem_replace]
  constructor
  · rintro (rfl | ⟨hmem, -⟩)
    · exact absurd hr hrow
    · exact hmem
  · refine fun hmem => .inr ⟨hmem, (hfresh r (mem_append_left _ hmem)).ne,
      fun old hold hversion => ?_⟩
    obtain ⟨holdmem, hne⟩ := hprevious old hold
    exact hne (p.hot.eq_of_version_eq hmem holdmem hversion ▸ hr)

theorem mem_rows_of_replace {row : TableRow type}
    (h : r ∈ { p with hot := p.hot.replace previous row }.rows) : r = row ∨ r ∈ p.rows := by
  rcases mem_append.mp h with hr | hr
  · exact (HotRows.mem_of_mem_replace hr).imp_right fun h => mem_append_left _ h.1
  · exact .inr (mem_append_right _ hr)

/-- The rows without the hot row that a lookup of the key comes across. -/
def besides (key : type.Key) : List (TableRow type) :=
  (match t.hot.latestHotPkEntry key with
    | some r => t.hot.delete r.version
    | none => t.hot).rows ++ t.coldRows

/-- A deleted row of another key stands in for the key. -/
def Hidden (key : type.Key) : Prop := ∃ r, t.hot.Finds key r ∧ r.deleted = true

/-- A live key without a hot row is loaded from a cold file. -/
theorem exists_cold_target (hlatest : t.hot.latestHotPkEntry key = none) (h : t.Live key) :
    ∃ row, t.loadMutationTarget key = .cold row ∧ row.key = key := by
  obtain ⟨r, hr, hkey, hlive, -⟩ := h
  have hcold : r ∈ t.coldRows := (mem_append.mp hr).resolve_left fun hhot =>
    HotRows.free_of_latestHotPkEntry hlatest r hhot hkey
  rw [loadMutationTarget, hlatest]
  cases hrow : t.findRowByPk key with
  | some row => exact ⟨row, rfl, key_of_findRowByPk hrow⟩
  | none =>
    have hmem : r ∈ (t.cold.flatMap ColdFile.rows).filter fun r =>
        decide (r.key = key) && !r.deleted :=
      mem_filter.mpr ⟨hcold, by simp [hkey, hlive]⟩
    rw [argmax_eq_none.mp hrow] at hmem
    exact absurd hmem not_mem_nil

theorem loadMutationTarget_of_finds (h : p.hot.Finds key r) :
    p.loadMutationTarget key = if r.deleted then .tombstoned else .hot r := by
  rw [loadMutationTarget, h.latestHotPkEntry_eq]

theorem updateByPkValue_of_hidden {old : type.Key} (h : t.Hidden old) :
    ∃ e, t.updateByPkValue old updates version = .error e := by
  obtain ⟨r, hfinds, hdel⟩ := h
  rw [updateByPkValue, updateItem, loadMutationTarget_of_finds hfinds, hdel]
  exact ⟨_, rfl⟩

/-- The row that a lookup comes across is rewritten. Only a live row that has the new key already
can be one that the update does not change. -/
theorem updateByPkValue_of_not_hidden {old new : type.Key} (hlive : t.Live old)
    (hkey : updates.key = some new) (hne : new ≠ old) (h : ¬t.Hidden old) :
    ∃ hot, t.updateByPkValue old updates version = .ok hot ∧ (¬t.Live new →
      ∃ row : TableRow type, row.key = new ∧ row.version = version ∧
        hot = t.hot.replace (t.hot.latestHotPkEntry old) row) := by
  have hmerge : ∀ row, (updates.merge row version).key = new := fun row => by
    rw [Updates.merge, hkey]
    rfl
  rw [updateByPkValue, updateItem]
  cases hlatest : t.hot.latestHotPkEntry old with
  | some r =>
    have hfinds := finds_of_latestHotPkEntry hlatest
    have hrlive : r.deleted = false := Bool.eq_false_iff.mpr fun hdel => h ⟨r, hfinds, hdel⟩
    have htarget : t.loadMutationTarget old = .hot r := by
      rw [loadMutationTarget_of_finds hfinds, hrlive]
      rfl
    rw [htarget]
    by_cases hnoop : (updates.merge r version).key = r.key ∧
        (updates.merge r version).fields = r.fields
    · have hnew := hfinds.self
      rw [hnoop.1.symm.trans (hmerge r)] at hnew
      have hlivenew := (t.live_iff_of_finds hnew (hnoop.1.symm.trans (hmerge r))).mpr hrlive
      simp only [if_pos hnoop]
      exact ⟨_, rfl, fun hdead => absurd hlivenew hdead⟩
    · simp only [if_neg hnoop]
      exact ⟨_, rfl, fun _ => ⟨_, hmerge r, rfl, rfl⟩⟩
  | none =>
    obtain ⟨row, htarget, hrowkey⟩ := t.exists_cold_target hlatest hlive
    have hchanged : ¬((updates.merge row version).key = row.key ∧
        (updates.merge row version).fields = row.fields) := fun hsame =>
      hne (((hmerge row).symm.trans hsame.1).trans hrowkey)
    rw [htarget]
    simp only [if_neg hchanged]
    exact ⟨_, rfl, fun _ => ⟨_, hmerge row, rfl, rfl⟩⟩

/-- The old key is live after the rewrite if it is live without the row that was rewritten. -/
theorem live_replace_iff {old : type.Key} {row : TableRow type} (hrow : row.key ≠ old)
    (hfresh : ∀ r ∈ t.hot.rows, r.version ≠ row.version) :
    { t.toProvider with hot := t.hot.replace (t.hot.latestHotPkEntry old) row }.Live old ↔
      LiveIn (t.besides old) old := by
  refine liveIn_congr fun r hkey => ?_
  rw [rows, besides, mem_append, mem_append, HotRows.mem_replace]
  refine or_congr_left ?_
  have hne : r ≠ row := fun h => hrow (h ▸ hkey)
  cases t.hot.latestHotPkEntry old with
  | none => simpa [hne] using hfresh r
  | some found =>
    simp only [hne, false_or, mem_some_iff, forall_eq', HotRows.mem_delete]
    exact and_congr_right fun hr => and_iff_right (hfresh r hr)

end TableState

/-! ### Statements -/

/-- A statement with one target key, by the way it takes to the store. -/
inductive Statement (type : PkType) where
  /-- A row inserted by the provider's `insert`. -/
  | insert (key : type.Key) (fields : Row)
  /-- `INSERT` in SQL, of one row. -/
  | insertRow (key : type.Key) (fields : Row)
  /-- The provider's `update` of a row. -/
  | update (row : TableRow type) (new : type.Key) (fields : Row)
  /-- An update of the row of a key, without a check of the new one. -/
  | updateByPk (old new : type.Key) (fields : Row)
  /-- `UPDATE` in SQL. -/
  | relocate (old new : type.Key) (fields : Row)

namespace Statement

/-- The key that the statement writes. -/
def target : Statement type → type.Key
  | .insert key _ | .insertRow key _ => key
  | .update _ new _ | .updateByPk _ new _ | .relocate _ new _ => new

/-- The key that the statement's row had before. -/
def old : Statement type → Option type.Key
  | .insert _ _ | .insertRow _ _ => none
  | .update row _ _ => some row.key
  | .updateByPk old _ _ | .relocate old _ _ => some old

end Statement

def Provider.execute (p : Provider type) (tableId : String) (version next : VersionId) :
    Statement type → Except KalamDbError (HotRows type)
  | .insert key fields => p.insert key fields version
  | .insertRow key fields => p.persistInsertBatchRows [(key, fields)] [version] true
  | .update row new fields => p.update tableId row.version ⟨some new, fields⟩ version
  | .updateByPk old new fields => p.updateByPkValue old ⟨some new, fields⟩ version
  | .relocate old new fields => p.relocate old new fields version next

/-- A statement as it is issued: an update changes the key of a live row, and the versions are
fresh. -/
structure Request (t : TableState type) where
  tableId : String
  statement : Statement type
  version : VersionId
  next : VersionId
  fresh : ∀ r ∈ t.rows, r.version < version
  version_lt : version < next
  loaded : ∀ row new fields, statement = .update row new fields → row ∈ t.rows
  moves : ∀ old ∈ statement.old, t.Live old ∧ statement.target ≠ old

/-- **The statement succeeds when its key is not live, and then the key that its row had before is
not live any more.** -/
def Provider.Upholds (p : Provider type) (target : type.Key) (old : Option type.Key)
    (outcome : Except KalamDbError (HotRows type)) : Prop :=
  ((∃ hot, outcome = .ok hot) ↔ ¬p.Live target) ∧
    ∀ hot, outcome = .ok hot → ∀ key ∈ old, ¬{ p with hot := hot }.Live key

theorem Provider.upholds_ok_iff {target : type.Key} {old : Option type.Key} :
    p.Upholds target old (.ok hot) ↔
      ¬p.Live target ∧ ∀ key ∈ old, ¬{ p with hot := hot }.Live key := by
  simp [Upholds]

theorem Provider.upholds_error_iff {target : type.Key} {old : Option type.Key}
    {outcome : Except KalamDbError (HotRows type)} (h : ∃ e, outcome = .error e) :
    p.Upholds target old outcome ↔ p.Live target := by
  obtain ⟨e, rfl⟩ := h
  simp [Upholds]

namespace TableState

variable (t : TableState type)

/-- The inputs for which the statement's lookups tell the truth.

* An insert does not come across the row of another key or an older cold version, and no filter
  denies a UUID that is live. Into an auto-increment table it names a key that is free.
* The provider's `update` names a key which its text leads to and the hot store shows, if the key is
  live. Otherwise it rewrites the last live version of its row. Auto-increment keys and UUIDs are
  refused whatever the key.
* An update by key comes across its row and names a free key.
* An `UPDATE` in SQL is an insert and a delete that come across their own rows. -/
def Straight : Statement type → Prop
  | .insert key _ => (t.isAutoIncrementPk = true → ¬t.Live key) ∧
      (t.isAutoIncrementPk = false → t.Truthful key)
  | .insertRow key _ => t.Truthful key
  | .update row new _ =>
      (t.isAutoIncrementPk = true ∨ type = .uuid → t.Live new) ∧
        (¬(t.isAutoIncrementPk = true ∨ type = .uuid) →
          (t.Live new → ReadsBack new ∧ ∃ r ∈ t.hot.rows, r.key = new) ∧
            (¬t.Live new → ¬LiveIn (t.besides row.key) row.key))
  | .updateByPk old new _ =>
      (t.Hidden old → t.Live new) ∧ (¬t.Hidden old → ¬t.Live new ∧ ¬LiveIn (t.besides old) old)
  | .relocate old new _ =>
      (t.isAutoIncrementPk = true → t.Live new) ∧
        (t.isAutoIncrementPk = false → t.Truthful new ∧
          (¬t.Live new →
            scalarValueToBytes (type.cell new) ≠ scalarValueToBytes (type.cell old) ∧
              ∀ r, t.hot.Finds old r → r.key = old))

/-! #### Inserts -/

variable {new : type.Key} {version : VersionId} {row : TableRow type} (fields : Row)
  (tableId : String)

theorem upholds_none_iff {target : type.Key} {outcome : Except KalamDbError (HotRows type)} :
    p.Upholds target none outcome ↔ ((∃ hot, outcome = .ok hot) ↔ ¬p.Live target) := by
  simp [Provider.Upholds]

theorem upholds_insert_iff (key : type.Key) (fields : Row) (version : VersionId) :
    t.Upholds key none (t.insert key fields version) ↔ t.Straight (.insert key fields) := by
  rw [upholds_none_iff, exists_insert_eq_ok_iff, Straight, ← t.taken_iff_live_iff]
  cases t.isAutoIncrementPk with
  | true => simp
  | false => simp [not_iff_not]

theorem upholds_insertRow_iff (key : type.Key) (fields : Row) (version : VersionId) :
    t.Upholds key none (t.persistInsertBatchRows [(key, fields)] [version] true) ↔
      t.Straight (.insertRow key fields) := by
  rw [upholds_none_iff, Straight, ← t.taken_iff_live_iff, ← not_iff_not (a := t.Taken key)]
  simp only [persistInsertBatchRows_singleton_eq_ok_iff, exists_and_left, exists_eq', and_true]

/-! #### Updates in place -/

theorem upholds_updateByPk_iff {old : type.Key} (hlive : t.Live old)
    (hne : new ≠ old) (hfresh : ∀ r ∈ t.rows, r.version < version) :
    t.Upholds new (some old) (t.updateByPkValue old ⟨some new, fields⟩ version) ↔
      t.Straight (.updateByPk old new fields) := by
  unfold Straight
  by_cases hhidden : t.Hidden old
  · rw [upholds_error_iff (t.updateByPkValue_of_hidden ⟨some new, fields⟩ version hhidden)]
    simp [hhidden]
  obtain ⟨hot, hok, hrow⟩ := t.updateByPkValue_of_not_hidden ⟨some new, fields⟩ version hlive rfl
    hne hhidden
  rw [hok, upholds_ok_iff]
  simp only [hhidden, false_imp_iff, true_and, not_false_eq_true, true_imp_iff]
  refine and_congr_right fun hdead => ?_
  obtain ⟨row, hkey, hversion, rfl⟩ := hrow hdead
  have hrowfresh : ∀ r ∈ t.hot.rows, r.version ≠ row.version := fun r hr =>
    hversion ▸ (hfresh r (mem_append_left _ hr)).ne
  simpa using not_congr (t.live_replace_iff (hkey ▸ hne) hrowfresh)

/-- The probe for the new key sees a hot row if the text of the key leads to it. -/
theorem findRowKeyByIdField_isSome_iff (p : Provider type) (htype : type ≠ .uuid)
    (key : type.Key) : (p.findRowKeyByIdField (pkText key)).isSome = true ↔
      ReadsBack key ∧ ∃ r, p.hot.Finds key r ∧ r.deleted = false := by
  unfold findRowKeyByIdField HotRows.latestHotPkEntryOf
  by_cases hback : ReadsBack key
  · have hlookup : (p.hot.rows.filter fun r =>
        decide (r.keyBytes = scalarValueToBytes (parsePkValue (pkText key)))).argmax
          version = p.hot.latestHotPkEntry key := by
      rw [(bytes_parsePkValue htype key key).mpr ⟨hback, rfl⟩]
      rfl
    rw [hlookup, and_iff_right hback]
    simp only [HotRows.finds_iff]
    cases p.hot.latestHotPkEntry key with
    | none => simp
    | some found => cases hdel : found.deleted <;> simp [hdel]
  · have hempty : (p.hot.rows.filter fun r =>
        decide (r.keyBytes = scalarValueToBytes (parsePkValue (pkText key)))) = [] := by
      refine filter_eq_nil_iff.mpr fun r _ hbytes => hback ?_
      exact ((bytes_parsePkValue htype key r.key).mp (of_decide_eq_true hbytes).symm).1
    rw [hempty]
    exact iff_of_false (by simp) fun h => hback h.1

theorem loadRow_eq_some (h : row ∈ t.rows) : t.loadRow row.version = some row := by
  unfold loadRow
  cases hfind : t.rows.find? fun r => decide (r.version = row.version) with
  | none => simpa using find?_eq_none.mp hfind row h
  | some found =>
    have hversion := find?_some hfind
    rw [t.eq_of_version found (mem_of_find?_eq_some hfind) row h (of_decide_eq_true hversion)]

/-- An in-place update is refused, or it is an update by key. -/
theorem update_eq (fields : Row) (version : VersionId) (hrow : row ∈ t.rows) (hne : new ≠ row.key) :
    (t.isAutoIncrementPk = true ∨ type = .uuid ∨
        (t.findRowKeyByIdField (pkText new)).isSome = true →
      ∃ e, t.update tableId row.version ⟨some new, fields⟩ version = .error e) ∧
    (t.isAutoIncrementPk = false → type ≠ .uuid →
        (t.findRowKeyByIdField (pkText new)).isSome = false →
      t.update tableId row.version ⟨some new, fields⟩ version =
        t.updateByPkValue row.key ⟨some new, fields⟩ version) := by
  unfold update
  rw [t.loadRow_eq_some hrow]
  simp only [validatePkUpdate, if_neg hne]
  constructor
  · intro hrefused
    cases hauto : t.isAutoIncrementPk with
    | true => exact ⟨_, rfl⟩
    | false =>
      cases hprobe : (t.findRowKeyByIdField (pkText new)).isSome with
      | true => exact ⟨_, rfl⟩
      | false =>
        obtain rfl : type = .uuid := by simpa [hauto, hprobe] using hrefused
        rw [parseStringAsScalar_display_uuid]
        exact ⟨_, rfl⟩
  · intro hauto htype hprobe
    rw [hauto, hprobe, parseStringAsScalar_display htype]
    rfl

theorem upholds_update_iff (fields : Row) (hrow : row ∈ t.rows)
    (hlive : t.Live row.key) (hne : new ≠ row.key) (hfresh : ∀ r ∈ t.rows, r.version < version) :
    t.Upholds new (some row.key) (t.update tableId row.version ⟨some new, fields⟩ version) ↔
      t.Straight (.update row new fields) := by
  unfold Straight
  obtain ⟨hrefused, hbyPk⟩ := t.update_eq tableId fields version hrow hne
  by_cases hrefuse : t.isAutoIncrementPk = true ∨ type = .uuid
  · rw [upholds_error_iff (hrefused (hrefuse.imp_right .inl))]
    simp [hrefuse]
  obtain ⟨hauto, htype⟩ := not_or.mp hrefuse
  rw [Bool.not_eq_true] at hauto
  simp only [hrefuse, false_imp_iff, true_and, not_false_eq_true, true_imp_iff]
  have hprobe := findRowKeyByIdField_isSome_iff t.toProvider htype new
  cases hseen : (t.findRowKeyByIdField (pkText new)).isSome with
  | true =>
    obtain ⟨hback, r, hr, hrlive⟩ := hprobe.mp hseen
    have hlivenew := (t.live_iff_of_finds hr (hr.key_eq htype)).mpr hrlive
    rw [upholds_error_iff (hrefused (.inr (.inr hseen)))]
    exact iff_of_true hlivenew
      ⟨fun _ => ⟨hback, r, hr.1, hr.key_eq htype⟩, fun hdead => absurd hlivenew hdead⟩
  | false =>
    have hhidden : ¬t.Hidden row.key := by
      rintro ⟨r, hr, hdel⟩
      simp [(t.live_iff_of_finds hr (hr.key_eq htype)).mp hlive] at hdel
    rw [hbyPk hauto htype hseen, t.upholds_updateByPk_iff fields hlive hne hfresh, Straight]
    simp only [hhidden, false_imp_iff, true_and, not_false_eq_true, true_imp_iff]
    -- a live new key with a hot row that its text leads to would have been seen
    have hdead : (t.Live new → ReadsBack new ∧ ∃ r ∈ t.hot.rows, r.key = new) → ¬t.Live new := by
      intro h hlivenew
      obtain ⟨hback, r, hr, hkey⟩ := h hlivenew
      cases hlatest : t.hot.latestHotPkEntry new with
      | none => exact HotRows.free_of_latestHotPkEntry hlatest r hr hkey
      | some found =>
        have hfinds := finds_of_latestHotPkEntry hlatest
        have hfound := (t.live_iff_of_finds hfinds (hfinds.key_eq htype)).mp hlivenew
        simp [hprobe.mpr ⟨hback, found, hfinds, hfound⟩] at hseen
    exact ⟨fun h => ⟨fun hlivenew => absurd hlivenew h.1, fun _ => h.2⟩,
      fun h => ⟨hdead h.1, h.2 (hdead h.1)⟩⟩

/-! #### Updates in SQL -/

/-- Only the rows with the bytes of the key matter. -/
theorem finds_congr {hot' : HotRows type}
    (h : ∀ r, r.keyBytes = scalarValueToBytes (type.cell key) → (r ∈ hot.rows ↔ r ∈ hot'.rows))
    (hr : hot.Finds key r) : hot'.Finds key r :=
  ⟨(h r hr.2.1).mp hr.1, hr.2.1, fun s hs hbytes => hr.2.2 s ((h s hbytes).mpr hs) hbytes⟩

/-- **A write with a fresh version leads to such a table again.** -/
def replaced (previous : Option (TableRow type)) (row : TableRow type)
    (hfresh : ∀ r ∈ t.rows, r.version < row.version) : TableState type where
  toProvider := { t.toProvider with hot := t.hot.replace previous row }
  eq_of_version := by
    intro r hr s hs hversion
    rcases mem_rows_of_replace hr with rfl | hrold
    · exact (mem_rows_of_replace hs).elim Eq.symm fun hsold =>
        absurd hversion (hfresh s hsold).ne'
    rcases mem_rows_of_replace hs with rfl | hsold
    · exact absurd hversion (hfresh r hrold).ne
    · exact t.eq_of_version r hrold s hsold hversion
  hot_newer := by
    intro r hr s hs hkey
    rcases HotRows.mem_of_mem_replace hr with rfl | ⟨hr, -⟩
    · exact (hfresh s (List.mem_append_right _ hs)).le
    · exact t.hot_newer r hr s hs hkey

/-- A tombstone that is newer than everything else ends its key. -/
theorem not_live_of_tombstone (previous : Option (TableRow type)) (tombstone : TableRow type)
    (hdel : tombstone.deleted = true) (hnewest : ∀ r ∈ p.rows, r.version < tombstone.version) :
    ¬{ p with hot := p.hot.replace previous tombstone }.Live tombstone.key := by
  rintro ⟨s, hs, -, hslive, hmax⟩
  have hle := hmax tombstone (mem_append_left _ (HotRows.mem_replace.mpr (.inl rfl))) rfl
  rcases mem_rows_of_replace hs with rfl | hold
  · simp [hdel] at hslive
  · exact hle.not_gt (hnewest s hold)

/-- **A delete ends a live key unless it comes across the row of another key.** -/
theorem live_deleteByPkValue_iff (hlive : t.Live key) (hfresh : ∀ r ∈ t.rows, r.version < version) :
    { t.toProvider with hot := t.deleteByPkValue key version }.Live key ↔
      ∃ r, t.hot.Finds key r ∧ r.key ≠ key := by
  unfold deleteByPkValue deleteItem
  cases hlatest : t.hot.latestHotPkEntry key with
  | none =>
    obtain ⟨row, htarget, rfl⟩ := t.exists_cold_target hlatest hlive
    rw [htarget]
    refine iff_of_false ?_ (by simp [HotRows.finds_iff, hlatest])
    exact not_live_of_tombstone none ⟨version, true, row.key, row.fields⟩ rfl hfresh
  | some r =>
    have hfinds := finds_of_latestHotPkEntry hlatest
    rw [loadMutationTarget_of_finds hfinds]
    by_cases hkey : r.key = key
    · have hrlive := (t.live_iff_of_finds hfinds hkey).mp hlive
      refine iff_of_false ?_ (by simp [HotRows.finds_iff, hlatest, hkey])
      rw [← hkey, hrlive]
      exact not_live_of_tombstone (some r) ⟨version, true, r.key, r.fields⟩ rfl hfresh
    · refine iff_of_true ?_ ⟨r, hfinds, hkey⟩
      cases r.deleted with
      | true => exact hlive
      | false =>
        refine (liveIn_congr fun s hskey => ?_).mpr hlive
        rw [rows, rows, mem_append, mem_append]
        refine or_congr_left (mem_replace_of_not (P := fun r => r.key = key)
          ⟨version, true, r.key, r.fields⟩ hkey hfresh ?_ hskey)
        rintro _ ⟨⟩
        exact ⟨hfinds.1, hkey⟩

section Relocate

variable {t} {old new : type.Key} {fields : Row} {version next : VersionId}

/-- The hot store after the insert of the new row. -/
def inserted (t : TableState type) (new : type.Key) (fields : Row) (version : VersionId)
    (hfresh : ∀ r ∈ t.rows, r.version < version) : TableState type :=
  t.replaced (t.hot.latestHotPkEntry new) ⟨version, false, new, fields⟩ hfresh

variable (hfresh : ∀ r ∈ t.rows, r.version < version)

theorem relocate_eq_ok_iff (hauto : t.isAutoIncrementPk = false) :
    t.relocate old new fields version next = .ok hot ↔
      ¬t.Taken new ∧ (t.inserted new fields version hfresh).deleteByPkValue old next = hot := by
  rw [relocate, if_neg (by simp [hauto])]
  simp only [bind_eq_ok_iff, persistInsertBatchRows_singleton_eq_ok_iff, pure_eq_ok_iff]
  constructor
  · rintro ⟨_, ⟨htaken, rfl⟩, h⟩
    exact ⟨htaken, h⟩
  · rintro ⟨htaken, h⟩
    exact ⟨_, ⟨htaken, rfl⟩, h⟩

/-- The insert does not touch the old key. -/
theorem mem_inserted_iff (htaken : ¬t.Taken new) (hlive : t.Live old) (hne : new ≠ old)
    (hkey : r.key = old) :
    r ∈ (t.inserted new fields version hfresh).hot.rows ↔ r ∈ t.hot.rows := by
  refine mem_replace_of_not (P := fun r => r.key = old) ⟨version, false, new, fields⟩ hne
    hfresh (fun pred hpred => ?_) hkey
  have hfinds := finds_of_latestHotPkEntry hpred
  refine ⟨hfinds.1, fun hold => htaken ?_⟩
  have hself := hfinds.self
  rw [hold] at hself
  rw [Provider.Taken, mem_def.mp hpred]
  exact (t.live_iff_of_finds hself hold).mp hlive

/-- **The old key ends unless the delete comes across the row of another key.** -/
theorem live_relocate_iff (fields : Row) (htaken : ¬t.Taken new) (hlive : t.Live old)
    (hne : new ≠ old) (hlt : version < next) :
    { t.toProvider with hot :=
      (t.inserted new fields version hfresh).deleteByPkValue old next }.Live old ↔
      ¬(scalarValueToBytes (type.cell new) ≠ scalarValueToBytes (type.cell old) ∧
        ∀ r, t.hot.Finds old r → r.key = old) := by
  have hmem : ∀ r, r.key = old →
      (r ∈ (t.inserted new fields version hfresh).rows ↔ r ∈ t.rows) := fun r hkey => by
    rw [rows, rows, mem_append, mem_append, mem_inserted_iff hfresh htaken hlive hne hkey]
    rfl
  have hliveold : (t.inserted new fields version hfresh).Live old := (liveIn_congr hmem).mpr hlive
  have hnewest : ∀ r ∈ (t.inserted new fields version hfresh).rows, r.version < next := by
    intro r hr
    rcases mem_rows_of_replace hr with rfl | hr
    · exact hlt
    · exact (hfresh r hr).trans hlt
  refine ((t.inserted new fields version hfresh).live_deleteByPkValue_iff hliveold hnewest).trans ?_
  by_cases hbytes : scalarValueToBytes (type.cell new) = scalarValueToBytes (type.cell old)
  · -- the newest row with the bytes of the old key is the new row itself
    refine iff_of_true ⟨⟨version, false, new, fields⟩, ⟨?_, hbytes, fun s hs _ => ?_⟩, hne⟩
      fun h => h.1 hbytes
    · exact HotRows.mem_replace.mpr (.inl rfl)
    · rcases HotRows.mem_of_mem_replace hs with rfl | ⟨hs, -⟩
      · exact le_rfl
      · exact (hfresh s (mem_append_left _ hs)).le
  · have hsame : ∀ r, r.keyBytes = scalarValueToBytes (type.cell old) →
        (r ∈ (t.inserted new fields version hfresh).hot.rows ↔ r ∈ t.hot.rows) := fun r hr => by
      refine mem_replace_of_not (P := fun r => r.keyBytes = scalarValueToBytes (type.cell old))
        ⟨version, false, new, fields⟩ hbytes hfresh (fun pred hpred => ?_) hr
      have hfinds := finds_of_latestHotPkEntry hpred
      exact ⟨hfinds.1, mt hfinds.2.1.symm.trans hbytes⟩
    simp only [ne_eq, hbytes, not_false_eq_true, true_and, not_forall]
    constructor
    · rintro ⟨r, hr, hkey⟩
      exact ⟨r, finds_congr hsame hr, hkey⟩
    · rintro ⟨r, hr, hkey⟩
      exact ⟨r, finds_congr (fun s hs => (hsame s hs).symm) hr, hkey⟩

end Relocate

theorem upholds_relocate_iff {old : type.Key} {next : VersionId}
    (hlive : t.Live old) (hne : new ≠ old) (hfresh : ∀ r ∈ t.rows, r.version < version)
    (hlt : version < next) :
    t.Upholds new (some old) (t.relocate old new fields version next) ↔
      t.Straight (.relocate old new fields) := by
  unfold Straight
  cases hauto : t.isAutoIncrementPk with
  | true =>
    rw [relocate, if_pos hauto, upholds_error_iff ⟨_, rfl⟩]
    simp
  | false =>
    simp only [Bool.false_eq_true, false_imp_iff, true_and, true_imp_iff]
    rw [← t.taken_iff_live_iff]
    by_cases htaken : t.Taken new
    · have herror : ∃ e, t.relocate old new fields version next = .error e := by
        cases houtcome : t.relocate old new fields version next with
        | error e => exact ⟨e, rfl⟩
        | ok hot => exact absurd htaken ((relocate_eq_ok_iff hfresh hauto).mp houtcome).1
      rw [upholds_error_iff herror]
      simp only [htaken, true_iff]
      exact ⟨fun h => ⟨h, fun hdead => absurd h hdead⟩, And.left⟩
    · rw [(relocate_eq_ok_iff hfresh hauto).mpr ⟨htaken, rfl⟩, upholds_ok_iff]
      simp only [htaken, false_iff]
      have hold := live_relocate_iff hfresh fields htaken hlive hne hlt
      refine and_congr_right fun hdead => ?_
      simp only [mem_some_iff, forall_eq']
      rw [hold, not_not]
      exact (imp_iff_right hdead).symm

/-! ### The result -/

end TableState

/-! ### A key that looks like a number, and a row that is cold -/

def rowA : TableRow .text := ⟨.ofNat 1, false, "a", ⟨[]⟩⟩

def row42 : TableRow .text := ⟨.ofNat 2, false, "42", ⟨[]⟩⟩

/-- Two live hot rows with text keys, one of which looks like a number. -/
def twoTexts : TableState .text where
  pkName := "id"
  isAutoIncrementPk := false
  hot := ⟨[rowA, row42], by decide⟩
  cold := []
  eq_of_version := by
    have h : VersionId.ofNat 1 ≠ .ofNat 2 := by decide
    simp [Provider.rows, Provider.coldRows, rowA, row42, h, h.symm]
  hot_newer := nofun

/-- One live row, which has been flushed. -/
def coldText : TableState .text where
  pkName := "id"
  isAutoIncrementPk := false
  hot := .empty
  cold := [⟨"batch-0.parquet", [rowA], fun _ => true, fun _ _ _ => rfl⟩]
  eq_of_version := by simp [Provider.rows, Provider.coldRows, HotRows.empty]
  hot_newer := nofun

theorem mem_twoTexts {r : TableRow .text} : r ∈ twoTexts.rows ↔ r = rowA ∨ r = row42 := by
  simp [twoTexts, rows, coldRows]

theorem mem_coldText {r : TableRow .text} : r ∈ coldText.rows ↔ r = rowA := by
  simp [coldText, rows, coldRows, HotRows.empty]

theorem rowA_key_ne_row42_key : rowA.key ≠ row42.key := fun h =>
  absurd (h : ("a" : String) = "42") (by decide)

theorem live_twoTexts : twoTexts.Live rowA.key ∧ twoTexts.Live row42.key := by
  constructor
  · refine ⟨rowA, mem_twoTexts.mpr (.inl rfl), rfl, rfl, fun s hs hkey => ?_⟩
    rcases mem_twoTexts.mp hs with rfl | rfl
    · exact le_rfl
    · exact absurd hkey.symm rowA_key_ne_row42_key
  · refine ⟨row42, mem_twoTexts.mpr (.inr rfl), rfl, rfl, fun s hs hkey => ?_⟩
    rcases mem_twoTexts.mp hs with rfl | rfl
    · exact absurd hkey rowA_key_ne_row42_key
    · exact le_rfl

theorem live_coldText : coldText.Live rowA.key :=
  ⟨rowA, mem_coldText.mpr rfl, rfl, rfl, fun _ hs _ => mem_coldText.mp hs ▸ le_rfl⟩

/-- The row with the key `"a"` is given the live key `"42"`. -/
def updateTwoTexts : Request twoTexts where
  tableId := "app.t"
  statement := .update rowA row42.key ⟨[]⟩
  version := .ofNat 3
  next := .ofNat 4
  fresh r hr := by rcases mem_twoTexts.mp hr with rfl | rfl <;> decide
  version_lt := by decide
  loaded := by
    rintro _ _ _ ⟨⟩
    exact mem_twoTexts.mpr (.inl rfl)
  moves := by
    rintro _ ⟨⟩
    exact ⟨live_twoTexts.1, rowA_key_ne_row42_key.symm⟩

/-- The cold row with the key `"a"` is given the key `"42"`, which is free. -/
def updateColdText : Request coldText where
  tableId := "app.t"
  statement := .update rowA row42.key ⟨[]⟩
  version := .ofNat 3
  next := .ofNat 4
  fresh r hr := by
    obtain rfl := mem_coldText.mp hr
    decide
  version_lt := by decide
  loaded := by
    rintro _ _ _ ⟨⟩
    exact mem_coldText.mpr rfl
  moves := by
    rintro _ ⟨⟩
    exact ⟨live_coldText, rowA_key_ne_row42_key.symm⟩

end KalamDB.SharedTable
