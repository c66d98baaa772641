import KalamDB.Storage.PkIndex

/-!
# The provider of a shared table

`INSERT`, `UPDATE` and `DELETE` on a shared table end in its provider. A write looks up the
newest hot row of its key through the primary key index. When there is none it asks the cold
files. The new version goes to the hot store, and the hot row that was found, the **predecessor**,
is deleted in the same write batch.

The paths differ in what they look up. A plain insert finds the tombstone it replaces. A
*prevalidated* insert looks nothing up. A batch loads all its predecessors from the store as it was
before the batch. A transaction that commits several operations on one key hands the row of the
operation before to the next one (`hot_predecessor`, `known_hot`); those calls are no operations
here, where every write looks its predecessor up itself.

A row is modelled as its key, in the type of the key column, and its other cells. Rows have passed
schema coercion and the not-null checks.
-/

namespace KalamDB.SharedTable

open PkIndex List

variable {type : PkType}

/-! ### Rows -/

structure TableRow (type : PkType) where
  version : VersionId
  deleted : Bool
  key : type.Key
  fields : Row

def TableRow.keyBytes (r : TableRow type) : List UInt8 := scalarValueToBytes (type.cell r.key)

/-- The text of a key, by which statements and error messages name it. -/
def pkText (key : type.Key) : String :=
  ((tryPkBucketKey (type.cell key)).map PkBucketKey.toDisplay).getD ""

instance : (type : PkType) → DecidableEq type.Key
  | .int8 => inferInstanceAs (DecidableEq Int8)
  | .int16 => inferInstanceAs (DecidableEq Int16)
  | .int32 => inferInstanceAs (DecidableEq Int32)
  | .int64 => inferInstanceAs (DecidableEq Int64)
  | .uint8 => inferInstanceAs (DecidableEq UInt8)
  | .uint16 => inferInstanceAs (DecidableEq UInt16)
  | .uint32 => inferInstanceAs (DecidableEq UInt32)
  | .uint64 => inferInstanceAs (DecidableEq UInt64)
  | .boolean => inferInstanceAs (DecidableEq Bool)
  | .text => inferInstanceAs (DecidableEq String)
  | .uuid => inferInstanceAs (DecidableEq UuidBytes)

/-! ### The hot store -/

/-- The hot rows; a row is stored under its version. -/
structure HotRows (type : PkType) where
  rows : List (TableRow type)
  nodup : (rows.map TableRow.version).Nodup

namespace HotRows

variable (hot : HotRows type)

def empty : HotRows type := ⟨[], List.nodup_nil⟩

def delete (version : VersionId) : HotRows type where
  rows := hot.rows.filter fun r => decide (r.version ≠ version)
  nodup := hot.nodup.sublist (List.filter_sublist.map _)

def put (row : TableRow type) : HotRows type where
  rows := row :: (hot.delete row.version).rows
  nodup := by
    rw [List.map_cons, List.nodup_cons]
    refine ⟨?_, (hot.delete row.version).nodup⟩
    simp [delete]

@[simp]
theorem mem_delete {version : VersionId} {r : TableRow type} :
    r ∈ (hot.delete version).rows ↔ r ∈ hot.rows ∧ r.version ≠ version := by
  simp [delete]

@[simp]
theorem mem_put {row r : TableRow type} :
    r ∈ (hot.put row).rows ↔ r = row ∨ (r ∈ hot.rows ∧ r.version ≠ row.version) := by
  simp [put]

theorem eq_of_version_eq {r s : TableRow type} (hr : r ∈ hot.rows) (hs : s ∈ hot.rows)
    (h : r.version = s.version) : r = s :=
  inj_on_of_nodup_map hot.nodup hr hs h

/-- The new row, written together with the deletion of the row it replaces. -/
def replace (previous : Option (TableRow type)) (row : TableRow type) : HotRows type :=
  match previous with
  | some old => (hot.delete old.version).put row
  | none => hot.put row

def replaceBatch (items : List (Option (TableRow type) × TableRow type)) : HotRows type :=
  items.foldl (fun hot item => hot.replace item.1 item.2) hot

def insertBatch (entries : List (TableRow type)) : HotRows type :=
  entries.foldl HotRows.put hot

/-- **The newest hot row of a key**: the last entry of its prefix in the key index. -/
def latestHotPkEntry (key : type.Key) : Option (TableRow type) :=
  (hot.rows.filter fun r => decide (r.keyBytes = scalarValueToBytes (type.cell key))).argmax
    TableRow.version

section

variable {hot} {key : type.Key} {r s : TableRow type}

theorem mem_of_latestHotPkEntry (h : hot.latestHotPkEntry key = some r) :
    r ∈ hot.rows ∧ r.keyBytes = scalarValueToBytes (type.cell key) := by
  have hmem := mem_filter.mp (argmax_mem (Option.mem_def.mpr h))
  exact ⟨hmem.1, of_decide_eq_true hmem.2⟩

theorem le_of_latestHotPkEntry (h : hot.latestHotPkEntry key = some r) (hs : s ∈ hot.rows)
    (hbytes : s.keyBytes = scalarValueToBytes (type.cell key)) : s.version ≤ r.version :=
  le_of_mem_argmax (mem_filter.mpr ⟨hs, decide_eq_true hbytes⟩) (Option.mem_def.mpr h)

theorem keyBytes_ne_of_latestHotPkEntry (h : hot.latestHotPkEntry key = none)
    (hr : r ∈ hot.rows) : r.keyBytes ≠ scalarValueToBytes (type.cell key) := by
  simpa using filter_eq_nil_iff.mp (argmax_eq_none.mp h) r hr

end

/-! #### The lookup goes through the index -/

variable (column : String)

/-- The row as the store keeps it, with its key in the key column. -/
def stored (r : TableRow type) : RowId × SharedTableRow :=
  (⟨none, r.version⟩, ⟨r.version, r.deleted, r.fields.insert column (type.cell r.key)⟩)

theorem get_stored (r : TableRow type) :
    (stored column r).2.fields.get column = some (type.cell r.key) := by
  simp [stored]

def toHotTable : HotTable where
  column := column
  type := type
  userScoped := false
  rows := hot.rows.map (stored column)
  nodup := by
    rw [List.map_map]
    exact List.Nodup.of_map RowId.version (by simpa [stored, Function.comp_def] using hot.nodup)
  userId_isSome x hx := by
    obtain ⟨r, -, rfl⟩ := List.mem_map.mp hx
    rfl
  typed x hx := by
    obtain ⟨r, -, rfl⟩ := List.mem_map.mp hx
    exact ⟨r.key, get_stored column r⟩

theorem hasBytes_stored (key : type.Key) (r : TableRow type) :
    (hot.toHotTable column).HasBytes none (type.cell key) (stored column r) ↔
      r.keyBytes = scalarValueToBytes (type.cell key) := by
  constructor
  · rintro ⟨-, cell, hcell, hbytes⟩
    obtain rfl := Option.some.inj ((get_stored column r).symm.trans hcell)
    exact hbytes
  · exact fun h => ⟨rfl, _, get_stored column r, h⟩

/-- **The newest hot row is what the index lookup finds**, under every encoding of the index. -/
theorem latestHotPkEntry_toHotTable (codec : TupleCodec) (key : type.Key) :
    (hot.toHotTable column).latestHotPkEntry codec none (type.cell key) =
      (hot.latestHotPkEntry key).map (stored column) := by
  have hscope : (none : Option String).isSome = (hot.toHotTable column).userScoped := rfl
  have hnewest := HotTable.isNewest_latestHotPkEntry codec hscope (type.cell key)
  generalize (hot.toHotTable column).latestHotPkEntry codec none (type.cell key) = found
    at hnewest ⊢
  cases hlatest : hot.latestHotPkEntry key with
  | none =>
    cases found with
    | none => rfl
    | some x =>
      obtain ⟨⟨hx, hbytes⟩, -⟩ := hnewest
      obtain ⟨r, hr, rfl⟩ := mem_map.mp hx
      exact absurd ((hot.hasBytes_stored column key r).mp hbytes)
        (keyBytes_ne_of_latestHotPkEntry hlatest hr)
  | some s =>
    obtain ⟨hs, hsbytes⟩ := mem_of_latestHotPkEntry hlatest
    have hstored := (hot.hasBytes_stored column key s).mpr hsbytes
    cases found with
    | none => exact absurd hstored (hnewest _ (mem_map_of_mem hs))
    | some x =>
      -- both are the newest one, and versions are distinct
      obtain ⟨⟨hx, hbytes⟩, hle⟩ := hnewest
      obtain ⟨r, hr, rfl⟩ := mem_map.mp hx
      have hrs := le_of_latestHotPkEntry hlatest hr ((hot.hasBytes_stored column key r).mp hbytes)
      have hsr : s.version ≤ r.version := hle _ (mem_map_of_mem hs) hstored
      rw [hot.eq_of_version_eq hr hs (le_antisymm hrs hsr)]
      rfl

end HotRows

/-! ### Cold files -/

/-- A cold file with the answer its statistics and Bloom filters give about a key. They do not deny
a key that the file holds, unless it is a UUID: a filter of its **sixteen bytes** is asked for its
**text**. -/
structure ColdFile (type : PkType) where
  path : String
  rows : List (TableRow type)
  mayHold : type.Key → Bool
  mayHold_of_mem : type ≠ .uuid → ∀ r ∈ rows, mayHold r.key = true

/-- Versions are resolved **within one file**: its newest row of the key counts. -/
def ColdFile.pkExists (file : ColdFile type) (key : type.Key) : Bool :=
  match (file.rows.filter fun r => decide (r.key = key)).argmax TableRow.version with
  | some r => !r.deleted
  | none => false

/-! ### The provider -/

inductive KalamDbError where
  | alreadyExists (text : String)
  | notFound (text : String)
  | invalidOperation (text : String)

structure Provider (type : PkType) where
  pkName : String
  isAutoIncrementPk : Bool
  hot : HotRows type
  cold : List (ColdFile type)

/-- The row an update or delete will rewrite. -/
inductive MutationTarget (type : PkType) where
  | hot (row : TableRow type)
  | cold (row : TableRow type)
  | tombstoned
  | missing

/-- The cells an update sets. -/
structure Updates (type : PkType) where
  key : Option type.Key
  fields : Row

/-- The row an update makes of the current one. -/
def Updates.merge (updates : Updates type) (row : TableRow type) (version : VersionId) :
    TableRow type :=
  ⟨version, false, updates.key.getD row.key, row.fields.mergeFrom updates.fields⟩

namespace Provider

variable (p : Provider type) (key : type.Key)

/-- The newest row of the key in the cold files that is not deleted. -/
def findRowByPk : Option (TableRow type) :=
  ((p.cold.flatMap ColdFile.rows).filter fun r => decide (r.key = key) && !r.deleted).argmax
    TableRow.version

/-- The first file in which the key exists. -/
def checkPkExists : Option String :=
  (p.cold.find? fun file => file.mayHold key && file.pkExists key).map ColdFile.path

variable (keys : List type.Key)

/-- The first key found in a file that may hold one of them. -/
def pkExistsBatchInCold : Option String :=
  p.cold.findSome? fun file =>
    if keys.any file.mayHold then (keys.find? file.pkExists).map pkText else none

def loadMutationTarget : MutationTarget type :=
  match p.hot.latestHotPkEntry key with
  | some row => if row.deleted then .tombstoned else .hot row
  | none =>
    match p.findRowByPk key with
    | some row => .cold row
    | none => .missing

/-- The hot tombstone to delete when a key is inserted again. A live row is an error. -/
def insertPredecessor : Except KalamDbError (Option (TableRow type)) :=
  if p.isAutoIncrementPk then .ok none
  else
    match p.hot.latestHotPkEntry key with
    | some row =>
      if row.deleted then .ok (some row)
      else .error (.alreadyExists ("Primary key violation: value '" ++ pkText key ++
        "' already exists in column '" ++ p.pkName ++ "' (hot storage)"))
    | none =>
      match p.checkPkExists key with
      | some path => .error (.alreadyExists ("Primary key violation: value '" ++ pkText key ++
          "' already exists in column '" ++ p.pkName ++ "' (cold storage: " ++ path ++ ")"))
      | none => .ok none

def insert (fields : Row) (version : VersionId) :
    Except KalamDbError (HotRows type) := do
  let predecessor ← p.insertPredecessor key
  return p.hot.replace predecessor ⟨version, false, key, fields⟩

/-- The caller has checked the key. -/
def insertPrevalidated (fields : Row) (version : VersionId) : HotRows type :=
  p.hot.replace none ⟨version, false, key, fields⟩

/-! #### Batch inserts -/

/-- No key appears twice in the batch. -/
def checkBatchKeys (seen : List String) : List type.Key → Except KalamDbError Unit
  | [] => .ok ()
  | key :: rest =>
    if pkText key ∈ seen then
      .error (.alreadyExists ("Primary key violation: value '" ++ pkText key ++
        "' appears multiple times in the insert batch for column '" ++ p.pkName ++ "'"))
    else checkBatchKeys (pkText key :: seen) rest

/-- The hot tombstones of the batch under the texts of their keys. -/
def scanHotPkInsert : List type.Key → Except KalamDbError (List (String × TableRow type))
  | [] => .ok []
  | key :: rest =>
    match p.hot.latestHotPkEntry key with
    | none => scanHotPkInsert rest
    | some row =>
      if row.deleted then do return (pkText key, row) :: (← scanHotPkInsert rest)
      else .error (.alreadyExists ("Primary key violation: value '" ++ pkText key ++
        "' already exists in column '" ++ p.pkName ++ "'"))

/-- The checks of a batch, with the tombstones it will replace. -/
def validateInsertBatch :
    Except KalamDbError (List (String × TableRow type)) := do
  p.checkBatchKeys [] keys
  let tombstones ← p.scanHotPkInsert keys
  match p.pkExistsBatchInCold (keys.filter fun key => (tombstones.lookup (pkText key)).isNone) with
  | some found => .error (.alreadyExists ("Primary key violation: value '" ++ found ++
      "' already exists in column '" ++ p.pkName ++ "'"))
  | none => return tombstones

def persistInsertBatchRows (rows : List (type.Key × Row)) (versions : List VersionId)
    (validateUniquePk : Bool) : Except KalamDbError (HotRows type) :=
  if rows.isEmpty then .ok p.hot
  else do
    let tombstones ←
      (if validateUniquePk then p.validateInsertBatch (rows.map Prod.fst) else .ok [])
    if versions.length ≠ rows.length then
      .error (.invalidOperation ("version count " ++ toString versions.length ++
        " does not match row count " ++ toString rows.length))
    else
      let entries : List (TableRow type) :=
        List.zipWith (fun row version => ⟨version, false, row.1, row.2⟩) rows versions
      if tombstones.isEmpty then return p.hot.insertBatch entries
      else
        return p.hot.replaceBatch <|
          entries.map fun entry => (tombstones.lookup (pkText entry.key), entry)

/-! #### Updates and deletes -/

/-- The row and the hot row it replaces; nothing if the update changes nothing. -/
def updateItem (updates : Updates type) (version : VersionId) :
    Except KalamDbError (Option (Option (TableRow type) × TableRow type)) :=
  let item (previous : Option (TableRow type)) (row : TableRow type) :=
    let merged := updates.merge row version
    if merged.key = row.key ∧ merged.fields = row.fields then none else some (previous, merged)
  match p.loadMutationTarget key with
  | .hot row => .ok (item (some row) row)
  | .cold row => .ok (item none row)
  | .tombstoned =>
    .error (.notFound ("Row with " ++ p.pkName ++ "=" ++ pkText key ++ " was deleted"))
  | .missing =>
    .error (.notFound ("Row with " ++ p.pkName ++ "=" ++ pkText key ++
      " not found (checked both hot and cold storage)"))

/-- The tombstone and the hot row it replaces; nothing if there is no live row. -/
def deleteItem (version : VersionId) :
    Option (Option (TableRow type) × TableRow type) :=
  match p.loadMutationTarget key with
  | .hot row => some (some row, ⟨version, true, row.key, row.fields⟩)
  | .cold row => some (none, ⟨version, true, row.key, row.fields⟩)
  | .tombstoned | .missing => none

def updateByPkValue (updates : Updates type) (version : VersionId) :
    Except KalamDbError (HotRows type) := do
  match ← p.updateItem key updates version with
  | some item => return p.hot.replace item.1 item.2
  | none => return p.hot

def deleteByPkValue (version : VersionId) : HotRows type :=
  match p.deleteItem key version with
  | some item => p.hot.replace item.1 item.2
  | none => p.hot

/-- The items of a batch, each looked up in the store before the batch. -/
def updateItems : List (type.Key × Updates type × VersionId) →
    Except KalamDbError (List (Option (TableRow type) × TableRow type))
  | [] => .ok []
  | (key, updates, version) :: rest => do
    let item ← p.updateItem key updates version
    return item.toList ++ (← updateItems rest)

def updateBatch (updates : List (type.Key × Updates type × VersionId)) :
    Except KalamDbError (HotRows type) := do
  return p.hot.replaceBatch (← p.updateItems updates)

def deleteBatch (versions : List VersionId) : HotRows type :=
  p.hot.replaceBatch ((keys.zip versions).filterMap fun item => p.deleteItem item.1 item.2)

end Provider

end KalamDB.SharedTable
