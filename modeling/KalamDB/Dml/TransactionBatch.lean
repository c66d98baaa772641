import KalamDB.Dml.Providers

/-!
# Applying the commit of an explicit transaction

The commit entry of a transaction carries its staged mutations in order. The executor first
checks every `INSERT` of the entry against the tables **as they are before the entry**, and
then walks the mutations once more to write them. During the walk it remembers the rows it
wrote (`written`), since buffered writes cannot be read back from the store.

`applyTransactionBatch` returns the atomic writes that reach the store, in order, next to the
outcome: an error in the middle of the walk does not take back the writes before it.
-/

namespace KalamDB.Dml

open Raft

/-! ### Checks before the walk -/

variable (scope : Scope) (transactionId : TransactionId)

/-- A batch of inserts into one table (for user tables: of one user), written at once. -/
def isInsertBatch :
    List StagedMutation → Bool
  | [] => false
  | first :: rest =>
    (scope = .shared || first.userId.isSome) &&
      (first :: rest).all fun m =>
        m.transactionId = transactionId && m.operationKind = .insert &&
          m.tableId = first.tableId && (scope = .shared || m.userId = first.userId)

/-- The text under which a repeated insert is recognised. -/
def batchKey (m : StagedMutation) : String :=
  match scope with
  | .user => displayTable m.tableId ++ "|" ++ m.userId.getD "" ++ "|" ++ m.primaryKey
  | .shared => displayTable m.tableId ++ "|" ++ m.primaryKey

/-- The index bytes under which a key is looked up when only its text is known: any text that
reads as a number is taken for one. -/
def parsePkValue (pk : String) : PkEncoding :=
  if (parseI64 pk).isSome then .integer else .text

variable (t : Tables) (p : TableProvider)

/-- The newest hot version of a key, looked up by its text. -/
def Tables.latestHotPkEntry (key : RowKey) :
    Option SharedTableRow :=
  if p.pkEncoding = parsePkValue key.primaryKey then t.hot key else none

/-- Whether a row of the key is found by its text. A user table looks into the cold tier when
the hot one does not know the key, a shared table leaves that to the caller. -/
def Tables.findRowKeyByIdField (scope : Scope) (p : TableProvider) (key : RowKey) :
    Bool :=
  match t.latestHotPkEntry p key with
  | some row => !row.deleted
  | none => scope = .user && (t.cold key).isSome

/-- The uniqueness check of a single insert; the cold tier is asked whatever the hot one
answered. -/
def Tables.ensureUniquePkValue (scope : Scope) (p : TableProvider) (key : RowKey) :
    Except TableError Unit :=
  if p.isAutoIncrementPk then .ok ()
  else if t.findRowKeyByIdField scope p key then
    .error (keyViolation key.primaryKey p " (hot storage)")
  else if (t.cold key).isSome then .error (keyViolation key.primaryKey p " (cold storage)")
  else .ok ()

def repeatedInsertText (owner : String) (p : TableProvider) (pk : String) : String :=
  "Primary key violation: value '" ++ pk ++ "' appears multiple times in the " ++ owner ++
    " batch for column '" ++ p.primaryKeyFieldName ++ "'"

def repeatedInsertError (pk : String) : ApplierError :=
  .execution ("Failed to insert batch row: Already exists: " ++
    repeatedInsertText "transaction" p pk)

/-- The transaction and the owner a mutation must carry. -/
def checkMutation (m : StagedMutation) :
    Except ApplierError Unit :=
  if m.transactionId ≠ transactionId then
    .error (.validation ("staged mutation transaction mismatch: expected '" ++ transactionId ++
      "', got '" ++ m.transactionId ++ "'"))
  else if scope = .user ∧ m.userId = none then
    .error (.validation "user transaction batch mutation missing user_id")
  else .ok ()

/-- The walk over the inserts: each text is new, each key is free in the tables. -/
def prevalidateInserts (scope : Scope) (transactionId : TransactionId) (t : Tables) :
    List String → List StagedMutation → Except ApplierError Unit
  | _, [] => .ok ()
  | seen, m :: rest =>
    if m.operationKind ≠ .insert then prevalidateInserts scope transactionId t seen rest
    else do
      checkMutation scope transactionId m
      let p ← t.loadProvider scope m.tableId
      if batchKey scope m ∈ seen then throw (repeatedInsertError p m.primaryKey)
      (t.ensureUniquePkValue scope p (rowKey scope m)).mapError
        (.fromTable "Failed to insert batch row")
      prevalidateInserts scope transactionId t (batchKey scope m :: seen) rest

/-- The first key text that was seen before. -/
def repeatedPk : List String → List String → Option String
  | _, [] => none
  | seen, pk :: rest => if pk ∈ seen then some pk else repeatedPk (pk :: seen) rest

/-- A live hot row stands under the key. -/
def Tables.hotLive (key : RowKey) : Bool := (t.hot key).any fun row => !row.deleted

/-- Only the cold tier knows the key. -/
def Tables.coldOnly (key : RowKey) : Bool :=
  (t.hot key).isNone && (t.cold key).isSome

/-- The check of a batch of inserts of one user: the texts, the hot tier, the cold tier. -/
def Tables.validateInsertBatchRows (keys : List RowKey) :
    Except TableError Unit :=
  match repeatedPk [] (keys.map RowKey.primaryKey) with
  | some pk => .error (.alreadyExists (repeatedInsertText "insert" p pk))
  | none =>
    match keys.find? t.hotLive with
    | some key => .error (keyViolation key.primaryKey p " (hot)")
    | none =>
      match keys.find? t.coldOnly with
      | some key => .error (keyViolation key.primaryKey p " (cold)")
      | none => .ok ()

def prevalidate (mutations : List StagedMutation) : Except ApplierError Unit :=
  match mutations with
  | [] => .ok ()
  | first :: rest =>
    if scope = .user ∧ isInsertBatch scope transactionId (first :: rest) then do
      let p ← t.loadProvider scope first.tableId
      (t.validateInsertBatchRows p ((first :: rest).map (rowKey scope))).mapError
        (.fromTable "Failed to insert batch row")
    else prevalidateInserts scope transactionId t [] (first :: rest)

/-! ### The walk -/

/-- One mutation of the walk. An insert is not checked against the tables again. -/
def applyMutation (written : RowKey → Option SharedTableRow) (m : StagedMutation)
    (version : VersionId) :
    Except ApplierError (Option SharedTableRow) := do
  checkMutation scope transactionId m
  let p ← t.loadProvider scope m.tableId
  match m.operationKind with
  | .insert =>
    if (written (rowKey scope m)).any fun row => !row.deleted then
      throw (repeatedInsertError p m.primaryKey)
    (p.validateNotNull m.payload).mapError (.fromTable "Failed to insert batch row")
    return some ⟨version, false, m.payload⟩
  | .update =>
    (t.updateByPkValueDeferredWithHot p (rowKey scope m) m.payload version
      (written (rowKey scope m))).mapError
      fun e => .execution ("Failed to update row: " ++ e.display)
  | .delete =>
    return t.deleteByPkValueDeferredWithHot (rowKey scope m) version (written (rowKey scope m))

/-- The walk: its writes, in order, and the number of rows or the error it stopped at. -/
def applyLoop (scope : Scope) (transactionId : TransactionId) (t : Tables) :
    (RowKey → Option SharedTableRow) → List (StagedMutation × VersionId) →
      List WriteBatch × Except ApplierError ℕ
  | _, [] => ([], .ok 0)
  | written, (m, version) :: rest =>
    match applyMutation scope transactionId t written m version with
    | .error e => ([], .error e)
    | .ok none => applyLoop scope transactionId t written rest
    | .ok (some row) =>
      let (writes, result) := applyLoop scope transactionId t
        (Function.update written (rowKey scope m) (some row)) rest
      ([(rowKey scope m, row)] :: writes, result.map (· + 1))

/-- The row of an insert as the store gets it. -/
def insertEntry (m : StagedMutation × VersionId) : RowKey × SharedTableRow :=
  (rowKey scope m.1, ⟨m.2, false, m.1.payload⟩)

/-- The first row of a batch that lacks a value, rows counted from one. -/
def TableProvider.nullColumnInBatch (p : TableProvider) : ℕ → List Row → Option CodedError
  | _, [] => none
  | i, row :: rest =>
    match p.nullColumn row with
    | some column => some (nullColumnError column row (Int64.ofNat (i + 1)))
    | none => p.nullColumnInBatch (i + 1) rest

/-- The rows of an insert batch: all are checked, then all are written at once. -/
def insertBatchDeferredPrevalidated (first : StagedMutation) (mutations : List StagedMutation)
    (versions : List VersionId) :
    List WriteBatch × Except ApplierError ℕ :=
  match t.loadProvider scope first.tableId with
  | .error e => ([], .error e)
  | .ok p =>
    match p.nullColumnInBatch 0 (mutations.map StagedMutation.payload) with
    | some error => ([], .error (.coded error))
    | none =>
      if versions.length ≠ mutations.length then
        ([], .error (.fromTable "Failed to insert batch rows" (.invalidOperation
          ("version count " ++ toString versions.length ++ " does not match row count " ++
            toString mutations.length))))
      else ([(mutations.zip versions).map (insertEntry scope)], .ok mutations.length)

/-- **Applying a commit entry**: the writes that reach the store and the outcome. -/
def applyTransactionBatch (mutations : List StagedMutation) (versions : List VersionId) :
    List WriteBatch × Except ApplierError ℕ :=
  if versions = [] then ([], .error (.validation "DML apply missing VersionId"))
  else
    match prevalidate scope transactionId t mutations with
    | .error e => ([], .error e)
    | .ok () =>
      match mutations with
      | [] => ([], .ok 0)
      | first :: rest =>
        if isInsertBatch scope transactionId (first :: rest) then
          insertBatchDeferredPrevalidated scope t first (first :: rest) versions
        else applyLoop scope transactionId t (fun _ => none) ((first :: rest).zip versions)

end KalamDB.Dml
