import Mathlib.Logic.Function.Basic
import KalamDB.Lib.Fallible
import KalamDB.Raft.Commands
import KalamDB.Storage.Tiers

/-!
# Row writes of the table providers

A data group applies row changes through the **providers** of its tables. A provider finds the
row of a primary key in the hot store first (the newest version of the key, which may be a
tombstone) and only then in the cold segments, and it writes a new version to the hot store.

`Tables` keeps what these reads and writes can tell: for each key the newest hot version and
the row the cold segments hold for it. A segment holds one row for each key, so the existence
checks and the row lookup in the cold tier answer alike and are one function here. A row is filed
under the key its mutation was staged under, which is the key in its own columns as long as the
mutation keeps that key (`KeepsKey`).

`runOneByOne` is the meaning a list of changes has: each one is executed as a statement of its
own, over the tables its predecessors left.
-/

namespace KalamDB.Dml

open Raft Fallible

/-! ### Tables -/

variable {u : Unit} {version : VersionId} {m : StagedMutation}

/-- The two kinds of tables which take part in transactions. -/
inductive Scope where
  | user
  | shared
  deriving DecidableEq

variable {scope : Scope}

/-- A row of a table; rows of user tables belong to a user. -/
@[ext]
structure RowKey where
  tableId : TableId
  userId : Option UserId
  primaryKey : String
  deriving DecidableEq

variable {key : RowKey}

/-- The bytes of a key in the primary key index: sixteen bytes in numeric order, the bytes of
the key's text, or bytes unlike that text (UUID columns). -/
inductive PkEncoding where
  | integer
  | text
  | binary
  deriving DecidableEq

/-- What a provider knows of its table. -/
structure TableProvider where
  primaryKeyFieldName : String
  pkEncoding : PkEncoding
  isAutoIncrementPk : Bool
  nonNullColumns : List String
  deriving DecidableEq

variable {p : TableProvider}

/-- The providers and the stored rows. -/
@[ext]
structure Tables where
  provider : TableId → Option TableProvider
  hot : RowKey → Option SharedTableRow
  cold : RowKey → Option Row

variable {t : Tables} {knownHot row : Option SharedTableRow}

/-- Rows that reach the store in one atomic write. -/
abbrev WriteBatch : Type := List (RowKey × SharedTableRow)

namespace Tables

/-- A new hot version of a key. -/
def put (t : Tables) (key : RowKey) (row : SharedTableRow) : Tables :=
  { t with hot := Function.update t.hot key (some row) }

def write (t : Tables) (batch : WriteBatch) : Tables :=
  batch.foldl (fun t entry => t.put entry.1 entry.2) t

section

variable (t : Tables)

@[simp]
theorem put_provider (key : RowKey) (row : SharedTableRow) :
    (t.put key row).provider = t.provider := rfl

@[simp]
theorem put_cold (key : RowKey) (row : SharedTableRow) : (t.put key row).cold = t.cold := rfl

theorem put_hot (key key' : RowKey) (row : SharedTableRow) :
    (t.put key row).hot key' = if key' = key then some row else t.hot key' := by
  simp [put, Function.update_apply]

@[simp]
theorem put_hot_self (key : RowKey) (row : SharedTableRow) :
    (t.put key row).hot key = some row := by
  simp [put_hot]

theorem put_hot_of_ne {key' : RowKey} (row : SharedTableRow) (h : key' ≠ key) :
    (t.put key row).hot key' = t.hot key' := by
  simp [put_hot, h]

@[simp]
theorem write_nil : t.write [] = t := rfl

@[simp]
theorem write_cons (entry : RowKey × SharedTableRow) (batch : WriteBatch) :
    t.write (entry :: batch) = (t.put entry.1 entry.2).write batch := rfl

theorem write_append (first second : WriteBatch) :
    t.write (first ++ second) = (t.write first).write second := List.foldl_append

end

end Tables

/-! ### Errors -/

inductive TableError where
  | alreadyExists (message : String)
  | notFound (message : String)
  | invalidOperation (message : String)
  | coded (error : CodedError)
  deriving DecidableEq

def TableError.display : TableError → String
  | .alreadyExists message => "Already exists: " ++ message
  | .invalidOperation message => "Invalid operation: " ++ message
  | .notFound message => "Not found: " ++ message
  | .coded error => error.rendered

inductive ApplierError where
  | validation (message : String)
  | execution (message : String)
  | notFound (resourceType id : String)
  | coded (error : CodedError)
  deriving DecidableEq

/-- A coded table error is kept, any other gets the text of the caller. -/
def ApplierError.fromTable (label : String) : TableError → ApplierError
  | .coded error => .coded error
  | error => .execution (label ++ ": " ++ error.display)

def displayTable (table : TableId) : String := table.1 ++ ":" ++ table.2

def Scope.providerLabel : Scope → String
  | .user => "Table provider"
  | .shared => "Shared table provider"

def Tables.loadProvider (t : Tables) (scope : Scope) (table : TableId) :
    Except ApplierError TableProvider :=
  match t.provider table with
  | some provider => .ok provider
  | none => .error (.notFound scope.providerLabel (displayTable table))

theorem Tables.loadProvider_eq_ok_iff {table : TableId} :
    t.loadProvider scope table = .ok p ↔ t.provider table = some p := by
  unfold loadProvider
  split <;> simp_all

/-! ### Checks of a row -/

/-- The first column that must have a value and has none. -/
def TableProvider.nullColumn (p : TableProvider) (row : Row) : Option String :=
  p.nonNullColumns.find? fun column => (row.get column).getD .null == .null

/-- The error of a missing or a null value in a row of a statement. -/
def nullColumnError (column : String) (row : Row) (number : Int64) : CodedError where
  frame :=
    { code := if (row.get column).isSome then .notNullViolation else .missingColumn
      args := [.text column, .int number]
      verbatim := false }
  source := []

def TableProvider.validateNotNull (p : TableProvider) (row : Row) : Except TableError Unit :=
  match p.nullColumn row with
  | none => .ok ()
  | some column => .error (.coded (nullColumnError column row 1))

@[simp]
theorem TableProvider.validateNotNull_eq_ok_iff {row : Row} :
    p.validateNotNull row = .ok u ↔ p.nullColumn row = none := by
  rw [validateNotNull]
  split <;> simp_all

/-- A key which no live row stands under: its newest hot version is a tombstone, or it is in
neither tier. -/
def Tables.Absent (t : Tables) (key : RowKey) : Prop :=
  match t.hot key with
  | some row => row.deleted = true
  | none => t.cold key = none

instance (t : Tables) (key : RowKey) : Decidable (t.Absent key) := by
  unfold Tables.Absent
  split <;> infer_instance

def keyViolation (pk : String) (provider : TableProvider) (rest : String) : TableError :=
  .alreadyExists ("Primary key violation: value '" ++ pk ++ "' already exists in column '" ++
    provider.primaryKeyFieldName ++ "'" ++ rest)

/-- The uniqueness check of an insert statement: the hot store decides when it knows the key. -/
def Tables.validateInsertKey (t : Tables) (scope : Scope) (p : TableProvider) (key : RowKey) :
    Except TableError Unit :=
  match t.hot key with
  | some row =>
    if row.deleted then .ok ()
    else .error (keyViolation key.primaryKey p (if scope = .user then " (hot)" else ""))
  | none =>
    if (t.cold key).isSome then
      .error (keyViolation key.primaryKey p (if scope = .user then " (cold)" else ""))
    else .ok ()

@[simp]
theorem Tables.validateInsertKey_eq_ok_iff :
    t.validateInsertKey scope p key = .ok u ↔ t.Absent key := by
  unfold validateInsertKey Absent
  cases t.hot key with
  | some row => cases hdeleted : row.deleted <;> simp
  | none => cases hcold : t.cold key <;> simp

/-! ### Updates and deletes -/

/-- The row an update or a delete rewrites. -/
inductive MutationTarget where
  | hot (row : SharedTableRow)
  | cold (fields : Row)
  | tombstoned
  | missing
  deriving DecidableEq

def Tables.loadMutationTarget (t : Tables) (key : RowKey) : MutationTarget :=
  match t.hot key with
  | some row => if row.deleted then .tombstoned else .hot row
  | none =>
    match t.cold key with
    | some fields => .cold fields
    | none => .missing

/-- The target, where `knownHot` is the row this commit already wrote under the key. -/
def Tables.mutationTarget (t : Tables) (key : RowKey) : Option SharedTableRow → MutationTarget
  | some row => if row.deleted then .tombstoned else .hot row
  | none => t.loadMutationTarget key

/-- The values a target stores, if it is alive. -/
def MutationTarget.fields? : MutationTarget → Option Row
  | .hot row => some row.fields
  | .cold fields => some fields
  | .tombstoned | .missing => none

/-- Why a dead target cannot be updated. -/
def MutationTarget.notFoundText (p : TableProvider) (pk : String) : MutationTarget → String
  | .tombstoned => "Row with " ++ p.primaryKeyFieldName ++ "=" ++ pk ++ " was deleted"
  | _ => "Row with " ++ p.primaryKeyFieldName ++ "=" ++ pk ++
      " not found (checked both hot and cold storage)"

/-- An update: the new values laid over the stored ones. Nothing is written where nothing
changes. -/
def Tables.updateByPkValueDeferredWithHot (t : Tables) (p : TableProvider) (key : RowKey)
    (updates : Row) (version : VersionId) (knownHot : Option SharedTableRow) :
    Except TableError (Option SharedTableRow) :=
  match (t.mutationTarget key knownHot).fields? with
  | none =>
    .error (.notFound ((t.mutationTarget key knownHot).notFoundText p key.primaryKey))
  | some latest =>
    match p.validateNotNull (latest.mergeFrom updates) with
    | .error e => .error e
    | .ok () =>
      if latest.mergeFrom updates = latest then .ok none
      else .ok (some ⟨version, false, latest.mergeFrom updates⟩)

/-- A delete: a tombstone with the values of the row. A dead key is left alone. -/
def Tables.deleteByPkValueDeferredWithHot (t : Tables) (key : RowKey) (version : VersionId)
    (knownHot : Option SharedTableRow) : Option SharedTableRow :=
  (t.mutationTarget key knownHot).fields?.map fun latest => ⟨version, true, latest⟩

/-! ### One statement -/

/-- The row a mutation is about. -/
def rowKey (scope : Scope) (m : StagedMutation) : RowKey where
  tableId := m.tableId
  userId := match scope with
    | .user => m.userId
    | .shared => none
  primaryKey := m.primaryKey

/-- The payload names no other key than the mutation, and that of an insert names it. An `UPDATE`
that moves a key is staged as an insert and a delete; but an `ON CONFLICT` clause that assigns the
key, or a caller that stages rows itself, can stage a payload that moves it. -/
def KeepsKey (p : TableProvider) (m : StagedMutation) : Prop :=
  match m.payload.get p.primaryKeyFieldName with
  | none => m.operationKind ≠ .insert
  | some value => (tryPkBucketKey value).map PkBucketKey.toDisplay = some m.primaryKey

instance (p : TableProvider) (m : StagedMutation) : Decidable (KeepsKey p m) := by
  unfold KeepsKey
  split <;> infer_instance

/-- A mutation as a statement of its own: the row it writes, if it writes one. -/
def executeMutation (scope : Scope) (t : Tables) (m : StagedMutation) (version : VersionId) :
    Except ApplierError (Option SharedTableRow) := do
  let p ← t.loadProvider scope m.tableId
  match m.operationKind with
  | .insert =>
    (p.validateNotNull m.payload).mapError (.fromTable "Failed to insert batch")
    (t.validateInsertKey scope p (rowKey scope m)).mapError (.fromTable "Failed to insert batch")
    return some ⟨version, false, m.payload⟩
  | .update =>
    (t.updateByPkValueDeferredWithHot p (rowKey scope m) m.payload version none).mapError
      fun e => .execution ("Failed to update row: " ++ e.display)
  | .delete => return t.deleteByPkValueDeferredWithHot (rowKey scope m) version none

/-- What a mutation makes of the values found under its key: the row it writes, if it writes one.
A mutation that is refused writes nothing in this sense. -/
def Writes (p : TableProvider) (m : StagedMutation) (version : VersionId) (found : Option Row)
    (row : Option SharedTableRow) : Prop :=
  match m.operationKind, found with
  | .insert, _ => p.nullColumn m.payload = none ∧ some ⟨version, false, m.payload⟩ = row
  | .update, none => False
  | .update, some latest =>
    p.nullColumn (latest.mergeFrom m.payload) = none ∧
      (if latest.mergeFrom m.payload = latest then none
        else some ⟨version, false, latest.mergeFrom m.payload⟩) = row
  | .delete, found => found.map (fun latest => ⟨version, true, latest⟩) = row

theorem Tables.updateByPkValueDeferredWithHot_eq_ok_iff (hkind : m.operationKind = .update) :
    t.updateByPkValueDeferredWithHot p key m.payload version knownHot = .ok row ↔
      Writes p m version (t.mutationTarget key knownHot).fields? row := by
  unfold updateByPkValueDeferredWithHot Writes
  cases (t.mutationTarget key knownHot).fields? with
  | none => simp [hkind]
  | some latest =>
    cases hnull : p.nullColumn (latest.mergeFrom m.payload) with
    | none =>
      have hvalid : p.validateNotNull (latest.mergeFrom m.payload) = .ok () :=
        TableProvider.validateNotNull_eq_ok_iff.mpr hnull
      simp only [hvalid, hkind, hnull, true_and]
      split <;> simp
    | some column => simp [TableProvider.validateNotNull, hkind, hnull]

theorem executeMutation_eq_ok_iff :
    executeMutation scope t m version = .ok row ↔
      ∃ p, t.provider m.tableId = some p ∧
        (m.operationKind = .insert → t.Absent (rowKey scope m)) ∧
        Writes p m version (t.loadMutationTarget (rowKey scope m)).fields? row := by
  simp only [executeMutation, bind_eq_ok_iff, Tables.loadProvider_eq_ok_iff]
  refine exists_congr fun p => and_congr_right fun _ => ?_
  cases hkind : m.operationKind with
  | insert =>
    simp [Writes, hkind, bind_eq_ok_iff, mapError_eq_ok_iff, pure, Except.pure, and_left_comm]
  | update =>
    simp [mapError_eq_ok_iff, Tables.updateByPkValueDeferredWithHot_eq_ok_iff hkind,
      Tables.mutationTarget]
  | delete =>
    simp [Writes, hkind, Tables.deleteByPkValueDeferredWithHot, Tables.mutationTarget, pure,
      Except.pure]

/-- The tables after a mutation, if it wrote a row. -/
def Tables.putOption (t : Tables) (key : RowKey) : Option SharedTableRow → Tables
  | none => t
  | some row => t.put key row

/-- **One by one**: every mutation sees what the ones before it wrote. -/
def runOneByOne (scope : Scope) (t : Tables) :
    List (StagedMutation × VersionId) → Except ApplierError Tables
  | [] => .ok t
  | (m, version) :: rest =>
    match executeMutation scope t m version with
    | .error e => .error e
    | .ok written => runOneByOne scope (t.putOption (rowKey scope m) written) rest

theorem runOneByOne_cons_eq_ok_iff {t' : Tables} {rest : List (StagedMutation × VersionId)} :
    runOneByOne scope t ((m, version) :: rest) = .ok t' ↔
      ∃ written, executeMutation scope t m version = .ok written ∧
        runOneByOne scope (t.putOption (rowKey scope m) written) rest = .ok t' := by
  rw [runOneByOne]
  cases executeMutation scope t m version <;> simp

end KalamDB.Dml
