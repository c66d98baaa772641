import Mathlib.Data.Finset.Basic
import Mathlib.Data.List.AList
import KalamDB.Raft.Commands

/-!
# The overlay of a transaction

Reads inside a transaction see its staged changes through an overlay: for every table and row
key the **effective entry** of the changes staged so far, and the keys sorted into inserted,
updated and deleted ones. A staged change is folded into the entry that is there: a delete
replaces it, an update of a live entry is merged over its payload and keeps an insert an insert.

A hash map is a total function where the source never iterates over it, and an association list
of distinct keys (`AList`) where it does.
-/

namespace KalamDB.Transactions

open Raft

/-- The identity of a row inside a transaction: its primary key and, for tables of users, the
user. -/
structure ScopedPkKey where
  userId : Option UserId
  primaryKey : String
  deriving DecidableEq

/-- An overlay entry has the fields of a staged mutation. -/
abbrev TransactionOverlayEntry : Type := StagedMutation

def TransactionOverlayEntry.isDeleted (entry : TransactionOverlayEntry) : Bool :=
  entry.tombstone || decide (entry.operationKind = .delete)

/-- Shared and system rows have no owner, so the primary key alone identifies them. -/
def ScopedPkKey.forEntry (entry : TransactionOverlayEntry) : ScopedPkKey :=
  match entry.tableType with
  | .user | .stream => ⟨entry.userId, entry.primaryKey⟩
  | .shared | .system => ⟨none, entry.primaryKey⟩

/-- The entries of one table by row key. -/
abbrev TableEntries : Type := AList fun _ : ScopedPkKey => TransactionOverlayEntry

structure TransactionOverlay where
  transactionId : TransactionId
  entriesByTable : TableId → TableEntries
  insertedKeys : TableId → Finset ScopedPkKey
  deletedKeys : TableId → Finset ScopedPkKey
  updatedKeys : TableId → Finset ScopedPkKey
  /-- Columns assigned by staged updates. -/
  updatedColumns : TableId → Finset String

namespace TransactionOverlay

def new (transactionId : TransactionId) : TransactionOverlay where
  transactionId := transactionId
  entriesByTable _ := ∅
  insertedKeys _ := ∅
  deletedKeys _ := ∅
  updatedKeys _ := ∅
  updatedColumns _ := ∅

/-- The entry that results from a change and the entry before it. -/
def mergeEntry (current : Option TransactionOverlayEntry) (next : TransactionOverlayEntry) :
    TransactionOverlayEntry :=
  if TransactionOverlayEntry.isDeleted next then next
  else
    match current with
    | none => next
    | some current =>
      if TransactionOverlayEntry.isDeleted current then next
      else if next.operationKind = .update then
        { next with
          payload := current.payload.mergeFrom next.payload
          operationKind :=
            if current.operationKind = .insert then .insert else next.operationKind }
      else next

def mergeVisibleEntry (overlay : TransactionOverlay) (tableId : TableId) (entryKey : ScopedPkKey)
    (next : TransactionOverlayEntry) : TransactionOverlayEntry :=
  mergeEntry ((overlay.entriesByTable tableId).lookup entryKey) next

/-- The keys of a table with one key moved in or out. -/
def setMembership (keys : TableId → Finset ScopedPkKey) (tableId : TableId)
    (entryKey : ScopedPkKey) (isMember : Bool) : TableId → Finset ScopedPkKey :=
  Function.update keys tableId
    (if isMember then insert entryKey (keys tableId) else (keys tableId).erase entryKey)

/-- Fold a staged change into the overlay. The key leaves the three key sets and enters the one
of its effective entry. -/
def applyEntry (overlay : TransactionOverlay) (entry : TransactionOverlayEntry) :
    TransactionOverlay :=
  let tableId := entry.tableId
  let entryKey := ScopedPkKey.forEntry entry
  let effective := overlay.mergeVisibleEntry tableId entryKey entry
  let isDeleted := TransactionOverlayEntry.isDeleted effective
  let kind := effective.operationKind
  { overlay with
    entriesByTable := Function.update overlay.entriesByTable tableId
      ((overlay.entriesByTable tableId).insert entryKey effective)
    insertedKeys := setMembership overlay.insertedKeys tableId entryKey
      (!isDeleted && decide (kind = .insert))
    updatedKeys := setMembership overlay.updatedKeys tableId entryKey
      (!isDeleted && decide (kind = .update))
    deletedKeys := setMembership overlay.deletedKeys tableId entryKey isDeleted
    updatedColumns :=
      if kind = .update ∧ isDeleted = false then
        Function.update overlay.updatedColumns tableId
          (overlay.updatedColumns tableId ∪ (effective.payload.values.map Prod.fst).toFinset)
      else overlay.updatedColumns }

end TransactionOverlay

end KalamDB.Transactions
