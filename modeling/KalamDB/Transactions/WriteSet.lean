import KalamDB.Transactions.Overlay

/-!
# The write set of a transaction

The changes a transaction has staged, in order, with what is kept up to date beside them: the
number of the next change, the latest change of each row key, one overlay per table, the bytes
they take and the savepoints. Going back to a savepoint cuts the list of changes and **builds
everything else again** from what is left.

How many bytes a change takes depends on memory layout and is a parameter.
-/

namespace KalamDB.Transactions

open Raft

structure SavepointEntry where
  name : String
  mutationCount : ℕ
  nextOrder : ℕ
  deriving DecidableEq

structure TransactionWriteSet where
  transactionId : TransactionId
  nextMutationOrder : ℕ
  orderedMutations : List StagedMutation
  latestByTableKey : TableId → ScopedPkKey → Option ℕ
  overlayCache : TableId → Option TransactionOverlay
  bufferBytes : ℕ
  savepoints : List SavepointEntry

namespace TransactionWriteSet

def new (transactionId : TransactionId) : TransactionWriteSet where
  transactionId := transactionId
  nextMutationOrder := 0
  orderedMutations := []
  latestByTableKey _ _ := none
  overlayCache _ := none
  bufferBytes := 0
  savepoints := []

variable (ws : TransactionWriteSet)

/-- What is kept beside a change at a position of the list. -/
def index (position : ℕ) (mutation : StagedMutation) (estimatedBytes : ℕ) : TransactionWriteSet :=
  let overlay := (ws.overlayCache mutation.tableId).getD (.new ws.transactionId)
  { ws with
    latestByTableKey := Function.update ws.latestByTableKey mutation.tableId
      (Function.update (ws.latestByTableKey mutation.tableId)
        ⟨mutation.userId, mutation.primaryKey⟩ (some position))
    overlayCache := Function.update ws.overlayCache mutation.tableId
      (some (overlay.applyEntry mutation))
    bufferBytes := ws.bufferBytes + estimatedBytes }

/-- Stage a change under the next number. -/
def stageWithEstimatedSize (mutation : StagedMutation) (estimatedBytes : ℕ) : TransactionWriteSet :=
  let numbered := { mutation with mutationOrder := ws.nextMutationOrder }
  { ws.index ws.orderedMutations.length numbered estimatedBytes with
    nextMutationOrder := ws.nextMutationOrder + 1
    orderedMutations := ws.orderedMutations ++ [numbered] }

def affectedRows : ℕ := ws.orderedMutations.length

/-- White space as Unicode defines it. -/
def isWhiteSpace (c : Char) : Bool :=
  let n := c.toNat
  (9 ≤ n && n ≤ 13) || (0x2000 ≤ n && n ≤ 0x200A) ||
    n ∈ [0x20, 0x85, 0xA0, 0x1680, 0x2028, 0x2029, 0x202F, 0x205F, 0x3000]

def trim (s : String) : String :=
  String.ofList
    ((s.toList.dropWhile isWhiteSpace).reverse.dropWhile isWhiteSpace).reverse

/-- Savepoint names are compared trimmed and without case. -/
def normalizeSavepointName (name : String) : String := asciiLower (trim name)

def pushSavepoint (name : String) : TransactionWriteSet :=
  { ws with
    savepoints := ws.savepoints ++
      [⟨normalizeSavepointName name, ws.orderedMutations.length, ws.nextMutationOrder⟩] }

/-- The position of the last savepoint of a name. -/
def findSavepoint (name : String) : Option ℕ :=
  ((List.range ws.savepoints.length).filter fun i =>
    (ws.savepoints[i]?.map SavepointEntry.name) = some (normalizeSavepointName name)).getLast?

/-- Forget a savepoint and those inside it. -/
def releaseSavepoint (name : String) : Option TransactionWriteSet :=
  (ws.findSavepoint name).map fun pos => { ws with savepoints := ws.savepoints.take pos }

variable (size : StagedMutation → ℕ)

/-- Cut the changes and build what is kept beside them again. -/
def truncateMutations (ws : TransactionWriteSet) (targetLen nextOrder : ℕ) : TransactionWriteSet :=
  let kept := ws.orderedMutations.take targetLen
  let cleared : TransactionWriteSet :=
    { ws with
      nextMutationOrder := nextOrder
      orderedMutations := kept
      latestByTableKey := fun _ _ => none
      overlayCache := fun _ => none
      bufferBytes := 0 }
  kept.zipIdx.foldl (fun ws m => ws.index m.2 m.1 (size m.1)) cleared

/-- Back to a savepoint, which stays; those inside it are forgotten. -/
def rollbackToSavepoint (ws : TransactionWriteSet) (name : String) :
    Option TransactionWriteSet :=
  (ws.findSavepoint name).bind fun pos =>
    ws.savepoints[pos]?.map fun target =>
      truncateMutations size { ws with savepoints := ws.savepoints.take (pos + 1) }
        target.mutationCount target.nextOrder

/-! ### The staged changes -/

section OrderedMutations

variable (ws : TransactionWriteSet)

@[simp]
theorem stageWithEstimatedSize_orderedMutations (mutation : StagedMutation) (bytes : ℕ) :
    (ws.stageWithEstimatedSize mutation bytes).orderedMutations =
      ws.orderedMutations ++ [{ mutation with mutationOrder := ws.nextMutationOrder }] := rfl

/-- The indexes, overlays and bytes of a list of changes. -/
def rebuilt (size : StagedMutation → ℕ) (id : TransactionId) (mutations : List StagedMutation) :
    TransactionWriteSet :=
  mutations.zipIdx.foldl (fun ws m => ws.index m.2 m.1 (size m.1)) (new id)

theorem rebuilt_concat (id : TransactionId) (mutations : List StagedMutation) (m : StagedMutation) :
    rebuilt size id (mutations ++ [m]) =
      (rebuilt size id mutations).index mutations.length m (size m) := by
  simp [rebuilt, List.zipIdx_append]

theorem truncateMutations_eq (targetLen nextOrder : ℕ) :
    ws.truncateMutations size targetLen nextOrder =
      { rebuilt size ws.transactionId (ws.orderedMutations.take targetLen) with
        nextMutationOrder := nextOrder
        orderedMutations := ws.orderedMutations.take targetLen
        savepoints := ws.savepoints } := by
  have hfold : ∀ (kept : List (StagedMutation × ℕ)) (ws : TransactionWriteSet) next ordered marks,
      kept.foldl (fun ws m => ws.index m.2 m.1 (size m.1))
        { ws with nextMutationOrder := next, orderedMutations := ordered, savepoints := marks } =
      { kept.foldl (fun ws m => ws.index m.2 m.1 (size m.1)) ws with
        nextMutationOrder := next, orderedMutations := ordered, savepoints := marks } := by
    intro kept
    induction kept with
    | nil => exact fun _ _ _ _ => rfl
    | cons m rest ih => exact fun ws _ _ _ => ih (ws.index m.2 m.1 (size m.1)) _ _ _
  exact hfold _ (new ws.transactionId) _ _ _

end OrderedMutations

end TransactionWriteSet

end KalamDB.Transactions
