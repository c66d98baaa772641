import KalamDB.Transactions.WriteSet

/-!
# The transaction coordinator

The coordinator keeps every active transaction by its id and by its owner, and the write sets.
All its calls are short and synchronous except `commit`, which is **two calls** here: up to the
point where it hands the staged changes to the applier and is suspended (`beginCommit`), and
from the applier's answer to the end (`finishCommit`). Any other call may come between the two.

Not part of the model are the claims on primary keys, the staged topic publishes, clocks and
metrics. A timeout may hit any open transaction, whether or not it was idle for long.
-/

namespace KalamDB.Transactions

open Raft

/-! ### Transactions -/

inductive TransactionState where
  | openRead
  | openWrite
  | committing
  | committed
  | rollingBack
  | rolledBack
  | timedOut
  | aborted
  deriving DecidableEq

namespace TransactionState

def isOpen : TransactionState → Bool
  | openRead | openWrite => true
  | _ => false

def isTerminal : TransactionState → Bool
  | committed | rolledBack | timedOut | aborted => true
  | _ => false

def lifecycleStr : TransactionState → String
  | openRead => "open_read"
  | openWrite => "open_write"
  | committing => "committing"
  | committed => "committed"
  | rollingBack => "rolling_back"
  | rolledBack => "rolled_back"
  | timedOut => "timed_out"
  | aborted => "aborted"

end TransactionState

inductive ExecutionOwnerKey where
  | pgSession (backendPid : UInt32) (configHash : UInt64)
  | backendSessionUuid (sessionUuid : ℕ)
  | sqlRequest (requestNonce : UInt64)
  | internal (sourceNonce : UInt64)
  deriving DecidableEq

inductive GroupId where
  | metadata
  | dataUserShard (shard : ℕ)
  | dataSharedShard (shard : ℕ)
  deriving DecidableEq

/-- A number with at least two digits. -/
def twoDigits (n : ℕ) : String := (if n < 10 then "0" else "") ++ toString n

def GroupId.display : GroupId → String
  | metadata => "meta"
  | dataUserShard shard => "data:user:" ++ twoDigits shard
  | dataSharedShard shard => "data:shared:" ++ twoDigits shard

inductive TransactionRaftBinding where
  | localSingleNode
  | unboundCluster
  | boundCluster (groupId : GroupId) (leaderNodeId : NodeId)
  deriving DecidableEq

structure TransactionHandle where
  transactionId : TransactionId
  ownerKey : ExecutionOwnerKey
  ownerId : String
  state : TransactionState
  raftBinding : TransactionRaftBinding
  /-- The pinned group frontier, none until the first data access. -/
  snapshotLogIndex : Option ℕ
  writeCount : ℕ
  writeBytes : ℕ
  touchedTables : Finset TableId
  hasWriteSet : Bool
  deriving DecidableEq

def TransactionHandle.new (transactionId : TransactionId) (ownerKey : ExecutionOwnerKey)
    (ownerId : String) (raftBinding : TransactionRaftBinding) : TransactionHandle where
  transactionId := transactionId
  ownerKey := ownerKey
  ownerId := ownerId
  state := .openRead
  raftBinding := raftBinding
  snapshotLogIndex := none
  writeCount := 0
  writeBytes := 0
  touchedTables := ∅
  hasWriteSet := false

def TransactionHandle.markState (handle : TransactionHandle) (state : TransactionState) :
    TransactionHandle :=
  { handle with state := state }

def TransactionHandle.recordStagedWriteBatch (handle : TransactionHandle)
    (tableIds : Finset TableId) (writeCount writeBytes : ℕ) : TransactionHandle :=
  { handle with
    state := .openWrite
    writeCount := writeCount
    writeBytes := writeBytes
    hasWriteSet := true
    touchedTables := handle.touchedTables ∪ tableIds }

inductive KalamDbError where
  | conflict (message : String)
  | invalidOperation (message : String)
  | notFound (message : String)
  | notLeader
  | commitFailed (transactionId : TransactionId) (source : String)
  | other (message : String)
  deriving DecidableEq

/-- What is fixed while a node runs. -/
structure CoordinatorConfig where
  isClusterMode : Bool
  nodeId : NodeId
  maxTransactionBufferBytes : ℕ
  approximateSizeBytes : StagedMutation → ℕ
  userGroupId : UserId → GroupId

/-- What the coordinator asks the rest of the node at the moment of a call. -/
structure World where
  sharedGroupId : TableId → Except KalamDbError GroupId
  raftLeader : GroupId → Option NodeId

structure TransactionCoordinator where
  /-- The commit frontier of each group. -/
  frontiers : GroupId → ℕ
  activeByOwner : ExecutionOwnerKey → Option TransactionId
  activeById : TransactionId → Option TransactionHandle
  writeSets : TransactionId → Option TransactionWriteSet

/-- A commit that waits for the applier. -/
structure SuspendedCommit where
  transactionId : TransactionId
  ownerKey : ExecutionOwnerKey
  mutations : List StagedMutation
  deriving DecidableEq

/-- The applier's answer to a commit; a response without a commit sequence is not that of a
commit. -/
abbrev CommitResponse : Type := Except String (Option ℕ)

namespace TransactionCoordinator

variable (config : CoordinatorConfig) (world : World) (c : TransactionCoordinator)

def new : TransactionCoordinator := ⟨fun _ => 0, fun _ => none, fun _ => none, fun _ => none⟩

/-! ### Updates of the maps -/

variable (id : TransactionId)

def setHandle (handle : Option TransactionHandle) : TransactionCoordinator :=
  { c with activeById := Function.update c.activeById id handle }

def setWriteSet (ws : Option TransactionWriteSet) : TransactionCoordinator :=
  { c with writeSets := Function.update c.writeSets id ws }

def setOwner (key : ExecutionOwnerKey) (id : Option TransactionId) : TransactionCoordinator :=
  { c with activeByOwner := Function.update c.activeByOwner key id }

/-- Advance the frontier of a group. -/
def observeCommitted (groupId : GroupId) (logIndex : ℕ) : TransactionCoordinator :=
  { c with frontiers := Function.update c.frontiers groupId (max (c.frontiers groupId) logIndex) }

/-! ### Errors -/

def notFound : KalamDbError :=
  .notFound ("transaction '" ++ id ++ "' not found")

def stateError (state : TransactionState) (action : String) : KalamDbError :=
  .invalidOperation ("cannot " ++ action ++ " transaction '" ++ id ++
    match state with
    | .timedOut => "' because it timed out and was aborted"
    | .aborted => "' because it was aborted"
    | state => "' while it is " ++ state.lifecycleStr)

def leaderChangeError (groupId : GroupId) (prior : NodeId)
    (current : Option NodeId) : KalamDbError :=
  .invalidOperation ("transaction '" ++ id ++ "' was aborted because leader for bound raft group '"
    ++ groupId.display ++ "' changed from node '" ++ toString prior ++ "' to '" ++
    (current.map toString).getD "unknown" ++ "'; retry in a new transaction")

def bufferLimitError : KalamDbError :=
  .invalidOperation ("transaction '" ++ id ++ "' exceeded buffer limit of " ++
    toString config.maxTransactionBufferBytes ++ " bytes and was aborted")

/-! ### Groups and leaders -/

def resolveGroupId (tableId : TableId) (tableType : TableType) (userId : Option UserId) :
    Except KalamDbError (Option GroupId) :=
  match tableType with
  | .user =>
    match userId with
    | some user => .ok (some (config.userGroupId user))
    | none => .error (.invalidOperation ("transactional access to user table '" ++ tableId.1 ++
        ":" ++ tableId.2 ++ "' requires user_id"))
  | .shared => (world.sharedGroupId tableId).map some
  | .stream =>
    .error (.invalidOperation "stream tables are not supported inside explicit transactions")
  | .system => .ok none

def currentLeaderForGroup (groupId : GroupId) : Option NodeId :=
  if config.isClusterMode then world.raftLeader groupId else some config.nodeId

/-- The leader a transaction is bound to, if it is still the leader. -/
def checkBoundLeadership (handle : TransactionHandle) :
    Except KalamDbError Unit :=
  match handle.raftBinding with
  | .localSingleNode | .unboundCluster => .ok ()
  | .boundCluster groupId leader =>
    let current := currentLeaderForGroup config world groupId
    if current = some leader then .ok () else .error (leaderChangeError id groupId leader current)

/-- The binding of a transaction after an access to a group. -/
def bind (tableId : TableId) (groupId : GroupId) :
    TransactionRaftBinding → Except KalamDbError TransactionRaftBinding
  | .localSingleNode => .ok .localSingleNode
  | .unboundCluster =>
    match currentLeaderForGroup config world groupId with
    | some leader => .ok (.boundCluster groupId leader)
    | none => .error .notLeader
  | .boundCluster bound leader =>
    if bound ≠ groupId then
      .error (.invalidOperation ("explicit transaction '" ++ id ++
        "' is already bound to data raft group '" ++ bound.display ++
        "' and cannot access table '" ++ tableId.1 ++ ":" ++ tableId.2 ++ "' in group '" ++
        groupId.display ++ "'"))
    else .ok (.boundCluster bound leader)

/-! ### Calls -/

def begin (ownerKey : ExecutionOwnerKey) (ownerId : String) :
    Except KalamDbError TransactionId × TransactionCoordinator :=
  let binding := if config.isClusterMode then .unboundCluster else .localSingleNode
  let handle := TransactionHandle.new id ownerKey ownerId binding
  match c.activeByOwner ownerKey with
  | some existing =>
    if ((c.activeById existing).map fun h => h.state.isOpen).getD false then
      (.error (.conflict ("owner '" ++ ownerId ++ "' already has an active transaction")), c)
    else
      (.ok id, (((c.setHandle existing none).setWriteSet existing none).setHandle id
        (some handle)).setOwner ownerKey (some id))
  | none => (.ok id, (c.setHandle id (some handle)).setOwner ownerKey (some id))

def validateTableAccess (tableId : TableId) (tableType : TableType)
    (userId : Option UserId) : Except KalamDbError Unit × TransactionCoordinator :=
  match c.activeById id with
  | none => (.error (notFound id), c)
  | some handle =>
    if handle.state.isOpen = false then (.error (stateError id handle.state "access"), c)
    else
      match resolveGroupId config world tableId tableType userId with
      | .error e => (.error e, c)
      | .ok none => (.ok (), c)
      | .ok (some groupId) =>
        match bind config world id tableId groupId handle.raftBinding with
        | .error e => (.error e, c)
        | .ok binding =>
          -- the snapshot is pinned once, to the frontier of the first group
          let pinned := handle.snapshotLogIndex.getD (c.frontiers groupId)
          (.ok (), c.setHandle id
            (some { handle with raftBinding := binding, snapshotLogIndex := some pinned }))

def markTransactionAborted : TransactionCoordinator :=
  match c.activeById id with
  | none => c
  | some handle => c.setHandle id (some (handle.markState .aborted))

/-- The checks on staged changes that need no transaction. -/
def checkMutation (mutation : StagedMutation) : Except KalamDbError Unit :=
  if mutation.tableType = .stream then
    .error (.invalidOperation "stream tables are not supported inside explicit transactions")
  else if mutation.tableType = .system then
    .error (.invalidOperation "system tables are not supported inside explicit transactions")
  else if mutation.transactionId ≠ id then
    .error (.invalidOperation ("staged mutation transaction mismatch: expected '" ++ id ++
      "', got '" ++ mutation.transactionId ++ "'"))
  else .ok ()

/-- Check every change and the access to its table, in order. -/
def validateMutations (id : TransactionId) :
    List StagedMutation → TransactionCoordinator → Except KalamDbError Unit × TransactionCoordinator
  | [], c => (.ok (), c)
  | mutation :: rest, c =>
    match checkMutation id mutation with
    | .error e => (.error e, c)
    | .ok () =>
      match validateTableAccess config world c id mutation.tableId mutation.tableType
          mutation.userId with
      | (.error e, c') => (.error e, c')
      | (.ok (), c') => validateMutations id rest c'

/-- Put checked changes into the write set of an open transaction. One that no longer has its
leader or would grow beyond the limit is aborted. -/
def stageChecked (mutations : List StagedMutation) :
    Except KalamDbError Unit × TransactionCoordinator :=
  match c.activeById id with
  | none => (.error (notFound id), c)
  | some handle =>
    if handle.state.isOpen = false then
      (.error (stateError id handle.state "stage writes in"), c)
    else
      match checkBoundLeadership config world id handle with
      | .error e => (.error e, c.setHandle id (some (handle.markState .aborted)))
      | .ok () =>
        let total := (mutations.map config.approximateSizeBytes).sum
        if config.maxTransactionBufferBytes < handle.writeBytes + total then
          (.error (bufferLimitError config id),
            (c.setHandle id (some (handle.markState .aborted))).setWriteSet id none)
        else
          let ws := mutations.foldl
            (fun ws m => ws.stageWithEstimatedSize m (config.approximateSizeBytes m))
            ((c.writeSets id).getD (.new id))
          (.ok (), (c.setWriteSet id (some ws)).setHandle id
            (some (handle.recordStagedWriteBatch (mutations.map StagedMutation.tableId).toFinset
              ws.affectedRows ws.bufferBytes)))

/-- Stage changes. A batch accesses each target once; a later access of the same target
changes nothing. An empty batch does nothing. -/
def stageBatch (mutations : List StagedMutation) :
    Except KalamDbError Unit × TransactionCoordinator :=
  if mutations.isEmpty then (.ok (), c)
  else
    match validateMutations config world id mutations c with
    | (.error e, c') => (.error e, c')
    | (.ok (), c') => stageChecked config world c' id mutations

/-- A commit up to where it waits for the applier. Without changes it is done at once. -/
def beginCommit :
    Except KalamDbError (Option SuspendedCommit) × TransactionCoordinator :=
  match c.activeById id with
  | none => (.error (notFound id), c)
  | some handle =>
    if handle.state.isOpen = false then (.error (stateError id handle.state "commit"), c)
    else
      match checkBoundLeadership config world id handle with
      | .error e => (.error e, c.setHandle id (some (handle.markState .aborted)))
      | .ok () =>
        match ((c.writeSets id).map TransactionWriteSet.orderedMutations).getD [] with
        | [] =>
          (.ok none, ((c.setWriteSet id none).setOwner handle.ownerKey none).setHandle id none)
        | mutation :: rest =>
          (.ok (some ⟨id, handle.ownerKey, mutation :: rest⟩),
            (c.setHandle id (some (handle.markState .committing))).setWriteSet id none)

/-- A commit from the applier's answer on. A response that is not that of a commit leaves the
transaction as it is. -/
def finishCommit (commit : SuspendedCommit) (response : CommitResponse) :
    Except KalamDbError ℕ × TransactionCoordinator :=
  match response with
  | .error source =>
    (.error (.commitFailed commit.transactionId source),
      (c.setOwner commit.ownerKey none).setHandle commit.transactionId none)
  | .ok none =>
    (.error (.invalidOperation ("transaction '" ++ commit.transactionId ++
      "' commit response missing commit_seq")), c)
  | .ok (some commitSeq) =>
    match c.activeById commit.transactionId with
    | none =>
      (.error (.notFound ("transaction '" ++ commit.transactionId ++
        "' not found during commit")), c.setOwner commit.ownerKey none)
    | some handle =>
      let c' := (c.setOwner commit.ownerKey none).setHandle commit.transactionId none
      (.ok commit.mutations.length,
        match handle.raftBinding with
        | .boundCluster groupId _ => c'.observeCommitted groupId commitSeq
        | .localSingleNode | .unboundCluster => c')

/-- Everything of a transaction is removed. -/
def discard (ownerKey : ExecutionOwnerKey) : TransactionCoordinator :=
  ((c.setWriteSet id none).setOwner ownerKey none).setHandle id none

/-- Only a committed transaction refuses to be rolled back. -/
def rollback : Except KalamDbError Unit × TransactionCoordinator :=
  match c.activeById id with
  | none => (.error (notFound id), c)
  | some handle =>
    if handle.state = .timedOut ∨ handle.state = .aborted ∨ handle.state = .rolledBack then
      (.ok (), c.discard id handle.ownerKey)
    else if handle.state.isTerminal then (.error (stateError id handle.state "rollback"), c)
    else (.ok (), c.discard id handle.ownerKey)

def timeoutTransaction : TransactionCoordinator :=
  match c.activeById id with
  | none => c
  | some handle =>
    if handle.state.isOpen then
      (c.setHandle id (some (handle.markState .timedOut))).setWriteSet id none
    else c

variable (name : String)

def savepoint :
    Except KalamDbError Unit × TransactionCoordinator :=
  match c.activeById id with
  | none => (.error (notFound id), c)
  | some handle =>
    if handle.state.isOpen = false then (.error (stateError id handle.state "savepoint"), c)
    else
      (.ok (), c.setWriteSet id (some (((c.writeSets id).getD (.new id)).pushSavepoint name)))

def savepointNotFound : KalamDbError :=
  .notFound ("savepoint \"" ++ TransactionWriteSet.trim name ++ "\" does not exist")

def releaseSavepoint :
    Except KalamDbError Unit × TransactionCoordinator :=
  match c.activeById id with
  | none => (.error (notFound id), c)
  | some handle =>
    if handle.state.isOpen = false then
      (.error (stateError id handle.state "release savepoint"), c)
    else
      match (c.writeSets id).bind fun ws => ws.releaseSavepoint name with
      | none => (.error (savepointNotFound name), c)
      | some ws => (.ok (), c.setWriteSet id (some ws))

/-- Also opens an aborted transaction again. -/
def rollbackToSavepoint :
    Except KalamDbError Unit × TransactionCoordinator :=
  match c.activeById id with
  | none => (.error (notFound id), c)
  | some handle =>
    if handle.state.isOpen = false ∧ handle.state ≠ .aborted then
      (.error (stateError id handle.state "rollback to savepoint"), c)
    else
      match (c.writeSets id).bind fun ws =>
          ws.rollbackToSavepoint config.approximateSizeBytes name with
      | none => (.error (savepointNotFound name), c)
      | some ws =>
        (.ok (), (c.setWriteSet id (some ws)).setHandle id
          (some
            { handle with
              writeCount := ws.affectedRows
              writeBytes := ws.bufferBytes
              hasWriteSet := decide (0 < ws.affectedRows)
              state := if 0 < ws.affectedRows then .openWrite else .openRead }))

end TransactionCoordinator

end KalamDB.Transactions
