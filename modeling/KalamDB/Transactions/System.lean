import KalamDB.Lib.Runs
import KalamDB.Transactions.Coordinator

/-!
# Runs of the coordinator and the applier

The calls of all sessions in any order, together with what happens outside: leaders and the
placement of tables change, the replicated log applies the commit entries it was handed, and
suspended commits get their answers. A commit entry may be applied at any time after it was
proposed, also after its commit was answered with an error (a timeout, a lost leader).

The **history** records what a run is judged by: the ids given out, the changes applied to
tables, and the transactions whose commit or rollback returned success.
-/

namespace KalamDB.Transactions

open Raft Runs

structure History where
  begun : List TransactionId
  applied : List StagedMutation
  committed : List TransactionId
  rolledBack : List TransactionId

structure System where
  coordinator : TransactionCoordinator
  world : World
  /-- Commits that wait for the applier. -/
  suspended : List SuspendedCommit
  /-- Commit entries handed to the log. -/
  proposed : List SuspendedCommit
  history : History

inductive SystemEvent where
  | world (world : World)
  | begin (id : TransactionId) (ownerKey : ExecutionOwnerKey) (ownerId : String)
  | access (id : TransactionId) (tableId : TableId) (tableType : TableType)
      (userId : Option UserId)
  | stageBatch (id : TransactionId) (mutations : List StagedMutation)
  | savepoint (id : TransactionId) (name : String)
  | releaseSavepoint (id : TransactionId) (name : String)
  | rollbackToSavepoint (id : TransactionId) (name : String)
  | markAborted (id : TransactionId)
  | timeout (id : TransactionId)
  | beginCommit (id : TransactionId)
  | applyEntry (commit : SuspendedCommit)
  | finishCommit (commit : SuspendedCommit) (response : CommitResponse)
  | rollback (id : TransactionId)
  | closeSession (id : TransactionId)

namespace System

def new (world : World) : System := ⟨.new, world, [], [], ⟨[], [], [], []⟩⟩

variable (config : CoordinatorConfig)

/-- A call of the coordinator that is not recorded. -/
def called (s : System) (c : TransactionCoordinator) : System := { s with coordinator := c }

/-- A rollback, recorded when it succeeds. -/
def rolled (s : System) (id : TransactionId) :
    Except KalamDbError Unit × TransactionCoordinator → System
  | (.error _, c) => s.called c
  | (.ok (), c) =>
    { s with
      coordinator := c
      history := { s.history with rolledBack := id :: s.history.rolledBack } }

/-- One event. The id of a new transaction has not been given out before, and only entries that
were proposed are applied and only suspended commits are answered. -/
def step (s : System) : SystemEvent → Option System
  | .world world => some { s with world := world }
  | .begin id ownerKey ownerId =>
    if id ∈ s.history.begun then none
    else some
      { s with
        coordinator := (s.coordinator.begin config id ownerKey ownerId).2
        history := { s.history with begun := id :: s.history.begun } }
  | .access id tableId tableType userId => some
      (s.called (s.coordinator.validateTableAccess config s.world id tableId tableType userId).2)
  | .stageBatch id mutations => some
      (s.called (s.coordinator.stageBatch config s.world id mutations).2)
  | .savepoint id name => some (s.called (s.coordinator.savepoint id name).2)
  | .releaseSavepoint id name => some (s.called (s.coordinator.releaseSavepoint id name).2)
  | .rollbackToSavepoint id name => some
      (s.called (s.coordinator.rollbackToSavepoint config id name).2)
  | .markAborted id => some (s.called (s.coordinator.markTransactionAborted id))
  | .timeout id => some (s.called (s.coordinator.timeoutTransaction id))
  | .beginCommit id =>
    match s.coordinator.beginCommit config s.world id with
    | (.error _, c) => some (s.called c)
    | (.ok none, c) => some
      { s with
        coordinator := c
        history := { s.history with committed := id :: s.history.committed } }
    | (.ok (some commit), c) => some
      { s with
        coordinator := c
        suspended := commit :: s.suspended
        proposed := commit :: s.proposed }
  | .applyEntry commit =>
    if commit ∈ s.proposed then some
      { s with history := { s.history with applied := s.history.applied ++ commit.mutations } }
    else none
  | .finishCommit commit response =>
    if commit ∈ s.suspended then
      match s.coordinator.finishCommit commit response with
      | (.error _, c) => some
        { s with coordinator := c, suspended := s.suspended.erase commit }
      | (.ok _, c) => some
        { s with
          coordinator := c
          suspended := s.suspended.erase commit
          history :=
            { s.history with committed := commit.transactionId :: s.history.committed } }
    else none
  | .rollback id => some (s.rolled id (s.coordinator.rollback id))
  | .closeSession id =>
    -- the clean-up calls rollback only for an open transaction
    if ((s.coordinator.activeById id).map fun h => h.state.isOpen).getD false then
      some (s.rolled id (s.coordinator.rollback id))
    else some s

end System

end KalamDB.Transactions
