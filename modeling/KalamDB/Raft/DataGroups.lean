import KalamDB.Raft.DataMachine

/-!
# The shared and the user data group

The two instances of the data machine. Both turn a **failure of their applier into a response**.
The shared group also asks the catalog which shard owns the table, and there a failed lookup or
another owner is an error of the machine itself; the user group has no such lookup.
-/

namespace KalamDB.Raft

variable {T : Type} (codec : CommandCodec)

/-- The answer to a command over rows: the count, or the applier's error as a response. -/
def rowsResponse : Except RaftError ℕ × T → Except RaftError DataResponse × T
  | (.ok count, tables) => (.ok (.rowsAffected count), tables)
  | (.error e, tables) => (.ok (.fromRaftError e), tables)

/-- The answer to a transaction commit. -/
def commitResponse : Except RaftError TransactionApplyResult × T →
    Except RaftError DataResponse × T
  | (.ok result, tables) => (.ok (.transactionCommitted result), tables)
  | (.error e, tables) => (.ok (.fromRaftError e), tables)

/-! ### Shared tables -/

structure SharedDataApplier (T : Type) where
  sharedShardId : TableId → Except RaftError ℕ
  insert : TableId → Option UserId → List Row → List (List UInt8) → List VersionId → T →
    Except RaftError ℕ × T
  update : TableId → Option UserId → List Row → Option (List String) → Option String →
    List VersionId → T → Except RaftError ℕ × T
  delete : TableId → Option UserId → Option (List String) → List VersionId → T →
    Except RaftError ℕ × T
  applyTransactionBatch : TransactionId → List StagedMutation → List VersionId → T →
    Except RaftError TransactionApplyResult × T

namespace SharedDataStateMachine

variable (shard : ℕ)

def displayTable (table : TableId) : String := table.1 ++ ":" ++ table.2

/-- The shard must own the table of a command. -/
def checkOwner (applier : SharedDataApplier T) (table : TableId) : Except RaftError Unit :=
  match applier.sharedShardId table with
  | .error e => .error e
  | .ok owner =>
    if owner = shard then .ok ()
    else .error (.invalidGroup ("Shared table '" ++ displayTable table ++ "' belongs to shard " ++
      toString owner ++ ", not " ++ toString shard))

variable (applier : Option (SharedDataApplier T))

/-- The command itself. Without an applier nothing is persisted. -/
def dispatch (cmd : SharedDataCommand)
    (versions : List VersionId) (tables : T) : Except RaftError DataResponse × T :=
  match applier with
  | none => (.ok (.rowsAffected 0), tables)
  | some a =>
    match cmd with
    | .insert _ _ actor table rows encodedFields =>
      rowsResponse (a.insert table actor rows encodedFields versions tables)
    | .update _ _ actor table updates pkValues filter =>
      rowsResponse (a.update table actor updates pkValues filter versions tables)
    | .delete _ _ actor table pkValues =>
      rowsResponse (a.delete table actor pkValues versions tables)

def applyCommand (cmd : SharedDataCommand)
    (versions : List VersionId) (tables : T) : Except RaftError DataResponse × T :=
  match applier.elim (.ok ()) fun a => checkOwner shard a cmd.tableId with
  | .error e => (.error e, tables)
  | .ok () => dispatch applier cmd versions tables

/-- Every table of a transaction must belong to the shard. -/
def checkOwners (applier : SharedDataApplier T) : List StagedMutation → Except RaftError Unit
  | [] => .ok ()
  | mutation :: rest =>
    match applier.sharedShardId mutation.tableId with
    | .error e => .error e
    | .ok owner =>
      if owner = shard then checkOwners applier rest
      else .error (.invalidGroup "Transaction contains a non-owning shared table")

def applyTransactionCommit (transactionId : TransactionId) (mutations : List StagedMutation)
    (versions : List VersionId) (tables : T) : Except RaftError DataResponse × T :=
  if mutations.any fun mutation => decide (mutation.tableType ≠ .shared) then
    (.ok (.error "TransactionCommit contained non-shared mutation for shared data shard"), tables)
  else
    match applier with
    | none => (.ok (.error "No applier set, transaction commit not persisted"), tables)
    | some a =>
      match checkOwners shard a mutations with
      | .error e => (.error e, tables)
      | .ok () => commitResponse (a.applyTransactionBatch transactionId mutations versions tables)

def applyDecodedCommand (cmd : SharedApplyCommand)
    (versions : List VersionId) (tables : T) : Except RaftError DataResponse × T :=
  match cmd with
  | .data command => applyCommand shard applier command versions tables
  | .transactionCommit _ transactionId mutations =>
    applyTransactionCommit shard applier transactionId mutations versions tables

end SharedDataStateMachine

/-- The group of a shard of shared tables. -/
def sharedDataGroup (T : Type) (codec : CommandCodec) (shard : ℕ) :
    DataGroup (Option (SharedDataApplier T)) SharedApplyCommand T where
  codec := codec
  decodeApplyCommand := decodeApplyCommand codec.decodeSharedDataCommand codec "shared"
  requiredMetaIndex := ApplyCommand.requiredMetaIndex SharedDataCommand.requiredMetaIndex
  rowSlotCount := ApplyCommand.rowSlotCount SharedDataCommand.rowSlotCount
  applyDecodedCommand := SharedDataStateMachine.applyDecodedCommand shard

/-! ### User tables -/

structure UserDataApplier (T : Type) where
  insert : TableId → UserId → List Row → List (List UInt8) → List VersionId → T →
    Except RaftError ℕ × T
  update : TableId → UserId → List Row → Option String → List VersionId → T →
    Except RaftError ℕ × T
  delete : TableId → UserId → Option (List String) → List VersionId → T → Except RaftError ℕ × T
  applyTransactionBatch : TransactionId → List StagedMutation → List VersionId → T →
    Except RaftError TransactionApplyResult × T

namespace UserDataStateMachine

variable (applier : Option (UserDataApplier T))

def applyCommand (cmd : UserDataCommand)
    (versions : List VersionId) (tables : T) : Except RaftError DataResponse × T :=
  match applier with
  | none => (.ok (.rowsAffected 0), tables)
  | some a =>
    match cmd with
    | .insert _ _ table user rows encodedFields =>
      rowsResponse (a.insert table user rows encodedFields versions tables)
    | .update _ _ table user updates filter =>
      rowsResponse (a.update table user updates filter versions tables)
    | .delete _ _ table user pkValues => rowsResponse (a.delete table user pkValues versions tables)

def applyTransactionCommit (transactionId : TransactionId) (mutations : List StagedMutation)
    (versions : List VersionId) (tables : T) : Except RaftError DataResponse × T :=
  if mutations.any fun mutation =>
      decide (mutation.tableType ≠ .user) || mutation.userId.isNone then
    (.ok (.error "TransactionCommit contained non-user mutation for user data shard"), tables)
  else
    match applier with
    | none => (.ok (.error "No applier set, transaction commit not persisted"), tables)
    | some a => commitResponse (a.applyTransactionBatch transactionId mutations versions tables)

def applyDecodedCommand (cmd : UserApplyCommand)
    (versions : List VersionId) (tables : T) : Except RaftError DataResponse × T :=
  match cmd with
  | .data command => applyCommand applier command versions tables
  | .transactionCommit _ transactionId mutations =>
    applyTransactionCommit applier transactionId mutations versions tables

end UserDataStateMachine

/-- The group of a shard of user tables. -/
def userDataGroup (T : Type) (codec : CommandCodec) :
    DataGroup (Option (UserDataApplier T)) UserApplyCommand T where
  codec := codec
  decodeApplyCommand := decodeApplyCommand codec.decodeUserDataCommand codec "user"
  requiredMetaIndex := ApplyCommand.requiredMetaIndex UserDataCommand.requiredMetaIndex
  rowSlotCount := ApplyCommand.rowSlotCount UserDataCommand.rowSlotCount
  applyDecodedCommand := UserDataStateMachine.applyDecodedCommand

/-! ### Appliers that change nothing -/

/-- The no-op applier of a shard: it owns every table and every command affects no row. The
source has the one of shard zero. -/
def NoOpSharedDataApplier (T : Type) (shard : ℕ) : SharedDataApplier T where
  sharedShardId _ := .ok shard
  insert _ _ _ _ _ tables := (.ok 0, tables)
  update _ _ _ _ _ _ tables := (.ok 0, tables)
  delete _ _ _ _ tables := (.ok 0, tables)
  applyTransactionBatch _ _ _ tables := (.ok {}, tables)

def NoOpUserDataApplier (T : Type) : UserDataApplier T where
  insert _ _ _ _ _ tables := (.ok 0, tables)
  update _ _ _ _ _ tables := (.ok 0, tables)
  delete _ _ _ _ tables := (.ok 0, tables)
  applyTransactionBatch _ _ _ tables := (.ok {}, tables)

open SharedDataStateMachine

theorem checkOwners_noOp (shard : ℕ) (mutations : List StagedMutation) :
    checkOwners shard (NoOpSharedDataApplier T shard) mutations = .ok () := by
  induction mutations with
  | nil => rfl
  | cons mutation rest ih => simpa [checkOwners, NoOpSharedDataApplier]

theorem sharedDataGroup_executes (shard : ℕ) :
    (sharedDataGroup T codec shard).Executes (some (NoOpSharedDataApplier T shard)) := by
  intro cmd versions tables
  cases cmd with
  | data command =>
    refine ⟨.rowsAffected 0, tables, ?_, trivial⟩
    have howner : checkOwner shard (NoOpSharedDataApplier T shard) command.tableId = .ok () := by
      simp [checkOwner, NoOpSharedDataApplier]
    change applyCommand shard _ command versions tables = _
    rw [applyCommand, Option.elim_some, howner]
    cases command <;> rfl
  | transactionCommit required transactionId mutations =>
    simp only [sharedDataGroup, applyDecodedCommand, applyTransactionCommit]
    split
    · exact ⟨_, _, rfl, by decide⟩
    · rw [checkOwners_noOp]
      exact ⟨_, _, rfl, trivial⟩

theorem userDataGroup_executes :
    (userDataGroup T codec).Executes (some (NoOpUserDataApplier T)) := by
  intro cmd versions tables
  cases cmd with
  | data command =>
    refine ⟨.rowsAffected 0, tables, ?_, trivial⟩
    cases command <;> rfl
  | transactionCommit required transactionId mutations =>
    simp only [userDataGroup, UserDataStateMachine.applyDecodedCommand,
      UserDataStateMachine.applyTransactionCommit]
    split
    · exact ⟨_, _, rfl, by decide⟩
    · exact ⟨_, _, rfl, trivial⟩

end KalamDB.Raft
