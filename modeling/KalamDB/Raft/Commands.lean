import KalamDB.Raft.Errors

/-!
# Commands of the data groups and their responses

A data group replicates inserts, updates and deletes of its tables and the commits of explicit
transactions. Every command carries a **watermark**, the index the Meta group had applied where
the command was proposed, and asks for one **row version slot** per row it leaves behind.

Responses go back through the log store as bytes. The short ones use a packed form with a
two-byte length, which is where a long error text fails to encode (`encodeDataResponse`).
-/

namespace KalamDB.Raft

abbrev UserId : Type := String
abbrev TransactionId : Type := String

inductive TableType where
  | user
  | shared
  | stream
  | system
  deriving DecidableEq

inductive OperationKind where
  | insert
  | update
  | delete
  deriving DecidableEq

/-- A logical change staged by an explicit transaction. -/
structure StagedMutation where
  transactionId : TransactionId
  mutationOrder : ℕ
  tableId : TableId
  tableType : TableType
  userId : Option UserId
  operationKind : OperationKind
  primaryKey : String
  payload : Row
  tombstone : Bool
  deriving DecidableEq

/-! ### Commands -/

inductive SharedDataCommand where
  | insert (requiredMetaIndex : ℕ) (transactionId : Option TransactionId)
      (actorUserId : Option UserId) (tableId : TableId) (rows : List Row)
      (encodedFields : List (List UInt8))
  | update (requiredMetaIndex : ℕ) (transactionId : Option TransactionId)
      (actorUserId : Option UserId) (tableId : TableId) (updates : List Row)
      (pkValues : Option (List String)) (filter : Option String)
  | delete (requiredMetaIndex : ℕ) (transactionId : Option TransactionId)
      (actorUserId : Option UserId) (tableId : TableId) (pkValues : Option (List String))
  deriving DecidableEq

namespace SharedDataCommand

def requiredMetaIndex : SharedDataCommand → ℕ
  | insert required .. | update required .. | delete required .. => required

def tableId : SharedDataCommand → TableId
  | insert _ _ _ table .. | update _ _ _ table .. | delete _ _ _ table _ => table

/-- A multi-row update names its keys; any other update is one final row. -/
def rowSlotCount : SharedDataCommand → ℕ
  | insert _ _ _ _ rows encodedFields => max rows.length encodedFields.length
  | update _ _ _ _ updates pkValues _ =>
    match pkValues with
    | some (pk :: pks) => (pk :: pks).length
    | _ => max (if updates.isEmpty then 0 else 1) 1
  | delete _ _ _ _ pkValues => (pkValues.map fun values => max values.length 1).getD 1

end SharedDataCommand

inductive UserDataCommand where
  | insert (requiredMetaIndex : ℕ) (transactionId : Option TransactionId) (tableId : TableId)
      (userId : UserId) (rows : List Row) (encodedFields : List (List UInt8))
  | update (requiredMetaIndex : ℕ) (transactionId : Option TransactionId) (tableId : TableId)
      (userId : UserId) (updates : List Row) (filter : Option String)
  | delete (requiredMetaIndex : ℕ) (transactionId : Option TransactionId) (tableId : TableId)
      (userId : UserId) (pkValues : Option (List String))
  deriving DecidableEq

namespace UserDataCommand

def requiredMetaIndex : UserDataCommand → ℕ
  | insert required .. | update required .. | delete required .. => required

def rowSlotCount : UserDataCommand → ℕ
  | insert _ _ _ _ rows encodedFields => max rows.length encodedFields.length
  | update _ _ _ _ updates _ => max updates.length 1
  | delete _ _ _ _ pkValues => (pkValues.map fun values => max values.length 1).getD 1

end UserDataCommand

/-- What an entry of a data group decodes to: one of the group's own commands, or the commit of
a transaction. -/
inductive ApplyCommand (D : Type) where
  | data (command : D)
  | transactionCommit (requiredMetaIndex : ℕ) (transactionId : TransactionId)
      (mutations : List StagedMutation)
  deriving DecidableEq

abbrev SharedApplyCommand : Type := ApplyCommand SharedDataCommand
abbrev UserApplyCommand : Type := ApplyCommand UserDataCommand

namespace ApplyCommand

variable {D : Type}

def requiredMetaIndex (required : D → ℕ) : ApplyCommand D → ℕ
  | data command => required command
  | transactionCommit requiredMetaIndex _ _ => requiredMetaIndex

def rowSlotCount (slots : D → ℕ) : ApplyCommand D → ℕ
  | data command => slots command
  | transactionCommit _ _ mutations => mutations.length

end ApplyCommand

/-- The enveloped command of any group; metadata and single-table commands by their debug
text. -/
inductive RaftCommand where
  | transactionCommit (requiredMetaIndex : ℕ) (transactionId : TransactionId)
      (mutations : List StagedMutation)
  | other (debug : String)
  deriving DecidableEq

/-! ### Responses -/

structure TransactionApplyResult where
  rowsAffected : ℕ := 0
  logIndex : ℕ := 0
  notificationsSent : ℕ := 0
  manifestUpdates : ℕ := 0
  publisherEvents : ℕ := 0
  deriving DecidableEq

inductive DataResponse where
  | ok
  | rowsAffected (n : ℕ)
  | transactionCommitted (result : TransactionApplyResult)
  | subscribed (subscriptionId : String)
  | error (message : String)
  deriving DecidableEq

/-- Coded errors keep their code and arguments. -/
def DataResponse.fromRaftError : RaftError → DataResponse
  | .coded e => .error e.encode
  | other => .error other.display

/-! ### The codec -/

/-- The byte formats of commands, and of the responses that have no packed form. They are the
business of the serialization crate; all that matters here is that the five counters of a
committed transaction can always be written. -/
structure CommandCodec where
  decodeUserDataCommand : List UInt8 → Except RaftError UserDataCommand
  decodeSharedDataCommand : List UInt8 → Except RaftError SharedDataCommand
  decodeRaftCommand : List UInt8 → Except RaftError RaftCommand
  encodeTyped : DataResponse → Except RaftError (List UInt8)
  encodeTyped_transactionCommitted :
    ∀ result, ∃ bytes, encodeTyped (.transactionCommitted result) = .ok bytes

/-- Try the group's own commands, then the commit of a transaction; nothing else belongs into
a data group. -/
def decodeApplyCommand {D : Type} (decodeOwn : List UInt8 → Except RaftError D)
    (codec : CommandCodec) (machine : String) (command : List UInt8) :
    Except RaftError (ApplyCommand D) :=
  match decodeOwn command with
  | .ok own => .ok (.data own)
  | .error _ =>
    match codec.decodeRaftCommand command with
    | .ok (.transactionCommit required transactionId mutations) =>
      .ok (.transactionCommit required transactionId mutations)
    | .ok (.other debug) =>
      .error (.serialization
        ("Unexpected raft command for " ++ machine ++ " data state machine: " ++ debug))
    | .error e => .error e

def PACKED_DATA_RESPONSE : UInt8 := 0xA3
def RESP_OK : UInt8 := 0
def RESP_ROWS_AFFECTED : UInt8 := 1
def RESP_ERROR : UInt8 := 2

/-- `n` in `width` bytes, the low byte first. -/
def toLeBytes (width n : ℕ) : List UInt8 :=
  (List.range width).map fun i => UInt8.ofNat (n / 256 ^ i)

/-- The longest field a two-byte length can announce. -/
def MAX_U16_BYTES : ℕ := 65535

def writeU16Bytes (bytes : List UInt8) : Except RaftError (List UInt8) :=
  if MAX_U16_BYTES < bytes.length then
    .error (.serialization "encode failed: packed field exceeds 65535 bytes")
  else .ok (toLeBytes 2 bytes.length ++ bytes)

variable (codec : CommandCodec)

def encodeDataResponse : DataResponse → Except RaftError (List UInt8)
  | .ok => .ok [PACKED_DATA_RESPONSE, RESP_OK]
  | .rowsAffected n => .ok ([PACKED_DATA_RESPONSE, RESP_ROWS_AFFECTED] ++ toLeBytes 8 n)
  | .error message => do
    let field ← writeU16Bytes message.toUTF8.data.toList
    return [PACKED_DATA_RESPONSE, RESP_ERROR] ++ field
  | response => codec.encodeTyped response

/-! ### What encodes -/

/-- The responses a data machine gives that fit their encoding. -/
def DataResponse.Fits : DataResponse → Prop
  | .ok | .rowsAffected _ | .transactionCommitted _ => True
  | .error message => message.utf8ByteSize ≤ MAX_U16_BYTES
  | .subscribed _ => False

instance : (response : DataResponse) → Decidable response.Fits
  | .ok | .rowsAffected _ | .transactionCommitted _ => .isTrue trivial
  | .error message => inferInstanceAs (Decidable (message.utf8ByteSize ≤ MAX_U16_BYTES))
  | .subscribed _ => .isFalse id

/-- A response that fits is encoded. -/
theorem encodeDataResponse_of_fits {response : DataResponse}
    (h : response.Fits) : ∃ bytes, encodeDataResponse codec response = .ok bytes := by
  cases response with
  | ok | rowsAffected => exact ⟨_, rfl⟩
  | transactionCommitted result => exact codec.encodeTyped_transactionCommitted result
  | subscribed subscriptionId => exact absurd h id
  | error message =>
    have hlen : ¬MAX_U16_BYTES < message.toUTF8.data.toList.length := by
      simpa [DataResponse.Fits] using h
    rw [encodeDataResponse, writeU16Bytes, if_neg hlen]
    exact ⟨_, rfl⟩

/-! ### A codec of a few commands -/

/-- A codec that knows a few shared commands by their bytes. -/
def knownCommands (known : List (List UInt8 × SharedDataCommand)) : CommandCodec where
  decodeUserDataCommand _ := .error (.serialization "decode failed")
  decodeSharedDataCommand bytes :=
    match known.lookup bytes with
    | some command => .ok command
    | none => .error (.serialization "decode failed")
  decodeRaftCommand _ := .error (.serialization "decode failed")
  encodeTyped _ := .ok []
  encodeTyped_transactionCommitted _ := ⟨[], rfl⟩

/-- An insert of one row proposed where the Meta group had applied `required`. -/
def insertItem (required : ℕ) (field : UInt8) : SharedDataCommand :=
  .insert required none none ("app", "items") [] [[field]]

end KalamDB.Raft
