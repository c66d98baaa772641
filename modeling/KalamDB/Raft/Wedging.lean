import KalamDB.Raft.DataGroups

/-!
# Committed entries that cannot be applied

An error from `apply` stops the replica at the entry, and every replay meets it again. Most
failures of a command are turned into a **response**; this file says exactly which ones are not.
Two checks come after the point where nothing may fail any more:

* the shared group looks up the **owner of the table** when a command is executed, in the
  catalog of that moment, for the command itself and for every buffered command it releases;
* a response is encoded **after** the command was executed, and an error text of more than
  65535 bytes has no encoding.
-/

namespace KalamDB.Raft

open SharedDataStateMachine List DataResponse

variable {A C T : Type} (codec : CommandCodec) {response : DataResponse}

/-- Apart from subscriptions, the responses that fit are those that are encoded. -/
theorem encodeDataResponse_ok_iff (h : ∀ subscriptionId, response ≠ .subscribed subscriptionId) :
    (∃ bytes, encodeDataResponse codec response = .ok bytes) ↔ response.Fits := by
  refine ⟨fun ⟨bytes, hbytes⟩ => ?_, encodeDataResponse_of_fits codec⟩
  cases response with
  | ok | rowsAffected | transactionCommitted => exact trivial
  | subscribed subscriptionId => exact h subscriptionId rfl
  | error message =>
    by_contra hnot
    have hlen : MAX_U16_BYTES < message.toUTF8.data.toList.length := by
      simpa [DataResponse.Fits] using hnot
    rw [encodeDataResponse, writeU16Bytes, if_pos hlen] at hbytes
    cases hbytes

namespace DataGroup

variable (g : DataGroup A C T) (appliers : ℕ → A) {m : DataStateMachine C T} {cmd : C}
  {index term : ℕ}

/-- Applying the entry returns a response. -/
def Answers (index term : ℕ) (command : List UInt8) (metaAtCheck metaAtDrain : ℕ)
    (m : DataStateMachine C T) : Prop :=
  ∃ r m', g.apply appliers index term command metaAtCheck metaAtDrain m = (.ok r, m')

/-- The applier's answer to a command can be encoded. -/
def AnswerFits (index : ℕ) (cmd : C) (tables : T) : Prop :=
  ∀ versions response tables', assignEntryVersions index (g.rowSlotCount cmd) = .ok versions →
    g.applyDecodedCommand (appliers index) cmd versions tables = (.ok response, tables') →
    response.Fits

/-- Every waiting command that this entry releases is admitted. -/
def ReleasesAdmitted (Admitted : A → C → Prop) (metaIndex : ℕ) (m : DataStateMachine C T) :
    Prop :=
  ∀ p ∈ m.pendingBuffer.commands, p.requiredMetaIndex ≤ metaIndex →
    ∀ x, g.accepted p.logIndex p.commandBytes = some x → Admitted (appliers p.logIndex) x.2

/-- The entry was applied before, or has to wait for the Meta group. -/
def SetAside (index metaAtCheck : ℕ) (cmd : C) (m : DataStateMachine C T) : Prop :=
  index ≤ m.lastAppliedIndex ∨ metaAtCheck < g.requiredMetaIndex cmd

/-- The commands in the buffer decode; they were entries of the log. -/
def PendingDecodes (m : DataStateMachine C T) : Prop :=
  ∀ p ∈ m.pendingBuffer.commands, ∃ cmd, g.decodeApplyCommand p.commandBytes = .ok cmd

variable {g appliers}

theorem pendingDecodes_new (tables : T) : g.PendingDecodes (.new tables) := by
  intro p hp
  cases hp

/-- Whether the machine objects is decided by the applier and the command, and no answer is a
subscription. -/
def Decides (g : DataGroup A C T) (Admitted : A → C → Prop) : Prop :=
  ∀ applier cmd versions tables,
    (Admitted applier cmd ∧ ∃ response tables', (∀ id, response ≠ .subscribed id) ∧
      g.applyDecodedCommand applier cmd versions tables = (.ok response, tables')) ∨
    (¬Admitted applier cmd ∧ ∃ e tables',
      g.applyDecodedCommand applier cmd versions tables = (.error e, tables'))

variable {Admitted : A → C → Prop}

/-- A drain succeeds exactly when each accepted command is admitted. -/
theorem drainLoop_ok_iff (hadm : g.Decides Admitted) {pending : List PendingCommand}
    (hdecode : ∀ p ∈ pending, ∃ cmd, g.decodeApplyCommand p.commandBytes = .ok cmd)
    (m : DataStateMachine C T) :
    (∃ m', g.drainLoop appliers pending m = (.ok (), m')) ↔
      ∀ p ∈ pending, ∀ x, g.accepted p.logIndex p.commandBytes = some x →
        Admitted (appliers p.logIndex) x.2 := by
  induction pending generalizing m with
  | nil => simp [drainLoop]
  | cons p rest ih =>
    obtain ⟨cmd, hcmd⟩ := hdecode p mem_cons_self
    have hrest := ih fun q hq => hdecode q (mem_cons_of_mem p hq)
    rw [forall_mem_cons]
    cases hversions : assignEntryVersions p.logIndex (g.rowSlotCount cmd) with
    | error e =>
      -- a command without versions is dropped
      have hnone : g.accepted p.logIndex p.commandBytes = none := by
        simp [accepted, hcmd, hversions]
      simp only [drainLoop, hcmd, hversions, hnone]
      rw [hrest]
      simp
    | ok versions =>
      have hsome : g.accepted p.logIndex p.commandBytes = some (p.logIndex, cmd) := by
        simp [accepted, hcmd, hversions]
      simp only [drainLoop, hcmd, hversions, hsome]
      obtain ⟨hcmdOk, response, tables', -, happly⟩ | ⟨hrefused, e, tables', happly⟩ :=
        hadm (appliers p.logIndex) cmd versions m.tables
      · simp only [happly]
        rw [hrest]
        simp [hcmdOk]
      · -- the drain stops with the machine's error
        simp [happly, hrefused]

/-- The drain in front of a command succeeds exactly when every command it releases is
admitted. -/
theorem drain_ok_iff (hadm : g.Decides Admitted) (hpending : g.PendingDecodes m) (metaIndex : ℕ) :
    (∃ m', (if m.pendingBuffer.isEmpty then (.ok (), m)
        else g.drainPending appliers metaIndex m) = (.ok (), m')) ↔
      g.ReleasesAdmitted appliers Admitted metaIndex m := by
  split
  · rename_i hempty
    have hnil := PendingBuffer.isEmpty_iff.mp hempty
    simp [ReleasesAdmitted, hnil]
  rw [drainPending, drainLoop_ok_iff hadm fun p hp =>
    hpending p (PendingBuffer.mem_drained.mp hp).1]
  simp only [PendingBuffer.mem_drained, and_imp, ReleasesAdmitted]

/-- The command itself is answered exactly when it is admitted and its answer fits, or when it
has no versions. -/
theorem applyCurrent_ok_iff (hadm : g.Decides Admitted) :
    (∃ r m', g.applyCurrent appliers index term cmd m = (.ok r, m')) ↔
      (∀ versions, assignEntryVersions index (g.rowSlotCount cmd) = .ok versions →
        Admitted (appliers index) cmd) ∧ g.AnswerFits appliers index cmd m.tables := by
  unfold applyCurrent
  cases hversions : assignEntryVersions index (g.rowSlotCount cmd) with
  | error e =>
    have hfits : (error e.display).Fits := e.utf8ByteSize_display_le.trans (by decide)
    obtain ⟨bytes, hbytes⟩ := encodeDataResponse_of_fits g.codec hfits
    simp [hbytes, Except.map, AnswerFits, hversions]
  | ok versions =>
    obtain ⟨hcmdOk, response, tables', hanswer, happly⟩ | ⟨hrefused, e, tables', happly⟩ :=
      hadm (appliers index) cmd versions m.tables
    · have hfits : g.AnswerFits appliers index cmd m.tables ↔ response.Fits := by
        refine ⟨fun h => h versions response tables' hversions happly, ?_⟩
        intro hfits _ _ _ hversions' happly'
        cases hversions.symm.trans hversions'
        cases happly.symm.trans happly'
        exact hfits
      rw [hfits, ← encodeDataResponse_ok_iff g.codec hanswer]
      simp only [happly, hcmdOk]
      cases hencode : encodeDataResponse g.codec response with
      | ok | error => simp [Except.map]
    · simp [happly, hrefused]

/-- **An entry is answered** exactly when it is set aside, or when every command it executes is
admitted and its own answer fits. -/
theorem answers_iff (hadm : g.Decides Admitted) {command : List UInt8}
    {metaAtCheck metaAtDrain : ℕ} (hcmd : g.decodeApplyCommand command = .ok cmd)
    (hpending : g.PendingDecodes m) :
    g.Answers appliers index term command metaAtCheck metaAtDrain m ↔
      g.SetAside index metaAtCheck cmd m ∨
        g.ReleasesAdmitted appliers Admitted metaAtDrain m ∧
          (∀ versions, assignEntryVersions index (g.rowSlotCount cmd) = .ok versions →
            Admitted (appliers index) cmd) ∧
          g.AnswerFits appliers index cmd (afterDrain g appliers m metaAtDrain).tables := by
  unfold Answers apply SetAside
  simp only [hcmd]
  split
  · rename_i hskip
    simp [hskip]
  rename_i hnew
  split
  · rename_i hahead
    simp [hahead.2]
  have hreached' : ¬metaAtCheck < g.requiredMetaIndex cmd := by omega
  simp only [hnew, hreached', false_or]
  rw [← drain_ok_iff hadm hpending metaAtDrain]
  split
  · -- the drain fails, and its error is the entry's
    rename_i e m' hfail
    simp [hfail]
  rename_i m' hdrain
  have hafter := eq_afterDrain_of_drain hdrain
  rw [applyCurrent_ok_iff hadm, hafter]
  exact (and_iff_right ⟨m', hdrain⟩).symm

end DataGroup

/-! ### The two groups -/

namespace SharedDataStateMachine

variable {a : SharedDataApplier T} {shard : ℕ}

/-- The shard owns every table the command touches, as far as it is asked: without an applier
and for a transaction with other tables it is not. -/
def Owns (shard : ℕ) (applier : Option (SharedDataApplier T)) (cmd : SharedApplyCommand) : Prop :=
  ∀ a, applier = some a →
    match cmd with
    | .data command => a.sharedShardId command.tableId = .ok shard
    | .transactionCommit _ _ mutations =>
      (∀ mutation ∈ mutations, mutation.tableType = .shared) →
      ∀ mutation ∈ mutations, a.sharedShardId mutation.tableId = .ok shard

theorem checkOwner_eq_ok_iff {table : TableId} :
    checkOwner shard a table = .ok () ↔ a.sharedShardId table = .ok shard := by
  unfold checkOwner
  cases h : a.sharedShardId table with
  | error e => simp
  | ok owner => by_cases howner : owner = shard <;> simp

theorem checkOwners_eq_ok_iff {mutations : List StagedMutation} :
    checkOwners shard a mutations = .ok () ↔
      ∀ mutation ∈ mutations, a.sharedShardId mutation.tableId = .ok shard := by
  induction mutations with
  | nil => simp [checkOwners]
  | cons mutation rest ih =>
    rw [forall_mem_cons, checkOwners]
    cases h : a.sharedShardId mutation.tableId with
    | error e => simp
    | ok owner => by_cases howner : owner = shard <;> simp [howner, ih]

end SharedDataStateMachine

theorem rowsResponse_ok (r : Except RaftError ℕ × T) :
    ∃ response tables', (∀ id, response ≠ .subscribed id) ∧
      rowsResponse r = (.ok response, tables') := by
  obtain ⟨e | count, tables⟩ := r
  · exact ⟨_, tables, by cases e <;> simp [fromRaftError], rfl⟩
  · exact ⟨_, tables, by simp, rfl⟩

theorem commitResponse_ok (r : Except RaftError TransactionApplyResult × T) :
    ∃ response tables', (∀ id, response ≠ .subscribed id) ∧
      commitResponse r = (.ok response, tables') := by
  obtain ⟨e | result, tables⟩ := r
  · exact ⟨_, tables, by cases e <;> simp [fromRaftError], rfl⟩
  · exact ⟨_, tables, by simp, rfl⟩

/-- A shared group refuses exactly the commands whose tables it does not own. -/
theorem sharedDataGroup_decides (shard : ℕ) :
    (sharedDataGroup T codec shard).Decides (SharedDataStateMachine.Owns shard) := by
  intro applier cmd versions tables
  simp only [sharedDataGroup, applyDecodedCommand]
  cases applier with
  | none =>
    refine .inl ⟨by simp [SharedDataStateMachine.Owns], ?_⟩
    cases cmd with
    | data command => exact ⟨_, tables, by simp, rfl⟩
    | transactionCommit required transactionId mutations =>
      simp only [applyTransactionCommit]
      split <;> exact ⟨_, tables, by simp, rfl⟩
  | some a =>
    cases cmd with
    | data command =>
      simp only [applyCommand, Option.elim_some]
      cases howner : checkOwner shard a command.tableId with
      | ok _ =>
        refine .inl ⟨?_, ?_⟩
        · simpa [SharedDataStateMachine.Owns] using checkOwner_eq_ok_iff.mp howner
        · cases command <;> exact rowsResponse_ok _
      | error e =>
        refine .inr ⟨fun howns => ?_, e, tables, rfl⟩
        rw [checkOwner_eq_ok_iff.mpr (howns a rfl)] at howner
        cases howner
    | transactionCommit required transactionId mutations =>
      simp only [applyTransactionCommit]
      split
      · rename_i hother
        refine .inl ⟨?_, _, tables, by simp, rfl⟩
        rintro _ - hshared
        obtain ⟨mutation, hmem, htype⟩ := any_eq_true.mp hother
        exact absurd (hshared mutation hmem) (by simpa using htype)
      · rename_i hshared
        cases howners : checkOwners shard a mutations with
        | ok _ =>
          refine .inl ⟨?_, commitResponse_ok _⟩
          rintro _ ⟨⟩ -
          exact checkOwners_eq_ok_iff.mp howners
        | error e =>
          refine .inr ⟨fun howns => ?_, e, tables, rfl⟩
          have hall : ∀ mutation ∈ mutations, mutation.tableType = .shared := by
            simpa using hshared
          rw [checkOwners_eq_ok_iff.mpr (howns a rfl hall)] at howners
          cases howners

/-- A user group refuses no command. -/
theorem userDataGroup_decides : (userDataGroup T codec).Decides fun _ _ => True := by
  intro applier cmd versions tables
  refine .inl ⟨trivial, ?_⟩
  simp only [userDataGroup, UserDataStateMachine.applyDecodedCommand]
  cases cmd with
  | data command =>
    cases applier with
    | none => exact ⟨_, tables, by simp, rfl⟩
    | some a => cases command <;> exact rowsResponse_ok _
  | transactionCommit required transactionId mutations =>
    simp only [UserDataStateMachine.applyTransactionCommit]
    split
    · exact ⟨_, tables, by simp, rfl⟩
    cases applier with
    | none => exact ⟨_, tables, by simp, rfl⟩
    | some a => exact commitResponse_ok _

open DataGroup

/-- **Which committed entries are answered.** In a shared group an entry that is not set aside
is answered exactly when the shard owns the tables of every command it executes and its own
answer fits; in a user group exactly when its answer fits. -/
theorem answers_iff_owned_and_fits (T : Type) (codec : CommandCodec) :
    (∀ (shard : ℕ) (appliers : ℕ → Option (SharedDataApplier T)) (index term : ℕ)
        (command : List UInt8) (cmd : SharedApplyCommand) (metaAtCheck metaAtDrain : ℕ)
        (m : DataStateMachine SharedApplyCommand T),
      (sharedDataGroup T codec shard).decodeApplyCommand command = .ok cmd →
      (sharedDataGroup T codec shard).PendingDecodes m →
      ((sharedDataGroup T codec shard).Answers appliers index term command metaAtCheck
          metaAtDrain m ↔
        (sharedDataGroup T codec shard).SetAside index metaAtCheck cmd m ∨
          (sharedDataGroup T codec shard).ReleasesAdmitted appliers
              (SharedDataStateMachine.Owns shard) metaAtDrain m ∧
            (∀ versions, assignEntryVersions index
                ((sharedDataGroup T codec shard).rowSlotCount cmd) = .ok versions →
              SharedDataStateMachine.Owns shard (appliers index) cmd) ∧
            (sharedDataGroup T codec shard).AnswerFits appliers index cmd
              (DataGroup.afterDrain (sharedDataGroup T codec shard) appliers m
                metaAtDrain).tables)) ∧
    ∀ (appliers : ℕ → Option (UserDataApplier T)) (index term : ℕ) (command : List UInt8)
        (cmd : UserApplyCommand) (metaAtCheck metaAtDrain : ℕ)
        (m : DataStateMachine UserApplyCommand T),
      (userDataGroup T codec).decodeApplyCommand command = .ok cmd →
      (userDataGroup T codec).PendingDecodes m →
      ((userDataGroup T codec).Answers appliers index term command metaAtCheck metaAtDrain m ↔
        (userDataGroup T codec).SetAside index metaAtCheck cmd m ∨
          (userDataGroup T codec).AnswerFits appliers index cmd
            (DataGroup.afterDrain (userDataGroup T codec) appliers m metaAtDrain).tables) := by
  constructor
  · intro shard appliers index term command cmd metaAtCheck metaAtDrain m hcmd hpending
    exact answers_iff (sharedDataGroup_decides codec shard) hcmd hpending
  · intro appliers index term command cmd metaAtCheck metaAtDrain m hcmd hpending
    rw [answers_iff (userDataGroup_decides codec) hcmd hpending]
    simp [DataGroup.ReleasesAdmitted]

/-! ### Entries that stop every replica -/

/-- An insert of one row into a user table. -/
def insertUserItem : UserDataCommand := .insert 0 none ("app", "items") "alice" [] [[1]]

def insertCodec : CommandCodec :=
  { knownCommands [([1], insertItem 0 1)] with
    decodeUserDataCommand := fun _ => .ok insertUserItem }

/-- An applier that refuses a value and quotes it in full. -/
def quotingApplier (value : String) : UserDataApplier Unit :=
  { NoOpUserDataApplier Unit with
    insert := fun _ _ _ _ _ tables => (.error (.provider value), tables) }

/-- A text of `n` bytes. -/
def longValue (n : ℕ) : String := String.ofList (List.replicate n 'x')

theorem utf8ByteSize_longValue (n : ℕ) : (longValue n).utf8ByteSize = n := by
  rw [longValue, String.utf8ByteSize_ofList]
  induction n with
  | zero => rfl
  | succ n ih =>
    rw [replicate_succ, String.utf8Len_cons, ih]
    rfl

theorem not_fits_of_lt_utf8ByteSize {value : String} (h : MAX_U16_BYTES < value.utf8ByteSize) :
    ¬(fromRaftError (.provider value)).Fits := by
  intro hfits
  have hle : ("Provider error: " ++ value).utf8ByteSize ≤ MAX_U16_BYTES := hfits
  rw [String.utf8ByteSize_append] at hle
  exact not_lt.mpr ((Nat.le_add_left _ _).trans hle) h

/-- An insert whose table has moved to another shard, and one that is refused with a long error
text: neither entry is answered. -/
theorem moved_table_and_long_error_not_answered :
    (¬(sharedDataGroup Unit insertCodec 0).Answers
        (fun _ => some (NoOpSharedDataApplier Unit 1)) 1 1 [1] 0 0 (.new ())) ∧
      ¬(userDataGroup Unit insertCodec).Answers
        (fun _ => some (quotingApplier (longValue 65536))) 1 1 [1] 0 0 (.new ()) := by
  constructor
  · rintro ⟨r, m', h⟩
    cases h
  · have hcmd : (userDataGroup Unit insertCodec).decodeApplyCommand [1] =
        .ok (.data insertUserItem) := rfl
    have hlong : MAX_U16_BYTES < (longValue 65536).utf8ByteSize := by
      rw [utf8ByteSize_longValue]
      decide
    generalize longValue 65536 = value at hlong
    rw [answers_iff (userDataGroup_decides insertCodec) hcmd (pendingDecodes_new ())]
    rintro (haside | ⟨-, -, hfits⟩)
    · rcases haside with h | h <;> cases h
    · exact not_fits_of_lt_utf8ByteSize hlong (hfits _ _ _ rfl rfl)

/-- The same inserts are answered while the shard owns the table and the error text is short. -/
theorem owned_table_and_short_error_answered :
    (sharedDataGroup Unit insertCodec 0).Answers
        (fun _ => some (NoOpSharedDataApplier Unit 0)) 1 1 [1] 0 0 (.new ()) ∧
      (userDataGroup Unit insertCodec).Answers
        (fun _ => some (quotingApplier "x")) 1 1 [1] 0 0 (.new ()) := by
  obtain ⟨hshared, huser⟩ := answers_iff_owned_and_fits Unit insertCodec
  have howner : ∀ versions response tables',
      (sharedDataGroup Unit insertCodec 0).applyDecodedCommand
        (some (NoOpSharedDataApplier Unit 0)) (.data (insertItem 0 1)) versions () =
          (.ok response, tables') → response.Fits := by
    rintro versions response tables' ⟨⟩
    exact trivial
  have hshort : ∀ versions response tables',
      (userDataGroup Unit insertCodec).applyDecodedCommand (some (quotingApplier "x"))
        (.data insertUserItem) versions () = (.ok response, tables') → response.Fits := by
    rintro versions response tables' ⟨⟩
    decide
  refine ⟨(hshared 0 _ 1 1 [1] (.data (insertItem 0 1)) 0 0 _ rfl (pendingDecodes_new ())).mpr ?_,
    (huser _ 1 1 [1] (.data insertUserItem) 0 0 _ rfl (pendingDecodes_new ())).mpr ?_⟩
  · refine .inr ⟨fun p hp => (by cases hp), ?_,
      fun versions response tables' _ => howner versions response tables'⟩
    rintro versions - a ⟨⟩
    rfl
  · exact .inr fun versions response tables' _ => hshort versions response tables'

end KalamDB.Raft
