import KalamDB.Raft.Commands
import KalamDB.Raft.PendingBuffer

/-!
# The data state machines

The shared and the user data groups run the same machine over different commands. `DataGroup`
holds what differs: how an entry decodes, its watermark, its row slots, and how a decoded
command is executed against the tables through the group's applier. The machine itself is one
definition, and the two groups are its two instances.

Applying an entry takes one of three ways. An entry at or below the applied index is **skipped**.
A command whose watermark is ahead of the Meta group is **buffered** and counts as applied. Any
other command first **drains** the buffer, with a second look at the Meta group, and is then
executed.

The applier reads catalogs that other groups change, so it is passed in by the log index of the
command it executes. The field `executed` is not in the source: it records the commands handed
to the applier that it did not refuse.
-/

namespace KalamDB.Raft

open List

/-! ### What differs between the groups -/

/-- A data group: `A` its applier, `C` its commands, `T` its tables. -/
structure DataGroup (A C T : Type) where
  codec : CommandCodec
  decodeApplyCommand : List UInt8 → Except RaftError C
  requiredMetaIndex : C → ℕ
  rowSlotCount : C → ℕ
  applyDecodedCommand : A → C → List VersionId → T → Except RaftError DataResponse × T

structure DataStateMachine (C T : Type) where
  lastAppliedIndex : ℕ
  lastAppliedTerm : ℕ
  pendingBuffer : PendingBuffer
  tables : T
  executed : List (ℕ × C)

inductive EntryPayload where
  | blank
  | normal (command : List UInt8)
  | membership
  deriving DecidableEq

/-- An entry of the group's log. -/
structure LogEntry where
  index : ℕ
  term : ℕ
  payload : EntryPayload
  deriving DecidableEq

/-- What applying an entry answers: the encoded response, or nothing. -/
inductive ApplyResult where
  | ok (data : List UInt8)
  | noOp
  deriving DecidableEq

namespace DataStateMachine

variable {C T : Type}

def new (tables : T) : DataStateMachine C T := ⟨0, 0, .empty, tables, []⟩

variable (m : DataStateMachine C T)

def markApplied (index term : ℕ) : DataStateMachine C T :=
  { m with lastAppliedIndex := index, lastAppliedTerm := term }

/-- Moves the applied index forward only. -/
def markAppliedIndex (index term : ℕ) : DataStateMachine C T :=
  if index ≤ m.lastAppliedIndex then m else m.markApplied index term

section MarkAppliedIndex

variable (m : DataStateMachine C T) (index term : ℕ)

@[simp]
theorem markAppliedIndex_pendingBuffer :
    (m.markAppliedIndex index term).pendingBuffer = m.pendingBuffer := by
  unfold markAppliedIndex
  split <;> rfl

@[simp]
theorem markAppliedIndex_executed : (m.markAppliedIndex index term).executed = m.executed := by
  unfold markAppliedIndex
  split <;> rfl

@[simp]
theorem markAppliedIndex_tables : (m.markAppliedIndex index term).tables = m.tables := by
  unfold markAppliedIndex
  split <;> rfl

@[simp]
theorem markAppliedIndex_lastAppliedIndex :
    (m.markAppliedIndex index term).lastAppliedIndex = max m.lastAppliedIndex index := by
  unfold markAppliedIndex
  split
  · rename_i hle
    exact (max_eq_left hle).symm
  · rename_i hlt
    exact (max_eq_right (le_of_not_ge hlt)).symm

end MarkAppliedIndex

/-- A command is waiting and its entry counts as applied. -/
def buffered (cmd : PendingCommand) : DataStateMachine C T :=
  { m with pendingBuffer := m.pendingBuffer.add cmd }.markApplied cmd.logIndex cmd.logTerm

/-- A command has been handed to the applier. -/
def recorded (index : ℕ) (cmd : C) (tables : T) :
    DataStateMachine C T :=
  { m with tables := tables, executed := m.executed ++ [(index, cmd)] }

end DataStateMachine

namespace DataGroup

variable {A C T : Type} (g : DataGroup A C T) (appliers : ℕ → A)

/-! ### Draining and applying -/

variable {cmd : C} {index term metaAtDrain metaAtCheck : ℕ} {m' m : DataStateMachine C T}
  {pending : List PendingCommand} {command : List UInt8} {r : ApplyResult} {applier : A}

/-- Execute the drained commands in order. A command without versions is dropped; any other
failure stops the drain. -/
def drainLoop : List PendingCommand → DataStateMachine C T →
    Except RaftError Unit × DataStateMachine C T
  | [], m => (.ok (), m)
  | pending :: rest, m =>
    match g.decodeApplyCommand pending.commandBytes with
    | .error e => (.error e, m)
    | .ok cmd =>
      match assignEntryVersions pending.logIndex (g.rowSlotCount cmd) with
      | .error _ => drainLoop rest m
      | .ok versions =>
        match g.applyDecodedCommand (appliers pending.logIndex) cmd versions m.tables with
        | (.error e, tables) => (.error e, { m with tables := tables })
        | (.ok _, tables) => drainLoop rest (m.recorded pending.logIndex cmd tables)

def drainPending (metaIndex : ℕ) (m : DataStateMachine C T) :
    Except RaftError Unit × DataStateMachine C T :=
  g.drainLoop appliers (m.pendingBuffer.drained metaIndex)
    { m with pendingBuffer := m.pendingBuffer.remaining metaIndex }

/-- The command itself, once its watermark is reached and the buffer drained. An entry without
versions is answered with an error and does not move the applied index. -/
def applyCurrent (index term : ℕ) (cmd : C) (m : DataStateMachine C T) :
    Except RaftError ApplyResult × DataStateMachine C T :=
  match assignEntryVersions index (g.rowSlotCount cmd) with
  | .error e => ((encodeDataResponse g.codec (.error e.display)).map .ok, m)
  | .ok versions =>
    match g.applyDecodedCommand (appliers index) cmd versions m.tables with
    | (.error e, tables) => (.error e, { m with tables := tables })
    | (.ok response, tables) =>
      ((encodeDataResponse g.codec response).map .ok,
        (m.recorded index cmd tables).markApplied index term)

/-- Apply a committed entry. The Meta index is read once for the watermark and again for the
drain. -/
def apply (index term : ℕ) (command : List UInt8) (metaAtCheck metaAtDrain : ℕ)
    (m : DataStateMachine C T) : Except RaftError ApplyResult × DataStateMachine C T :=
  if index ≤ m.lastAppliedIndex then (.ok .noOp, m)
  else
    match g.decodeApplyCommand command with
    | .error e => (.error e, m)
    | .ok cmd =>
      if 0 < g.requiredMetaIndex cmd ∧ metaAtCheck < g.requiredMetaIndex cmd then
        (.ok .noOp, m.buffered ⟨index, term, g.requiredMetaIndex cmd, command⟩)
      else
        match (if m.pendingBuffer.isEmpty then (.ok (), m)
          else g.drainPending appliers metaAtDrain m) with
        | (.error e, m') => (.error e, m')
        | (.ok (), m') => g.applyCurrent appliers index term cmd m'

/-- Blank and membership entries carry no command and only move the applied index. -/
def applyEntry (entry : LogEntry) (metaAtCheck metaAtDrain : ℕ) (m : DataStateMachine C T) :
    Except RaftError ApplyResult × DataStateMachine C T :=
  match entry.payload with
  | .normal command =>
    g.apply appliers entry.index entry.term command metaAtCheck metaAtDrain m
  | .blank | .membership => (.ok .noOp, m.markAppliedIndex entry.index entry.term)

/-! ### What an entry leaves behind -/

/-- The command of an entry if it decodes and its row versions can be assigned. -/
def accepted (index : ℕ) (command : List UInt8) : Option (ℕ × C) :=
  match g.decodeApplyCommand command with
  | .error _ => none
  | .ok cmd =>
    match assignEntryVersions index (g.rowSlotCount cmd) with
    | .error _ => none
    | .ok _ => some (index, cmd)

/-- The tables after one command. -/
def execute (tables : T) (entry : ℕ × C) : T :=
  match assignEntryVersions entry.1 (g.rowSlotCount entry.2) with
  | .error _ => tables
  | .ok versions => (g.applyDecodedCommand (appliers entry.1) entry.2 versions tables).2

/-- The machine after executing commands one by one. -/
def ran (m : DataStateMachine C T) (entries : List (ℕ × C)) : DataStateMachine C T :=
  { m with tables := entries.foldl (g.execute appliers) m.tables,
           executed := m.executed ++ entries }

variable {g appliers}

theorem ran_nil (m : DataStateMachine C T) : g.ran appliers m [] = m := by
  simp [ran]

/-- A command that the applier did not refuse is recorded with the tables it left. -/
theorem recorded_eq_ran {versions : List VersionId}
    (hversions : assignEntryVersions index (g.rowSlotCount cmd) = .ok versions)
    (m : DataStateMachine C T) :
    m.recorded index cmd (g.applyDecodedCommand (appliers index) cmd versions m.tables).2 =
      g.ran appliers m [(index, cmd)] := by
  simp [DataStateMachine.recorded, ran, execute, hversions]

/-- A drain that succeeds has executed the accepted commands it was given, in order. -/
theorem drainLoop_ok (h : g.drainLoop appliers pending m = (.ok (), m')) :
    m' = g.ran appliers m (pending.filterMap fun p => g.accepted p.logIndex p.commandBytes) := by
  fun_induction g.drainLoop appliers pending m with
  | case1 m =>
    rw [filterMap_nil, ran_nil]
    exact (Prod.mk.inj h).2.symm
  | case3 p rest m cmd hdecode e hversions ih =>
    rw [ih h, filterMap_cons_none (by simp [accepted, hdecode, hversions])]
  | case5 p rest m cmd hdecode versions hversions response tables happly ih =>
    have haccepted : g.accepted p.logIndex p.commandBytes = some (p.logIndex, cmd) := by
      simp [accepted, hdecode, hversions]
    have htables : tables =
        (g.applyDecodedCommand (appliers p.logIndex) cmd versions m.tables).2 := by
      rw [happly]
    rw [ih h, htables, recorded_eq_ran hversions, filterMap_cons, haccepted]
    simp [ran]
  | case2 | case4 => cases h

/-- What applying the command itself does when it succeeds. -/
theorem applyCurrent_ok (hdecode : g.decodeApplyCommand command = .ok cmd)
    (h : g.applyCurrent appliers index term cmd m = (.ok r, m')) :
    (g.accepted index command = none ∧ m' = m) ∨
      (g.accepted index command = some (index, cmd) ∧
        m' = (g.ran appliers m [(index, cmd)]).markApplied index term) := by
  revert h
  fun_cases g.applyCurrent appliers index term cmd m <;> intro h
  · next hversions =>
    exact .inl ⟨by simp [accepted, hdecode, hversions], (Prod.mk.inj h).2.symm⟩
  · cases h
  next versions hversions _ tables happly =>
  have htables : tables = (g.applyDecodedCommand (appliers index) cmd versions m.tables).2 := by
    rw [happly]
  refine .inr ⟨by simp [accepted, hdecode, hversions], ?_⟩
  rw [← (Prod.mk.inj h).2, htables, recorded_eq_ran hversions]

/-- The machine after a drain that succeeds. -/
def afterDrain (g : DataGroup A C T) (appliers : ℕ → A) (m : DataStateMachine C T)
    (metaIndex : ℕ) : DataStateMachine C T :=
  g.ran appliers { m with pendingBuffer := m.pendingBuffer.remaining metaIndex }
    ((m.pendingBuffer.drained metaIndex).filterMap fun p => g.accepted p.logIndex p.commandBytes)

theorem afterDrain_of_isEmpty (h : m.pendingBuffer.isEmpty = true) (metaIndex : ℕ) :
    afterDrain g appliers m metaIndex = m := by
  have hnil := PendingBuffer.isEmpty_iff.mp h
  have hremaining : m.pendingBuffer.remaining metaIndex = m.pendingBuffer :=
    PendingBuffer.ext (by simp [PendingBuffer.remaining, hnil])
  rw [afterDrain, hremaining, PendingBuffer.drained, hnil]
  exact ran_nil m

/-- With an empty buffer the drain is not run, and would have done nothing. -/
theorem eq_afterDrain_of_drain {metaIndex : ℕ} (h : (if m.pendingBuffer.isEmpty then (.ok (), m)
      else g.drainPending appliers metaIndex m) = (.ok (), m')) :
    m' = afterDrain g appliers m metaIndex := by
  split at h
  · rename_i hempty
    rw [afterDrain_of_isEmpty hempty]
    exact (Prod.mk.inj h).2.symm
  · exact drainLoop_ok h

/-- **What applying an entry can do**: skip it, buffer it, or drain and execute. -/
theorem apply_ok (h : g.apply appliers index term command metaAtCheck metaAtDrain m = (.ok r, m')) :
    (index ≤ m.lastAppliedIndex ∧ m' = m) ∨
      m.lastAppliedIndex < index ∧ ∃ cmd, g.decodeApplyCommand command = .ok cmd ∧
        ((metaAtCheck < g.requiredMetaIndex cmd ∧
            m' = m.buffered ⟨index, term, g.requiredMetaIndex cmd, command⟩) ∨
          g.requiredMetaIndex cmd ≤ metaAtCheck ∧
            ((g.accepted index command = none ∧ m' = afterDrain g appliers m metaAtDrain) ∨
              (g.accepted index command = some (index, cmd) ∧
                m' = (g.ran appliers (afterDrain g appliers m metaAtDrain)
                  [(index, cmd)]).markApplied index term))) := by
  unfold apply at h
  split at h
  · rename_i hskip
    exact .inl ⟨hskip, (Prod.mk.inj h).2.symm⟩
  rename_i hnew
  refine .inr ⟨not_le.mp hnew, ?_⟩
  split at h
  · cases h
  rename_i cmd hdecode
  refine ⟨cmd, hdecode, ?_⟩
  split at h
  · rename_i hahead
    exact .inl ⟨hahead.2, (Prod.mk.inj h).2.symm⟩
  refine .inr ⟨by omega, ?_⟩
  split at h
  · cases h
  rename_i drained hdrain
  rw [eq_afterDrain_of_drain hdrain] at h
  exact applyCurrent_ok hdecode h

/-- The tables are the fold of the executed commands. -/
theorem applyEntry_tables {tables : T} {entry : LogEntry}
    (hm : m.tables = m.executed.foldl (g.execute appliers) tables)
    (h : g.applyEntry appliers entry metaAtCheck metaAtDrain m = (.ok r, m')) :
    m'.tables = m'.executed.foldl (g.execute appliers) tables := by
  have hran : ∀ (n : DataStateMachine C T) (xs : List (ℕ × C)),
      n.tables = n.executed.foldl (g.execute appliers) tables →
      (g.ran appliers n xs).tables =
        (g.ran appliers n xs).executed.foldl (g.execute appliers) tables := by
    intro n xs hn
    simp [ran, hn]
  have hmark : (m.markAppliedIndex entry.index entry.term).tables =
      (m.markAppliedIndex entry.index entry.term).executed.foldl (g.execute appliers) tables := by
    simpa using hm
  unfold applyEntry at h
  split at h
  · obtain ⟨-, rfl⟩ | ⟨-, cmd, -, ⟨-, rfl⟩ | ⟨-, ⟨-, rfl⟩ | ⟨-, rfl⟩⟩⟩ := apply_ok h
    · exact hm
    · exact hm
    · exact hran _ _ hm
    · exact hran _ _ (hran _ _ hm)
  · rw [← (Prod.mk.inj h).2]
    exact hmark
  · rw [← (Prod.mk.inj h).2]
    exact hmark

/-! ### Commands that are executed and answered -/

variable (g) in
/-- Under this applier every command of the group is executed and its response encodes. -/
def Executes (applier : A) : Prop :=
  ∀ cmd versions tables, ∃ response tables',
    g.applyDecodedCommand applier cmd versions tables = (.ok response, tables') ∧ response.Fits

section

variable (h : g.Executes applier)
include h

theorem Executes.drainLoop
    (hdecode : ∀ p ∈ pending, ∃ cmd, g.decodeApplyCommand p.commandBytes = .ok cmd)
    (m : DataStateMachine C T) : ∃ m', g.drainLoop (fun _ => applier) pending m = (.ok (), m') := by
  induction pending generalizing m with
  | nil => exact ⟨m, rfl⟩
  | cons p rest ih =>
    obtain ⟨cmd, hcmd⟩ := hdecode p (by simp)
    have hrest := ih fun q hq => hdecode q (by simp [hq])
    simp only [DataGroup.drainLoop, hcmd]
    cases assignEntryVersions p.logIndex (g.rowSlotCount cmd) with
    | error e => exact hrest m
    | ok versions =>
      obtain ⟨response, tables', happly, -⟩ := h cmd versions m.tables
      simp only [happly]
      exact hrest _

theorem Executes.applyCurrent (index term : ℕ) (cmd : C) (m : DataStateMachine C T) :
    ∃ r m', g.applyCurrent (fun _ => applier) index term cmd m = (.ok r, m') := by
  unfold DataGroup.applyCurrent
  cases assignEntryVersions index (g.rowSlotCount cmd) with
  | error e =>
    have hfits : (DataResponse.error e.display).Fits := e.utf8ByteSize_display_le.trans (by decide)
    obtain ⟨bytes, hbytes⟩ := encodeDataResponse_of_fits g.codec hfits
    exact ⟨.ok bytes, m, by simp [hbytes, Except.map]⟩
  | ok versions =>
    obtain ⟨response, tables', happly, hfits⟩ := h cmd versions m.tables
    obtain ⟨bytes, hbytes⟩ := encodeDataResponse_of_fits g.codec hfits
    exact ⟨.ok bytes, _, by simp only [happly, hbytes]; rfl⟩

/-- An entry that decodes is applied, whatever waits in the buffer. -/
theorem Executes.apply (hcmd : g.decodeApplyCommand command = .ok cmd)
    (hpending : ∀ p ∈ m.pendingBuffer.commands,
      ∃ cmd, g.decodeApplyCommand p.commandBytes = .ok cmd)
    (index term metaAtCheck metaAtDrain : ℕ) :
    ∃ r m', g.apply (fun _ => applier) index term command metaAtCheck metaAtDrain m =
      (.ok r, m') := by
  unfold DataGroup.apply
  simp only [hcmd]
  split
  · exact ⟨_, _, rfl⟩
  split
  · exact ⟨_, _, rfl⟩
  have hdrain : ∃ m', (if m.pendingBuffer.isEmpty then (.ok (), m)
      else g.drainPending (fun _ => applier) metaAtDrain m) = (.ok (), m') := by
    split
    · exact ⟨m, rfl⟩
    · exact h.drainLoop (fun p hp => hpending p (PendingBuffer.mem_drained.mp hp).1) _
  obtain ⟨m', hm'⟩ := hdrain
  rw [hm']
  exact h.applyCurrent index term cmd m'

end

end DataGroup

end KalamDB.Raft
