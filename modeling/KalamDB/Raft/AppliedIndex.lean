import KalamDB.Raft.Recovery

/-!
# What the applied index stands for

An entry whose index counts as applied is not applied again. The machine moves its index on when it
buffers an entry and when it executes one, **but not when the rows of an entry get no versions**:
then it answers with an error and stays where it was (`appliesOnce_iff_hasVersions`).

A snapshot carries two such indexes: the log position that labels it, and the applied index of the
state inside. The label is read first, so an entry that is applied in between is in the state and
behind the label. Where no apply comes in between, both are the same (`snapshots_labelled`).
-/

namespace KalamDB.Raft

open Runs DataGroup

/-! ### Entries -/

namespace DataGroup

variable {A C T : Type} (g : DataGroup A C T) (index : ℕ) (command : List UInt8)

/-- **Applied once**: whatever the machine holds, once applying the entry succeeds its index counts
as applied, and applying that index again does nothing. -/
def AppliesOnce : Prop :=
  ∀ appliers term metaAtCheck metaAtDrain m r m',
    g.apply appliers index term command metaAtCheck metaAtDrain m = (.ok r, m') →
    index ≤ m'.lastAppliedIndex ∧ ∀ appliers' term' command' metaAtCheck' metaAtDrain',
      g.apply appliers' index term' command' metaAtCheck' metaAtDrain' m' = (.ok .noOp, m')

/-- The entry does not decode, or each of its rows gets a version. -/
def HasVersions : Prop :=
  ∀ cmd, g.decodeApplyCommand command = .ok cmd →
    ∃ versions, assignEntryVersions index (g.rowSlotCount cmd) = .ok versions

variable {g index command}

theorem HasVersions.le_lastAppliedIndex {appliers : ℕ → A} {term metaAtCheck metaAtDrain : ℕ}
    {r : ApplyResult} {m m' : DataStateMachine C T} (h : g.HasVersions index command)
    (happly : g.apply appliers index term command metaAtCheck metaAtDrain m = (.ok r, m')) :
    index ≤ m'.lastAppliedIndex := by
  obtain ⟨hskip, rfl⟩ | ⟨-, cmd, hdecode, ⟨-, rfl⟩ | ⟨-, ⟨hnone, -⟩ | ⟨-, rfl⟩⟩⟩ := apply_ok happly
  · exact hskip
  · exact le_rfl
  · obtain ⟨versions, hversions⟩ := h cmd hdecode
    simp [accepted, hdecode, hversions] at hnone
  · exact le_rfl

/-- An entry without versions is answered and does not count as applied. -/
theorem not_appliesOnce {cmd : C} {e : VersionError} (applier : A) (tables : T)
    (hindex : 0 < index) (hdecode : g.decodeApplyCommand command = .ok cmd)
    (hversions : assignEntryVersions index (g.rowSlotCount cmd) = .error e) :
    ¬g.AppliesOnce index command := by
  intro h
  have hfits : (DataResponse.error e.display).Fits := e.utf8ByteSize_display_le.trans (by decide)
  obtain ⟨bytes, hbytes⟩ := encodeDataResponse_of_fits g.codec hfits
  have hnew : ¬index ≤ (DataStateMachine.new tables : DataStateMachine C T).lastAppliedIndex :=
    not_le.mpr hindex
  -- the Meta group is just where the entry needs it
  have hmeta : ¬(0 < g.requiredMetaIndex cmd ∧ g.requiredMetaIndex cmd < g.requiredMetaIndex cmd) :=
    fun h => lt_irrefl _ h.2
  have happly : g.apply (fun _ => applier) index 0 command (g.requiredMetaIndex cmd) 0
      (.new tables) = (.ok (.ok bytes), .new tables) := by
    rw [apply, if_neg hnew, hdecode]
    simp only [if_neg hmeta]
    change g.applyCurrent _ index 0 cmd _ = _
    simp [applyCurrent, hversions, hbytes, Except.map]
  exact hnew (h _ _ _ _ _ _ _ happly).1

end DataGroup

/-- **The applied index tracks applied entries** of a shared shard, unless the rows of an entry get
no versions. -/
theorem appliesOnce_iff_hasVersions {T : Type} (tables : T) (codec : CommandCodec)
    (shard index : ℕ) (command : List UInt8) :
    (sharedDataGroup T codec shard).AppliesOnce index command ↔
      index = 0 ∨ (sharedDataGroup T codec shard).HasVersions index command := by
  constructor
  · intro h
    refine or_iff_not_imp_left.mpr fun hindex cmd hdecode => ?_
    cases hversions : assignEntryVersions index ((sharedDataGroup T codec shard).rowSlotCount cmd)
    · exact absurd h (not_appliesOnce none tables (Nat.pos_of_ne_zero hindex) hdecode hversions)
    · exact ⟨_, rfl⟩
  · intro h appliers term metaAtCheck metaAtDrain m r m' happly
    have hindex : index ≤ m'.lastAppliedIndex :=
      h.elim (fun hzero => hzero ▸ Nat.zero_le _) fun h => h.le_lastAppliedIndex happly
    exact ⟨hindex, fun _ _ _ _ _ => if_pos hindex⟩

/-- The insert of one row more than an entry has versions for. -/
def insertTooMany : SharedDataCommand :=
  .insert 0 none none ("app", "items") [] (List.replicate 65537 [])

theorem not_appliesOnce_insertTooMany :
    ¬(sharedDataGroup Unit (knownCommands [([1], insertTooMany)]) 0).AppliesOnce 1 [1] := by
  have hslots : insertTooMany.rowSlotCount = 65537 := by
    rw [insertTooMany, SharedDataCommand.rowSlotCount, List.length_replicate]
    rfl
  refine not_appliesOnce none () Nat.one_pos rfl (e := .tooManySlots 65537) ?_
  change assignEntryVersions 1 insertTooMany.rowSlotCount = _
  rw [hslots]
  rfl

/-! ### Snapshots -/

namespace Node

variable {A C T : Type} {g : DataGroup A C T} {log : g.CommittedLog} {s s' : Node C T}
  {event : NodeEvent A}

/-- No entry is applied while a snapshot is built, the rows of each entry get versions, and crashes
are safe. -/
def Apart (g : DataGroup A C T) (s : Node C T) : NodeEvent A → Prop
  | .applyNext _ _ => s.build = none ∧ ∀ call entry rest, s.call = some call →
      call.remaining = entry :: rest → g.HasVersions entry.index entry.command
  | .crash => SafeCrash s
  | _ => True

theorem Apart.crashSafe (h : Apart g s event) : CrashSafe s event := by
  cases event with
  | crash => exact h
  | _ => trivial

/-- The machine is not behind the progress, and what is labelled is labelled right. -/
structure Labelled (s : Node C T) : Prop where
  machine : s.stopped = false → positionIndex s.lastApplied ≤ s.machine.lastAppliedIndex
  build : ∀ build, s.build = some build → build.lastAppliedLog = s.lastApplied
  snapshot : ∀ snapshot, s.disk.snapshot = some snapshot →
    positionIndex snapshot.lastAppliedLog = snapshot.stateAppliedIndex

theorem Labelled.step (h : Labelled s) (hinv : Recoverable log s) (hapart : Apart g s event)
    (hstep : Node.step g log.entries s event = some s') : Labelled s' := by
  cases stepped_of_step hstep with
  | crash =>
    -- a restart moves the machine up to the progress
    refine ⟨fun _ => ?_, by rintro _ ⟨⟩, h.snapshot⟩
    rw [newPersistent, restoreStateMachineFromSnapshot]
    cases recoveredLastApplied s.disk with
    | none => exact Nat.zero_le _
    | some position => simp [reconcileStateMachineProgress]
  | metaAdvance | beginApply | endApply | purge => exact { h with }
  | applied n appliers call entry rest r m hrun hcall hnext happly =>
    have hsnapshot := (Recoverable.writeThrough_keeps call.coalesced s.disk m).2.1
    obtain ⟨hbuild, hversions⟩ := hapart
    refine ⟨fun _ => ?_, fun build hb => ?_, fun snapshot hs => ?_⟩
    · change entry.index ≤ m.lastAppliedIndex
      cases hnormal : entry.isNormal with
      | false =>
        rw [applyEntry_of_not_isNormal hnormal] at happly
        rw [← (Prod.mk.inj happly).2]
        simp
      | true =>
        rw [applyEntry, LogEntry.payload_of_isNormal hnormal] at happly
        exact (hversions call entry rest hcall hnext).le_lastAppliedIndex happly
    · cases hbuild.symm.trans hb
    · exact h.snapshot snapshot (hsnapshot.symm.trans hs)
  | failed n appliers call entry rest e m hrun hcall hnext happly =>
    have hsnapshot := (Recoverable.writeThrough_keeps call.coalesced s.disk m).2.1
    exact ⟨by rintro ⟨⟩, h.build, fun snapshot hs => h.snapshot snapshot (hsnapshot.symm.trans hs)⟩
  | snapshotBegin hrun =>
    refine { h with build := ?_ }
    rintro _ ⟨⟩
    rfl
  | snapshotPending last hrun hbuild =>
    refine { h with build := ?_ }
    rintro _ ⟨⟩
    exact h.build ⟨last, none⟩ hbuild
  | snapshotWrite last pending hrun hbuild =>
    have hlast : last = s.lastApplied := h.build _ hbuild
    refine { h with build := by rintro _ ⟨⟩, snapshot := ?_ }
    rintro _ ⟨⟩
    rw [hlast]
    exact le_antisymm (h.machine hrun) (hinv.machineLast hrun)

/-- **Snapshots are labelled with their contents** along every run in which applies and builds stay
apart. A replica gets the entries which the restored machine has not applied, and no others. -/
theorem snapshots_labelled (log : g.CommittedLog) (tables : T) {events : List (NodeEvent A)}
    (hapart : Meets (Node.step g log.entries) (Apart g) (.fresh tables) events)
    (hrun : run (Node.step g log.entries) (.fresh tables) events = some s)
    {snapshot : StoredSnapshot} (hsnapshot : s.disk.snapshot = some snapshot) :
    positionIndex snapshot.lastAppliedLog = snapshot.stateAppliedIndex ∧
      ∀ (m : DataStateMachine C T) (e : LogEntry), 0 < e.index →
        (isAfter snapshot.lastAppliedLog e = true ↔
          (restore m snapshot).lastAppliedIndex < e.index) := by
  have hend := run_invariant (fun s => Recoverable log s ∧ Labelled s)
    (fun _ _ _ hok ⟨hinv, h⟩ hstep => ⟨hinv.step hok.crashSafe hstep, h.step hinv hok hstep⟩)
    ⟨.fresh log tables, fun _ => Nat.zero_le _, nofun, nofun⟩ hapart hrun
  have hlabel := hend.2.snapshot snapshot hsnapshot
  refine ⟨hlabel, fun m e he => ?_⟩
  rw [restore, ← hlabel]
  cases snapshot.lastAppliedLog with
  | none => exact iff_of_true rfl he
  | some position => exact isAfter_some

/-- An entry is applied between the label and the state: a replica that restores the snapshot is
sent the entry and takes it for applied. -/
theorem snapshot_label_behind_state :
    ((run (Node.step (sharedDataGroup Unit restartCodec 0) restartLog.entries) (.fresh ())
        ([.snapshotBegin] ++ applyOne ++ [.snapshotPending, .snapshotWrite])).bind
          fun s => s.disk.snapshot) = some ⟨none, 1, 1, [⟨1, 1, 5, [1]⟩]⟩ := by
  decide

/-- An entry is applied, then a snapshot is built. -/
def applyThenBuild : List (NodeEvent (Option (SharedDataApplier Unit))) :=
  applyOne ++ [.snapshotBegin, .snapshotPending, .snapshotWrite]

theorem snapshots_labelled_applyThenBuild :
    ∃ s snapshot, run (Node.step (sharedDataGroup Unit restartCodec 0) restartLog.entries)
        (.fresh ()) applyThenBuild = some s ∧ s.disk.snapshot = some snapshot ∧
      positionIndex snapshot.lastAppliedLog = snapshot.stateAppliedIndex := by
  have hmeets : Meets (step (sharedDataGroup Unit restartCodec 0) restartLog.entries)
      (Apart (sharedDataGroup Unit restartCodec 0)) (.fresh ()) applyThenBuild := by
    refine ⟨trivial, fun s₁ h₁ => ⟨?_, fun _ _ => ⟨trivial, fun _ _ => ⟨trivial, fun _ _ =>
      ⟨trivial, fun _ _ => ⟨trivial, fun _ _ => trivial⟩⟩⟩⟩⟩⟩
    cases h₁
    refine ⟨rfl, ?_⟩
    rintro _ _ _ ⟨⟩ ⟨⟩ cmd hcmd
    cases hcmd
    exact ⟨_, rfl⟩
  exact ⟨_, _, rfl, rfl, (snapshots_labelled restartLog () hmeets rfl rfl).1⟩

end Node

end KalamDB.Raft
