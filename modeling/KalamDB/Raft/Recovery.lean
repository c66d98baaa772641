import KalamDB.Raft.DataGroups
import KalamDB.Raft.Store

/-!
# Exactly-once execution across restarts

A buffered command counts as applied, so after a restart nothing but the snapshot's pending
commands can bring it back. Whether a crash loses or repeats a command is therefore decided by
how the pending buffer, the snapshot and the persisted progress stand to each other
(`CrashSafe`).

`Recoverable` is the invariant of runs whose crashes are safe: **every accepted command up to
the progress is executed or waits**, both in memory and for a restart. No command is lost, and a
command that was executed and persisted before a crash is not executed after it.

Only a later command that passes its own watermark executes those that wait; nothing does when the
Meta group advances. A command whose Meta index is reached is executed in the end if such a command
is still to come then (`Drainable`).
-/

namespace KalamDB.Raft

open Runs Node List DataGroup

variable {A C T : Type}

/-! ### The property -/

/-- How often the command of an index was executed. -/
def executions (index : ℕ) (executed : List (ℕ × C)) : ℕ :=
  executed.countP fun x => decide (x.1 = index)

/-- **Every committed command takes effect exactly once** along a run from a fresh node. -/
structure ExactlyOnce (g : DataGroup A C T) (log : g.CommittedLog) (tables : T)
    (events : List (NodeEvent A)) : Prop where
  /-- A command up to the progress is executed or waits, one behind it is still in the log. -/
  notLost : ∀ s, run (Node.step g log.entries) (.fresh tables) events = some s →
    s.stopped = false → ∀ e ∈ log.entries, e.isNormal = true → ∀ x, g.acceptedEntry e = some x →
      (e.index ≤ positionIndex s.lastApplied →
        x ∈ s.machine.executed ∨ g.toPending e ∈ s.machine.pendingBuffer.commands) ∧
      (positionIndex s.lastApplied < e.index → Node.isPurged s.disk.lastPurged e = false)
  /-- When a command passes its watermark, every command up to it whose watermark is reached has
  been executed. -/
  executedOnceReached : ∀ front n appliers s s' call entry rest,
    events = front ++ [.applyNext n appliers] →
    run (Node.step g log.entries) (.fresh tables) front = some s →
    Node.step g log.entries s (.applyNext n appliers) = some s' → s'.stopped = false →
    s.call = some call → call.remaining = entry :: rest → entry.isNormal = true →
    g.watermark entry ≤ s.metaIndex →
    ∀ e ∈ log.entries, e.isNormal = true → ∀ x, g.acceptedEntry e = some x →
      e.index ≤ entry.index → g.watermark e ≤ s'.metaIndex → x ∈ s'.machine.executed
  /-- When the whole log is applied, every command whose Meta index is reached has been executed. -/
  executed : ∀ s, run (Node.step g log.entries) (.fresh tables) events = some s →
    s.stopped = false → (∀ e ∈ log.entries, e.index ≤ positionIndex s.lastApplied) →
    ∀ e ∈ log.entries, e.isNormal = true → ∀ x, g.acceptedEntry e = some x →
      g.watermark e ≤ s.metaIndex → x ∈ s.machine.executed
  /-- A command whose execution and progress were persisted at a crash is not executed again. -/
  notRepeated : ∀ front back s s', events = front ++ .crash :: back →
    run (Node.step g log.entries) (.fresh tables) front = some s →
    run (Node.step g log.entries) (.newPersistent s.disk) back = some s' →
    ∀ index, (∃ x ∈ s.disk.executed, x.1 = index) → index ≤ positionIndex s.disk.lastApplied →
      executions index s'.machine.executed = executions index s.disk.executed

/-! ### Safe crashes -/

/-- The snapshot agrees with the node that crashes: it holds the pending buffer, and neither
its positions nor the purge point are ahead of the persisted progress. -/
@[mk_iff]
structure SnapshotAgrees (s : Node C T) : Prop where
  pending : (s.disk.snapshot.elim [] StoredSnapshot.pendingCommands) =
    s.machine.pendingBuffer.getAll
  stateIndex : s.disk.snapshot.elim 0 StoredSnapshot.stateAppliedIndex ≤
    positionIndex s.disk.lastApplied
  lastAppliedLog : positionIndex (s.disk.snapshot.bind StoredSnapshot.lastAppliedLog) ≤
    positionIndex s.disk.lastApplied
  purged : positionIndex s.disk.lastPurged ≤ positionIndex s.disk.lastApplied

/-- A crash is safe when the snapshot agrees with the node, the pending buffer is the one that
went with the persisted progress, and no command waits that was executed before. -/
@[mk_iff]
structure SafeCrash (s : Node C T) : Prop extends SnapshotAgrees s where
  saved : s.machine.pendingBuffer = s.savedPending
  notExecuted : ∀ p ∈ s.machine.pendingBuffer.commands, ∀ x ∈ s.disk.executed,
    x.1 ≠ p.logIndex

instance (s : Node C T) : Decidable (SnapshotAgrees s) :=
  decidable_of_iff' _ (snapshotAgrees_iff s)

instance (s : Node C T) : Decidable (SafeCrash s) :=
  decidable_of_iff' _ (safeCrash_iff s)

/-- Every crash of the run is safe. -/
def CrashSafe (s : Node C T) (event : NodeEvent A) : Prop :=
  match event with
  | .crash => SafeCrash s
  | _ => True

instance (s : Node C T) : (event : NodeEvent A) → Decidable (CrashSafe s event)
  | .crash => inferInstanceAs (Decidable (SafeCrash s))
  | .metaAdvance _ | .beginApply _ | .applyNext _ _ | .endApply | .snapshotBegin
  | .snapshotPending | .snapshotWrite | .purge _ => .isTrue trivial

/-- If the command is due at the Meta index, a command behind `after` passes its own watermark. -/
def DueDrained (g : DataGroup A C T) (entries : List LogEntry) (after metaIndex : ℕ)
    (p : PendingCommand) : Prop :=
  p.requiredMetaIndex ≤ metaIndex →
    ∃ e ∈ entries, after < e.index ∧ e.isNormal = true ∧ g.watermark e ≤ metaIndex

instance (g : DataGroup A C T) (entries : List LogEntry) (after metaIndex : ℕ)
    (p : PendingCommand) : Decidable (DueDrained g entries after metaIndex p) :=
  inferInstanceAs (Decidable (_ → _))

/-- When the Meta index rises, by itself or while an entry is applied that does not pass, a command
that passes is still to come for those that are due. -/
def Drainable (g : DataGroup A C T) (entries : List LogEntry) (s : Node C T) : NodeEvent A → Prop
  | .metaAdvance n => ∀ p ∈ s.machine.pendingBuffer.commands,
      DueDrained g entries (positionIndex s.lastApplied) (max s.metaIndex n) p
  | .applyNext n _ => ∀ entry ∈ s.call.bind (·.remaining.head?),
      entry.isNormal = true ∧ g.watermark entry ≤ s.metaIndex ∨
        ∀ p ∈ g.toPending entry :: s.machine.pendingBuffer.commands,
          DueDrained g entries entry.index (max s.metaIndex n) p
  | _ => True

instance (g : DataGroup A C T) (entries : List LogEntry) (s : Node C T) :
    (event : NodeEvent A) → Decidable (Drainable g entries s event)
  | .metaAdvance _ => inferInstanceAs (Decidable (∀ p ∈ s.machine.pendingBuffer.commands, _))
  | .applyNext _ _ => inferInstanceAs (Decidable (∀ entry ∈ s.call.bind (·.remaining.head?), _))
  | .beginApply _ | .crash | .endApply | .snapshotBegin | .snapshotPending | .snapshotWrite
  | .purge _ => .isTrue trivial

/-- Every crash is safe, and what becomes due can be drained. -/
def SafeStep (g : DataGroup A C T) (entries : List LogEntry) (s : Node C T)
    (event : NodeEvent A) : Prop :=
  CrashSafe s event ∧ Drainable g entries s event

instance (g : DataGroup A C T) (entries : List LogEntry) (s : Node C T) (event : NodeEvent A) :
    Decidable (SafeStep g entries s event) :=
  inferInstanceAs (Decidable (_ ∧ _))

/-! ### The next entry of the log -/

variable {g : DataGroup A C T} {last : Option LogPosition} {event : NodeEvent A}

/-- What the next entry of a log is: the entries behind it follow, and none lies before it. -/
structure NextEntry (log : g.CommittedLog) (last : Option LogPosition) (entry : LogEntry)
    (rest : List LogEntry) : Prop where
  behind : log.entries.filter (Node.isAfter (some entry.position)) = rest
  first : ∀ e ∈ log.entries, positionIndex last < e.index → e.index ≤ entry.index → e = entry
  last_le : positionIndex last ≤ entry.index
  last_lt : entry.isNormal = true → positionIndex last < entry.index
  mem : entry ∈ log.entries

theorem isAfter_iff {e : LogEntry} :
    isAfter last e = true ↔ ∀ position ∈ last, position.index < e.index := by
  cases last <;> simp [isAfter]

theorem nextEntry_of_filter {log : g.CommittedLog} {entry : LogEntry}
    {rest : List LogEntry} (h : log.entries.filter (isAfter last) = entry :: rest) :
    NextEntry log last entry rest := by
  have hrising : (entry :: rest).Pairwise fun a b => a.index < b.index := by
    rw [← h]
    exact log.rising.filter _
  obtain ⟨hfirst, -⟩ := pairwise_cons.mp hrising
  have hentry : entry ∈ log.entries ∧ isAfter last entry = true := by
    rw [← mem_filter, h]
    exact mem_cons_self
  have hlast := isAfter_iff.mp hentry.2
  refine ⟨?_, fun e he hlt hle => ?_, ?_, fun hnormal => ?_, hentry.1⟩
  · -- what lies behind the entry lies behind the old progress
    have hsub : ∀ e, isAfter (some entry.position) e = true → isAfter last e = true :=
      fun e he => isAfter_iff.mpr fun position hposition =>
        (hlast position hposition).trans (by simpa using he)
    have hfilter : log.entries.filter (isAfter (some entry.position)) =
        (log.entries.filter (isAfter last)).filter (isAfter (some entry.position)) := by
      rw [filter_filter]
      refine filter_congr fun e _ => ?_
      rw [Bool.eq_iff_iff, Bool.and_eq_true, and_iff_left_of_imp (hsub e)]
    rw [hfilter, h, filter_cons_of_neg (by simp), filter_eq_self]
    intro e he
    simpa using hfirst e he
  · have hafter : isAfter last e = true := by
      refine isAfter_iff.mpr fun position hposition => ?_
      rwa [Option.mem_def.mp hposition] at hlt
    have hmem : e ∈ entry :: rest := by
      rw [← h]
      exact mem_filter.mpr ⟨he, hafter⟩
    obtain rfl | hmem := mem_cons.mp hmem
    · rfl
    · have := hfirst e hmem
      omega
  · cases hl : last with
    | none => exact Nat.zero_le _
    | some position => exact (hlast position hl).le
  · cases hl : last with
    | none => exact (log.decodes entry hentry.1 hnormal).1
    | some position => exact hlast position hl

/-! ### The invariant -/

/-- What a node with safe crashes keeps: each accepted command up to the progress is executed or
waits, in memory and for a restart; the rest ties calls, snapshots and purges to the progress. -/
structure Recoverable (log : g.CommittedLog) (s : Node C T) : Prop where
  accounted : s.stopped = false → ∀ e ∈ log.entries, e.isNormal = true →
    ∀ x, g.acceptedEntry e = some x → e.index ≤ positionIndex s.lastApplied →
      x ∈ s.machine.executed ∨ g.toPending e ∈ s.machine.pendingBuffer.commands
  saved : ∀ e ∈ log.entries, e.isNormal = true → ∀ x, g.acceptedEntry e = some x →
    e.index ≤ positionIndex s.disk.lastApplied →
      x ∈ s.disk.executed ∨ g.toPending e ∈ s.savedPending.commands
  executed : ∀ x ∈ s.disk.executed, x ∈ s.machine.executed
  machineLast : s.stopped = false → s.machine.lastAppliedIndex ≤ positionIndex s.lastApplied
  progress : positionIndex s.disk.lastApplied ≤ positionIndex s.lastApplied
  callNext : ∀ call, s.call = some call →
    ∃ tail, log.entries.filter (Node.isAfter s.lastApplied) = call.remaining ++ tail
  callApplied : ∀ call, s.call = some call → ∀ position, call.applied = some position →
    s.lastApplied = some position
  callCoalesced : ∀ call, s.call = some call → call.coalesced = true →
    call.remaining.length ≤ 1 ∧ (call.applied.isSome → call.remaining = [])
  snapshotBound : positionIndex (s.disk.snapshot.bind StoredSnapshot.lastAppliedLog) ≤
    positionIndex s.lastApplied
  buildBound : positionIndex (s.build.bind SnapshotBuild.lastAppliedLog) ≤
    positionIndex s.lastApplied
  purgeBound : positionIndex s.disk.lastPurged ≤ positionIndex s.lastApplied

namespace Recoverable

variable {log : g.CommittedLog} {s : Node C T} {rest : List LogEntry} {call : ApplyCall}
  {entry : LogEntry} {m : DataStateMachine C T} {appliers : ℕ → A} {n : ℕ} {s' : Node C T}

theorem fresh (log : g.CommittedLog) (tables : T) : Recoverable log (.fresh tables) where
  accounted _ e he hn _ _ hle := absurd hle (not_le.mpr (log.decodes e he hn).1)
  saved e he hn _ _ hle := absurd hle (not_le.mpr (log.decodes e he hn).1)
  executed _ hx := hx
  machineLast _ := le_rfl
  progress := le_rfl
  callNext := nofun
  callApplied := nofun
  callCoalesced := nofun
  snapshotBound := le_rfl
  buildBound := le_rfl
  purgeBound := le_rfl

/-- A safe crash restores the pending buffer and the progress. -/
theorem restored (h : SafeCrash s) :
    (newPersistent s.disk).machine.pendingBuffer = s.machine.pendingBuffer ∧
      positionIndex (newPersistent s.disk).lastApplied =
        positionIndex s.disk.lastApplied ∧
      (newPersistent s.disk).machine.executed = s.disk.executed ∧
      (newPersistent s.disk).machine.lastAppliedIndex ≤ positionIndex s.disk.lastApplied := by
  have hrecovered : positionIndex (recoveredLastApplied s.disk) =
      positionIndex s.disk.lastApplied := by
    have hbound := h.lastAppliedLog
    unfold recoveredLastApplied
    cases hdisk : s.disk.lastApplied with
    | some position => rfl
    | none =>
      rw [hdisk, positionIndex_none, Nat.le_zero] at hbound
      exact hbound
  have hreconcile : ∀ (m : DataStateMachine C T) position,
      (reconcileStateMachineProgress m position).pendingBuffer = m.pendingBuffer ∧
      (reconcileStateMachineProgress m position).executed = m.executed ∧
      (reconcileStateMachineProgress m position).lastAppliedIndex =
        max m.lastAppliedIndex (positionIndex position) := by
    intro m position
    unfold reconcileStateMachineProgress
    cases position <;> simp
  obtain ⟨hpending, hexecuted, hlast⟩ := hreconcile (s.disk.snapshot.elim
    ⟨0, 0, .empty, s.disk.tables, s.disk.executed⟩
    (restore ⟨0, 0, .empty, s.disk.tables, s.disk.executed⟩))
    (recoveredLastApplied s.disk)
  have hbuffer := h.pending
  have hindex := h.stateIndex
  refine ⟨hpending.trans ?_, hrecovered, hexecuted.trans ?_, hlast.le.trans ?_⟩
  · cases hsnapshot : s.disk.snapshot with
    | none =>
      rw [hsnapshot] at hbuffer
      exact PendingBuffer.ext hbuffer
    | some snapshot =>
      rw [hsnapshot, Option.elim_some] at hbuffer
      rw [Option.elim_some, restore, hbuffer, PendingBuffer.loadFrom_getAll]
  · cases s.disk.snapshot <;> rfl
  · rw [hrecovered]
    refine max_le ?_ le_rfl
    cases hsnapshot : s.disk.snapshot with
    | none => exact Nat.zero_le _
    | some snapshot =>
      rw [hsnapshot] at hindex
      exact hindex

theorem writeThrough_keeps (coalesced : Bool) (disk : Disk C T) (m : DataStateMachine C T) :
    (writeThrough coalesced disk m).lastApplied = disk.lastApplied ∧
      (writeThrough coalesced disk m).snapshot = disk.snapshot ∧
      (writeThrough coalesced disk m).lastPurged = disk.lastPurged := by
  unfold writeThrough
  split <;> exact ⟨rfl, rfl, rfl⟩

section

variable (h : Recoverable log s)
include h

theorem crash (hsafe : SafeCrash s) : Recoverable log (.newPersistent s.disk) := by
  obtain ⟨hpending, hlast, hexecuted, hmachine⟩ := restored hsafe
  have hsaved := h.saved
  rw [← hsafe.saved, ← hpending] at hsaved
  refine ⟨fun _ e he hn x hx hle => ?_, hsaved, fun x hx => ?_, fun _ => ?_, hlast.ge,
    nofun, nofun, nofun, ?_, Nat.zero_le _, ?_⟩
  · rw [hexecuted]
    exact hsaved e he hn x hx (hle.trans hlast.le)
  · rw [hexecuted]
    exact hx
  · rw [hlast]
    exact hmachine
  · rw [hlast]
    exact hsafe.lastAppliedLog
  · rw [hlast]
    exact hsafe.purged

/-- The entry a call applies next is the next one of the log. -/
theorem nextEntry (hcall : s.call = some call) (hnext : call.remaining = entry :: rest) :
    ∃ tail, NextEntry log s.lastApplied entry (rest ++ tail) := by
  obtain ⟨tail, htail⟩ := h.callNext call hcall
  rw [hnext] at htail
  exact ⟨tail, nextEntry_of_filter htail⟩

/-- What a call writes through has been executed, and keeps what was. -/
theorem writeThrough (coalesced : Bool) (hgrow : ∀ x ∈ s.machine.executed, x ∈ m.executed) :
    (∀ x ∈ s.disk.executed, x ∈ (Node.writeThrough coalesced s.disk m).executed) ∧
      ∀ x ∈ (Node.writeThrough coalesced s.disk m).executed, x ∈ m.executed := by
  unfold Node.writeThrough
  split
  · exact ⟨fun _ hx => hx, fun x hx => hgrow x (h.executed x hx)⟩
  · exact ⟨fun x hx => hgrow x (h.executed x hx), fun _ hx => hx⟩

/-- The progress a call leaves is that of the entries it applied. -/
theorem callProgress (hcall : s.call = some call) :
    positionIndex s.disk.lastApplied ≤
        positionIndex (call.applied <|> s.disk.lastApplied) ∧
      positionIndex (call.applied <|> s.disk.lastApplied) ≤ positionIndex s.lastApplied := by
  cases happlied : call.applied with
  | none => exact ⟨le_rfl, h.progress⟩
  | some position =>
    have hlast := h.callApplied call hcall position happlied
    have hprogress := h.progress
    rw [hlast] at hprogress ⊢
    exact ⟨hprogress, le_rfl⟩

theorem persisted (hrun : s.stopped = false) (hcall : s.call = some call) :
    Recoverable log (s.persisted call) := by
  have hprogress := h.callProgress hcall
  refine { h with
    saved := fun e he hn x hx hle => h.accounted hrun e he hn x hx (hle.trans hprogress.2)
    executed := fun x hx => hx
    progress := hprogress.2
    callNext := nofun
    callApplied := nofun
    callCoalesced := nofun }

section

variable (hrun : s.stopped = false) (hcall : s.call = some call)
  (hnext : call.remaining = entry :: rest)
include hrun hcall hnext

theorem applied {r : ApplyResult}
    (happly : g.applyEntry appliers entry s.metaIndex (max s.metaIndex n) s.machine = (.ok r, m)) :
    Recoverable log (s.applied call entry rest (max s.metaIndex n) m) := by
  obtain ⟨tail, hentry⟩ := h.nextEntry hcall hnext
  have haccounts := applyEntry_accounts happly
  have hgrow := (applyEntry_effect happly).grows
  have hmachine := h.machineLast hrun
  obtain ⟨hwrite, hwritten⟩ := h.writeThrough call.coalesced hgrow
  obtain ⟨hlast, hsnapshot, hpurged⟩ := writeThrough_keeps call.coalesced s.disk m
  have hforward : positionIndex s.lastApplied ≤ entry.index := hentry.last_le
  refine ⟨fun _ e he hn x hx hle => ?_, fun e he hn x hx hle => ?_, hwritten, fun _ => ?_, ?_,
    ?_, ?_, ?_, ?_, h.buildBound.trans hforward, ?_⟩
  · -- either the command was accounted for before, or it is this entry
    by_cases hold : e.index ≤ positionIndex s.lastApplied
    · obtain hdone | hwaits := h.accounted hrun e he hn x hx hold
      · exact .inl (hgrow x hdone)
      · exact (haccounts.waited _ hwaits).symm.imp (fun hall => hall x hx) id
    · obtain rfl := hentry.first e he (not_le.mp hold) hle
      exact haccounts.arrived hn (hmachine.trans_lt (hentry.last_lt hn)) x hx
  · exact (h.saved e he hn x hx (by rwa [← hlast])).imp (hwrite x) id
  · have := haccounts.last
    change m.lastAppliedIndex ≤ entry.index
    omega
  · exact (congrArg positionIndex hlast).trans_le (h.progress.trans hforward)
  · rintro _ ⟨⟩
    exact ⟨tail, hentry.behind⟩
  · rintro _ ⟨⟩ position hposition
    exact hposition
  · rintro _ ⟨⟩ hcoalesced
    have hone := (h.callCoalesced call hcall hcoalesced).1
    rw [hnext, length_cons] at hone
    have hrest : rest = [] := length_eq_zero_iff.mp (by omega)
    simp [hrest]
  · change positionIndex ((Node.writeThrough call.coalesced s.disk m).snapshot.bind _) ≤ entry.index
    rw [hsnapshot]
    exact h.snapshotBound.trans hforward
  · exact (congrArg positionIndex hpurged).trans_le (h.purgeBound.trans hforward)

theorem failed {e : RaftError}
    (happly : g.applyEntry appliers entry s.metaIndex (max s.metaIndex n) s.machine =
      (.error e, m)) : Recoverable log (s.failed call (max s.metaIndex n) m) := by
  have hgrow := (applyEntry_effect happly).grows
  have hprogress := h.callProgress hcall
  obtain ⟨hwrite, hwritten⟩ := h.writeThrough call.coalesced hgrow
  obtain ⟨-, hsnapshot, hpurged⟩ := writeThrough_keeps call.coalesced s.disk m
  refine ⟨fun hstop => ?_, fun f hf hn x hx hle => ?_, hwritten, fun hstop => ?_,
    hprogress.2, h.callNext, h.callApplied, h.callCoalesced, ?_, h.buildBound, ?_⟩
  · cases hstop
  · change x ∈ (Node.writeThrough call.coalesced s.disk m).executed ∨ g.toPending f ∈
      (if call.applied.isSome then s.machine.pendingBuffer else s.savedPending).commands
    cases happlied : call.applied with
    | none =>
      have hle' : f.index ≤ positionIndex s.disk.lastApplied := by
        simpa [Node.failed, happlied] using hle
      exact (h.saved f hf hn x hx hle').imp (hwrite x) id
    | some position =>
      -- some entry of the call was applied, so the call writes through
      have hthrough : call.coalesced = false := by
        by_contra hcoalesced
        have hnil := (h.callCoalesced call hcall (by simpa using hcoalesced)).2 (by simp [happlied])
        simp [hnext] at hnil
      rw [hthrough]
      exact (h.accounted hrun f hf hn x hx (hle.trans hprogress.2)).imp (hgrow x) id
  · cases hstop
  · change positionIndex ((Node.writeThrough call.coalesced s.disk m).snapshot.bind _) ≤ _
    rw [hsnapshot]
    exact h.snapshotBound
  · exact (congrArg positionIndex hpurged).trans_le h.purgeBound

end

/-- **The invariant is kept by every step whose crash is safe.** -/
theorem step (hok : CrashSafe s event)
    (hstep : step g log.entries s event = some s') : Recoverable log s' := by
  cases stepped_of_step hstep with
  | crash => exact h.crash hok
  | metaAdvance n hrun => exact { h with }
  | beginApply count next hrun hcall hnext =>
    simp only [nextEntries] at hnext
    split at hnext
    · rename_i hcond
      cases hnext
      refine { h with callNext := ?_, callApplied := ?_, callCoalesced := ?_ }
      · rintro _ ⟨⟩
        exact ⟨_, (take_append_drop count _).symm⟩
      · rintro _ ⟨⟩ position hposition
        cases hposition
      · rintro _ ⟨⟩ hone
        refine ⟨?_, fun hnone => by cases hnone⟩
        have hcount : count = 1 := by simpa using hone
        rw [hcond.1, hcount]
    · cases hnext
  | applied n appliers call entry rest r m hrun hcall hnext happly =>
    exact h.applied hrun hcall hnext happly
  | failed n appliers call entry rest e m hrun hcall hnext happly =>
    exact h.failed hrun hcall hnext happly
  | endApply call hrun hcall hnext => exact h.persisted hrun hcall
  | snapshotBegin hrun => exact { h with buildBound := le_rfl }
  | snapshotPending last hrun hbuild =>
    refine { h with buildBound := ?_ }
    have := h.buildBound
    rwa [hbuild] at this
  | snapshotWrite last pending hrun hbuild =>
    refine { h with snapshotBound := ?_, buildBound := Nat.zero_le _ }
    have := h.buildBound
    rwa [hbuild] at this
  | purge upto last hrun hlast hupto =>
    refine { h with purgeBound := ?_ }
    have := h.snapshotBound
    rw [hlast] at this
    exact hupto.trans this

theorem run {events : List (NodeEvent A)} (hok : Meets (Node.step g log.entries) CrashSafe s events)
    (hrun : Runs.run (Node.step g log.entries) s events = some s') : Recoverable log s' :=
  run_invariant (Recoverable log) (fun _ _ _ hok h hstep => h.step hok hstep) h hok hrun

/-- An entry behind the progress is still in the log. -/
theorem isPurged_eq_false {e : LogEntry} (hlt : positionIndex s.lastApplied < e.index) :
    isPurged s.disk.lastPurged e = false := by
  have hpurge := h.purgeBound
  unfold isPurged
  cases hp : s.disk.lastPurged with
  | none => rfl
  | some position =>
    rw [hp, positionIndex_some] at hpurge
    simp only [decide_eq_false_iff_not]
    omega

end

end Recoverable

/-! ### Commands that are settled -/

/-- A command was executed `count` times, its progress is persisted and it does not wait. -/
structure Settled (index count : ℕ) (s : Node C T) : Prop where
  progress : index ≤ positionIndex s.disk.lastApplied
  notWaiting : ∀ p ∈ s.machine.pendingBuffer.commands, p.logIndex ≠ index
  machine : executions index s.machine.executed = count
  disk : executions index s.disk.executed = count

namespace Settled

variable {log : g.CommittedLog} {s : Node C T} {index count : ℕ} {m : DataStateMachine C T}

section

variable (h : Settled index count s)
include h

/-- Applying an entry executes only other commands. -/
theorem apply {call : ApplyCall} {entry : LogEntry} {rest : List LogEntry} {n : ℕ}
    {appliers : ℕ → A} {r : Except RaftError ApplyResult}
    (hinv : Recoverable log s) (hcall : s.call = some call) (hnext : call.remaining = entry :: rest)
    (happly : g.applyEntry appliers entry s.metaIndex (max s.metaIndex n) s.machine = (r, m)) :
    executions index m.executed = count ∧ ∀ p ∈ m.pendingBuffer.commands, p.logIndex ≠ index := by
  cases hnormal : entry.isNormal with
  | false =>
    rw [applyEntry_of_not_isNormal hnormal] at happly
    cases happly
    exact ⟨by simpa using h.machine, by simpa using h.notWaiting⟩
  | true =>
    -- the entry lies behind the persisted progress
    obtain ⟨tail, hentry⟩ := hinv.nextEntry hcall hnext
    have hlt := hentry.last_lt hnormal
    have hne : entry.index ≠ index := by
      have hprogress := hinv.progress
      have := h.progress
      omega
    obtain ⟨⟨new, hnew, hindex⟩, hpending⟩ := applyEntry_effect happly
    have hnone : executions index new = 0 := by
      rw [executions, countP_eq_zero]
      intro x hx
      simp only [decide_eq_true_eq]
      rintro rfl
      obtain hx | ⟨p, hp, hpx⟩ := hindex x hx
      · exact hne hx
      · exact h.notWaiting p hp hpx
    constructor
    · have hold := h.machine
      unfold executions at hold hnone ⊢
      rw [hnew, countP_append]
      omega
    · intro p hp
      obtain hp | hp := hpending p hp
      · exact h.notWaiting p hp
      · rw [hp]
        exact hne

theorem writeThrough {coalesced : Bool} (hm : executions index m.executed = count) :
    executions index (Node.writeThrough coalesced s.disk m).executed = count := by
  unfold Node.writeThrough
  split
  · exact h.disk
  · exact hm

/-- **A settled command stays settled** while crashes are safe. -/
theorem step {s' : Node C T} (hinv : Recoverable log s) (hok : CrashSafe s event)
    (hstep : step g log.entries s event = some s') : Settled index count s' := by
  cases stepped_of_step hstep with
  | crash =>
    obtain ⟨hpending, -, hexecuted, -⟩ := Recoverable.restored hok
    exact ⟨h.progress, by rw [hpending]; exact h.notWaiting, by rw [hexecuted]; exact h.disk,
      h.disk⟩
  | applied n appliers call entry rest r m hrun hcall hnext happly =>
    obtain ⟨hm, hpending⟩ := h.apply hinv hcall hnext happly
    obtain ⟨hlast, -⟩ := Recoverable.writeThrough_keeps call.coalesced s.disk m
    exact ⟨h.progress.trans_eq (congrArg positionIndex hlast).symm, hpending, hm, h.writeThrough hm⟩
  | failed n appliers call entry rest e m hrun hcall hnext happly =>
    obtain ⟨hm, hpending⟩ := h.apply hinv hcall hnext happly
    exact ⟨h.progress.trans (hinv.callProgress hcall).1, hpending, hm, h.writeThrough hm⟩
  | endApply call hrun hcall hnext =>
    exact ⟨h.progress.trans (hinv.callProgress hcall).1, h.notWaiting, h.machine, h.machine⟩
  | metaAdvance | beginApply | snapshotBegin | snapshotPending | snapshotWrite | purge =>
    exact { h with }

end

/-- What was executed and persisted before a safe crash is settled after it. -/
theorem of_safeCrash (h : SafeCrash s) (hdone : ∃ x ∈ s.disk.executed, x.1 = index)
    (hindex : index ≤ positionIndex s.disk.lastApplied) :
    Settled index (executions index s.disk.executed) (newPersistent s.disk) := by
  obtain ⟨hpending, -, hexecuted, -⟩ := Recoverable.restored h
  refine ⟨hindex, fun p hp => ?_, by rw [hexecuted], rfl⟩
  obtain ⟨x, hx, rfl⟩ := hdone
  rw [hpending] at hp
  exact (h.notExecuted p hp x hx).symm

end Settled

/-! ### Commands that are due -/

/-- The commands that wait need some Meta index, and those that are due are still drained. -/
structure Awaited (log : g.CommittedLog) (s : Node C T) : Prop where
  positive : s.stopped = false → ∀ p ∈ s.machine.pendingBuffer.commands, 0 < p.requiredMetaIndex
  saved : ∀ p ∈ s.savedPending.commands, 0 < p.requiredMetaIndex
  due : s.stopped = false → ∀ p ∈ s.machine.pendingBuffer.commands,
    DueDrained g log.entries (positionIndex s.lastApplied) s.metaIndex p

theorem Awaited.step {log : g.CommittedLog} {s s' : Node C T} (h : Awaited log s)
    (hinv : Recoverable log s) (hok : SafeStep g log.entries s event)
    (hstep : Node.step g log.entries s event = some s') : Awaited log s' := by
  cases stepped_of_step hstep with
  | crash =>
    -- after a restart the Meta index is zero, and nothing is due
    obtain ⟨hpending, -⟩ := Recoverable.restored hok.1
    have hsaved := h.saved
    rw [← hok.1.saved, ← hpending] at hsaved
    exact ⟨fun _ => hsaved, hsaved, fun _ p hp hdue => absurd hdue (not_le.mpr (hsaved p hp))⟩
  | metaAdvance n hrun => exact ⟨h.positive, h.saved, fun _ => hok.2⟩
  | applied n appliers call entry rest r m hrun hcall hnext happly =>
    obtain ⟨tail, hentry⟩ := hinv.nextEntry hcall hnext
    have haccounts := applyEntry_accounts happly
    have hpassed : entry.isNormal = true → g.watermark entry ≤ s.metaIndex →
        ∀ p ∈ m.pendingBuffer.commands, max s.metaIndex n < p.requiredMetaIndex :=
      fun hnormal => haccounts.passed hnormal
        ((hinv.machineLast hrun).trans_lt (hentry.last_lt hnormal))
    refine ⟨fun _ p hp => ?_, h.saved, fun _ p hp => ?_⟩
    · obtain hold | ⟨hnormal, rfl⟩ := haccounts.waits p hp
      · exact h.positive hrun p hold
      by_cases hreached : g.watermark entry ≤ s.metaIndex
      · exact (Nat.zero_le _).trans_lt (hpassed hnormal hreached _ hp)
      · exact (Nat.zero_le _).trans_lt (not_le.mp hreached)
    · rcases hok.2 entry (by simp [hcall, hnext]) with ⟨hnormal, hreached⟩ | hdue
      · exact fun hle => absurd hle (not_le.mpr (hpassed hnormal hreached p hp))
      · refine hdue p ?_
        obtain hold | ⟨-, rfl⟩ := haccounts.waits p hp
        · exact mem_cons_of_mem _ hold
        · exact mem_cons_self
  | failed n appliers call entry rest e m hrun hcall hnext happly =>
    refine ⟨nofun, ?_, nofun⟩
    change ∀ p ∈ (if call.applied.isSome then s.machine.pendingBuffer
      else s.savedPending).commands, 0 < p.requiredMetaIndex
    split
    · exact h.positive hrun
    · exact h.saved
  | endApply call hrun hcall hnext => exact ⟨h.positive, h.positive hrun, h.due⟩
  | beginApply | snapshotBegin | snapshotPending | snapshotWrite | purge => exact { h with }

/-! ### Runs with safe crashes -/

/-- **Committed commands take effect exactly once** along every run whose crashes are safe and in
which a command that passes is still to come for those that become due. -/
theorem exactlyOnce_of_safeStep (log : g.CommittedLog) (tables : T) (events : List (NodeEvent A))
    (hsafe : Meets (Node.step g log.entries) (SafeStep g log.entries) (.fresh tables) events) :
    ExactlyOnce g log tables events := by
  have hok : Meets (Node.step g log.entries) CrashSafe (.fresh tables) events :=
    hsafe.mono fun _ _ h => h.1
  refine ⟨?_, ?_, ?_, ?_⟩
  · intro s hrun hstopped e he hn x hx
    have hinv := (Recoverable.fresh log tables).run hok hrun
    exact ⟨hinv.accounted hstopped e he hn x hx, hinv.isPurged_eq_false⟩
  · intro front n appliers s s' call entry rest hevents hrun hstep hstopped hcall hnext hnormal
      hreached e he hn x hx hle hmark
    subst hevents
    have hinv := (Recoverable.fresh log tables).run (hok.append hrun).1 hrun
    have hsafe : CrashSafe s (.applyNext n appliers) := trivial
    have hinv' := hinv.step hsafe hstep
    cases stepped_of_step hstep with
    | failed => cases hstopped
    | applied _ _ call' entry' rest' r m hrun' hcall' hnext' happly =>
      obtain rfl := Option.some.inj (hcall'.symm.trans hcall)
      obtain ⟨rfl, rfl⟩ := cons.inj (hnext'.symm.trans hnext)
      obtain hdone | hwaits := hinv'.accounted hstopped e he hn x hx hle
      · exact hdone
      -- what still waits is above the Meta index of the drain
      obtain ⟨tail, hentry⟩ := hinv.nextEntry hcall' hnext'
      have hfresh := (hinv.machineLast hrun').trans_lt (hentry.last_lt hnormal)
      have hlt := (applyEntry_accounts happly).passed hnormal hfresh hreached _ hwaits
      exact absurd hmark (not_le.mpr hlt)
  · intro s hrun hstopped hall e he hn x hx hmark
    have hinv : Recoverable log s ∧ Awaited log s := by
      refine run_invariant (fun s => Recoverable log s ∧ Awaited log s)
        (fun _ _ _ hok h hstep => ⟨h.1.step hok.1 hstep, h.2.step h.1 hok hstep⟩)
        ⟨.fresh log tables, ?_⟩ hsafe hrun
      exact ⟨fun _ _ hp => absurd hp not_mem_nil, fun _ hp => absurd hp not_mem_nil,
        fun _ _ hp => absurd hp not_mem_nil⟩
    obtain hdone | hwaits := hinv.1.accounted hstopped e he hn x hx (hall e he)
    · exact hdone
    -- a command that still waits would be drained by one behind the whole log
    obtain ⟨later, hlater, hlt, -⟩ := hinv.2.due hstopped _ hwaits hmark
    exact absurd (hall later hlater) (not_le.mpr hlt)
  · intro front back s s' hevents hrun hrun' index hdone hindex
    subst hevents
    obtain ⟨hfront, hcrash⟩ := hok.append hrun
    have hinv := (Recoverable.fresh log tables).run hfront hrun
    have hrestart : step g log.entries s .crash = some (.newPersistent s.disk) := rfl
    obtain ⟨hsafe, hback⟩ := hcrash.cons hrestart
    have hend := run_invariant
      (fun t => Recoverable log t ∧ Settled index (executions index s.disk.executed) t)
      (fun t event t' hok ⟨hinv, hset⟩ hstep => ⟨hinv.step hok hstep, hset.step hinv hok hstep⟩)
      ⟨hinv.crash hsafe, Settled.of_safeCrash hsafe hdone hindex⟩ hback hrun'
    exact hend.2.machine

/-! ### A command that waits when the node crashes -/

def restartCodec : CommandCodec := knownCommands [([1], insertItem 5 1), ([2], insertItem 0 2)]

/-- The first insert needs Meta index 5, the second one none. -/
def restartLog : (sharedDataGroup Unit restartCodec 0).CommittedLog where
  entries := [⟨1, 1, .normal [1]⟩, ⟨2, 1, .normal [2]⟩]
  rising := by decide
  decodes := by
    intro e he _
    simp only [List.mem_cons, List.not_mem_nil, or_false] at he
    obtain rfl | rfl := he <;> exact ⟨by decide, _, rfl⟩

/-- Apply the next entry in a call of its own, while the Meta group stands still. -/
def applyOne : List (NodeEvent (Option (SharedDataApplier Unit))) :=
  [.beginApply 1, .applyNext 0 fun _ => some (NoOpSharedDataApplier Unit 0), .endApply]

/-- The first insert waits, the node restarts without a snapshot, and the Meta group reaches
the required index: the second insert runs and the first is gone. Without a restart, the first
insert still waits when the whole log is applied and the Meta group has reached the index. -/
theorem restart_loses_buffered_insert :
    ¬ExactlyOnce (sharedDataGroup Unit restartCodec 0) restartLog ()
      (applyOne ++ [.crash, .metaAdvance 5] ++ applyOne) ∧
    ¬ExactlyOnce (sharedDataGroup Unit restartCodec 0) restartLog ()
      (applyOne ++ applyOne ++ [.metaAdvance 5]) := by
  refine ⟨fun h => ?_, fun h => ?_⟩
  · obtain ⟨hdone, -⟩ := h.notLost _ rfl rfl ⟨1, 1, .normal [1]⟩ (by decide) rfl _ rfl
    revert hdone
    decide
  · have hdone := h.executed _ rfl rfl (by decide) ⟨1, 1, .normal [1]⟩ (by decide) rfl _ rfl
      (by decide)
    revert hdone
    decide

/-- With a snapshot taken while the first insert waits, the restart keeps it. -/
theorem exactlyOnce_of_snapshot_before_crash :
    Meets (Node.step (sharedDataGroup Unit restartCodec 0) restartLog.entries)
        (SafeStep (sharedDataGroup Unit restartCodec 0) restartLog.entries) (.fresh ()) (applyOne ++
          [.snapshotBegin, .snapshotPending, .snapshotWrite, .crash, .metaAdvance 5] ++
          applyOne) ∧
      ExactlyOnce (sharedDataGroup Unit restartCodec 0) restartLog () (applyOne ++
        [.snapshotBegin, .snapshotPending, .snapshotWrite, .crash, .metaAdvance 5] ++
        applyOne) :=
  ⟨by decide, exactlyOnce_of_safeStep restartLog () _ (by decide)⟩

end KalamDB.Raft
