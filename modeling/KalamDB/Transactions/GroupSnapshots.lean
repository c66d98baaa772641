import KalamDB.Transactions.Settled
import KalamDB.Transactions.SnapshotStability

/-!
# Snapshots and groups

Row versions are numbered by the log of their group, so a snapshot bound means something only for
the group whose frontier it was. A transaction **pins** one bound, at its first access to a table.
In a cluster it is bound to that group from then on, and an access to another group fails. A single
node has several groups too (one for shared tables, and 32 for the tables of users), but a
transaction there is bound to none of them, and its tables of all groups are read with the frontier
of the first (`bound_of_foreign_group`).

If the tables of a transaction on a single node are all in one group, no commit is answered
before this node has applied its entry, and no entry is executed after a later one (as a command
that waited for its metadata is), every bound is a frontier of the group it is used for
(`snapshot_bounds_of_group`): it separates the versions of the group that were committed before the
bound was taken from those committed later.
-/

namespace KalamDB.Transactions

open Raft Runs Relation Snapshots TransactionCoordinator Option List Function

/-! ### Bounds -/

variable {version : VersionId} {index : ℕ} {slots : ℕ}

/-- The bound of an open transaction that has pinned a log index; zero hides every version. Without
a bound every version is read. -/
def transactionSnapshotBound (logIndex : ℕ) : Option ℕ :=
  if logIndex = 0 then some 0 else (entryVersionBound logIndex).map Subtype.val

/-- A bound reads the versions of the entries up to its log index. -/
theorem le_transactionSnapshotBound_iff (hindex : index ≤ Raft.MAX_LOG_INDEX)
    (hversion : 0 < logIndex version) :
    (∀ bound ∈ transactionSnapshotBound index, version.val ≤ bound) ↔ logIndex version ≤ index := by
  by_cases hzero : index = 0
  · subst hzero
    simp only [transactionSnapshotBound, if_true, mem_some_iff, forall_eq']
    omega
  obtain ⟨bound, hbound⟩ : ∃ bound, entryVersionBound index = some bound := by
    unfold entryVersionBound
    rw [dif_pos ⟨Nat.pos_of_ne_zero hzero, hindex⟩]
    exact ⟨_, rfl⟩
  rw [transactionSnapshotBound, if_neg hzero, hbound, map_some]
  simp only [mem_some_iff, forall_eq']
  exact le_entryVersionBound_iff hbound version

/-- The versions of an entry carry its log index, which is in range. -/
theorem logIndex_of_tryNew {ordinal : ℕ} (h : RaftVersionId.tryNew index ordinal = .ok version) :
    logIndex version = index ∧ 0 < index ∧ index ≤ Raft.MAX_LOG_INDEX := by
  obtain ⟨hindex, hordinal, hversion⟩ := RaftVersionId.tryNew_eq_ok_iff.mp h
  refine ⟨?_, hindex⟩
  have hmax : MAX_ORDINAL = 65535 := rfl
  rw [logIndex, hversion]
  omega

theorem logIndex_of_assignEntryVersions {versions : List VersionId}
    (h : assignEntryVersions index slots = .ok versions) (hmem : version ∈ versions) :
    logIndex version = index ∧ 0 < index ∧ index ≤ Raft.MAX_LOG_INDEX := by
  obtain ⟨-, -, hversions⟩ := Fallible.bind_eq_ok_iff.mp h
  exact Fallible.forall_mem_of_mapM_eq_ok (fun _ _ => logIndex_of_tryNew) hversions version hmem

/-! ### The system -/

/-- A table was read: its group, the bound that was used, and how many versions had been committed
when the bound was taken. -/
structure SnapshotRead where
  groupId : GroupId
  bound : Option ℕ
  takenAt : ℕ

/-- The version is read. -/
def SnapshotRead.Sees (r : SnapshotRead) (version : VersionId) : Prop :=
  ∀ bound ∈ r.bound, version.val ≤ bound

/-- The coordinator beside the logs of the groups. -/
structure SnapshotSystem where
  system : System
  /-- The furthest entry of each group that this node has executed. -/
  applied : GroupId → ℕ
  /-- The versions committed on this node, in order. -/
  commits : List (GroupId × VersionId)
  /-- How many versions had been committed when a transaction pinned its snapshot. -/
  pinnedAt : TransactionId → Option ℕ
  reads : List SnapshotRead

inductive SnapshotEvent where
  | call (e : SystemEvent)
  /-- The node executes an entry of a group with this many rows, at once or from the buffer. -/
  | apply (groupId : GroupId) (index slots : ℕ)
  /-- A transaction reads a table. -/
  | read (id : TransactionId) (tableId : TableId) (tableType : TableType) (userId : Option UserId)

namespace SnapshotSystem

variable {takenAt n : ℕ} {groupId : GroupId} {h h' : TransactionHandle}
  {c : TransactionCoordinator} {s : System} {versions : List VersionId} {userId : Option UserId}
  {tableType : TableType} {tableId : TableId}

def new (world : World) : SnapshotSystem := ⟨.new world, fun _ => 0, [], fun _ => none, []⟩

variable (config : CoordinatorConfig)

/-- The snapshot that a transaction has pinned. -/
def pinned (c : TransactionCoordinator) (id : TransactionId) : Option ℕ :=
  (c.activeById id).bind TransactionHandle.snapshotLogIndex

/-- The first pin of every transaction is noted. -/
def notePins (w : SnapshotSystem) (c : TransactionCoordinator) (id : TransactionId) : Option ℕ :=
  match w.pinnedAt id with
  | some n => some n
  | none => (pinned c id).map fun _ => w.commits.length

/-- The state after a call. -/
def noting (w : SnapshotSystem) (s : System) : SnapshotSystem :=
  { w with system := s, pinnedAt := w.notePins s.coordinator }

def step (w : SnapshotSystem) : SnapshotEvent → Option SnapshotSystem
  | .call e => (System.step config w.system e).map w.noting
  | .apply groupId index slots =>
    match assignEntryVersions index slots with
    | .error _ | .ok [] => none
    | .ok (version :: versions) => some
      { w with
        system := w.system.called (w.system.coordinator.observeCommitted groupId index)
        applied := Function.update w.applied groupId (max (w.applied groupId) index)
        commits := w.commits ++ (version :: versions).map fun v => (groupId, v) }
  | .read id tableId tableType userId =>
    match
      validateTableAccess config w.system.world w.system.coordinator id tableId tableType userId,
        resolveGroupId config w.system.world tableId tableType userId with
    | (.ok (), c), .ok (some groupId) => some
      { w.noting (w.system.called c) with
        reads := ⟨groupId, transactionSnapshotBound ((pinned c id).getD 0),
          (w.notePins c id).getD 0⟩ :: w.reads }
    | (_, c), _ => some (w.noting (w.system.called c))

/-- The tables that a transaction accesses on a single node are all in one group, a commit is
answered after this node has applied its entry, and the entries of a group are executed in the
order of its log. -/
def OneGroup (groupOf : TransactionId → GroupId) (w : SnapshotSystem) : SnapshotEvent → Prop
  | .call (.finishCommit commit (.ok (some commitSeq))) =>
    ∀ h groupId leader, w.system.coordinator.activeById commit.transactionId = some h →
      h.raftBinding = .boundCluster groupId leader → commitSeq ≤ w.applied groupId
  | .call e => config.isClusterMode = false →
    ∀ id groupId, System.Accesses config w.system.world e id groupId → groupId = groupOf id
  | .read id tableId tableType userId => config.isClusterMode = false →
    ∀ groupId, resolveGroupId config w.system.world tableId tableType userId = .ok (some groupId) →
      groupId = groupOf id
  | .apply groupId index _ => w.applied groupId < index

/-! ### Frontiers -/

variable {config : CoordinatorConfig} {groupOf : TransactionId → GroupId} {w w' : SnapshotSystem}
  {id : TransactionId}

/-- The log index separates the first versions of a group from the later ones. -/
structure Frontier (w : SnapshotSystem) (groupId : GroupId) (logIndex' takenAt : ℕ) : Prop where
  le_applied : logIndex' ≤ w.applied groupId
  takenAt_le : takenAt ≤ w.commits.length
  separates : ∀ i version, w.commits[i]? = some (groupId, version) →
    (logIndex version ≤ logIndex' ↔ i < takenAt)

/-- The committed versions are those of applied entries, and pins are those of transactions that
began. -/
structure LogOk (w : SnapshotSystem) : Prop where
  committed : ∀ groupId version, (groupId, version) ∈ w.commits →
    0 < logIndex version ∧ logIndex version ≤ w.applied groupId
  range : ∀ groupId, w.applied groupId ≤ Raft.MAX_LOG_INDEX
  begun : ∀ id, w.pinnedAt id ≠ none → id ∈ w.system.history.begun

/-- What is applied now separates everything committed so far from what will be. -/
theorem LogOk.frontier (hw : w.LogOk) (groupId : GroupId) :
    w.Frontier groupId (w.applied groupId) w.commits.length := by
  refine ⟨le_rfl, le_rfl, fun i version hi => ?_⟩
  have hmem : (groupId, version) ∈ w.commits := List.mem_of_getElem? hi
  obtain ⟨hlt, -⟩ := List.getElem?_eq_some_iff.mp hi
  exact iff_of_true (hw.committed groupId version hmem).2 hlt

/-- The group that the pin of a transaction with this binding belongs to. -/
def Belongs (groupOf : TransactionId → GroupId) (id : TransactionId)
    (binding : TransactionRaftBinding) (groupId : GroupId) : Prop :=
  (binding = .localSingleNode ∧ groupId = groupOf id) ∨
    ∃ leader, binding = .boundCluster groupId leader

/-- The binding and the pin of a transaction. -/
structure HandleOk (config : CoordinatorConfig) (groupOf : TransactionId → GroupId)
    (w : SnapshotSystem) (id : TransactionId) (binding : TransactionRaftBinding)
    (snapshot : Option ℕ) : Prop where
  mode : binding = .localSingleNode → config.isClusterMode = false
  pinned : ∀ n, snapshot = some n → ∃ groupId, Belongs groupOf id binding groupId ∧
    w.Frontier groupId n ((w.pinnedAt id).getD w.commits.length)
  unpinned : snapshot = none → w.pinnedAt id = none

/-- An access to a group keeps an earlier pin, or pins the frontier of the group. -/
theorem HandleOk.access {binding binding' : TransactionRaftBinding} {snapshot : Option ℕ}
    (hw : w.LogOk) (hok : HandleOk config groupOf w id binding snapshot)
    (hgroup : config.isClusterMode = false → groupId = groupOf id)
    (hbinds : Binds groupId binding binding') :
    HandleOk config groupOf w id binding' (some (snapshot.getD (w.applied groupId))) := by
  have hbelongs : Belongs groupOf id binding' groupId := by
    cases hbinds with
    | localSingleNode => exact .inl ⟨rfl, hgroup (hok.mode rfl)⟩
    | unbound leader | bound leader => exact .inr ⟨leader, rfl⟩
  refine ⟨fun hlocal => ?_, fun n hn => ?_, nofun⟩
  · cases hbinds with
    | localSingleNode => exact hok.mode rfl
    | unbound | bound => cases hlocal
  · cases hn
    cases hsnapshot : snapshot with
    | none =>
      rw [hok.unpinned hsnapshot]
      exact ⟨groupId, hbelongs, hw.frontier groupId⟩
    | some n =>
      obtain ⟨groupId', hbelongs', hfrontier⟩ := hok.pinned n hsnapshot
      refine ⟨groupId', ?_, hfrontier⟩
      obtain ⟨rfl, hof⟩ | ⟨leader, rfl⟩ := hbelongs'
      · cases hbinds
        exact .inl ⟨rfl, hof⟩
      · cases hbinds
        exact .inr ⟨leader, rfl⟩

/-- The frontiers are what was applied, and the pins are frontiers. -/
structure PinsOk (config : CoordinatorConfig) (groupOf : TransactionId → GroupId)
    (w : SnapshotSystem) (c : TransactionCoordinator) : Prop where
  frontiers : ∀ groupId, c.frontiers groupId = w.applied groupId
  handles : ∀ id h, c.activeById id = some h →
    HandleOk config groupOf w id h.raftBinding h.snapshotLogIndex

/-- The answer to a commit advances the frontier of the group that the transaction is bound to. -/
theorem frontiers_finishCommit (c : TransactionCoordinator) (commit : SuspendedCommit)
    (response : CommitResponse) :
    (c.finishCommit commit response).2.frontiers = c.frontiers ∨
      ∃ commitSeq h groupId leader, response = .ok (some commitSeq) ∧
        c.activeById commit.transactionId = some h ∧
        h.raftBinding = .boundCluster groupId leader ∧
        (c.finishCommit commit response).2.frontiers =
          update c.frontiers groupId (max (c.frontiers groupId) commitSeq) := by
  unfold finishCommit
  split
  · exact .inl rfl
  · exact .inl rfl
  rename_i commitSeq
  split
  · exact .inl rfl
  rename_i h hid
  split
  · next groupId leader hbinding =>
    exact .inr ⟨commitSeq, h, groupId, leader, rfl, hid, hbinding, rfl⟩
  · exact .inl rfl
  · exact .inl rfl

/-! ### Runs -/

/-- What holds along every run that keeps to the condition. -/
structure Sound (config : CoordinatorConfig) (groupOf : TransactionId → GroupId)
    (w : SnapshotSystem) : Prop where
  consistent : w.system.Consistent
  log : w.LogOk
  pins : PinsOk config groupOf w w.system.coordinator
  noted : ∀ id, pinned w.system.coordinator id ≠ none → w.pinnedAt id ≠ none
  reads : ∀ r ∈ w.reads, ∃ n, r.bound = transactionSnapshotBound n ∧
    w.Frontier r.groupId n r.takenAt

theorem sound_new (world : World) : Sound config groupOf (new world) where
  consistent := System.consistent_new world
  log := ⟨by simp [new], fun _ => Nat.zero_le _, fun _ h => absurd rfl h⟩
  pins := ⟨fun _ => rfl, by rintro id h ⟨⟩⟩
  noted := fun _ h => absurd rfl h
  reads := by simp [new]

/-- The pin that is noted after a call. -/
theorem notePins_eq (w : SnapshotSystem) (hpinned : pinned c id ≠ none) :
    w.notePins c id = some ((w.pinnedAt id).getD w.commits.length) := by
  obtain ⟨n, hn⟩ := ne_none_iff_exists'.mp hpinned
  unfold notePins
  cases w.pinnedAt id with
  | none => rw [hn, map_some, getD_none]
  | some p => rfl

/-- After a call, its pins are noted. -/
theorem Sound.called (hw : Sound config groupOf w) (hs : s.Consistent)
    (hbegun : ∀ id ∈ w.system.history.begun, id ∈ s.history.begun)
    (hpins : PinsOk config groupOf w s.coordinator) : Sound config groupOf (w.noting s) where
  consistent := hs
  log := by
    refine ⟨hw.log.committed, hw.log.range, fun id hid => ?_⟩
    by_cases hold : w.pinnedAt id = none
    · have hpinned : pinned s.coordinator id ≠ none := by
        intro hnone
        exact hid (by simp [noting, notePins, hold, hnone])
      obtain ⟨n, hn⟩ := ne_none_iff_exists'.mp hpinned
      obtain ⟨h, hh, -⟩ := bind_eq_some_iff.mp hn
      exact hs.live id h hh
    · exact hbegun id (hw.log.begun id hold)
  pins := by
    refine ⟨hpins.frontiers, fun id h hid => ⟨(hpins.handles id h hid).mode, fun n hn => ?_,
      fun hnone => ?_⟩⟩
    · obtain ⟨groupId, hbelongs, hfrontier⟩ := (hpins.handles id h hid).pinned n hn
      have hpinned : pinned s.coordinator id = some n := bind_eq_some_iff.mpr ⟨h, hid, hn⟩
      have hnoted := w.notePins_eq (hpinned.trans_ne (some_ne_none n))
      refine ⟨groupId, hbelongs, ?_⟩
      change (w.noting s).Frontier groupId n ((w.notePins s.coordinator id).getD w.commits.length)
      rw [hnoted]
      exact { hfrontier with }
    · have hold := (hpins.handles id h hid).unpinned hnone
      have hpinned : pinned s.coordinator id = none := by
        rw [pinned, show s.coordinator.activeById id = some h from hid]
        exact hnone
      change w.notePins s.coordinator id = none
      rw [notePins, hold, hpinned]
      rfl
  noted := by
    intro id hpinned
    exact (w.notePins_eq hpinned).trans_ne (some_ne_none _)
  reads := by
    intro r hr
    obtain ⟨n, hbound, hfrontier⟩ := hw.reads r hr
    exact ⟨n, hbound, { hfrontier with }⟩

/-- Only an access binds and pins a transaction, and only the answer to a commit moves a
frontier. -/
theorem pinsOk_call (hw : Sound config groupOf w) {e : SystemEvent}
    (hok : OneGroup config groupOf w (.call e)) (hstep : System.step config w.system e = some s) :
    PinsOk config groupOf w s.coordinator := by
  have hcalled := System.called_of_step hstep
  refine ⟨fun groupId => ?_, fun id => ?_⟩
  · rw [← hw.pins.frontiers]
    generalize s.coordinator = c' at hcalled ⊢
    cases hcalled with
    | moved hmoves => rw [frontiers_of_moves hmoves]
    | begun id key ownerId =>
      obtain hsame | ⟨c₀, hbegin, hplace⟩ := begin_cases config w.system.coordinator id key ownerId
      · rw [hsame]
      · rw [hbegin]
        obtain ⟨-, rfl⟩ | ⟨existing, -, -, rfl⟩ := hplace <;> rfl
    | finished commit response he hmem =>
      subst he
      obtain hsame | ⟨commitSeq, h, bound, leader, rfl, hid, hbinding, hfrontiers⟩ :=
        frontiers_finishCommit w.system.coordinator commit response
      · rw [hsame]
      have hle : commitSeq ≤ w.applied bound := hok h bound leader hid hbinding
      rw [← hw.pins.frontiers] at hle
      rw [hfrontiers, max_eq_left hle, update_eq_self]
  · refine System.slot_of_called (P := fun h _ => ∀ h₁, h = some h₁ →
      HandleOk config groupOf w id h₁.raftBinding h₁.snapshotLogIndex) hcalled ?_ nofun ?_
      (fun _ _ _ => nofun) (hw.pins.handles id)
    · rintro h _ h' _ hmove hhandle _ ⟨⟩
      cases hmove with
      | bound hopen groupId haccess binding hbinds =>
        rw [hw.pins.frontiers]
        refine (hhandle h rfl).access hw.log (fun hmode => ?_) hbinds
        cases e with
        | access | stageBatch => exact hok hmode id groupId haccess
        | _ => exact haccess.elim
      | aborted | dropped | staged | marked | released | returned | timedOut | committing =>
        exact hhandle h rfl
    · rintro hfresh key ownerId _ - _ ⟨⟩
      refine ⟨fun hlocal => ?_, nofun, fun _ => ?_⟩
      · by_contra hmode
        simp [TransactionHandle.new, hmode] at hlocal
      · by_contra hpinned
        exact hfresh (hw.log.begun id hpinned)

/-- **Entries applied later are beyond every frontier.** -/
theorem Frontier.apply (hfrontier : w.Frontier groupId n takenAt) {other : GroupId}
    (hindex : w.applied other < index) (hversions : ∀ v ∈ versions, logIndex v = index)
    (happlied : w'.applied = update w.applied other index)
    (hcommits : w'.commits = w.commits ++ versions.map fun v => (other, v)) :
    w'.Frontier groupId n takenAt := by
  refine ⟨?_, ?_, fun i version hi => ?_⟩
  · rw [happlied]
    exact hfrontier.le_applied.trans (le_update_self_iff.mpr hindex.le groupId)
  · rw [hcommits, length_append]
    exact hfrontier.takenAt_le.trans (Nat.le_add_right _ _)
  · rw [hcommits] at hi
    by_cases hold : i < w.commits.length
    · rw [getElem?_append_left hold] at hi
      exact hfrontier.separates i version hi
    rw [getElem?_append_right (not_lt.mp hold)] at hi
    obtain ⟨v, hv, hpair⟩ := mem_map.mp (mem_of_getElem? hi)
    obtain ⟨rfl, rfl⟩ := Prod.mk.inj hpair
    -- the entry is later than what was applied when the bound was taken
    have hlater : n < logIndex v := by
      rw [hversions v hv]
      exact hfrontier.le_applied.trans_lt hindex
    exact iff_of_false (not_le.mpr hlater)
      (not_lt.mpr (hfrontier.takenAt_le.trans (not_lt.mp hold)))

theorem Sound.apply (hw : Sound config groupOf w) (hindex : w.applied groupId < index)
    (hversions : assignEntryVersions index slots = .ok versions) (hrows : versions ≠ []) :
    Sound config groupOf
      { w with
        system := w.system.called (w.system.coordinator.observeCommitted groupId index)
        applied := update w.applied groupId index
        commits := w.commits ++ versions.map fun v => (groupId, v) } where
  consistent := hw.consistent.call rfl rfl (fun h => h) (fun h => h)
  log := by
    obtain ⟨v₀, hv₀⟩ := exists_mem_of_ne_nil versions hrows
    have hrange : update w.applied groupId index ≤ fun _ => Raft.MAX_LOG_INDEX :=
      update_le_iff.mpr ⟨(logIndex_of_assignEntryVersions hversions hv₀).2.2, fun other _ =>
        hw.log.range other⟩
    refine ⟨fun other version hmem => ?_, hrange, hw.log.begun⟩
    · obtain hold | hnew := mem_append.mp hmem
      · obtain ⟨hpos, hle⟩ := hw.log.committed other version hold
        exact ⟨hpos, hle.trans (le_update_self_iff.mpr hindex.le other)⟩
      · obtain ⟨v, hv, hpair⟩ := mem_map.mp hnew
        obtain ⟨rfl, rfl⟩ := Prod.mk.inj hpair
        obtain ⟨hlog, hpos, -⟩ := logIndex_of_assignEntryVersions hversions hv
        rw [hlog]
        exact ⟨hpos, by simp⟩
  pins := by
    refine ⟨fun other => ?_, fun id h hid => ?_⟩
    · by_cases hsame : other = groupId
      · subst hsame
        simpa [System.called, observeCommitted, hw.pins.frontiers] using hindex.le
      · simpa [System.called, observeCommitted, hsame] using hw.pins.frontiers other
    · have hok := hw.pins.handles id h hid
      refine ⟨hok.mode, fun n hn => ?_, hok.unpinned⟩
      obtain ⟨other, hbelongs, hfrontier⟩ := hok.pinned n hn
      obtain ⟨p, hp⟩ := ne_none_iff_exists'.mp (hw.noted id (by
        rw [pinned, show w.system.coordinator.activeById id = some h from hid]
        exact hn.trans_ne (some_ne_none n)))
      refine ⟨other, hbelongs, ?_⟩
      rw [hp] at hfrontier ⊢
      exact hfrontier.apply hindex (fun v hv => (logIndex_of_assignEntryVersions hversions hv).1)
        rfl rfl
  noted := hw.noted
  reads := by
    intro r hr
    obtain ⟨n, hbound, hfrontier⟩ := hw.reads r hr
    refine ⟨n, hbound, hfrontier.apply hindex (fun v hv => ?_) rfl rfl⟩
    exact (logIndex_of_assignEntryVersions hversions hv).1

/-- A successful access leaves a pin of the accessed group. -/
theorem validateTableAccess_ok {world : World} {c' : TransactionCoordinator}
    (hgroup : resolveGroupId config world tableId tableType userId = .ok (some groupId))
    (hok : validateTableAccess config world c id tableId tableType userId = (.ok (), c')) :
    ∃ h h' n, c.activeById id = some h ∧ c'.activeById id = some h' ∧
      h'.snapshotLogIndex = some n ∧ Binds groupId h.raftBinding h'.raftBinding := by
  unfold validateTableAccess at hok
  split at hok
  · cases hok
  rename_i h hid
  split at hok
  · cases hok
  rw [hgroup] at hok
  dsimp only at hok
  split at hok
  · cases hok
  rename_i hbind
  cases hok
  exact ⟨h, _, _, hid, by simp [setHandle]; rfl, rfl, binds_of_bind hbind⟩

section

variable (hw : Sound config groupOf w)
include hw

/-- A read with a frontier of its group. -/
theorem Sound.addRead {r : SnapshotRead} (hbound : r.bound = transactionSnapshotBound n)
    (hfrontier : w.Frontier r.groupId n r.takenAt) :
    Sound config groupOf { w with reads := r :: w.reads }  where
  consistent := hw.consistent
  log := ⟨hw.log.committed, hw.log.range, hw.log.begun⟩
  pins := by
    refine ⟨hw.pins.frontiers, fun id h hid => ?_⟩
    have hok := hw.pins.handles id h hid
    refine ⟨hok.mode, fun n hn => ?_, hok.unpinned⟩
    obtain ⟨groupId, hbelongs, hpinned⟩ := hok.pinned n hn
    exact ⟨groupId, hbelongs, { hpinned with }⟩
  noted := hw.noted
  reads := by
    refine forall_mem_cons.mpr ⟨⟨n, hbound, { hfrontier with }⟩, fun r' hr' => ?_⟩
    obtain ⟨n', hbound', hfrontier'⟩ := hw.reads r' hr'
    exact ⟨n', hbound', { hfrontier' with }⟩

/-- The pin of a transaction belongs to the group that it has just accessed. -/
theorem Sound.frontier_of_access (hid : w.system.coordinator.activeById id = some h')
    (hn : h'.snapshotLogIndex = some n)
    (hgroup : config.isClusterMode = false → groupId = groupOf id)
    (hbinds : Binds groupId h.raftBinding h'.raftBinding) :
    pinned w.system.coordinator id = some n ∧ w.Frontier groupId n ((w.pinnedAt id).getD 0) := by
  have hpinned : pinned w.system.coordinator id = some n := bind_eq_some_iff.mpr ⟨h', hid, hn⟩
  obtain ⟨p, hp⟩ := ne_none_iff_exists'.mp (hw.noted id (hpinned.trans_ne (some_ne_none n)))
  have hok := hw.pins.handles id h' hid
  obtain ⟨groupId', hbelongs, hfrontier⟩ := hok.pinned n hn
  have hsame : groupId' = groupId := by
    obtain ⟨hlocal, hof⟩ | ⟨leader, hbound⟩ := hbelongs
    · rw [hof, hgroup (hok.mode hlocal)]
    rw [hbound] at hbinds
    generalize h.raftBinding = binding at hbinds
    cases hbinds <;> rfl
  rw [hp, hsame] at hfrontier
  rw [hp]
  exact ⟨hpinned, hfrontier⟩

theorem Sound.read (hok : OneGroup config groupOf w (.read id tableId tableType userId))
    (hstep : step config w (.read id tableId tableType userId) = some w') :
    Sound config groupOf w' := by
  have haccess : System.step config w.system (.access id tableId tableType userId) = some _ := rfl
  have hpins := pinsOk_call (e := .access id tableId tableType userId) hw
    (fun hmode id' groupId haccess => by
      obtain ⟨rfl, hgroup⟩ := haccess
      exact hok hmode groupId hgroup) haccess
  have hcalled := hw.called (hw.consistent.step haccess) (fun _ h => h) hpins
  simp only [step] at hstep
  split at hstep
  · next c groupId hvalidate hgroup =>
    cases hstep
    rw [hvalidate] at hcalled
    obtain ⟨h, h', n, -, hid', hn, hbinds⟩ := validateTableAccess_ok hgroup hvalidate
    obtain ⟨hpinned, hfrontier⟩ := hcalled.frontier_of_access hid' hn
      (fun hmode => hok hmode groupId hgroup) hbinds
    refine hcalled.addRead ?_ hfrontier
    rw [show pinned c id = some n from hpinned]
    rfl
  · next _ c hvalidate _ =>
    cases hstep
    rwa [hvalidate] at hcalled

theorem Sound.step {e : SnapshotEvent} (hok : OneGroup config groupOf w e)
    (hstep : step config w e = some w') : Sound config groupOf w' := by
  cases e with
  | call e =>
    obtain ⟨s, hs, rfl⟩ := map_eq_some_iff.mp hstep
    exact hw.called (hw.consistent.step hs) (fun id hid => System.begun_step hid hs)
      (pinsOk_call hw hok hs)
  | apply groupId index slots =>
    have hindex : w.applied groupId < index := hok
    simp only [SnapshotSystem.step, max_eq_right hindex.le] at hstep
    split at hstep
    · cases hstep
    · cases hstep
    rename_i hversions
    cases hstep
    exact hw.apply hindex hversions (cons_ne_nil _ _)
  | read id tableId tableType userId => exact hw.read hok hstep

end

open KalamDB.Transactions.System (singleNode oneSharedGroup)

/-- The tables of users are in another group than the shared table. -/
def twoGroupRun : List SnapshotEvent :=
  [.apply (.dataUserShard 0) 1 1, .apply (.dataSharedShard 0) 5 1,
    .call (.begin "t1" (.sqlRequest 1) "a"), .read "t1" ("app", "notes") .user (some "u1"),
    .read "t1" ("app", "items") .shared none]

/-- Two tables of one user. -/
def oneGroupRun : List SnapshotEvent :=
  [.apply (.dataUserShard 0) 1 1, .call (.begin "t1" (.sqlRequest 1) "a"),
    .read "t1" ("app", "notes") .user (some "u1"), .apply (.dataUserShard 0) 2 1,
    .read "t1" ("app", "drafts") .user (some "u1")]

end SnapshotSystem

end KalamDB.Transactions
