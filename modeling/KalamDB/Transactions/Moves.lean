import Mathlib.Logic.Relation
import KalamDB.Transactions.System

/-!
# What the calls of the coordinator do

Said once for all invariants: a call **moves** the handle and the write set of its transaction in
one of a few ways (`Move`), or removes the transaction; all but an abort keep the commits that are
suspended (`Keeps`). Beginning a transaction and the answer of
the applier to a suspended commit are the only calls that also change what is registered for an
owner (`called_of_step`).
-/

namespace KalamDB.Transactions

open Raft Runs Relation List Function TransactionWriteSet

namespace TransactionCoordinator

variable {id : TransactionId} {tableId : TableId}

/-- What an access to a group does to the binding of a transaction. -/
inductive Binds (groupId : GroupId) : TransactionRaftBinding → TransactionRaftBinding → Prop
  | localSingleNode : Binds groupId .localSingleNode .localSingleNode
  | unbound (leader : NodeId) : Binds groupId .unboundCluster (.boundCluster groupId leader)
  | bound (leader : NodeId) :
    Binds groupId (.boundCluster groupId leader) (.boundCluster groupId leader)

theorem binds_of_bind {config : CoordinatorConfig} {world : World}
    {groupId : GroupId} {binding binding' : TransactionRaftBinding}
    (h : bind config world id tableId groupId binding = .ok binding') :
    Binds groupId binding binding' := by
  revert h
  fun_cases bind config world id tableId groupId binding <;> rintro ⟨⟩
  · exact .localSingleNode
  · exact .unbound _
  · next hsame =>
    obtain rfl := not_ne_iff.mp hsame
    exact .bound _

/-- The moves of a transaction. `Accesses` says which transactions may access which groups, and
`Returns` which ones may go back to which savepoints. -/
inductive Move (config : CoordinatorConfig) (Accesses : TransactionId → GroupId → Prop)
    (Returns : TransactionId → String → Prop) (frontiers : GroupId → ℕ)
    (id : TransactionId) (h : TransactionHandle) :
    Option TransactionWriteSet → TransactionHandle → Option TransactionWriteSet → Prop
  | bound {ws} (hopen : h.state.isOpen = true) (groupId : GroupId)
    (haccess : Accesses id groupId) (binding : TransactionRaftBinding)
    (hbinds : Binds groupId h.raftBinding binding) :
    Move config Accesses Returns frontiers id h ws
      { h with
        raftBinding := binding
        snapshotLogIndex := some (h.snapshotLogIndex.getD (frontiers groupId)) } ws
  | aborted {ws} : Move config Accesses Returns frontiers id h ws (h.markState .aborted) ws
  /-- Aborted for its size. -/
  | dropped {ws} (hopen : h.state.isOpen = true) :
    Move config Accesses Returns frontiers id h ws (h.markState .aborted) none
  | staged {ws} (hopen : h.state.isOpen = true) (mutations : List StagedMutation)
    (hfits : h.writeBytes + (mutations.map config.approximateSizeBytes).sum ≤
      config.maxTransactionBufferBytes) (tableIds : Finset TableId) (ws' : TransactionWriteSet)
    (hws : ws' = mutations.foldl
      (fun ws m => ws.stageWithEstimatedSize m (config.approximateSizeBytes m))
      (ws.getD (.new id))) :
    Move config Accesses Returns frontiers id h ws
      (h.recordStagedWriteBatch tableIds ws'.affectedRows ws'.bufferBytes) (some ws')
  | marked {ws} (hopen : h.state.isOpen = true) (name : String) :
    Move config Accesses Returns frontiers id h ws h (some ((ws.getD (.new id)).pushSavepoint name))
  | released {ws ws' : TransactionWriteSet} (hopen : h.state.isOpen = true) (name : String)
    (hws : ws.releaseSavepoint name = some ws') :
    Move config Accesses Returns frontiers id h (some ws) h (some ws')
  | returned {ws ws' : TransactionWriteSet} (name : String) (hreturns : Returns id name)
    (hws : ws.rollbackToSavepoint config.approximateSizeBytes name = some ws') :
    Move config Accesses Returns frontiers id h (some ws)
      { h with
        writeCount := ws'.affectedRows
        writeBytes := ws'.bufferBytes
        hasWriteSet := decide (0 < ws'.affectedRows)
        state := if 0 < ws'.affectedRows then .openWrite else .openRead } (some ws')
  | timedOut {ws} (hopen : h.state.isOpen = true) :
    Move config Accesses Returns frontiers id h ws (h.markState .timedOut) none
  | committing {ws} (hopen : h.state.isOpen = true) :
    Move config Accesses Returns frontiers id h ws (h.markState .committing) none

inductive Moved (config : CoordinatorConfig) (Accesses : TransactionId → GroupId → Prop)
    (Returns : TransactionId → String → Prop) (c : TransactionCoordinator) :
    TransactionCoordinator → Prop
  | moved {id h h' ws'} (hid : c.activeById id = some h)
    (hmove : Move config Accesses Returns c.frontiers id h (c.writeSets id) h' ws') :
    Moved config Accesses Returns c ((c.setHandle id (some h')).setWriteSet id ws')
  | removed {id h} (hid : c.activeById id = some h) :
    Moved config Accesses Returns c (c.discard id h.ownerKey)

/-! ### What calls keep -/

variable (c : TransactionCoordinator) {state : TransactionState}

/-- The transaction is committing or gone. -/
def Sealed (id : TransactionId) : Prop :=
  ∀ handle, c.activeById id = some handle → handle.state = .committing

/-- Every write set holds changes of its own transaction. -/
def Owns : Prop :=
  ∀ id ws, c.writeSets id = some ws → ∀ m ∈ ws.orderedMutations, m.transactionId = id

/-- A transaction that is gone stays gone, a sealed one stays sealed, and write sets hold
changes of their own transactions. -/
structure Keeps (c c' : TransactionCoordinator) : Prop where
  gone : ∀ {id}, c.activeById id = none → c'.activeById id = none
  sealed : ∀ {id}, c.Sealed id → c'.Sealed id
  owns : c.Owns → c'.Owns

namespace Keeps

variable {c c' c'' : TransactionCoordinator} {id : TransactionId} {handle : TransactionHandle}

theorem of_eq (h : c'.activeById = c.activeById) (hws : c'.writeSets = c.writeSets) :
    Keeps c c' := by
  refine ⟨fun hgone => ?_, fun hsealed => ?_, fun howns => ?_⟩
  · rwa [h]
  · rwa [Sealed, h]
  · rwa [Owns, hws]

theorem refl : Keeps c c := of_eq rfl rfl

theorem trans (h : Keeps c c') (h' : Keeps c' c'') : Keeps c c'' :=
  ⟨fun hgone => h'.gone (h.gone hgone), fun hsealed => h'.sealed (h.sealed hsealed),
    fun howns => h'.owns (h.owns howns)⟩

/-- Removing a transaction. -/
theorem setHandle_none : Keeps c (c.setHandle id none) := by
  refine ⟨fun {id'} hgone => ?_, fun {id'} hsealed handle hhandle => ?_, fun howns => howns⟩
  · by_cases h : id' = id
    · simp [setHandle, h]
    · simpa [setHandle, h] using hgone
  · by_cases h : id' = id
    · simp [setHandle, h] at hhandle
    · exact hsealed handle (by simpa [setHandle, h] using hhandle)

/-- Changing the handle of a transaction that is not committing. -/
theorem setHandle_some (hid : c.activeById id = some handle) (hstate : handle.state ≠ .committing)
    (handle' : TransactionHandle) : Keeps c (c.setHandle id (some handle')) := by
  refine ⟨fun {id'} hgone => ?_, fun {id'} hsealed other hother => ?_, fun howns => howns⟩
  · have h : id' ≠ id := by
      rintro rfl
      simp [hid] at hgone
    simpa [setHandle, h] using hgone
  · have h : id' ≠ id := by
      rintro rfl
      exact hstate (hsealed handle hid)
    exact hsealed other (by simpa [setHandle, h] using hother)

theorem setWriteSet {ws : Option TransactionWriteSet}
    (hws : c.Owns → ∀ ws', ws = some ws' → ∀ m ∈ ws'.orderedMutations, m.transactionId = id) :
    Keeps c (c.setWriteSet id ws) := by
  refine ⟨fun hgone => hgone, fun hsealed => hsealed, fun howns id' ws' hws' => ?_⟩
  by_cases hid : id' = id
  · subst hid
    exact hws howns ws' (by simpa [TransactionCoordinator.setWriteSet] using hws')
  · exact howns id' ws' (by simpa [TransactionCoordinator.setWriteSet, hid] using hws')

theorem setWriteSet_none : Keeps c (c.setWriteSet id none) := setWriteSet (by simp)

theorem setOwner (key : ExecutionOwnerKey) (id : Option TransactionId) :
    Keeps c (c.setOwner key id) := of_eq rfl rfl

theorem discard (key : ExecutionOwnerKey) : Keeps c (c.discard id key) :=
  (setWriteSet_none.trans (setOwner _ _)).trans setHandle_none

end Keeps

theorem ne_committing_of_isOpen (h : ¬state.isOpen = false) : state ≠ .committing := by
  rintro rfl
  exact h rfl

/-- The changes of the write set that is there, or of a new one. -/
theorem Owns.getD_new {c : TransactionCoordinator} (h : c.Owns) (id : TransactionId) :
    ∀ m ∈ ((c.writeSets id).getD (.new id)).orderedMutations, m.transactionId = id := by
  cases hws : c.writeSets id with
  | none => simp [TransactionWriteSet.new]
  | some ws => exact h id ws hws

/-! ### The calls -/

@[simp]
theorem setWriteSet_self (id : TransactionId) : c.setWriteSet id (c.writeSets id) = c := by
  simp [setWriteSet]

@[simp]
theorem setHandle_self {c : TransactionCoordinator} {h : TransactionHandle}
    (hid : c.activeById id = some h) : c.setHandle id (some h) = c := by
  rw [setHandle, ← hid, update_eq_self]

section Calls

variable {config : CoordinatorConfig} {Accesses : TransactionId → GroupId → Prop}
  {Returns : TransactionId → String → Prop} {world : World} {c : TransactionCoordinator}
  {id : TransactionId} {h : TransactionHandle} {mutations : List StagedMutation}

variable (config Accesses Returns) in
/-- A move that disturbs no other transaction and no commit. -/
def Kept (c c' : TransactionCoordinator) : Prop := Moved config Accesses Returns c c' ∧ Keeps c c'

theorem moves_of_kept {c' : TransactionCoordinator}
    (h : ReflTransGen (Kept config Accesses Returns) c c') :
    ReflTransGen (Moved config Accesses Returns) c c' :=
  h.lift id fun _ _ hkept => hkept.1

theorem keeps_of_kept {c' : TransactionCoordinator}
    (h : ReflTransGen (Kept config Accesses Returns) c c') : Keeps c c' := by
  induction h with
  | refl => exact .refl
  | tail _ hlast ih => exact ih.trans hlast.2

section

variable (hid : c.activeById id = some h) {h' : TransactionHandle}
include hid

theorem Kept.moved {ws' : Option TransactionWriteSet} (hstate : h.state ≠ .committing)
    (hmove : Move config Accesses Returns c.frontiers id h (c.writeSets id) h' ws')
    (hws : c.Owns → ∀ ws, ws' = some ws → ∀ m ∈ ws.orderedMutations, m.transactionId = id) :
    Kept config Accesses Returns c ((c.setHandle id (some h')).setWriteSet id ws') :=
  ⟨.moved hid hmove, (Keeps.setHandle_some hid hstate h').trans (.setWriteSet hws)⟩

/-- A move that leaves the write set as it is. -/
theorem Moved.handle
    (hmove : Move config Accesses Returns c.frontiers id h (c.writeSets id) h' (c.writeSets id)) :
    Moved config Accesses Returns c (c.setHandle id (some h')) := by
  have hmoved := Moved.moved hid hmove
  have hsame : (c.setHandle id (some h')).setWriteSet id (c.writeSets id) =
      c.setHandle id (some h') := setWriteSet_self (c.setHandle id (some h')) id
  rwa [hsame] at hmoved

theorem Kept.handle (hstate : h.state ≠ .committing)
    (hmove : Move config Accesses Returns c.frontiers id h (c.writeSets id) h' (c.writeSets id)) :
    Kept config Accesses Returns c (c.setHandle id (some h')) :=
  ⟨.handle hid hmove, .setHandle_some hid hstate h'⟩

/-- A move that leaves the handle as it is. -/
theorem Kept.writeSet {ws' : TransactionWriteSet}
    (hmove : Move config Accesses Returns c.frontiers id h (c.writeSets id) h (some ws'))
    (hws : c.Owns → ∀ m ∈ ws'.orderedMutations, m.transactionId = id) :
    Kept config Accesses Returns c (c.setWriteSet id (some ws')) := by
  have hmoved := Moved.moved hid hmove
  rw [setHandle_self hid] at hmoved
  refine ⟨hmoved, .setWriteSet ?_⟩
  rintro howns _ ⟨⟩
  exact hws howns

theorem Kept.removed : Kept config Accesses Returns c (c.discard id h.ownerKey) :=
  ⟨.removed hid, .discard _⟩

end

theorem moves_validateTableAccess {tableType : TableType}
    {userId : Option UserId} (haccess : ∀ groupId,
      resolveGroupId config world tableId tableType userId = .ok (some groupId) →
        Accesses id groupId) :
    ReflTransGen (Kept config Accesses Returns) c
      (validateTableAccess config world c id tableId tableType userId).2 := by
  fun_cases validateTableAccess config world c id tableId tableType userId with
  | case6 h hid hopen groupId hgroup _ hbind =>
    exact .single (.handle hid (ne_committing_of_isOpen hopen)
      (.bound (eq_true_of_ne_false hopen) groupId (haccess groupId hgroup) _ (binds_of_bind hbind)))
  | _ => exact .refl

/-- Checked changes carry the id of the transaction. -/
theorem transactionId_of_validateMutations (c : TransactionCoordinator)
    (h : (validateMutations config world id mutations c).1 = .ok ()) :
    ∀ m ∈ mutations, m.transactionId = id := by
  induction mutations generalizing c with
  | nil => simp
  | cons mutation rest ih =>
    unfold validateMutations at h
    split at h
    · cases h
    rename_i hcheck
    have hid : mutation.transactionId = id := by
      by_contra hne
      simp only [checkMutation] at hcheck
      split_ifs at hcheck
    split at h
    · cases h
    · exact forall_mem_cons.mpr ⟨hid, ih _ h⟩

/-- Staging changes of a transaction keeps its write set its own. -/
theorem forall_mem_staged {ws : TransactionWriteSet} (size : StagedMutation → ℕ)
    (hws : ∀ m ∈ ws.orderedMutations, m.transactionId = id)
    (hnew : ∀ m ∈ mutations, m.transactionId = id) :
    ∀ m ∈ (mutations.foldl (fun ws m => ws.stageWithEstimatedSize m (size m))
      ws).orderedMutations, m.transactionId = id := by
  induction mutations generalizing ws with
  | nil => exact hws
  | cons mutation rest ih =>
    obtain ⟨hfirst, hrest⟩ := forall_mem_cons.mp hnew
    refine ih ?_ hrest
    rw [stageWithEstimatedSize_orderedMutations, forall_mem_append]
    exact ⟨hws, by simpa using hfirst⟩

theorem moves_stageChecked (hnew : ∀ m ∈ mutations, m.transactionId = id) :
    ReflTransGen (Kept config Accesses Returns) c (stageChecked config world c id mutations).2 := by
  fun_cases stageChecked config world c id mutations with
  | case3 h hid hopen => exact .single (.handle hid (ne_committing_of_isOpen hopen) .aborted)
  | case4 h hid hopen =>
    exact .single (.moved hid (ne_committing_of_isOpen hopen) (.dropped (eq_true_of_ne_false hopen))
      (by simp))
  | case5 h hid hopen _ _ hfits =>
    refine .single (.moved hid (ne_committing_of_isOpen hopen)
      (.staged (eq_true_of_ne_false hopen) mutations (not_lt.mp hfits) _ _ rfl) ?_)
    rintro howns _ ⟨⟩
    exact forall_mem_staged _ (howns.getD_new id) hnew
  | _ => exact .refl

section

variable (haccess : ∀ m ∈ mutations, ∀ groupId,
  resolveGroupId config world m.tableId m.tableType m.userId = .ok (some groupId) →
    Accesses id groupId)
include haccess

theorem moves_validateMutations (c : TransactionCoordinator) :
    ReflTransGen (Kept config Accesses Returns) c
      (validateMutations config world id mutations c).2 := by
  fun_induction validateMutations config world id mutations c with
  | case3 m rest c _ e c' hvalidate =>
    exact (congrArg Prod.snd hvalidate) ▸ moves_validateTableAccess (haccess m mem_cons_self)
  | case4 m rest c _ c' hvalidate ih =>
    obtain ⟨hfirst, hrest⟩ := forall_mem_cons.mp haccess
    exact ((congrArg Prod.snd hvalidate) ▸ moves_validateTableAccess hfirst).trans (ih hrest)
  | _ => exact .refl

theorem moves_stageBatch :
    ReflTransGen (Kept config Accesses Returns) c (stageBatch config world c id mutations).2 := by
  have hvalid : ReflTransGen (Kept config Accesses Returns) c
      (validateMutations config world id mutations c).2 := moves_validateMutations haccess c
  fun_cases stageBatch config world c id mutations with
  | case1 => exact .refl
  | case2 _ _ _ hvalidate =>
    rw [hvalidate] at hvalid
    exact hvalid
  | case3 _ _ hvalidate =>
    have hids := transactionId_of_validateMutations c (congrArg Prod.fst hvalidate)
    rw [hvalidate] at hvalid
    exact hvalid.trans (moves_stageChecked hids)

end

theorem moves_savepoint (name : String) :
    ReflTransGen (Kept config Accesses Returns) c (c.savepoint id name).2 := by
  fun_cases savepoint c id name with
  | case3 h hid hopen =>
    exact .single (.writeSet hid (.marked (eq_true_of_ne_false hopen) name) fun howns =>
      howns.getD_new id)
  | _ => exact .refl

theorem moves_releaseSavepoint (name : String) :
    ReflTransGen (Kept config Accesses Returns) c (c.releaseSavepoint id name).2 := by
  fun_cases releaseSavepoint c id name with
  | case4 h hid hopen ws' hws' =>
    obtain ⟨ws, hws, hreleased⟩ := Option.bind_eq_some_iff.mp hws'
    refine .single (.writeSet hid ?_ fun howns => ?_)
    · rw [hws]
      exact .released (eq_true_of_ne_false hopen) name hreleased
    · obtain ⟨pos, -, rfl⟩ := Option.map_eq_some_iff.mp hreleased
      exact howns id ws hws
  | _ => exact .refl

theorem moves_rollbackToSavepoint {name : String} (hreturns : Returns id name) :
    ReflTransGen (Kept config Accesses Returns) c (c.rollbackToSavepoint config id name).2 := by
  fun_cases rollbackToSavepoint config c id name with
  | case4 h hid hallowed ws' hws' =>
    obtain ⟨ws, hws, hreturned⟩ := Option.bind_eq_some_iff.mp hws'
    have hstate : h.state ≠ .committing := by
      intro heq
      rw [heq] at hallowed
      exact hallowed ⟨rfl, by decide⟩
    refine .single (.moved hid hstate ?_ ?_)
    · rw [hws]
      exact .returned name hreturns hreturned
    · rintro howns _ ⟨⟩ m hm
      obtain ⟨pos, -, htarget⟩ := Option.bind_eq_some_iff.mp hreturned
      obtain ⟨target, -, rfl⟩ := Option.map_eq_some_iff.mp htarget
      rw [truncateMutations_eq] at hm
      exact howns id ws hws m (mem_of_mem_take hm)
  | _ => exact .refl

theorem moves_markTransactionAborted :
    ReflTransGen (Moved config Accesses Returns) c (c.markTransactionAborted id) := by
  fun_cases markTransactionAborted c id with
  | case1 => exact .refl
  | case2 h hid => exact .single (.handle hid .aborted)

theorem moves_timeoutTransaction :
    ReflTransGen (Kept config Accesses Returns) c (c.timeoutTransaction id) := by
  fun_cases timeoutTransaction c id with
  | case2 h hid hopen =>
    refine .single (.moved hid (ne_committing_of_isOpen ?_) (.timedOut hopen) (by simp))
    simp [hopen]
  | _ => exact .refl

theorem moves_beginCommit :
    ReflTransGen (Kept config Accesses Returns) c (beginCommit config world c id).2 := by
  fun_cases beginCommit config world c id with
  | case3 h hid hopen => exact .single (.handle hid (ne_committing_of_isOpen hopen) .aborted)
  | case4 h hid => exact .single (.removed hid)
  | case5 h hid hopen =>
    exact .single (.moved hid (ne_committing_of_isOpen hopen)
      (.committing (eq_true_of_ne_false hopen)) (by simp))
  | _ => exact .refl

theorem moves_rollback : ReflTransGen (Kept config Accesses Returns) c (c.rollback id).2 := by
  fun_cases rollback c id with
  | case2 h hid | case4 h hid => exact .single (.removed hid)
  | _ => exact .refl

/-- What beginning a transaction can do: nothing, or register it in place of one of its owner that
is not open. -/
theorem begin_cases (config : CoordinatorConfig) (c : TransactionCoordinator) (id : TransactionId)
    (key : ExecutionOwnerKey) (ownerId : String) :
    (c.begin config id key ownerId).2 = c ∨ ∃ c₀, (c.begin config id key ownerId).2 =
        (c₀.setHandle id (some (.new id key ownerId
          (if config.isClusterMode then .unboundCluster else .localSingleNode)))).setOwner key
          (some id) ∧
      ((c.activeByOwner key = none ∧ c₀ = c) ∨ ∃ existing, c.activeByOwner key = some existing ∧
        (∀ h, c.activeById existing = some h → h.state.isOpen = false) ∧
        c₀ = (c.setHandle existing none).setWriteSet existing none) := by
  fun_cases begin config c id key ownerId with
  | case1 => exact .inl rfl
  | case2 _ _ existing hexisting hnot =>
    refine .inr ⟨_, rfl, .inr ⟨existing, hexisting, fun h hh => ?_, rfl⟩⟩
    simpa [hh] using hnot
  | case3 _ _ hfree => exact .inr ⟨_, rfl, .inl ⟨hfree, rfl⟩⟩

/-- What the answer of the applier can do: nothing, or remove the transaction and whatever is
registered for its owner. -/
theorem finishCommit_eq (c : TransactionCoordinator) (commit : SuspendedCommit)
    (response : CommitResponse) :
    (c.finishCommit commit response).2 = c ∨
      (c.finishCommit commit response).2.activeByOwner =
          update c.activeByOwner commit.ownerKey none ∧
        (c.finishCommit commit response).2.activeById =
          update c.activeById commit.transactionId none ∧
        (c.finishCommit commit response).2.writeSets = c.writeSets := by
  fun_cases finishCommit c commit response with
  | case1 => exact .inr ⟨rfl, rfl, rfl⟩
  | case2 => exact .inl rfl
  | case3 _ hgone =>
    refine .inr ⟨rfl, ?_, rfl⟩
    rw [← hgone, update_eq_self]
    rfl
  | case4 => split <;> exact .inr ⟨rfl, rfl, rfl⟩

end Calls

end TransactionCoordinator

namespace System

open TransactionCoordinator

/-- The savepoints that an event goes back to. -/
def Returns : SystemEvent → TransactionId → String → Prop
  | .rollbackToSavepoint id name, id', name' => id' = id ∧ name' = name
  | _, _, _ => False

/-- The groups that an event accesses. -/
def Accesses (config : CoordinatorConfig) (world : World) :
    SystemEvent → TransactionId → GroupId → Prop
  | .access id tableId tableType userId, id', groupId =>
    id' = id ∧ resolveGroupId config world tableId tableType userId = .ok (some groupId)
  | .stageBatch id mutations, id', groupId => id' = id ∧ ∃ m ∈ mutations,
    resolveGroupId config world m.tableId m.tableType m.userId = .ok (some groupId)
  | _, _, _ => False

/-- What a step does to the coordinator. -/
inductive Called (config : CoordinatorConfig) (s : System) (e : SystemEvent) :
    TransactionCoordinator → Prop
  | moved {c'} (hmoves : ReflTransGen (Moved config (Accesses config s.world e) (Returns e))
      s.coordinator c') :
    Called config s e c'
  | begun (id : TransactionId) (key : ExecutionOwnerKey) (ownerId : String)
    (he : e = .begin id key ownerId) (hfresh : id ∉ s.history.begun) :
    Called config s e (s.coordinator.begin config id key ownerId).2
  | finished (commit : SuspendedCommit) (response : CommitResponse)
    (he : e = .finishCommit commit response) (hmem : commit ∈ s.suspended) :
    Called config s e (s.coordinator.finishCommit commit response).2

theorem coordinator_rolled (s : System) (id : TransactionId)
    (result : Except KalamDbError Unit × TransactionCoordinator) :
    (s.rolled id result).coordinator = result.2 := by
  obtain ⟨r, c⟩ := result
  cases r <;> rfl

variable {e : SystemEvent}

theorem Called.kept {config : CoordinatorConfig} {s : System}
    {c' : TransactionCoordinator} (h : ReflTransGen (Kept config (Accesses config s.world e)
      (Returns e)) s.coordinator c') : Called config s e c' :=
  .moved (moves_of_kept h)

theorem called_of_step {config : CoordinatorConfig} {s s' : System}
    (h : step config s e = some s') : Called config s e s'.coordinator := by
  revert h
  fun_cases step config s e <;> rintro ⟨⟩
  -- changes of the world, entries and sessions without an open transaction
  case case1 | case14 | case21 => exact .moved .refl
  -- the commit is begun, whatever comes of it
  case case11 id _ _ hcommit | case12 id _ hcommit | case13 id _ _ hcommit =>
    have hcalled : Called config s (.beginCommit id)
      (beginCommit config s.world s.coordinator id).2 := .kept moves_beginCommit
    rwa [hcommit] at hcalled
  -- the applier answers
  case case16 response hmem _ _ hfinish | case17 response hmem _ _ hfinish =>
    have hcalled : Called config s _ _ := .finished _ response rfl hmem
    rwa [hfinish] at hcalled
  case case19 | case20 =>
    rw [coordinator_rolled]
    exact .kept moves_rollback
  · next hfresh => exact .begun _ _ _ rfl hfresh
  · exact .kept (moves_validateTableAccess fun _ hgroup => ⟨rfl, hgroup⟩)
  · exact .kept (moves_stageBatch fun m hm _ hgroup => ⟨rfl, m, hm, hgroup⟩)
  · exact .kept (moves_savepoint _)
  · exact .kept (moves_releaseSavepoint _)
  · exact .kept (moves_rollbackToSavepoint ⟨rfl, rfl⟩)
  · exact .moved moves_markTransactionAborted
  · exact .kept moves_timeoutTransaction

end System

end KalamDB.Transactions
