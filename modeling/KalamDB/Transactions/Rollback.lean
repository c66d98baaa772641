import KalamDB.Transactions.Moves

/-!
# Rolled-back transactions

A rollback that returns success must leave no trace of the transaction. The coordinator refuses
a rollback only for a committed transaction, so one whose commit is **suspended at the applier**
can be rolled back while its commit entry is on its way (`RollbackOk` is the condition that this
does not happen).

What protects a transaction is that its handle stays `committing` or is gone once its entry was
proposed (`Sealed`), and that a handle that is gone never comes back.
-/

namespace KalamDB.Transactions

open Raft Runs Relation List

namespace TransactionCoordinator

section Calls

variable (config : CoordinatorConfig) (world : World) (c : TransactionCoordinator)
  (id : TransactionId)

/-- An abort keeps a transaction that is not committing. -/
theorem markTransactionAborted_keeps
    (h : ∀ handle, c.activeById id = some handle → handle.state ≠ .committing) :
    Keeps c (c.markTransactionAborted id) := by
  fun_cases markTransactionAborted c id with
  | case1 => exact .refl
  | case2 handle hid => exact .setHandle_some hid (h handle hid) _

/-- An abort of any transaction brings none back and leaves the write sets. -/
theorem markTransactionAborted_gone :
    (∀ {id'}, c.activeById id' = none → (c.markTransactionAborted id).activeById id' = none) ∧
      (c.markTransactionAborted id).writeSets = c.writeSets := by
  unfold markTransactionAborted
  split
  · exact ⟨fun h => h, rfl⟩
  rename_i handle hid
  refine ⟨fun {id'} hgone => ?_, rfl⟩
  have hne : id' ≠ id := by
    rintro rfl
    simp [hid] at hgone
  simpa [setHandle, hne] using hgone

section

variable {config world c id} {c' : TransactionCoordinator} {commit : SuspendedCommit}

theorem beginCommit_keeps {result : Except KalamDbError (Option SuspendedCommit)}
    (h : beginCommit config world c id = (result, c')) : Keeps c c' := by
  have hmoves : ReflTransGen (Kept config (fun _ _ => True) fun _ _ => True) c
      (beginCommit config world c id).2 := moves_beginCommit
  rw [h] at hmoves
  exact keeps_of_kept hmoves

/-- A commit without changes removes its transaction at once. -/
theorem gone_of_beginCommit (h : beginCommit config world c id = (.ok none, c')) :
    ∃ handle, c.activeById id = some handle ∧ handle.state.isOpen = true ∧
      c'.activeById id = none := by
  revert h
  fun_cases beginCommit config world c id <;> rintro ⟨⟩
  next handle hid hopen _ _ =>
  exact ⟨handle, hid, eq_true_of_ne_false hopen, by simp [setHandle]⟩

/-- One with changes waits with those of its transaction, which is then committing. -/
theorem suspended_of_beginCommit (h : beginCommit config world c id = (.ok (some commit), c')) :
    commit.transactionId = id ∧ ∃ handle, c.activeById id = some handle ∧
      handle.state.isOpen = true ∧ c'.activeById id = some (handle.markState .committing) ∧
      c'.writeSets id = none ∧ (c.Owns → ∀ m ∈ commit.mutations, m.transactionId = id) := by
  revert h
  fun_cases beginCommit config world c id <;> rintro ⟨⟩
  next handle hid hopen _ _ _ hmutations =>
  refine ⟨rfl, handle, hid, eq_true_of_ne_false hopen, by simp [setHandle, setWriteSet],
    by simp [setWriteSet], fun howns m hm => ?_⟩
  rw [← hmutations] at hm
  cases hws : c.writeSets id with
  | none => simp [hws] at hm
  | some ws => exact howns id ws hws m (by simpa [hws] using hm)

theorem finishCommit_keeps {response : CommitResponse} {result : Except KalamDbError ℕ}
    (h : c.finishCommit commit response = (result, c')) : Keeps c c' := by
  obtain hsame | ⟨-, hactive, hws⟩ := finishCommit_eq c commit response <;> rw [h] at *
  · exact hsame ▸ .refl
  · exact Keeps.setHandle_none.trans (.of_eq hactive hws)

/-- The second half of a commit succeeds only while the transaction is there. -/
theorem gone_of_finishCommit {response : CommitResponse} {n : ℕ}
    (h : c.finishCommit commit response = (.ok n, c')) :
    ∃ handle, c.activeById commit.transactionId = some handle ∧
      c'.activeById commit.transactionId = none := by
  revert h
  fun_cases finishCommit c commit response <;> rintro ⟨⟩
  next handle hid _ =>
  refine ⟨handle, hid, ?_⟩
  split <;> exact Function.update_self ..

/-- A rollback succeeds only for a transaction that is there, and removes it. -/
theorem gone_of_rollback (h : c.rollback id = (.ok (), c')) :
    ∃ handle, c.activeById id = some handle ∧ c'.activeById id = none := by
  revert h
  fun_cases rollback c id <;> rintro ⟨⟩
  case case2 handle hid _ | case4 handle hid _ _ =>
    exact ⟨handle, hid, by simp [discard, setHandle]⟩

end

/-- The call leaves every other transaction alone, except that it may remove one. -/
structure Spares (c c' : TransactionCoordinator) (id : TransactionId) : Prop where
  gone : ∀ {id'}, id' ≠ id → c.activeById id' = none → c'.activeById id' = none
  sealed : ∀ {id'}, id' ≠ id → c.Sealed id' → c'.Sealed id'
  owns : c.Owns → c'.Owns

/-- A new transaction disturbs no other, except that it removes one of its owner that is no
longer open. -/
theorem begin_spares (ownerKey : ExecutionOwnerKey) (ownerId : String) :
    Spares c (c.begin config id ownerKey ownerId).2 id := by
  obtain hsame | ⟨c₀, hbegin, hplace⟩ := begin_cases config c id ownerKey ownerId
  · rw [hsame]
    exact ⟨fun _ h => h, fun _ h => h, fun h => h⟩
  have hkeeps : Keeps c c₀ := by
    obtain ⟨-, rfl⟩ | ⟨existing, -, -, rfl⟩ := hplace
    · exact .refl
    · exact Keeps.setHandle_none.trans .setWriteSet_none
  rw [hbegin]
  refine ⟨fun hne hgone => ?_, fun hne hsealed other hother => ?_, hkeeps.owns⟩
  · simpa [setHandle, setOwner, hne] using hkeeps.gone hgone
  · refine hkeeps.sealed hsealed other ?_
    simpa [setHandle, setOwner, hne] using hother

end Calls

end TransactionCoordinator

/-! ### What a step can do -/

namespace System

open TransactionCoordinator

variable {id : TransactionId}

/-- Neither a rollback nor an abort reaches a transaction whose commit is suspended. -/
def RollbackOk (s : System) : SystemEvent → Prop
  | .rollback id | .markAborted id =>
    ∀ handle, s.coordinator.activeById id = some handle → handle.state ≠ .committing
  | _ => True

instance (s : System) : (e : SystemEvent) → Decidable (s.RollbackOk e)
  | .rollback id | .markAborted id =>
    match h : s.coordinator.activeById id with
    | none => .isTrue fun handle hid => by rw [h] at hid; cases hid
    | some handle => decidable_of_iff (handle.state ≠ .committing)
        ⟨fun hne handle' hid => by rw [h] at hid; cases hid; exact hne, fun hall => hall handle h⟩
  | .world _ | .begin _ _ _ | .access _ _ _ _ | .stageBatch _ _ | .savepoint _ _
  | .releaseSavepoint _ _ | .rollbackToSavepoint _ _ | .timeout _ | .beginCommit _
  | .applyEntry _ | .finishCommit _ _ | .closeSession _ => .isTrue trivial

/-- The steps by what they do to the record of a run. -/
inductive Stepped (s : System) (e : SystemEvent) (s' : System) : Prop
  | call (hproposed : s'.proposed = s.proposed) (hhistory : s'.history = s.history)
      (hgone : ∀ {id}, s.coordinator.activeById id = none → s'.coordinator.activeById id = none)
      (howns : s.coordinator.Owns → s'.coordinator.Owns)
      (hsealed : s.RollbackOk e → ∀ {id}, s.coordinator.Sealed id → s'.coordinator.Sealed id)
  | begun (id : TransactionId) (hfresh : id ∉ s.history.begun)
      (hproposed : s'.proposed = s.proposed)
      (hhistory : s'.history = { s.history with begun := id :: s.history.begun })
      (hgone : ∀ {id'}, id' ≠ id → s.coordinator.activeById id' = none →
        s'.coordinator.activeById id' = none)
      (howns : s.coordinator.Owns → s'.coordinator.Owns)
      (hsealed : ∀ {id'}, id' ≠ id → s.coordinator.Sealed id' → s'.coordinator.Sealed id')
  | committed (id : TransactionId) (handle : TransactionHandle)
      (hkeeps : Keeps s.coordinator s'.coordinator)
      (hid : s.coordinator.activeById id = some handle)
      (hgone : s'.coordinator.activeById id = none) (hproposed : s'.proposed = s.proposed)
      (hhistory : s'.history = { s.history with committed := id :: s.history.committed })
  | suspended (commit : SuspendedCommit) (handle : TransactionHandle)
      (hkeeps : Keeps s.coordinator s'.coordinator)
      (hid : s.coordinator.activeById commit.transactionId = some handle)
      (hsealed : s'.coordinator.Sealed commit.transactionId)
      (hown : s.coordinator.Owns → ∀ m ∈ commit.mutations,
        m.transactionId = commit.transactionId)
      (hproposed : s'.proposed = commit :: s.proposed) (hhistory : s'.history = s.history)
  | applied (commit : SuspendedCommit) (hmem : commit ∈ s.proposed)
      (hcoordinator : s'.coordinator = s.coordinator) (hproposed : s'.proposed = s.proposed)
      (hhistory : s'.history =
        { s.history with applied := s.history.applied ++ commit.mutations })
  | rolledBack (id : TransactionId) (handle : TransactionHandle)
      (hkeeps : Keeps s.coordinator s'.coordinator)
      (hid : s.coordinator.activeById id = some handle)
      (hgone : s'.coordinator.activeById id = none) (hproposed : s'.proposed = s.proposed)
      (hhistory : s'.history = { s.history with rolledBack := id :: s.history.rolledBack })
      (hstate : s.RollbackOk e → handle.state ≠ .committing)

theorem Stepped.of_keeps {s s' : System} {e : SystemEvent} (hproposed : s'.proposed = s.proposed)
    (hhistory : s'.history = s.history) (h : Keeps s.coordinator s'.coordinator) :
    Stepped s e s' :=
  .call hproposed hhistory h.gone h.owns fun _ => h.sealed

theorem Stepped.of_kept (config : CoordinatorConfig) {s : System} {e : SystemEvent}
    {c' : TransactionCoordinator}
    (h : ReflTransGen (Kept config (fun _ _ => True) fun _ _ => True) s.coordinator c') :
    Stepped s e { s with coordinator := c' } :=
  .of_keeps rfl rfl (keeps_of_kept h)

/-- A rollback that succeeds is recorded. -/
theorem stepped_rolled (config : CoordinatorConfig) {s : System} {e : SystemEvent}
    (hstate : ∀ handle, s.coordinator.activeById id = some handle → s.RollbackOk e →
      handle.state ≠ .committing) : Stepped s e (s.rolled id (s.coordinator.rollback id)) := by
  have hmoves : ReflTransGen (Kept config (fun _ _ => True) fun _ _ => True) s.coordinator
      (s.coordinator.rollback id).2 := moves_rollback
  have hkeeps := keeps_of_kept hmoves
  rcases hroll : s.coordinator.rollback id with ⟨err | ⟨⟩, c'⟩ <;> rw [hroll] at hkeeps
  · exact .of_keeps rfl rfl hkeeps
  · obtain ⟨handle, hid, hgone⟩ := gone_of_rollback hroll
    exact .rolledBack id handle hkeeps hid hgone rfl rfl (hstate handle hid)

theorem stepped_of_step {config : CoordinatorConfig} {s s' : System} {e : SystemEvent}
    (h : step config s e = some s') : Stepped s e s' := by
  revert h
  fun_cases step config s e <;> rintro ⟨⟩
  · -- world
    exact .of_keeps rfl rfl .refl
  · -- begin
    next id ownerKey ownerId hfresh =>
    have hspares := begin_spares config s.coordinator id ownerKey ownerId
    exact .begun id hfresh rfl rfl hspares.gone hspares.owns hspares.sealed
  · -- the calls that keep every other transaction
    exact .of_kept config (moves_validateTableAccess fun _ _ => trivial)
  · exact .of_kept config (moves_stageBatch fun _ _ _ _ => trivial)
  · exact .of_kept config (moves_savepoint _)
  · exact .of_kept config (moves_releaseSavepoint _)
  · exact .of_kept config (moves_rollbackToSavepoint trivial)
  · -- markAborted
    next id =>
    obtain ⟨hgone, hws⟩ := markTransactionAborted_gone s.coordinator id
    refine .call rfl rfl hgone (fun howns => ?_)
      fun hok => (markTransactionAborted_keeps _ id hok).sealed
    change Owns (s.coordinator.markTransactionAborted id)
    rwa [Owns, hws]
  · exact .of_kept config moves_timeoutTransaction
  · -- beginCommit
    next hc => exact .of_keeps rfl rfl (beginCommit_keeps hc)
  · next id c hc =>
    obtain ⟨handle, hid, -, hgone⟩ := gone_of_beginCommit hc
    exact .committed id handle (beginCommit_keeps hc) hid hgone rfl rfl
  · next id commit c hc =>
    obtain ⟨rfl, handle, hid, -, hcommitting, -, hown⟩ := suspended_of_beginCommit hc
    refine .suspended commit handle (beginCommit_keeps hc) hid (fun other hother => ?_) hown rfl rfl
    cases hcommitting.symm.trans hother
    rfl
  · -- applyEntry
    next commit hmem => exact .applied commit hmem rfl rfl rfl
  · -- finishCommit
    next hc => exact .of_keeps rfl rfl (finishCommit_keeps hc)
  · next hc =>
    obtain ⟨handle, hid, hgone⟩ := gone_of_finishCommit hc
    exact .committed _ handle (finishCommit_keeps hc) hid hgone rfl rfl
  · -- rollback
    exact stepped_rolled config fun handle hid hok => hok handle hid
  · -- closeSession
    next id hopen =>
    refine stepped_rolled config fun handle hid _ => ne_committing_of_isOpen ?_
    simpa [hid] using hopen
  · exact .of_keeps rfl rfl .refl

/-! ### Runs -/

/-- What holds along every run. -/
structure Consistent (s : System) : Prop where
  owns : s.coordinator.Owns
  live : ∀ id handle, s.coordinator.activeById id = some handle → id ∈ s.history.begun
  proposed : ∀ p ∈ s.proposed, p.transactionId ∈ s.history.begun ∧
    ∀ m ∈ p.mutations, m.transactionId = p.transactionId
  applied : ∀ m ∈ s.history.applied, ∃ p ∈ s.proposed, m.transactionId = p.transactionId
  committed : ∀ id ∈ s.history.committed,
    id ∈ s.history.begun ∧ s.coordinator.activeById id = none
  rolledBack : ∀ id ∈ s.history.rolledBack,
    id ∈ s.history.begun ∧ s.coordinator.activeById id = none
  /-- No transaction is both committed and rolled back. -/
  exclusive : ∀ id ∈ s.history.committed, id ∉ s.history.rolledBack

/-- What holds along runs in which no suspended commit is disturbed: a proposed transaction is
sealed and was not rolled back. -/
def Undisturbed (s : System) : Prop :=
  ∀ p ∈ s.proposed, s.coordinator.Sealed p.transactionId ∧
    p.transactionId ∉ s.history.rolledBack

theorem consistent_new (world : World) : Consistent (new world) where
  owns := by
    rintro id ws ⟨⟩
  live := by
    rintro id handle ⟨⟩
  proposed := by simp [new]
  applied := by simp [new]
  committed := by simp [new]
  rolledBack := by simp [new]
  exclusive := by simp [new]

variable {config : CoordinatorConfig} {s s' : System} {e : SystemEvent}

/-- A transaction that is there was there before, unless it is new. -/
theorem exists_handle_of_gone {c c' : TransactionCoordinator}
    (hgone : c.activeById id = none → c'.activeById id = none) {handle : TransactionHandle}
    (h : c'.activeById id = some handle) : ∃ handle', c.activeById id = some handle' := by
  cases hc : c.activeById id with
  | none =>
    rw [hgone hc] at h
    cases h
  | some handle' => exact ⟨handle', rfl⟩

/-- A call that records nothing. -/
theorem Consistent.call (h : Consistent s) (hproposed : s'.proposed = s.proposed)
    (hhistory : s'.history = s.history)
    (hgone : ∀ {id}, s.coordinator.activeById id = none → s'.coordinator.activeById id = none)
    (howns : s.coordinator.Owns → s'.coordinator.Owns) : Consistent s' := by
  refine ⟨howns h.owns, fun id handle hid => ?_, ?_, ?_, ?_, ?_, ?_⟩
  · obtain ⟨handle', hid'⟩ := exists_handle_of_gone hgone hid
    rw [hhistory]
    exact h.live id handle' hid'
  · rw [hproposed, hhistory]
    exact h.proposed
  · rw [hproposed, hhistory]
    exact h.applied
  · rw [hhistory]
    exact fun id hid => ⟨(h.committed id hid).1, hgone (h.committed id hid).2⟩
  · rw [hhistory]
    exact fun id hid => ⟨(h.rolledBack id hid).1, hgone (h.rolledBack id hid).2⟩
  · rw [hhistory]
    exact h.exclusive

theorem Consistent.step (h : Consistent s) (hstep : step config s e = some s') : Consistent s' := by
  have hcases := stepped_of_step hstep
  obtain ⟨c', world', suspended', proposed', history'⟩ := s'
  -- the coordinator of the new state with the record of the old one
  let t : System := ⟨c', world', suspended', s.proposed, s.history⟩
  cases hcases with
  | call hproposed hhistory hgone howns hsealed => exact h.call hproposed hhistory hgone howns
  | begun id hfresh hproposed hhistory hgone howns hsealed =>
    subst hproposed hhistory
    have hne : ∀ id' ∈ s.history.begun, id' ≠ id := fun id' hid' heq => hfresh (heq ▸ hid')
    refine ⟨howns h.owns, fun id' handle hid' => ?_, fun p hp => ?_, h.applied, fun id' hid' => ?_,
      fun id' hid' => ?_, h.exclusive⟩
    · by_cases heq : id' = id
      · exact mem_cons.mpr (.inl heq)
      · obtain ⟨handle', hid⟩ := exists_handle_of_gone (hgone heq) hid'
        exact mem_cons_of_mem id (h.live id' handle' hid)
    · exact ⟨mem_cons_of_mem id (h.proposed p hp).1, (h.proposed p hp).2⟩
    · obtain ⟨hbegun, hold⟩ := h.committed id' hid'
      exact ⟨mem_cons_of_mem id hbegun, hgone (hne id' hbegun) hold⟩
    · obtain ⟨hbegun, hold⟩ := h.rolledBack id' hid'
      exact ⟨mem_cons_of_mem id hbegun, hgone (hne id' hbegun) hold⟩
  | committed id handle hkeeps hid hgone hproposed hhistory =>
    subst hproposed hhistory
    have ht : Consistent t := h.call rfl rfl hkeeps.gone hkeeps.owns
    have hlive := h.live id handle hid
    have hnot : id ∉ s.history.rolledBack := by
      intro hmem
      rw [(h.rolledBack id hmem).2] at hid
      cases hid
    exact { ht with
      committed := forall_mem_cons.mpr ⟨⟨hlive, hgone⟩, ht.committed⟩
      exclusive := forall_mem_cons.mpr ⟨hnot, ht.exclusive⟩ }
  | suspended commit handle hkeeps hid hsealed hown hproposed hhistory =>
    subst hproposed hhistory
    have ht : Consistent t := h.call rfl rfl hkeeps.gone hkeeps.owns
    exact { ht with
      proposed := forall_mem_cons.mpr ⟨⟨h.live _ handle hid, hown h.owns⟩, ht.proposed⟩
      applied := fun m hm => by
        obtain ⟨p, hp, hmp⟩ := ht.applied m hm
        exact ⟨p, mem_cons_of_mem commit hp, hmp⟩ }
  | applied commit hmem hcoordinator hproposed hhistory =>
    subst hcoordinator hproposed hhistory
    exact { h with
      applied := forall_mem_append.mpr ⟨h.applied, fun m hm =>
        ⟨commit, hmem, (h.proposed commit hmem).2 m hm⟩⟩ }
  | rolledBack id handle hkeeps hid hgone hproposed hhistory hstate =>
    subst hproposed hhistory
    have ht : Consistent t := h.call rfl rfl hkeeps.gone hkeeps.owns
    have hnot : id ∉ s.history.committed := by
      intro hmem
      rw [(h.committed id hmem).2] at hid
      cases hid
    exact { ht with
      rolledBack := forall_mem_cons.mpr ⟨⟨h.live id handle hid, hgone⟩, ht.rolledBack⟩
      exclusive := fun id' hid' hmem => by
        obtain rfl | hmem := mem_cons.mp hmem
        · exact hnot hid'
        · exact ht.exclusive id' hid' hmem }

theorem Undisturbed.step (h : Undisturbed s) (hinv : Consistent s) (hok : s.RollbackOk e)
    (hstep : step config s e = some s') : Undisturbed s' := by
  have hcases := stepped_of_step hstep
  obtain ⟨c', world', suspended', proposed', history'⟩ := s'
  cases hcases with
  | call hproposed hhistory hgone howns hsealed =>
    subst hproposed hhistory
    exact fun p hp => ⟨hsealed hok (h p hp).1, (h p hp).2⟩
  | begun id hfresh hproposed hhistory hgone howns hsealed =>
    subst hproposed hhistory
    refine fun p hp => ⟨hsealed (fun heq => ?_) (h p hp).1, (h p hp).2⟩
    exact hfresh (heq ▸ (hinv.proposed p hp).1)
  | committed id handle hkeeps hid hgone hproposed hhistory =>
    subst hproposed hhistory
    exact fun p hp => ⟨hkeeps.sealed (h p hp).1, (h p hp).2⟩
  | suspended commit handle hkeeps hid hsealed hown hproposed hhistory =>
    subst hproposed hhistory
    refine forall_mem_cons.mpr ⟨⟨hsealed, fun hmem => ?_⟩, fun p hp =>
      ⟨hkeeps.sealed (h p hp).1, (h p hp).2⟩⟩
    rw [(hinv.rolledBack _ hmem).2] at hid
    cases hid
  | applied commit hmem hcoordinator hproposed hhistory =>
    subst hcoordinator hproposed hhistory
    exact h
  | rolledBack id handle hkeeps hid hgone hproposed hhistory hstate =>
    subst hproposed hhistory
    refine fun p hp => ⟨hkeeps.sealed (h p hp).1, fun hmem => ?_⟩
    obtain heq | hmem := mem_cons.mp hmem
    · -- a proposed transaction is sealed, and this one was not
      rw [← heq] at hid
      exact hstate hok ((h p hp).1 handle hid)
    · exact (h p hp).2 hmem

/-- **A rolled-back transaction is never applied** along a run in which no rollback or abort
reaches a suspended commit; and no transaction is both committed and rolled back, in any run. -/
theorem rolledBack_not_applied (config : CoordinatorConfig) (world : World)
    (events : List SystemEvent) (s : System)
    (hrun : run (System.step config) (new world) events = some s) :
    (Meets (System.step config) RollbackOk (new world) events →
      ∀ id ∈ s.history.rolledBack, ∀ m ∈ s.history.applied, m.transactionId ≠ id) ∧
    ∀ id ∈ s.history.committed, id ∉ s.history.rolledBack := by
  have hconsistent : Consistent s := run_preserves Consistent
    (fun _ _ _ h hstep => h.step hstep) (consistent_new world) hrun
  refine ⟨fun hok id hid m hm heq => ?_, hconsistent.exclusive⟩
  have hboth := run_invariant (fun t => Consistent t ∧ Undisturbed t)
    (fun t e t' hok h hstep => ⟨h.1.step hstep, h.2.step h.1 hok hstep⟩)
    ⟨consistent_new world, by simp [Undisturbed, new]⟩ hok hrun
  obtain ⟨p, hp, hmp⟩ := hconsistent.applied m hm
  refine (hboth.2 p hp).2 ?_
  rw [← hmp, heq]
  exact hid

/-! ### A rollback while the commit waits -/

/-- A single node. -/
def singleNode : CoordinatorConfig where
  isClusterMode := false
  nodeId := 1
  maxTransactionBufferBytes := 1000
  approximateSizeBytes _ := 8
  userGroupId _ := .dataUserShard 0

def oneSharedGroup : World where
  sharedGroupId _ := .ok (.dataSharedShard 0)
  raftLeader _ := some 1

/-- An insert staged by a transaction. -/
def stagedInsert (id : TransactionId) : StagedMutation where
  transactionId := id
  mutationOrder := 0
  tableId := ("app", "items")
  tableType := .shared
  userId := none
  operationKind := .insert
  primaryKey := "1"
  payload := ⟨[("id", .int64 1)]⟩
  tombstone := false

/-- One session commits and suspends, another rolls the transaction back, and the entry is
applied. -/
theorem rollback_of_suspended_commit_applied :
    ∃ s, run (System.step singleNode) (new oneSharedGroup)
        [.begin "t1" (.sqlRequest 1) "a", .stageBatch "t1" [stagedInsert "t1"],
          .beginCommit "t1", .rollback "t1",
          .applyEntry ⟨"t1", .sqlRequest 1, [stagedInsert "t1"]⟩] = some s ∧
      "t1" ∈ s.history.rolledBack ∧ ∃ m ∈ s.history.applied, m.transactionId = "t1" :=
  ⟨_, rfl, by decide, stagedInsert "t1", by decide, rfl⟩

/-- One transaction is rolled back while it is open, the next one of the owner commits. -/
def openRollbackRun : List SystemEvent :=
  [.begin "t1" (.sqlRequest 1) "a", .stageBatch "t1" [stagedInsert "t1"], .rollback "t1",
    .begin "t2" (.sqlRequest 1) "a", .stageBatch "t2" [stagedInsert "t2"], .beginCommit "t2",
    .applyEntry ⟨"t2", .sqlRequest 1, [stagedInsert "t2"]⟩,
    .finishCommit ⟨"t2", .sqlRequest 1, [stagedInsert "t2"]⟩ (.ok (some 1))]

theorem rolledBack_not_applied_openRollbackRun :
    ∃ s, run (System.step singleNode) (new oneSharedGroup) openRollbackRun = some s ∧
      (∀ id ∈ s.history.rolledBack, ∀ m ∈ s.history.applied, m.transactionId ≠ id) ∧
      (∀ id ∈ s.history.committed, id ∉ s.history.rolledBack) ∧
      s.history.rolledBack = ["t1"] ∧ s.history.committed = ["t2"] := by
  have hhistory : (run (step singleNode) (new oneSharedGroup) openRollbackRun).map
      (fun s => (s.history.rolledBack, s.history.committed)) = some (["t1"], ["t2"]) := rfl
  obtain ⟨s, hrun, hs⟩ := Option.map_eq_some_iff.mp hhistory
  obtain ⟨hrolled, hcommitted⟩ := Prod.mk.inj hs
  obtain ⟨happlied, hexclusive⟩ :=
    rolledBack_not_applied singleNode oneSharedGroup openRollbackRun s hrun
  exact ⟨s, hrun, happlied (by decide), hexclusive, hrolled, hcommitted⟩

end System

end KalamDB.Transactions
