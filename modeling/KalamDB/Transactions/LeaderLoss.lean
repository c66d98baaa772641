import KalamDB.Transactions.Settled

/-!
# Transactions that lost their leader

A transaction in a cluster is bound to the leader of its group. When it stages or commits after the
leader has changed, it is **aborted** and its owner is told to retry in a new transaction. But the
abort is the state that a failed statement leaves too, and going back to a savepoint opens such a
transaction again. If the first leader is back by then, the transaction commits
(`commits_after_leader_change`).

A transaction that does not go back to one of its savepoints stays closed
(`leader_loss_never_commits`): it is not open, and only open transactions hand an entry to the log
or commit.
-/

namespace KalamDB.Transactions

open Raft Runs Relation

namespace TransactionCoordinator

variable {config : CoordinatorConfig} {c : TransactionCoordinator} {id : TransactionId}
  {world : World}

/-- The transaction is open and bound to a leader that is no longer the one of its group. -/
def LeaderGone (config : CoordinatorConfig) (world : World) (c : TransactionCoordinator)
    (id : TransactionId) : Prop :=
  ∃ h groupId leader, c.activeById id = some h ∧ h.state.isOpen = true ∧
    h.raftBinding = .boundCluster groupId leader ∧
    currentLeaderForGroup config world groupId ≠ some leader

theorem LeaderGone.not_closed (h : LeaderGone config world c id) : ¬c.Closed id := by
  obtain ⟨handle, -, -, hid, hopen, -⟩ := h
  exact not_closed_of_isOpen hid hopen

theorem LeaderGone.check (h : LeaderGone config world c id) :
    ∃ handle e, c.activeById id = some handle ∧ handle.state.isOpen = true ∧
      checkBoundLeadership config world id handle = .error e := by
  obtain ⟨handle, groupId, leader, hid, hopen, hbinding, hleader⟩ := h
  refine ⟨handle, leaderChangeError id groupId leader (currentLeaderForGroup config world groupId),
    hid, hopen, ?_⟩
  simp only [checkBoundLeadership, hbinding]
  exact if_neg hleader

theorem closed_abort {h : TransactionHandle} :
    (c.setHandle id (some (h.markState .aborted))).Closed id := by
  intro h' hid'
  obtain rfl : h.markState .aborted = h' := by
    simpa [setHandle] using hid'
  rfl

/-- A commit without the leader aborts the transaction. -/
theorem LeaderGone.beginCommit (h : LeaderGone config world c id) :
    ∃ e c', beginCommit config world c id = (.error e, c') ∧ c'.Closed id := by
  obtain ⟨handle, e, hid, hopen, hcheck⟩ := h.check
  refine ⟨e, c.setHandle id (some (handle.markState .aborted)), ?_, closed_abort⟩
  unfold TransactionCoordinator.beginCommit
  simp only [hid, hopen, hcheck]
  rfl

/-- Staging without the leader aborts the transaction. -/
theorem LeaderGone.stageChecked (h : LeaderGone config world c id)
    (mutations : List StagedMutation) : (stageChecked config world c id mutations).2.Closed id := by
  obtain ⟨handle, e, hid, hopen, hcheck⟩ := h.check
  unfold TransactionCoordinator.stageChecked
  rw [hid]
  dsimp only
  rw [if_neg (by simp [hopen]), hcheck]
  exact closed_abort

end TransactionCoordinator

namespace System

open TransactionCoordinator

variable {config : CoordinatorConfig} {s s' : System} {e : SystemEvent} {id : TransactionId}

/-! ### After the leader was lost -/

/-- The event aborts the transaction because the leader of its group has changed. -/
def LosesLeader (config : CoordinatorConfig) (s : System) (id : TransactionId) :
    SystemEvent → Prop
  | .stageBatch other mutations => other = id ∧ mutations ≠ [] ∧
      ∃ c', validateMutations config s.world id mutations s.coordinator = (.ok (), c') ∧
        LeaderGone config s.world c' id
  | .beginCommit other => other = id ∧ LeaderGone config s.world s.coordinator id
  | _ => False

/-- **The transaction does not go back to one of its savepoints.** -/
def StaysAborted (config : CoordinatorConfig) (id : TransactionId) (s : System) :
    SystemEvent → Prop
  | .rollbackToSavepoint other name => other = id →
      (s.coordinator.writeSets id).bind
        (fun ws => ws.rollbackToSavepoint config.approximateSizeBytes name) = none
  | _ => True

/-- The transaction began, is closed and was neither proposed nor committed. -/
structure Lost (s : System) (id : TransactionId) : Prop where
  begun : id ∈ s.history.begun
  closed : s.coordinator.Closed id
  proposed : ∀ p ∈ s.proposed, p.transactionId ≠ id
  committed : id ∉ s.history.committed

theorem closed_step (hs : s.coordinator.Closed id) (hbegun : id ∈ s.history.begun)
    (hstays : StaysAborted config id s e) (hstep : step config s e = some s') :
    s'.coordinator.Closed id := by
  by_cases hback : ∃ name, e = .rollbackToSavepoint id name
  · obtain ⟨name, rfl⟩ := hback
    cases hstep
    -- without the savepoint the transaction stays as it is
    have hsame : (s.coordinator.rollbackToSavepoint config id name).2 = s.coordinator := by
      unfold rollbackToSavepoint
      split
      · rfl
      rw [hstays rfl]
      split <;> rfl
    rwa [hsame]
  · have hreturns : ∀ name, ¬Returns e id name := by
      intro name hname
      cases e with
      | rollbackToSavepoint other name' =>
        obtain ⟨rfl, -⟩ := hname
        exact hback ⟨name', rfl⟩
      | _ => exact hname
    refine slot_of_called (P := fun h _ => ∀ h₁, h = some h₁ → h₁.state.isOpen = false)
      (called_of_step hstep) ?_ nofun (absurd hbegun) (fun _ _ _ => nofun) hs
    rintro h _ h' _ hmove hclosed _ ⟨⟩
    exact hmove.closed (hclosed h rfl) fun name hname => absurd hname (hreturns name)

theorem Lost.step (hs : Lost s id) (hsettled : Settled s) (hstays : StaysAborted config id s e)
    (hstep : step config s e = some s') : Lost s' id := by
  have hbegun := begun_step hs.begun hstep
  have hclosed := closed_step hs.closed hs.begun hstays hstep
  suffices h : (∀ p ∈ s'.proposed, p.transactionId ≠ id) ∧ id ∉ s'.history.committed from
    ⟨hbegun, hclosed, h.1, h.2⟩
  cases recorded_of_step hstep with
  | same hproposed _ hcommitted =>
    rw [hproposed, hcommitted]
    exact ⟨hs.proposed, hs.committed⟩
  | committed other hopen hproposed _ hcommitted =>
    rw [hproposed, hcommitted]
    refine ⟨hs.proposed, List.not_mem_cons_of_ne_of_not_mem ?_ hs.committed⟩
    rintro rfl
    exact hopen hs.closed
  | suspended commit hopen _ hproposed _ hcommitted =>
    rw [hproposed, hcommitted]
    refine ⟨List.forall_mem_cons.mpr ⟨?_, hs.proposed⟩, hs.committed⟩
    rintro rfl
    exact hopen hs.closed
  | finished commit hmem hproposed _ hcommitted =>
    rw [hproposed, hcommitted]
    -- the entry of a suspended commit was proposed
    refine ⟨hs.proposed, List.not_mem_cons_of_ne_of_not_mem (fun heq => ?_) hs.committed⟩
    exact hs.proposed commit (hsettled.suspended hmem) heq.symm

/-- The event fails and leaves the transaction closed; before, it was open. -/
theorem closed_of_losesLeader (hloses : LosesLeader config s id e)
    (hstep : step config s e = some s') :
    ¬s.coordinator.Closed id ∧ s'.coordinator.Closed id ∧ s'.proposed = s.proposed ∧
      s'.history = s.history := by
  cases e with
  | stageBatch other mutations =>
    obtain ⟨rfl, hnonempty, c', hvalid, hgone⟩ := hloses
    cases hstep
    have hmoves : ReflTransGen (Moved config (fun _ _ => True) fun _ _ => False) s.coordinator
        (validateMutations config s.world other mutations s.coordinator).2 :=
      moves_of_kept (moves_validateMutations (fun _ _ _ _ => trivial) s.coordinator)
    rw [hvalid] at hmoves
    refine ⟨fun hclosed => hgone.not_closed (hclosed.moves (fun _ => not_false) hmoves), ?_,
      rfl, rfl⟩
    have hstaged : (stageBatch config s.world s.coordinator other mutations).2 =
        (stageChecked config s.world c' other mutations).2 := by
      unfold stageBatch
      rw [if_neg (by simpa using hnonempty), hvalid]
    rw [hstaged]
    exact hgone.stageChecked mutations
  | beginCommit other =>
    obtain ⟨rfl, hgone⟩ := hloses
    obtain ⟨err, c', hcommit, hclosed⟩ := hgone.beginCommit
    simp only [step, hcommit] at hstep
    cases hstep
    exact ⟨hgone.not_closed, hclosed, rfl, rfl⟩
  | _ => exact hloses.elim

/-- The transaction was not proposed or committed before. -/
theorem lost_of_losesLeader (hconsistent : Consistent s) (hsettled : Settled s)
    (hloses : LosesLeader config s id e) (hstep : step config s e = some s') : Lost s' id := by
  obtain ⟨hopen, hclosed, hproposed, hhistory⟩ := closed_of_losesLeader hloses hstep
  obtain ⟨h, hid⟩ : ∃ h, s.coordinator.activeById id = some h := by
    by_contra hnone
    exact hopen (closed_of_gone (Option.eq_none_iff_forall_ne_some.mpr (not_exists.mp hnone)))
  refine ⟨?_, hclosed, ?_, ?_⟩
  · rw [hhistory]
    exact hconsistent.live id h hid
  · rw [hproposed]
    rintro p hp rfl
    exact hopen (hsettled.spent p hp).closed
  · rw [hhistory]
    intro hmem
    rw [(hconsistent.committed id hmem).2] at hid
    cases hid

/-- **A transaction that lost its leader never commits**, whatever calls and leaders follow, unless
it goes back to one of its savepoints: no commit of it returns success, and none of its changes is
applied. -/
theorem leader_loss_never_commits (config : CoordinatorConfig) (world : World)
    {before after : List SystemEvent} {s s' t : System} {e : SystemEvent} {id : TransactionId}
    (hbefore : run (step config) (new world) before = some s)
    (hloses : LosesLeader config s id e) (hstep : step config s e = some s')
    (hstays : Meets (step config) (StaysAborted config id) s' after)
    (hafter : run (step config) s' after = some t) :
    id ∉ t.history.committed ∧ ∀ m ∈ t.history.applied, m.transactionId ≠ id := by
  have hstart : Consistent s ∧ Settled s :=
    run_preserves (fun s => Consistent s ∧ Settled s)
      (fun _ _ _ h hstep => ⟨h.1.step hstep, h.2.step h.1 hstep⟩)
      ⟨consistent_new world, settled_new world⟩ hbefore
  obtain ⟨hconsistent, hsettled⟩ := hstart
  have hend : Consistent t ∧ Settled t ∧ Lost t id :=
    run_invariant (fun s => Consistent s ∧ Settled s ∧ Lost s id)
      (fun _ _ _ hok h hstep => ⟨h.1.step hstep, h.2.1.step h.1 hstep, h.2.2.step h.2.1 hok hstep⟩)
      ⟨hconsistent.step hstep, hsettled.step hconsistent hstep,
        lost_of_losesLeader hconsistent hsettled hloses hstep⟩ hstays hafter
  refine ⟨hend.2.2.committed, fun m hm => ?_⟩
  obtain ⟨p, hp, hmp⟩ := hend.1.applied m hm
  rw [hmp]
  exact hend.2.2.proposed p hp

/-! ### The first leader returns -/

/-- A node of a cluster. -/
def clusterNode : CoordinatorConfig := { singleNode with isClusterMode := true }

/-- All groups have the same leader. -/
def ledBy (leader : NodeId) : World := { oneSharedGroup with raftLeader := fun _ => some leader }

/-- A transaction with one change and a savepoint, and then another leader. -/
def leaderChangeRun : List SystemEvent :=
  [.begin "t1" (.sqlRequest 1) "a", .stageBatch "t1" [stagedInsert "t1"], .savepoint "t1" "p",
    .world (ledBy 2)]

/-- The leader returns, and the transaction goes back to its savepoint and commits. -/
def returnRun : List SystemEvent :=
  [.world (ledBy 1), .rollbackToSavepoint "t1" "p", .beginCommit "t1",
    .applyEntry ⟨"t1", .sqlRequest 1, [stagedInsert "t1"]⟩,
    .finishCommit ⟨"t1", .sqlRequest 1, [stagedInsert "t1"]⟩ (.ok (some 1))]

/-- **The transaction commits** after it was aborted. -/
theorem commits_after_leader_change :
    ∃ s s' t, run (step clusterNode) (new (ledBy 1)) leaderChangeRun = some s ∧
      LosesLeader clusterNode s "t1" (.beginCommit "t1") ∧
      step clusterNode s (.beginCommit "t1") = some s' ∧
      run (step clusterNode) s' returnRun = some t ∧
      "t1" ∈ t.history.committed ∧ ∃ m ∈ t.history.applied, m.transactionId = "t1" :=
  ⟨_, _, _, rfl, ⟨rfl, _, _, _, rfl, rfl, rfl, by decide⟩, rfl, rfl, by decide,
    stagedInsert "t1", by decide, rfl⟩

/-- The owner retries in a new transaction. -/
def retryRun : List SystemEvent :=
  [.world (ledBy 1), .rollbackToSavepoint "t1" "q", .beginCommit "t1",
    .begin "t2" (.sqlRequest 1) "a", .stageBatch "t2" [stagedInsert "t2"], .beginCommit "t2",
    .applyEntry ⟨"t2", .sqlRequest 1, [stagedInsert "t2"]⟩,
    .finishCommit ⟨"t2", .sqlRequest 1, [stagedInsert "t2"]⟩ (.ok (some 1))]

/-- The retry commits and the first transaction does not. -/
theorem retried_transaction_stays_lost :
    ∃ s s' t, run (step clusterNode) (new (ledBy 1)) leaderChangeRun = some s ∧
      step clusterNode s (.beginCommit "t1") = some s' ∧
      run (step clusterNode) s' retryRun = some t ∧ t.history.committed = ["t2"] ∧
      "t1" ∉ t.history.committed ∧ ∀ m ∈ t.history.applied, m.transactionId ≠ "t1" := by
  obtain ⟨s, s', t, hbefore, hloses, hstep, hstays, hafter, hcommitted⟩ : ∃ s s' t,
      run (step clusterNode) (new (ledBy 1)) leaderChangeRun = some s ∧
      LosesLeader clusterNode s "t1" (.beginCommit "t1") ∧
      step clusterNode s (.beginCommit "t1") = some s' ∧
      Meets (step clusterNode) (StaysAborted clusterNode "t1") s' retryRun ∧
      run (step clusterNode) s' retryRun = some t ∧ t.history.committed = ["t2"] := by
    refine ⟨_, _, _, rfl, ⟨rfl, _, _, _, rfl, rfl, rfl, by decide⟩, rfl, ?_, rfl, rfl⟩
    refine ⟨trivial, fun s₁ h₁ => ⟨?_, fun _ _ => ⟨trivial, fun _ _ => ⟨trivial, fun _ _ =>
      ⟨trivial, fun _ _ => ⟨trivial, fun _ _ => ⟨trivial, fun _ _ => ⟨trivial, fun _ _ =>
        trivial⟩⟩⟩⟩⟩⟩⟩⟩
    cases h₁
    exact fun _ => rfl
  exact ⟨s, s', t, hbefore, hstep, hafter, hcommitted,
    leader_loss_never_commits clusterNode (ledBy 1) hbefore hloses hstep hstays hafter⟩

end System

end KalamDB.Transactions
