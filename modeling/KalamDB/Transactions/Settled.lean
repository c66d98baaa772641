import KalamDB.Transactions.Rollback

/-!
# Closed and settled transactions

A transaction that is not open is **closed**, and only going back to a savepoint opens it again.
One whose write set is gone too is **spent**: nothing opens it. Only an open transaction commits or
hands an entry to the log, and doing so spends it, so that every proposed entry belongs to a spent
transaction (`Settled`).
-/

namespace KalamDB.Transactions

open Raft Runs Relation List

namespace TransactionCoordinator

variable {config : CoordinatorConfig} {Accesses : TransactionId → GroupId → Prop}
  {Returns : TransactionId → String → Prop} {frontiers : GroupId → ℕ}
  {c c' : TransactionCoordinator} {id : TransactionId} {h' h : TransactionHandle}
  {ws' : Option TransactionWriteSet}

/-- The transaction is gone or not open. -/
def Closed (c : TransactionCoordinator) (id : TransactionId) : Prop :=
  ∀ h, c.activeById id = some h → h.state.isOpen = false

/-- The transaction is closed and its write set is gone. It cannot go back to a savepoint. -/
structure Spent (c : TransactionCoordinator) (id : TransactionId) : Prop where
  closed : c.Closed id
  writeSet : c.writeSets id = none

theorem closed_of_gone (hgone : c.activeById id = none) : c.Closed id := by
  intro h hid
  rw [hgone] at hid
  cases hid

theorem not_closed_of_isOpen (hid : c.activeById id = some h) (hopen : h.state.isOpen = true) :
    ¬c.Closed id := by
  intro hclosed
  rw [hclosed h hid] at hopen
  cases hopen

/-- Only going back to a savepoint opens a transaction. -/
theorem Move.closed {ws : Option TransactionWriteSet}
    (hmove : Move config Accesses Returns frontiers id h ws h' ws')
    (hclosed : h.state.isOpen = false) (hreturns : ∀ name, Returns id name → ws = none) :
    h'.state.isOpen = false := by
  cases hmove with
  | bound => exact hclosed
  | aborted | dropped | timedOut | committing => rfl
  | staged hopen => exact absurd hopen (by simp [hclosed])
  | marked | released => exact hclosed
  | returned name hname => cases hreturns name hname

/-- A closed transaction gets no write set. -/
theorem Move.writeSet_none (hmove : Move config Accesses Returns frontiers id h none h' ws')
    (hclosed : h.state.isOpen = false) : ws' = none := by
  cases hmove with
  | bound | aborted | dropped | timedOut | committing => rfl
  | staged hopen | marked hopen => exact absurd hopen (by simp [hclosed])

theorem frontiers_of_moves (hmoves : ReflTransGen (Moved config Accesses Returns) c c') :
    c'.frontiers = c.frontiers := by
  induction hmoves with
  | refl => rfl
  | tail _ hmoved ih => cases hmoved <;> exact ih

/-- **One transaction along the moves of a coordinator**: what its own moves keep, and what holds
once it is gone, holds afterwards. -/
theorem slot_of_moves {P : Option TransactionHandle → Option TransactionWriteSet → Prop}
    (hmove : ∀ {h ws h' ws'}, Move config Accesses Returns c.frontiers id h ws h' ws' →
      P (some h) ws → P (some h') ws') (hgone : P none none)
    (hmoves : ReflTransGen (Moved config Accesses Returns) c c')
    (hc : P (c.activeById id) (c.writeSets id)) : P (c'.activeById id) (c'.writeSets id) := by
  induction hmoves with
  | refl => exact hc
  | tail hbefore hmoved ih =>
    cases hmoved with
    | @moved other h h' ws' hid hother =>
      by_cases hne : id = other
      · subst hne
        rw [frontiers_of_moves hbefore] at hother
        rw [hid] at ih
        simpa [setHandle, setWriteSet] using hmove hother ih
      · simpa [setHandle, setWriteSet, hne] using ih
    | @removed other h hid =>
      by_cases hne : id = other
      · simpa [discard, setHandle, setOwner, setWriteSet, hne] using hgone
      · simpa [discard, setHandle, setOwner, setWriteSet, hne] using ih

theorem Closed.moves (hc : c.Closed id) (hreturns : ∀ name, ¬Returns id name)
    (hmoves : ReflTransGen (Moved config Accesses Returns) c c') : c'.Closed id := by
  refine slot_of_moves (P := fun h _ => ∀ h₁, h = some h₁ → h₁.state.isOpen = false) ?_ nofun
    hmoves hc
  rintro h _ h' _ hmove hclosed _ ⟨⟩
  exact hmove.closed (hclosed h rfl) fun name hname => absurd hname (hreturns name)

end TransactionCoordinator

namespace System

open TransactionCoordinator

variable {config : CoordinatorConfig} {s s' : System} {e : SystemEvent} {id : TransactionId}

/-- **One transaction along a call**: what its own moves keep, and what holds of it when it is gone,
when it is new and after the answer to its commit, holds afterwards. -/
theorem slot_of_called {P : Option TransactionHandle → Option TransactionWriteSet → Prop}
    {c' : TransactionCoordinator} (hcalled : Called config s e c')
    (hmove : ∀ {h ws h' ws'}, Move config (Accesses config s.world e) (Returns e)
      s.coordinator.frontiers id h ws h' ws' → P (some h) ws → P (some h') ws')
    (hgone : P none none)
    (hnew : id ∉ s.history.begun → ∀ key ownerId ws,
      ws = none ∨ ws = s.coordinator.writeSets id → P (some (.new id key ownerId
        (if config.isClusterMode then .unboundCluster else .localSingleNode))) ws)
    (hfinished : ∀ commit ∈ s.suspended, commit.transactionId = id →
      P none (s.coordinator.writeSets id))
    (hs : P (s.coordinator.activeById id) (s.coordinator.writeSets id)) :
    P (c'.activeById id) (c'.writeSets id) := by
  cases hcalled with
  | moved hmoves => exact slot_of_moves hmove hgone hmoves hs
  | begun new key ownerId _ hfresh =>
    obtain hsame | ⟨c₀, hbegin, hplace⟩ := begin_cases config s.coordinator new key ownerId
    · rwa [hsame]
    rw [hbegin]
    obtain ⟨hc₀, hws⟩ : P (c₀.activeById id) (c₀.writeSets id) ∧
        (c₀.writeSets id = none ∨ c₀.writeSets id = s.coordinator.writeSets id) := by
      obtain ⟨-, rfl⟩ | ⟨existing, -, -, rfl⟩ := hplace
      · exact ⟨hs, .inr rfl⟩
      by_cases hexisting : id = existing
      · simpa [setHandle, setWriteSet, hexisting] using hgone
      · simpa [setHandle, setWriteSet, hexisting] using hs
    by_cases hid : id = new
    · subst hid
      simpa [setHandle, setOwner] using hnew hfresh key ownerId _ hws
    · simpa [setHandle, setOwner, hid] using hc₀
  | finished commit response _ hmem =>
    obtain hsame | ⟨-, hbyId, hws⟩ := finishCommit_eq s.coordinator commit response
    · rwa [hsame]
    rw [hbyId, hws]
    by_cases hid : id = commit.transactionId
    · rw [hid, Function.update_self, ← hid]
      exact hfinished commit hmem hid.symm
    · rwa [Function.update_of_ne hid]

/-! ### What is recorded -/

/-- What a step does to the entries and the recorded commits. Only an open transaction commits at
once or hands an entry to the log. -/
inductive Recorded (s s' : System) : Prop
  | same (hproposed : s'.proposed = s.proposed) (hsuspended : s'.suspended ⊆ s.suspended)
    (hcommitted : s'.history.committed = s.history.committed)
  | committed (id : TransactionId) (hopen : ¬s.coordinator.Closed id)
    (hproposed : s'.proposed = s.proposed) (hsuspended : s'.suspended ⊆ s.suspended)
    (hcommitted : s'.history.committed = id :: s.history.committed)
  | suspended (commit : SuspendedCommit) (hopen : ¬s.coordinator.Closed commit.transactionId)
    (hspent : s'.coordinator.Spent commit.transactionId)
    (hproposed : s'.proposed = commit :: s.proposed)
    (hsuspended : s'.suspended = commit :: s.suspended)
    (hcommitted : s'.history.committed = s.history.committed)
  | finished (commit : SuspendedCommit) (hmem : commit ∈ s.suspended)
    (hproposed : s'.proposed = s.proposed) (hsuspended : s'.suspended ⊆ s.suspended)
    (hcommitted : s'.history.committed = commit.transactionId :: s.history.committed)

theorem recorded_rolled (s : System) (id : TransactionId)
    (result : Except KalamDbError Unit × TransactionCoordinator) :
    Recorded s (s.rolled id result) := by
  obtain ⟨r, c⟩ := result
  cases r <;> exact .same rfl (List.Subset.refl _) rfl

theorem recorded_of_step (hstep : step config s e = some s') : Recorded s s' := by
  revert hstep
  fun_cases step config s e <;> rintro ⟨⟩
  -- the commit is begun and finds no changes, or is suspended
  case case12 id _ hcommit =>
    obtain ⟨h, hid, hopen, -⟩ := gone_of_beginCommit hcommit
    exact .committed id (not_closed_of_isOpen hid hopen) rfl (List.Subset.refl _) rfl
  case case13 _ commit _ hcommit =>
    obtain ⟨rfl, h, hid, hopen, hcommitting, hws, -⟩ := suspended_of_beginCommit hcommit
    refine .suspended commit (not_closed_of_isOpen hid hopen) ⟨fun h' hid' => ?_, hws⟩ rfl rfl rfl
    cases hcommitting.symm.trans hid'
    rfl
  -- it fails or is finished
  case case16 => exact .same rfl erase_subset rfl
  case case17 commit _ hmem _ _ _ => exact .finished commit hmem rfl erase_subset rfl
  -- the transaction is rolled back, by a call or with its session
  case case19 id | case20 id _ => exact recorded_rolled s id _
  all_goals exact .same rfl (List.Subset.refl _) rfl

/-- An id that was given out stays so. -/
theorem begun_step (hbegun : id ∈ s.history.begun) (hstep : step config s e = some s') :
    id ∈ s'.history.begun := by
  cases stepped_of_step hstep with
  | call _ hhistory | committed _ _ _ _ _ _ hhistory | suspended _ _ _ _ _ _ _ hhistory
  | applied _ _ _ _ hhistory | rolledBack _ _ _ _ _ _ hhistory =>
    rwa [hhistory]
  | begun new _ _ hhistory =>
    rw [hhistory]
    exact mem_cons_of_mem new hbegun

/-! ### Proposed transactions -/

/-- A transaction whose entry was handed to the log is spent. -/
structure Settled (s : System) : Prop where
  spent : ∀ p ∈ s.proposed, s.coordinator.Spent p.transactionId
  suspended : s.suspended ⊆ s.proposed

theorem settled_new (world : World) : Settled (new world) where
  spent := by simp [new]
  suspended := by simp [new]

theorem spent_step (hs : s.coordinator.Spent id) (hbegun : id ∈ s.history.begun)
    (hstep : step config s e = some s') : s'.coordinator.Spent id := by
  have hspent := slot_of_called
    (P := fun h ws => (∀ h₁, h = some h₁ → h₁.state.isOpen = false) ∧ ws = none)
    (called_of_step hstep) ?_ ⟨nofun, rfl⟩ (absurd hbegun) (fun _ _ _ => ⟨nofun, hs.writeSet⟩)
    ⟨hs.closed, hs.writeSet⟩
  · exact ⟨hspent.1, hspent.2⟩
  rintro h _ h' ws' hmove ⟨hclosed, rfl⟩
  refine ⟨?_, hmove.writeSet_none (hclosed h rfl)⟩
  rintro _ ⟨⟩
  exact hmove.closed (hclosed h rfl) fun _ _ => rfl

theorem Settled.step (hs : Settled s) (hconsistent : Consistent s)
    (hstep : step config s e = some s') : Settled s' := by
  have hspent : ∀ p ∈ s.proposed, s'.coordinator.Spent p.transactionId :=
    fun p hp => spent_step (hs.spent p hp) (hconsistent.proposed p hp).1 hstep
  cases recorded_of_step hstep with
  | same hproposed hsuspended | committed _ _ hproposed hsuspended
  | finished _ _ hproposed hsuspended =>
    refine ⟨?_, ?_⟩
    · rwa [hproposed]
    · rw [hproposed]
      exact List.Subset.trans hsuspended hs.suspended
  | suspended commit _ hnew hproposed hsuspended =>
    refine ⟨?_, ?_⟩
    · rw [hproposed]
      exact forall_mem_cons.mpr ⟨hnew, hspent⟩
    · rw [hproposed, hsuspended]
      exact cons_subset_cons commit hs.suspended

end System

end KalamDB.Transactions
