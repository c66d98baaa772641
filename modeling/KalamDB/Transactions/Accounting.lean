import KalamDB.Transactions.Settled

/-!
# The accounts of a transaction

A handle carries the number and the bytes of the changes of its transaction, so that the limit on a
transaction is checked without its write set. The write set numbers its changes and keeps the next
number and the bytes up to date. All this is kept **step by step**: staging adds to it, going back
to a savepoint builds it again from the changes that are left.

The write set alone is `Tallied`; a handle and the write set beside it agree (`Slot`). Both are kept
by every move of a transaction, hence by every run (`transaction_accounting`).
-/

namespace KalamDB.Transactions

open Raft Runs Relation List TransactionWriteSet Option

/-! ### Sizes -/

/-- The bytes of a row; those of a value depend on its layout in memory. -/
def approximateRowSizeBytes (scalarSize : ScalarValue → ℕ) (row : Row) : ℕ :=
  (row.values.map fun cell => cell.1.utf8ByteSize + scalarSize cell.2).sum

/-- The bytes of a staged change, with eight for its number. -/
def approximateSizeBytes (scalarSize : ScalarValue → ℕ) (mutation : StagedMutation) : ℕ :=
  mutation.primaryKey.utf8ByteSize +
    (mutation.tableId.1 ++ "." ++ mutation.tableId.2).utf8ByteSize +
    (mutation.userId.map String.utf8ByteSize).getD 0 +
    approximateRowSizeBytes scalarSize mutation.payload + 8

/-- The size of a change does not depend on its number. -/
def IgnoresOrder (size : StagedMutation → ℕ) : Prop :=
  ∀ m n, size { m with mutationOrder := n } = size m

/-! ### Write sets -/

namespace TransactionWriteSet

variable {size : StagedMutation → ℕ} {ws ws' : TransactionWriteSet} {name : String}
  (id : TransactionId)

/-- The changes are numbered from zero, the bytes are those of the changes, and every savepoint is a
place in the list, no later than the savepoints inside it. -/
structure Tallied (size : StagedMutation → ℕ) (ws : TransactionWriteSet) : Prop where
  bytes : ws.bufferBytes = (ws.orderedMutations.map size).sum
  orders : ws.orderedMutations.map StagedMutation.mutationOrder =
    List.range ws.orderedMutations.length
  next : ws.nextMutationOrder = ws.orderedMutations.length
  savepoints : ∀ sp ∈ ws.savepoints, sp.nextOrder = sp.mutationCount ∧
    sp.mutationCount ≤ ws.orderedMutations.length
  nested : ws.savepoints.Pairwise fun sp inner => sp.mutationCount ≤ inner.mutationCount

theorem tallied_new : (new id).Tallied size where
  bytes := rfl
  orders := rfl
  next := rfl
  savepoints := by simp [new]
  nested := .nil

theorem Tallied.stage (hsize : IgnoresOrder size) (hws : ws.Tallied size) (m : StagedMutation) :
    (ws.stageWithEstimatedSize m (size m)).Tallied size where
  bytes := by
    simp only [stageWithEstimatedSize, index, map_append, map_cons, map_nil,
      sum_append, sum_singleton, hsize m, hws.bytes]
  orders := by
    simp only [stageWithEstimatedSize, map_append, map_cons, map_nil, hws.orders,
      hws.next, length_append, length_singleton, range_succ]
  next := by
    simp only [stageWithEstimatedSize, hws.next, length_append, length_singleton]
  savepoints := by
    intro sp hsp
    obtain ⟨horder, hcount⟩ := hws.savepoints sp hsp
    refine ⟨horder, hcount.trans ?_⟩
    simp
  nested := hws.nested

/-- Staging a batch. -/
theorem Tallied.stageAll (hws : ws.Tallied size) (hsize : IgnoresOrder size)
    (mutations : List StagedMutation) :
    (mutations.foldl (fun ws m => ws.stageWithEstimatedSize m (size m)) ws).Tallied size ∧
      (mutations.foldl (fun ws m => ws.stageWithEstimatedSize m (size m)) ws).bufferBytes =
        ws.bufferBytes + (mutations.map size).sum := by
  induction mutations generalizing ws with
  | nil => exact ⟨hws, rfl⟩
  | cons m rest ih =>
    obtain ⟨htallied, hbytes⟩ := ih (hws.stage hsize m)
    refine ⟨htallied, hbytes.trans ?_⟩
    rw [map_cons, sum_cons, ← Nat.add_assoc]
    rfl

theorem Tallied.pushSavepoint (hws : ws.Tallied size) (name : String) :
    (ws.pushSavepoint name).Tallied size where
  bytes := hws.bytes
  orders := hws.orders
  next := hws.next
  savepoints := by
    simp only [TransactionWriteSet.pushSavepoint, forall_mem_append, forall_mem_singleton]
    exact ⟨hws.savepoints, hws.next, le_rfl⟩
  nested := by
    refine pairwise_append.mpr ⟨hws.nested, pairwise_singleton _ _, ?_⟩
    intro sp hsp inner hinner
    obtain rfl := mem_singleton.mp hinner
    exact (hws.savepoints sp hsp).2

/-- Dropping the innermost savepoints. -/
theorem Tallied.takeSavepoints (hws : ws.Tallied size) (n : ℕ) :
    ({ ws with savepoints := ws.savepoints.take n } : TransactionWriteSet).Tallied size :=
  { hws with
    savepoints := fun sp hsp => hws.savepoints sp (mem_of_mem_take hsp)
    nested := hws.nested.sublist (take_sublist n _) }

theorem Tallied.releaseSavepoint (hws : ws.Tallied size)
    (hrelease : ws.releaseSavepoint name = some ws') : ws'.Tallied size := by
  obtain ⟨pos, -, rfl⟩ := map_eq_some_iff.mp hrelease
  exact hws.takeSavepoints pos

variable (size)

theorem rebuilt_bufferBytes (mutations : List StagedMutation) :
    (rebuilt size id mutations).bufferBytes = (mutations.map size).sum := by
  induction mutations using reverseRecOn with
  | nil => rfl
  | append_singleton mutations m ih =>
    rw [rebuilt_concat, map_append, sum_append, ← ih]
    rfl

variable {size}

/-- Cutting the list at a savepoint. -/
theorem Tallied.truncateMutations (hws : ws.Tallied size) {n : ℕ}
    (hn : n ≤ ws.orderedMutations.length) (hinner : ∀ sp ∈ ws.savepoints, sp.mutationCount ≤ n) :
    (ws.truncateMutations size n n).Tallied size := by
  have hlength : (ws.orderedMutations.take n).length = n := length_take_of_le hn
  rw [truncateMutations_eq]
  refine ⟨rebuilt_bufferBytes size _ _, ?_, hlength.symm, fun sp hsp => ?_, hws.nested⟩
  · rw [hlength, map_take, hws.orders, take_range, Nat.min_eq_left hn]
  · exact ⟨(hws.savepoints sp hsp).1, (hinner sp hsp).trans_eq hlength.symm⟩

/-- Back to a savepoint. The bytes do not grow. -/
theorem Tallied.rollbackToSavepoint (hws : ws.Tallied size)
    (hback : ws.rollbackToSavepoint size name = some ws') :
    ws'.Tallied size ∧ ws'.bufferBytes ≤ ws.bufferBytes := by
  obtain ⟨pos, -, hback⟩ := bind_eq_some_iff.mp hback
  obtain ⟨target, htarget, rfl⟩ := map_eq_some_iff.mp hback
  obtain ⟨horder, hcount⟩ := hws.savepoints target (mem_of_getElem? htarget)
  -- the savepoints that stay are no later than the target
  have htake : ws.savepoints.take (pos + 1) = ws.savepoints.take pos ++ [target] := by
    rw [take_add_one, htarget, toList_some]
  have hpairwise : (ws.savepoints.take pos ++ [target]).Pairwise
      fun sp inner => sp.mutationCount ≤ inner.mutationCount :=
    htake ▸ (hws.takeSavepoints (pos + 1)).nested
  have hinner : ∀ sp ∈ ws.savepoints.take (pos + 1), sp.mutationCount ≤ target.mutationCount := by
    rw [htake]
    refine forall_mem_append.mpr ⟨fun sp hsp => ?_, by simp⟩
    exact (pairwise_append.mp hpairwise).2.2 sp hsp target (mem_singleton_self target)
  rw [horder]
  have htallied := (hws.takeSavepoints (pos + 1)).truncateMutations hcount hinner
  refine ⟨htallied, ?_⟩
  rw [truncateMutations_eq, rebuilt_bufferBytes, hws.bytes]
  calc ((ws.orderedMutations.take target.mutationCount).map size).sum
      ≤ ((ws.orderedMutations.take target.mutationCount).map size).sum +
          ((ws.orderedMutations.drop target.mutationCount).map size).sum := Nat.le_add_right _ _
    _ = (ws.orderedMutations.map size).sum := by
      rw [← sum_append, ← map_append, take_append_drop]

end TransactionWriteSet

/-! ### Handles -/

namespace TransactionCoordinator

variable {config : CoordinatorConfig} {Accesses : TransactionId → GroupId → Prop}
  {Returns : TransactionId → String → Prop} {frontiers : GroupId → ℕ}
  {c : TransactionCoordinator} {id : TransactionId} {h : TransactionHandle}
  {ws : Option TransactionWriteSet}

/-- The staged changes of a transaction. -/
def stagedMutations (c : TransactionCoordinator) (id : TransactionId) : List StagedMutation :=
  ((c.writeSets id).map TransactionWriteSet.orderedMutations).getD []

/-- What a transaction occupies: its handle and its write set agree. Only a transaction that is
open, or was aborted and may go back to a savepoint, has a write set. -/
structure Slot (config : CoordinatorConfig) (handle : Option TransactionHandle)
    (ws : Option TransactionWriteSet) : Prop where
  tallied : ∀ ws', ws = some ws' → ws'.Tallied config.approximateSizeBytes ∧
    ws'.bufferBytes ≤ config.maxTransactionBufferBytes
  live : ∀ ws', ws = some ws' →
    ∃ h, handle = some h ∧ (h.state.isOpen = true ∨ h.state = .aborted)
  counted : ∀ h, handle = some h → h.state.isOpen = true →
    h.writeCount = (ws.map TransactionWriteSet.affectedRows).getD 0 ∧
    h.writeBytes = (ws.map TransactionWriteSet.bufferBytes).getD 0

/-- A slot without a write set. -/
theorem Slot.of_none {handle : Option TransactionHandle}
    (hcounted : ∀ h, handle = some h → h.state.isOpen = true →
      h.writeCount = 0 ∧ h.writeBytes = 0) :
    Slot config handle none :=
  ⟨nofun, nofun, hcounted⟩

/-- A slot whose handle was closed. -/
theorem Slot.closed {h' : TransactionHandle} (hslot : Slot config (some h) ws)
    (haborted : h'.state = .aborted) : Slot config (some h') ws := by
  refine ⟨hslot.tallied, fun _ _ => ⟨h', rfl, .inr haborted⟩, fun h₁ hh hopen => ?_⟩
  cases hh
  rw [haborted] at hopen
  cases hopen

theorem Slot.tallied_getD (hslot : Slot config (some h) ws) (hopen : h.state.isOpen = true)
    (id : TransactionId) :
    (ws.getD (.new id)).Tallied config.approximateSizeBytes ∧
      (ws.getD (.new id)).affectedRows = h.writeCount ∧
      (ws.getD (.new id)).bufferBytes = h.writeBytes := by
  obtain ⟨hcount, hbytes⟩ := hslot.counted h rfl hopen
  cases ws with
  | none => exact ⟨tallied_new id, hcount.symm, hbytes.symm⟩
  | some ws => exact ⟨(hslot.tallied ws rfl).1, hcount.symm, hbytes.symm⟩

/-- A slot of an open transaction with a write set. -/
theorem Slot.of_some {ws : TransactionWriteSet} (htallied : ws.Tallied config.approximateSizeBytes)
    (hlimit : ws.bufferBytes ≤ config.maxTransactionBufferBytes) (hopen : h.state.isOpen = true)
    (hcount : h.writeCount = ws.affectedRows) (hbytes : h.writeBytes = ws.bufferBytes) :
    Slot config (some h) (some ws) := by
  refine ⟨fun ws' hws' => ?_, fun _ _ => ⟨h, rfl, .inl hopen⟩, fun h' hh' _ => ?_⟩
  · cases hws'
    exact ⟨htallied, hlimit⟩
  · cases hh'
    exact ⟨hcount, hbytes⟩

/-- **Every move of a transaction keeps its accounts.** -/
theorem Slot.move (hsize : IgnoresOrder config.approximateSizeBytes) {h h' : TransactionHandle}
    {ws ws' : Option TransactionWriteSet} (hslot : Slot config (some h) ws)
    (hmove : Move config Accesses Returns frontiers id h ws h' ws') :
    Slot config (some h') ws' := by
  cases hmove with
  | bound hopen groupId _ binding _ =>
    refine ⟨hslot.tallied, fun _ _ => ⟨_, rfl, .inl hopen⟩, fun h₁ hh _ => ?_⟩
    cases hh
    exact hslot.counted h rfl hopen
  | aborted => exact hslot.closed rfl
  | dropped | timedOut | committing =>
    refine .of_none fun h₁ hh hopen => ?_
    cases hh
    cases hopen
  | staged hopen mutations hfits tableIds ws₁ hws₁ =>
    obtain ⟨htallied, -, hbytes⟩ := hslot.tallied_getD hopen id
    obtain ⟨hall, hsum⟩ := htallied.stageAll hsize mutations
    rw [hbytes] at hsum
    rw [← hws₁] at hall hsum
    exact .of_some hall (hsum.trans_le hfits) rfl rfl rfl
  | marked hopen name =>
    obtain ⟨htallied, hcount, hbytes⟩ := hslot.tallied_getD hopen id
    have hlimit : (ws.getD (.new id)).bufferBytes ≤ config.maxTransactionBufferBytes := by
      cases ws with
      | none => exact Nat.zero_le _
      | some ws => exact (hslot.tallied ws rfl).2
    exact .of_some (htallied.pushSavepoint name) hlimit hopen hcount.symm hbytes.symm
  | released hopen name hws =>
    obtain ⟨htallied, hlimit⟩ := hslot.tallied _ rfl
    obtain ⟨hcount, hbytes⟩ := hslot.counted h rfl hopen
    have hreleased := htallied.releaseSavepoint hws
    obtain ⟨pos, -, rfl⟩ := map_eq_some_iff.mp hws
    exact .of_some hreleased hlimit hopen hcount hbytes
  | returned name _ hws =>
    obtain ⟨htallied, hlimit⟩ := hslot.tallied _ rfl
    obtain ⟨hreturned, hbytes⟩ := htallied.rollbackToSavepoint hws
    refine .of_some hreturned (hbytes.trans hlimit) ?_ rfl rfl
    split <;> rfl

/-- The accounts of every transaction. -/
def Accounted (config : CoordinatorConfig) (c : TransactionCoordinator) : Prop :=
  ∀ id, Slot config (c.activeById id) (c.writeSets id)

/-- A transaction that is gone has no write set. -/
theorem Accounted.writeSet_none (hc : c.Accounted config) (hgone : c.activeById id = none) :
    c.writeSets id = none := by
  cases hws : c.writeSets id with
  | none => rfl
  | some ws =>
    obtain ⟨h, hid, -⟩ := (hc id).live ws hws
    rw [hgone] at hid
    cases hid

end TransactionCoordinator

/-! ### Runs -/

namespace System

open TransactionCoordinator

theorem accounted_step {config : CoordinatorConfig} {s s' : System} {e : SystemEvent}
    (hsize : IgnoresOrder config.approximateSizeBytes) (hconsistent : Consistent s)
    (hsettled : Settled s) (hs : s.coordinator.Accounted config)
    (hstep : step config s e = some s') : s'.coordinator.Accounted config := by
  intro id
  refine slot_of_called (called_of_step hstep) (fun hmove hslot => hslot.move hsize hmove)
    (.of_none nofun) (fun hfresh key ownerId ws hws => ?_) (fun commit hmem hid => ?_) (hs id)
  · have hgone : s.coordinator.activeById id = none := by
      by_contra hthere
      obtain ⟨h, hid⟩ := ne_none_iff_exists'.mp hthere
      exact hfresh (hconsistent.live id h hid)
    rw [hs.writeSet_none hgone] at hws
    obtain rfl := or_self_iff.mp hws
    refine .of_none fun h hh _ => ?_
    cases hh
    exact ⟨rfl, rfl⟩
  · rw [← hid, (hsettled.spent commit (hsettled.suspended hmem)).writeSet]
    exact .of_none nofun

/-- **The accounts of transactions** hold along every run: an open transaction counts its staged
changes and their bytes, which stay below the limit; changes are numbered from zero, and the next
number is theirs; and every write set is that of a transaction that is open or was aborted, which
still may go back to a savepoint. -/
theorem transaction_accounting (config : CoordinatorConfig) (scalarSize : ScalarValue → ℕ)
    (hsize : config.approximateSizeBytes = approximateSizeBytes scalarSize) (world : World)
    {events : List SystemEvent} {s : System}
    (hrun : run (step config) (new world) events = some s) :
    (∀ id h, s.coordinator.activeById id = some h → h.state.isOpen = true →
      h.writeCount = (s.coordinator.stagedMutations id).length ∧
      h.writeBytes =
        ((s.coordinator.stagedMutations id).map (approximateSizeBytes scalarSize)).sum ∧
      h.writeBytes ≤ config.maxTransactionBufferBytes) ∧
    ∀ id ws, s.coordinator.writeSets id = some ws →
      (ws.orderedMutations.map (approximateSizeBytes scalarSize)).sum ≤
        config.maxTransactionBufferBytes ∧
      ws.orderedMutations.map StagedMutation.mutationOrder = List.range ws.orderedMutations.length ∧
      ws.nextMutationOrder = ws.orderedMutations.length ∧
      ∃ h, s.coordinator.activeById id = some h ∧ (h.state.isOpen = true ∨ h.state = .aborted) := by
  have hsize' : IgnoresOrder config.approximateSizeBytes := by
    intro m n
    rw [hsize]
    rfl
  have hall : Consistent s ∧ Settled s ∧ s.coordinator.Accounted config :=
    run_preserves (fun s => Consistent s ∧ Settled s ∧ s.coordinator.Accounted config)
      (fun _ _ _ h hstep => ⟨h.1.step hstep, h.2.1.step h.1 hstep,
        accounted_step hsize' h.1 h.2.1 h.2.2 hstep⟩)
      ⟨consistent_new world, settled_new world, fun _ => .of_none nofun⟩ hrun
  have haccounted := hall.2.2
  refine ⟨fun id h hid hopen => ?_, fun id ws hws => ?_⟩
  · have hslot := haccounted id
    rw [hid] at hslot
    obtain ⟨hcount, hbytes⟩ := hslot.counted h rfl hopen
    cases hws : s.coordinator.writeSets id with
    | none =>
      simp [stagedMutations, hws, hcount, hbytes]
    | some ws =>
      obtain ⟨htallied, hlimit⟩ := hslot.tallied ws hws
      rw [hws] at hcount hbytes
      simp only [map_some] at hcount hbytes
      refine ⟨?_, ?_, ?_⟩
      · simpa [stagedMutations, hws, affectedRows] using hcount
      · rw [hbytes, htallied.bytes, hsize]
        simp [stagedMutations, hws]
      · rwa [hbytes]
  · obtain ⟨htallied, hlimit⟩ := (haccounted id).tallied ws hws
    refine ⟨?_, htallied.orders, htallied.next, (haccounted id).live ws hws⟩
    rwa [← hsize, ← htallied.bytes]

/-- A node on which every value takes eight bytes. -/
def measuringNode : CoordinatorConfig :=
  { singleNode with approximateSizeBytes := approximateSizeBytes fun _ => 8 }

/-- A change, a savepoint and another change, then back to the savepoint after an abort. -/
def savepointRun : List SystemEvent :=
  [.begin "t1" (.sqlRequest 1) "a", .stageBatch "t1" [stagedInsert "t1"], .savepoint "t1" "p",
    .stageBatch "t1" [stagedInsert "t1", stagedInsert "t1"], .markAborted "t1",
    .rollbackToSavepoint "t1" "p"]

/-- An aborted transaction, which is over, keeps its write set. -/
theorem aborted_keeps_write_set :
    ∃ s h ws, run (step measuringNode) (new oneSharedGroup)
        [.begin "t1" (.sqlRequest 1) "a", .stageBatch "t1" [stagedInsert "t1"], .markAborted "t1"] =
          some s ∧ s.coordinator.writeSets "t1" = some ws ∧
      s.coordinator.activeById "t1" = some h ∧ h.state.isTerminal = true :=
  ⟨_, _, _, rfl, rfl, rfl, rfl⟩

/-- One change is left, of a key with one byte, a table name with nine and a row with ten. -/
theorem accounting_of_savepointRun :
    ∃ s h, run (step measuringNode) (new oneSharedGroup) savepointRun = some s ∧
      s.coordinator.activeById "t1" = some h ∧ h.writeCount = 1 ∧ h.writeBytes = 28 ∧
      h.writeCount = (s.coordinator.stagedMutations "t1").length ∧
      h.writeBytes =
        ((s.coordinator.stagedMutations "t1").map (approximateSizeBytes fun _ => 8)).sum ∧
      h.writeBytes ≤ 1000 := by
  obtain ⟨s, h, hrun, hid, hopen, hcount, hbytes⟩ : ∃ s h,
      run (step measuringNode) (new oneSharedGroup) savepointRun = some s ∧
      s.coordinator.activeById "t1" = some h ∧ h.state.isOpen = true ∧ h.writeCount = 1 ∧
      h.writeBytes = 28 := ⟨_, _, rfl, rfl, rfl, rfl, by decide⟩
  exact ⟨s, h, hrun, hid, hcount, hbytes,
    (transaction_accounting measuringNode (fun _ => 8) rfl oneSharedGroup hrun).1 "t1" h hid hopen⟩

end System

end KalamDB.Transactions
