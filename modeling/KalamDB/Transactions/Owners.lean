import KalamDB.Transactions.Rollback

/-!
# Transactions and their owners

Every session has at most one transaction, which is **registered** for it. An owner whose
transaction is not open any more may begin the next one, also while the commit of the first is
suspended at the applier. But the answer of the applier removes whatever is registered for the
owner. The second transaction is then open and not registered, and the owner can begin a third one
beside it (`answer_unregisters_successor`).

If no answer finds another transaction of its owner, every transaction stays registered
(`open_transactions_registered`).
-/

namespace KalamDB.Transactions

open Raft Runs Relation

namespace TransactionCoordinator

variable {config : CoordinatorConfig} {Accesses : TransactionId → GroupId → Prop}
  {Returns : TransactionId → String → Prop}
  {c c' : TransactionCoordinator} {id : TransactionId} {h h' : TransactionHandle}

/-- Every transaction is the one registered for its owner. -/
def Registered (c : TransactionCoordinator) : Prop :=
  ∀ id h, c.activeById id = some h → c.activeByOwner h.ownerKey = some id

section

variable (hc : c.Registered)
include hc

/-- When a transaction is removed, no other one of its owner is left. -/
theorem Registered.remove (hid : c.activeById id = some h)
    {other : TransactionId} (hother : c.activeById other = some h') (hne : other ≠ id) :
    h'.ownerKey ≠ h.ownerKey := by
  intro hkey
  have hregistered := hc other h' hother
  rw [hkey, hc id h hid] at hregistered
  exact hne (Option.some.inj hregistered).symm

theorem Registered.moved (hmoved : Moved config Accesses Returns c c') : c'.Registered := by
  intro other h' hother
  cases hmoved with
  | @moved id h handle ws hid hmove =>
    by_cases hne : other = id
    · subst hne
      obtain rfl : handle = h' := by
        simpa [setHandle, setWriteSet] using hother
      have hkey : handle.ownerKey = h.ownerKey := by
        generalize c.writeSets other = ws₀ at hmove
        cases hmove <;> rfl
      rw [hkey]
      exact hc other h hid
    · refine hc other h' ?_
      simpa [setHandle, setWriteSet, hne] using hother
  | @removed id h hid =>
    have hne : other ≠ id := by
      rintro rfl
      simp [discard, setHandle] at hother
    have hbefore : c.activeById other = some h' := by
      simpa [discard, setHandle, setOwner, setWriteSet, hne] using hother
    have hkey := hc.remove hid hbefore hne
    simpa [discard, setHandle, setOwner, setWriteSet, hkey] using hc other h' hbefore

theorem Registered.moves
    (hmoves : ReflTransGen (Moved config Accesses Returns) c c') : c'.Registered := by
  induction hmoves with
  | refl => exact hc
  | tail _ hmoved ih => exact ih.moved hmoved

/-- A new transaction takes the place of the one that was registered. -/
theorem Registered.begin (id : TransactionId) (key : ExecutionOwnerKey)
    (ownerId : String) : (c.begin config id key ownerId).2.Registered := by
  obtain hsame | ⟨c₀, hbegin, hplace⟩ := begin_cases config c id key ownerId
  · rwa [hsame]
  rw [hbegin]
  intro other h' hother
  by_cases hne : other = id
  · subst hne
    obtain rfl : TransactionHandle.new other key ownerId _ = h' := by
      simpa [setHandle, setOwner] using hother
    simp [setOwner, TransactionHandle.new]
  · have hbefore : c₀.activeById other = some h' := by
      simpa [setHandle, setOwner, hne] using hother
    -- the owner of another transaction is another owner
    have hother : c.activeById other = some h' ∧ h'.ownerKey ≠ key := by
      obtain ⟨hfree, rfl⟩ | ⟨existing, hexisting, -, rfl⟩ := hplace
      · refine ⟨hbefore, fun hsame => ?_⟩
        rw [← hsame, hc other h' hbefore] at hfree
        cases hfree
      have hne' : other ≠ existing := by
        rintro rfl
        simp [setHandle, setWriteSet] at hbefore
      have hold : c.activeById other = some h' := by
        simpa [setHandle, setWriteSet, hne'] using hbefore
      refine ⟨hold, fun hsame => ?_⟩
      rw [← hsame, hc other h' hold] at hexisting
      exact hne' (Option.some.inj hexisting)
    have howner : c₀.activeByOwner = c.activeByOwner := by
      obtain ⟨-, rfl⟩ | ⟨existing, -, -, rfl⟩ := hplace <;> rfl
    simpa [setOwner, setHandle, hother.2, howner] using hc other h' hother.1

end

end TransactionCoordinator

namespace System

open TransactionCoordinator

/-- **No answer of the applier finds another transaction of its owner.** An answer that is not that
of a commit leaves everything as it is. -/
def OwnerWaits (s : System) : SystemEvent → Prop
  | .finishCommit commit response => response ≠ .ok none →
      ∀ id h, s.coordinator.activeById id = some h → h.ownerKey = commit.ownerKey →
        id = commit.transactionId
  | _ => True

variable {config : CoordinatorConfig} {s s' : System} {e : SystemEvent}

theorem registered_finishCommit {c : TransactionCoordinator} (hc : c.Registered)
    {commit : SuspendedCommit} {response : CommitResponse}
    (hwaits : response ≠ .ok none → ∀ id h, c.activeById id = some h →
      h.ownerKey = commit.ownerKey → id = commit.transactionId) :
    (c.finishCommit commit response).2.Registered := by
  by_cases hresponse : response = .ok none
  · subst hresponse
    exact hc
  obtain hsame | ⟨howner, hbyId, -⟩ := finishCommit_eq c commit response
  · rwa [hsame]
  intro other h' hother
  rw [hbyId] at hother
  have hne : other ≠ commit.transactionId := by
    rintro rfl
    simp at hother
  rw [Function.update_of_ne hne] at hother
  have hkey : h'.ownerKey ≠ commit.ownerKey :=
    fun hkey => hne (hwaits hresponse other h' hother hkey)
  rw [howner, Function.update_of_ne hkey]
  exact hc other h' hother

theorem registered_new {world : World} : (new world).coordinator.Registered := by
  rintro id h ⟨⟩

/-- **One step.** -/
theorem registered_step (hwaits : s.OwnerWaits e) (hs : s.coordinator.Registered)
    (hstep : step config s e = some s') : s'.coordinator.Registered := by
  have hcalled := called_of_step hstep
  generalize s'.coordinator = c' at hcalled ⊢
  cases hcalled with
  | moved hmoves => exact hs.moves hmoves
  | begun id key ownerId he hfresh => exact hs.begin id key ownerId
  | finished commit response he hmem =>
    subst he
    exact registered_finishCommit hs hwaits

/-- **Owner registration.** In every run in which no answer of the applier finds another transaction
of its owner, every open transaction is the one registered for its owner, and no owner has two. -/
theorem open_transactions_registered (config : CoordinatorConfig) (world : World)
    {events : List SystemEvent} {s : System}
    (hwaits : Meets (step config) OwnerWaits (new world) events)
    (hrun : run (step config) (new world) events = some s) :
    (∀ id h, s.coordinator.activeById id = some h → h.state.isOpen = true →
      s.coordinator.activeByOwner h.ownerKey = some id) ∧
    ∀ id id' h h', s.coordinator.activeById id = some h → h.state.isOpen = true →
      s.coordinator.activeById id' = some h' → h'.state.isOpen = true →
        h.ownerKey = h'.ownerKey → id = id' := by
  have hregistered : s.coordinator.Registered :=
    run_invariant (fun s => s.coordinator.Registered)
      (fun _ _ _ hwaits hs hstep => registered_step hwaits hs hstep) registered_new hwaits hrun
  refine ⟨fun id h hid _ => hregistered id h hid, fun id id' h h' hid _ hid' _ hkey => ?_⟩
  have hfirst := hregistered id h hid
  rw [hkey, hregistered id' h' hid'] at hfirst
  exact (Option.some.inj hfirst).symm

/-! ### A successor -/

/-- The owner begins a transaction while the commit of the last one is suspended, and another one
after the answer. -/
def successorRun : List SystemEvent :=
  [.begin "t1" (.sqlRequest 1) "a", .stageBatch "t1" [stagedInsert "t1"], .beginCommit "t1",
    .begin "t2" (.sqlRequest 1) "a",
    .finishCommit ⟨"t1", .sqlRequest 1, [stagedInsert "t1"]⟩ (.ok (some 1)),
    .begin "t3" (.sqlRequest 1) "a"]

/-- **The answer unregisters the successor**, which is open and belongs to the same owner as the
third transaction. -/
theorem answer_unregisters_successor :
    ∃ s h₂ h₃, run (step singleNode) (new oneSharedGroup) successorRun = some s ∧
      s.coordinator.activeById "t2" = some h₂ ∧ h₂.state.isOpen = true ∧
      s.coordinator.activeById "t3" = some h₃ ∧ h₃.state.isOpen = true ∧
      h₂.ownerKey = h₃.ownerKey ∧ s.coordinator.activeByOwner h₂.ownerKey ≠ some "t2" :=
  ⟨_, _, _, rfl, rfl, rfl, rfl, rfl, rfl, by decide⟩

/-- The owner waits for the answer. -/
def patientRun : List SystemEvent :=
  [.begin "t1" (.sqlRequest 1) "a", .stageBatch "t1" [stagedInsert "t1"], .beginCommit "t1",
    .finishCommit ⟨"t1", .sqlRequest 1, [stagedInsert "t1"]⟩ (.ok (some 1)),
    .begin "t2" (.sqlRequest 1) "a"]

theorem ownerWaits_patientRun :
    Meets (step singleNode) OwnerWaits (new oneSharedGroup) patientRun := by
  refine ⟨trivial, fun s₁ h₁ => ⟨trivial, fun s₂ h₂ => ⟨trivial, fun s₃ h₃ => ⟨?_, fun s₄ h₄ =>
    ⟨trivial, fun _ _ => trivial⟩⟩⟩⟩⟩
  have hregistered : s₃.coordinator.Registered :=
    registered_step (e := .beginCommit "t1") trivial (registered_step (e := .stageBatch _ _) trivial
      (registered_step (e := .begin _ _ _) trivial registered_new h₁) h₂) h₃
  have howner : s₃.coordinator.activeByOwner (.sqlRequest 1) = some "t1" := by
    cases h₁
    cases h₂
    cases h₃
    rfl
  intro _ id h hid hkey
  have hid' := hregistered id h hid
  rw [hkey, howner] at hid'
  exact (Option.some.inj hid').symm

/-- The second transaction is registered, and it is the only open one of its owner. -/
theorem patient_owner_registered :
    ∃ s, run (step singleNode) (new oneSharedGroup) patientRun = some s ∧
      (∃ h, s.coordinator.activeById "t2" = some h ∧ h.state.isOpen = true) ∧
      (∀ id h, s.coordinator.activeById id = some h → h.state.isOpen = true →
        s.coordinator.activeByOwner h.ownerKey = some id) ∧
      ∀ id id' h h', s.coordinator.activeById id = some h → h.state.isOpen = true →
        s.coordinator.activeById id' = some h' → h'.state.isOpen = true →
          h.ownerKey = h'.ownerKey → id = id' := by
  refine ⟨_, rfl, ⟨_, rfl, rfl⟩, ?_⟩
  exact open_transactions_registered singleNode oneSharedGroup ownerWaits_patientRun rfl

end System

end KalamDB.Transactions
