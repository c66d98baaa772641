import KalamDB.Raft.Recovery

/-!
# Installing a snapshot

A follower that lags behind the purged log receives the leader's snapshot. It takes over the
**applied index and the pending commands** and goes on with the entries behind the snapshot. The
rows of the tables are not in the snapshot, and the entries that wrote them are never applied by
the follower: it ends like a replica that applied the whole log exactly when it had those rows
already.

Replicas are compared at equal Meta progress: `seen` gives, for every entry, what a replica sees
of the Meta group and of its catalogs while it applies the entry.
-/

namespace KalamDB.Raft

open Runs List DataStateMachine

variable {A C T : Type}

/-- What a replica sees while it applies an entry. -/
structure Seen (A : Type) where
  metaAtCheck : ℕ
  metaAtDrain : ℕ
  appliers : ℕ → A

namespace Node

/-- The snapshot of a replica between two applies. -/
def buildSnapshot (s : Node C T) : StoredSnapshot :=
  ⟨s.lastApplied, s.machine.lastAppliedIndex, s.machine.lastAppliedTerm,
    s.machine.pendingBuffer.getAll⟩

/-- The machine is restored, the progress is that of the snapshot, and the log up to it is
purged. -/
def installSnapshot (s : Node C T) (snapshot : StoredSnapshot) : Node C T :=
  { s with
    machine := restore s.machine snapshot
    lastApplied := snapshot.lastAppliedLog
    disk := { s.disk with
      lastApplied := snapshot.lastAppliedLog <|> s.disk.lastApplied
      snapshot := some snapshot
      lastPurged := snapshot.lastAppliedLog <|> s.disk.lastPurged } }

/-- Apply an entry and persist it; a replica stops at an entry that fails. -/
def catchUpStep (g : DataGroup A C T) (seen : LogEntry → Seen A) (s : Node C T)
    (entry : LogEntry) : Option (Node C T) :=
  match g.applyEntry (seen entry).appliers entry (seen entry).metaAtCheck
      (seen entry).metaAtDrain s.machine with
  | (.error _, _) => none
  | (.ok _, m) =>
    some { s with
      machine := m
      lastApplied := some entry.position
      disk := { s.disk with
        tables := m.tables
        executed := m.executed
        lastApplied := some entry.position } }

def catchUp (g : DataGroup A C T) (seen : LogEntry → Seen A) :
    Node C T → List LogEntry → Option (Node C T) :=
  run (catchUpStep g seen)

/-- Rows, applied index, pending commands and progress of a replica. -/
def outcome (s : Node C T) : T × ℕ × PendingBuffer × Option LogPosition :=
  (s.machine.tables, s.machine.lastAppliedIndex, s.machine.pendingBuffer, s.lastApplied)

end Node

/-! ### What was executed before does not matter -/

namespace DataStateMachine

/-- Machines that differ at most in the record of what they executed. -/
structure Agrees (m n : DataStateMachine C T) : Prop where
  lastAppliedIndex : m.lastAppliedIndex = n.lastAppliedIndex
  lastAppliedTerm : m.lastAppliedTerm = n.lastAppliedTerm
  pendingBuffer : m.pendingBuffer = n.pendingBuffer
  tables : m.tables = n.tables

theorem Agrees.markAppliedIndex {m n : DataStateMachine C T} (h : m.Agrees n) (index term : ℕ) :
    (m.markAppliedIndex index term).Agrees (n.markAppliedIndex index term) := by
  unfold DataStateMachine.markAppliedIndex
  rw [h.lastAppliedIndex]
  split
  · exact h
  · exact ⟨rfl, rfl, h.pendingBuffer, h.tables⟩

/-- The same answer, with machines that agree. -/
inductive AnswersAlike {R : Type} : R × DataStateMachine C T → R × DataStateMachine C T → Prop
  | intro (result : R) {m n : DataStateMachine C T} (h : m.Agrees n) :
    AnswersAlike (result, m) (result, n)

end DataStateMachine

namespace DataGroup

variable (g : DataGroup A C T) (appliers : ℕ → A) {m n : DataStateMachine C T} (index term : ℕ)

theorem drainLoop_agrees (pending : List PendingCommand) (h : m.Agrees n) :
    AnswersAlike (g.drainLoop appliers pending m) (g.drainLoop appliers pending n) := by
  induction pending generalizing m n with
  | nil => exact .intro _ h
  | cons p rest ih =>
    rw [drainLoop, drainLoop]
    cases g.decodeApplyCommand p.commandBytes with
    | error e => exact .intro _ h
    | ok cmd =>
      cases hversions : assignEntryVersions p.logIndex (g.rowSlotCount cmd) with
      | error e => simpa only [hversions] using ih h
      | ok versions =>
        simp only [hversions]
        rw [h.tables]
        split
        · exact .intro _ ⟨h.lastAppliedIndex, h.lastAppliedTerm, h.pendingBuffer, rfl⟩
        · exact ih ⟨h.lastAppliedIndex, h.lastAppliedTerm, h.pendingBuffer, rfl⟩

theorem applyCurrent_agrees (cmd : C) (h : m.Agrees n) :
    AnswersAlike (g.applyCurrent appliers index term cmd m)
      (g.applyCurrent appliers index term cmd n) := by
  rw [applyCurrent, applyCurrent, h.tables]
  split
  · exact .intro _ h
  split
  · exact .intro _ ⟨h.lastAppliedIndex, h.lastAppliedTerm, h.pendingBuffer, rfl⟩
  · exact .intro _ ⟨rfl, rfl, h.pendingBuffer, rfl⟩

theorem drainPending_agrees (metaIndex : ℕ) (h : m.Agrees n) :
    AnswersAlike (g.drainPending appliers metaIndex m) (g.drainPending appliers metaIndex n) := by
  rw [drainPending, h.pendingBuffer]
  exact drainLoop_agrees g appliers _ ⟨h.lastAppliedIndex, h.lastAppliedTerm, rfl, h.tables⟩

theorem apply_agrees (command : List UInt8) (metaAtCheck metaAtDrain : ℕ) (h : m.Agrees n) :
    AnswersAlike (g.apply appliers index term command metaAtCheck metaAtDrain m)
      (g.apply appliers index term command metaAtCheck metaAtDrain n) := by
  rw [apply, apply, h.lastAppliedIndex, h.pendingBuffer]
  split
  · exact .intro _ h
  cases g.decodeApplyCommand command with
  | error e => exact .intro _ h
  | ok cmd =>
    simp only
    split
    · -- the entry begins to wait
      refine .intro _ ⟨rfl, rfl, ?_, h.tables⟩
      simp only [buffered, markApplied, h.pendingBuffer]
    cases n.pendingBuffer.isEmpty with
    | true => exact applyCurrent_agrees g appliers index term cmd h
    | false =>
      have hdrain := drainPending_agrees g appliers metaAtDrain h
      generalize g.drainPending appliers metaAtDrain m = rm at hdrain
      generalize g.drainPending appliers metaAtDrain n = rn at hdrain
      obtain ⟨result, hmachine⟩ := hdrain
      cases result with
      | error e => exact .intro _ hmachine
      | ok _ => exact applyCurrent_agrees g appliers index term cmd hmachine

/-- **Applying an entry does not look at what was executed before.** -/
theorem applyEntry_agrees (entry : LogEntry) (metaAtCheck metaAtDrain : ℕ) (h : m.Agrees n) :
    AnswersAlike (g.applyEntry appliers entry metaAtCheck metaAtDrain m)
      (g.applyEntry appliers entry metaAtCheck metaAtDrain n) := by
  unfold applyEntry
  split
  · exact apply_agrees g appliers _ _ _ _ _ h
  · exact .intro _ (h.markAppliedIndex _ _)
  · exact .intro _ (h.markAppliedIndex _ _)

end DataGroup

/-! ### Installing against applying -/

namespace Node

variable {g : DataGroup A C T} {seen : LogEntry → Seen A} {s t source : Node C T}
  {entries : List LogEntry}

/-- Replicas with agreeing machines and the same progress. -/
structure Level (s t : Node C T) : Prop where
  machine : s.machine.Agrees t.machine
  lastApplied : s.lastApplied = t.lastApplied

theorem Level.step (h : Level s t) (entry : LogEntry) :
    Option.Rel Level (catchUpStep g seen s entry) (catchUpStep g seen t entry) := by
  have halike := g.applyEntry_agrees (seen entry).appliers entry (seen entry).metaAtCheck
    (seen entry).metaAtDrain h.machine
  unfold catchUpStep
  generalize g.applyEntry _ entry _ _ s.machine = rs at halike
  generalize g.applyEntry _ entry _ _ t.machine = rt at halike
  obtain ⟨result, hmachine⟩ := halike
  cases result with
  | error e => exact .none
  | ok r => exact .some ⟨hmachine, rfl⟩

theorem Level.outcome_eq (h : Level s t) : s.outcome = t.outcome := by
  simp only [outcome, h.machine.tables, h.machine.lastAppliedIndex, h.machine.pendingBuffer,
    h.lastApplied]

/-- Replicas that are level end the same. -/
theorem Level.outcome_catchUp (h : Level s t) (entries : List LogEntry) :
    (catchUp g seen s entries).map outcome = (catchUp g seen t entries).map outcome := by
  have hrel : Option.Rel Level (catchUp g seen s entries) (catchUp g seen t entries) :=
    run_lockstep Level (fun _ _ entry hlevel => hlevel.step entry) h entries
  generalize catchUp g seen s entries = s' at hrel
  generalize catchUp g seen t entries = t' at hrel
  cases hrel with
  | none => rfl
  | some hlevel => exact congrArg some hlevel.outcome_eq

theorem lastApplied_of_catchUp {s' : Node C T} (h : catchUp g seen s entries = some s') :
    s'.lastApplied = (entries.getLast?.map LogEntry.position <|> s.lastApplied) := by
  induction entries generalizing s with
  | nil =>
    cases h
    rfl
  | cons entry rest ih =>
    obtain ⟨s₁, hstep, hrest⟩ := run_cons_eq_some.mp h
    have hs₁ : s₁.lastApplied = some entry.position := by
      unfold catchUpStep at hstep
      split at hstep
      · cases hstep
      · rw [← Option.some.inj hstep]
    rw [ih hrest, hs₁, getLast?_cons]
    cases rest.getLast? <;> rfl

/-- The entries behind the progress of a replica that applied the front of a log. -/
theorem filter_isAfter_of_catchUp {tables : T} {rest : List LogEntry}
    (hsource : catchUp g seen (.fresh tables) entries = some source)
    (hrising : (entries ++ rest).Pairwise fun a b => a.index < b.index) :
    (entries ++ rest).filter (isAfter source.lastApplied) = rest := by
  obtain ⟨hentries, -, hcross⟩ := pairwise_append.mp hrising
  rw [lastApplied_of_catchUp hsource]
  cases hlast : entries.getLast? with
  | none =>
    rw [getLast?_eq_none_iff.mp hlast]
    exact filter_eq_self.mpr fun _ _ => rfl
  | some last =>
    obtain ⟨front, rfl⟩ : ∃ front, entries = front ++ [last] := getLast?_eq_some_iff.mp hlast
    have hbefore : ∀ e ∈ front ++ [last], ¬isAfter (some last.position) e = true := by
      intro e he
      rw [isAfter_some, LogEntry.position_index, not_lt]
      obtain he | he := mem_append.mp he
      · exact ((pairwise_append.mp hentries).2.2 e he last (by simp)).le
      · rw [mem_singleton.mp he]
    have hbehind : ∀ e ∈ rest, isAfter (some last.position) e = true := fun e he =>
      isAfter_some.mpr (hcross last (by simp) e he)
    rw [filter_append]
    change (front ++ [last]).filter (isAfter (some last.position)) ++
      rest.filter (isAfter (some last.position)) = rest
    rw [filter_eq_nil_iff.mpr hbefore, filter_eq_self.mpr hbehind, nil_append]

/-- **When installing a snapshot is as good as applying the log**: a follower that installs the
snapshot taken after a log ends, whatever is committed later, like the replica that applied
everything, exactly when its tables are those of the snapshot's source. -/
theorem installs_like_applying_iff_rows_present (g : DataGroup A C T) (seen : LogEntry → Seen A)
    (tables : T) (log : g.CommittedLog) (source follower : Node C T)
    (hsource : catchUp g seen (.fresh tables) log.entries = some source) :
    (∀ longer : g.CommittedLog, log.entries <+: longer.entries →
      (catchUp g seen (follower.installSnapshot source.buildSnapshot)
          (longer.entries.filter (isAfter source.buildSnapshot.lastAppliedLog))).map outcome =
        (catchUp g seen (.fresh tables) longer.entries).map outcome) ↔
      follower.machine.tables = source.machine.tables := by
  constructor
  · intro h
    have hend := h log (prefix_refl _)
    have hnone : (log.entries ++ []).filter (isAfter source.lastApplied) = [] :=
      filter_isAfter_of_catchUp hsource (by simpa using log.rising)
    rw [append_nil] at hnone
    rw [hsource] at hend
    change (catchUp g seen _ (log.entries.filter (isAfter source.lastApplied))).map outcome = _
      at hend
    rw [hnone] at hend
    exact congrArg Prod.fst (Option.some.inj hend)
  · rintro htables longer ⟨rest, hrest⟩
    have hrising := longer.rising
    rw [← hrest] at hrising ⊢
    have hfull : catchUp g seen (.fresh tables) (log.entries ++ rest) =
        catchUp g seen source rest := by
      rw [catchUp, run_append, ← catchUp, hsource, Option.bind_some]
    rw [hfull]
    change (catchUp g seen _ ((log.entries ++ rest).filter (isAfter source.lastApplied))).map _ = _
    rw [filter_isAfter_of_catchUp hsource hrising]
    -- the follower takes over everything but the rows
    have hlevel : Level (follower.installSnapshot source.buildSnapshot) source :=
      ⟨⟨rfl, rfl, PendingBuffer.loadFrom_getAll _, htables⟩, rfl⟩
    exact hlevel.outcome_catchUp rest

end Node

/-! ### A follower without the rows -/

/-- A table as the list of its encoded rows. -/
abbrev EncodedRows : Type := List (List UInt8)

/-- An applier whose inserts append their rows to the table. -/
def appendingApplier : SharedDataApplier EncodedRows :=
  { NoOpSharedDataApplier EncodedRows 0 with
    insert := fun _ _ _ rows _ table => (.ok rows.length, table ++ rows) }

def itemsGroup :
    DataGroup (Option (SharedDataApplier EncodedRows)) SharedApplyCommand EncodedRows :=
  sharedDataGroup EncodedRows restartCodec 0

/-- The Meta group is ahead of both inserts of `restartCodec`. -/
def metaAhead (_ : LogEntry) : Seen (Option (SharedDataApplier EncodedRows)) :=
  ⟨5, 5, fun _ => some appendingApplier⟩

def twoInserts : itemsGroup.CommittedLog where
  entries := restartLog.entries
  rising := restartLog.rising
  decodes := restartLog.decodes

def newFollower : Node SharedApplyCommand EncodedRows := .fresh []

/-- A new node installs the snapshot taken after two inserts: it has their index and none of
their rows, and no entry is left to bring them. -/
theorem installed_snapshot_misses_inserted_rows :
    ∃ source, Node.catchUp itemsGroup metaAhead newFollower twoInserts.entries = some source ∧
      source.outcome = ([[1], [2]], 2, .empty, some ⟨2, 1⟩) ∧
      (newFollower.installSnapshot source.buildSnapshot).outcome = ([], 2, .empty, some ⟨2, 1⟩) ∧
      twoInserts.entries.filter (Node.isAfter source.buildSnapshot.lastAppliedLog) = [] :=
  ⟨_, rfl, by decide, by decide, by decide⟩

/-- A follower that has the rows of both inserts ends like the others after every longer log. -/
theorem installs_like_applying_twoInserts :
    ∃ source, Node.catchUp itemsGroup metaAhead newFollower twoInserts.entries = some source ∧
      ∀ longer : itemsGroup.CommittedLog, twoInserts.entries <+: longer.entries →
        (Node.catchUp itemsGroup metaAhead
          ((Node.fresh [[1], [2]]).installSnapshot source.buildSnapshot)
            (longer.entries.filter
              (Node.isAfter source.buildSnapshot.lastAppliedLog))).map Node.outcome =
          (Node.catchUp itemsGroup metaAhead newFollower longer.entries).map Node.outcome :=
  ⟨_, rfl, (Node.installs_like_applying_iff_rows_present _ _ _ twoInserts _ _ rfl).mpr (by decide)⟩

end KalamDB.Raft
