import KalamDB.Dml.TransactionBatch

/-!
# When the commit of a transaction is atomic

Applying a commit entry should fail without a trace or leave what executing its mutations one
by one leaves, and it should not fail when that succeeds. It does so for some entries only:

* the check of the inserts reads the tables before the entry, so it refuses a key that an
  earlier mutation of the same entry frees, and a key that is inserted, deleted and inserted
  again;
* it asks the cold tier also for a key the hot tier knows to be deleted, and it misses a live
  hot row whose text key reads as a number;
* an error in the walk leaves the writes before it in the store.

`applies_atomically_iff_precheck_fits` gives the exact condition. The walk itself is faithful:
where one by one succeeds it writes the same rows (`applyLoop_of_runOneByOne`).
-/

namespace KalamDB.Dml

open Raft Fallible List Tables RowKey

/-! ### Entries -/

variable {transactionId : TransactionId} {scope : Scope} {m : StagedMutation} {key : RowKey}
  {t : Tables} {p : TableProvider} {written : RowKey → Option SharedTableRow}
  {mutations : List (StagedMutation × VersionId)} {row : SharedTableRow}

/-- A commit entry as the coordinator proposes it and the group applies it to the tables: all
mutations are of one transaction, those of user tables name their owner, every mutation has its
version, and the versions are newer than every stored row. Only entries whose mutations keep their
keys are considered. -/
structure CommitBatch (scope : Scope) (t : Tables) where
  transactionId : TransactionId
  mutations : List StagedMutation
  versions : List VersionId
  nonempty : mutations ≠ []
  sameTransaction : ∀ m ∈ mutations, m.transactionId = transactionId
  owned : scope = .user → ∀ m ∈ mutations, m.userId ≠ none
  slots : versions.length = mutations.length
  newer : ∀ key row, t.hot key = some row → ∀ version ∈ versions, row.version < version
  keysKept : ∀ m ∈ mutations, ∀ p, t.provider m.tableId = some p → KeepsKey p m

namespace CommitBatch

variable {scope : Scope} {t : Tables} (b : CommitBatch scope t)

def outcome : List WriteBatch × Except ApplierError ℕ :=
  applyTransactionBatch scope b.transactionId t b.mutations b.versions

/-- The tables after the entry: whatever was written stays. -/
def tablesAfter : Tables := t.write b.outcome.1.flatten

def oneByOne : Except ApplierError Tables :=
  runOneByOne scope t (b.mutations.zip b.versions)

/-- **All or nothing**: the entry does what one by one does, and nothing if that fails. -/
def AppliesAtomically : Prop :=
  match b.oneByOne with
  | .ok t' => b.outcome.2.isOk = true ∧ b.tablesAfter = t'
  | .error _ => b.outcome.2.isOk = false ∧ b.tablesAfter = t

end CommitBatch

/-! ### The condition -/

/-- The key is free for the check of a single insert: no cold row, and no live hot row except
one whose text key is looked up as a number. Generated keys are not checked. -/
def Tables.KeyUnused (t : Tables) (p : TableProvider) (key : RowKey) : Prop :=
  p.isAutoIncrementPk = true ∨
    t.cold key = none ∧ ∀ row, t.hot key = some row →
      row.deleted = true ∨ p.pkEncoding ≠ parsePkValue key.primaryKey

def inserts (mutations : List StagedMutation) : List StagedMutation :=
  mutations.filter fun m => m.operationKind = .insert

variable (scope)

/-- The key of one insert is free in its table. -/
def InsertUnused (t : Tables) (m : StagedMutation) : Prop :=
  ∃ p, t.provider m.tableId = some p ∧ t.KeyUnused p (rowKey scope m)

/-- Every key the entry inserts is free **before** the entry and inserted once. -/
def InsertsUnused (t : Tables) (mutations : List StagedMutation) : Prop :=
  ((inserts mutations).map (batchKey scope)).Nodup ∧
    ∀ m ∈ inserts mutations, InsertUnused scope t m

/-- The values a mutation finds under its key, if there is a row. -/
def foundFields (t : Tables) (m : StagedMutation) : Option Row :=
  (t.loadMutationTarget (rowKey scope m)).fields?

/-- A mutation that writes nothing: a delete of no row, or an update that changes no value. -/
def HasNoEffect (t : Tables) (m : StagedMutation) : Prop :=
  ∃ p, t.provider m.tableId = some p ∧
    match m.operationKind, foundFields scope t m with
    | .delete, none => True
    | .update, some latest =>
      latest.mergeFrom m.payload = latest ∧ p.nullColumn latest = none
    | _, _ => False

/-- A mutation that fails for another reason than a taken key: no such table, a missing value,
or an update of no row. -/
def IsRefused (t : Tables) (m : StagedMutation) : Prop :=
  ∀ p, t.provider m.tableId = some p →
    match m.operationKind, foundFields scope t m with
    | .insert, _ => (p.nullColumn m.payload).isSome = true
    | .update, some latest => (p.nullColumn (latest.mergeFrom m.payload)).isSome = true
    | .update, none => True
    | .delete, _ => False

/-- A mutation is refused and those before it have no effect. -/
def IsRefusedFirst (scope : Scope) (t : Tables) : List StagedMutation → Prop
  | [] => False
  | m :: rest => IsRefused scope t m ∨ HasNoEffect scope t m ∧ IsRefusedFirst scope t rest

/-- The entry fails before anything is written: an insert batch checks all rows first, the walk
checks each row when it comes to it. -/
def FailsUntouched (transactionId : TransactionId) (t : Tables)
    (mutations : List StagedMutation) : Prop :=
  if isInsertBatch scope transactionId mutations then ∃ m ∈ mutations, IsRefused scope t m
  else IsRefusedFirst scope t mutations

variable {scope} {batch : WriteBatch}

/-! ### Checks that pass -/

@[simp]
theorem checkMutation_eq_ok (htransaction : m.transactionId = transactionId)
    (howner : scope = .user → m.userId ≠ none) : checkMutation scope transactionId m = .ok () := by
  have : ¬(scope = .user ∧ m.userId = none) := fun h => howner h.1 h.2
  simp [checkMutation, htransaction, this]

theorem ensureUniquePkValue_eq_ok_iff :
    t.ensureUniquePkValue scope p key = .ok () ↔ t.KeyUnused p key := by
  unfold ensureUniquePkValue Tables.KeyUnused findRowKeyByIdField latestHotPkEntry
  cases hauto : p.isAutoIncrementPk with
  | true => simp
  | false =>
    by_cases hguess : p.pkEncoding = parsePkValue key.primaryKey
    · cases hhot : t.hot key with
      | none => cases hcold : t.cold key <;> cases scope <;> simp
      | some row =>
        cases hcold : t.cold key <;> cases hdeleted : row.deleted <;> simp [hguess, hdeleted]
    · cases hcold : t.cold key <;> cases scope <;> simp [hguess]

theorem prevalidateInserts_cons_eq_ok_iff (hkind : m.operationKind = .insert)
    (hcheck : checkMutation scope transactionId m = .ok ()) (seen : List String)
    (rest : List StagedMutation) :
    prevalidateInserts scope transactionId t seen (m :: rest) = .ok () ↔
      batchKey scope m ∉ seen ∧ InsertUnused scope t m ∧
        prevalidateInserts scope transactionId t (batchKey scope m :: seen) rest = .ok () := by
  rw [prevalidateInserts, if_neg (by simp [hkind]), hcheck, InsertUnused]
  cases hp : t.provider m.tableId with
  | none => simp [loadProvider, hp, bind, Except.bind]
  | some p =>
    rw [loadProvider_eq_ok_iff.mpr hp]
    by_cases hseen : batchKey scope m ∈ seen
    · simp [hseen, bind, Except.bind]
    have hunique : t.ensureUniquePkValue scope p (rowKey scope m) = .ok () ↔
        t.KeyUnused p (rowKey scope m) := ensureUniquePkValue_eq_ok_iff
    cases hresult : t.ensureUniquePkValue scope p (rowKey scope m) with
    | error | ok => simp_all [bind, Except.bind, Except.mapError]

theorem prevalidateInserts_eq_ok_iff {mutations : List StagedMutation}
    (hcheck : ∀ m ∈ mutations, checkMutation scope transactionId m = .ok ()) (seen : List String) :
    prevalidateInserts scope transactionId t seen mutations = .ok () ↔
      (∀ m ∈ inserts mutations, batchKey scope m ∉ seen) ∧ InsertsUnused scope t mutations := by
  induction mutations generalizing seen with
  | nil => simp [prevalidateInserts, inserts, InsertsUnused]
  | cons m rest ih =>
    obtain ⟨hm, hrest⟩ := forall_mem_cons.mp hcheck
    by_cases hkind : m.operationKind = .insert
    · have hinserts : inserts (m :: rest) = m :: inserts rest := by simp [inserts, hkind]
      rw [prevalidateInserts_cons_eq_ok_iff hkind hm, ih hrest]
      simp only [InsertsUnused, hinserts, map_cons, nodup_cons, mem_map, not_exists,
        forall_eq_or_imp, mem_cons, not_or, forall_and]
      tauto
    · have hinserts : inserts (m :: rest) = inserts rest := by simp [inserts, hkind]
      rw [prevalidateInserts, if_pos hkind, ih hrest, InsertsUnused, InsertsUnused, hinserts]

/-! ### The walk against one by one -/

/-- A mutation of the walk; an insert is checked against the rows of the walk only. -/
theorem applyMutation_eq_ok_iff (hcheck : checkMutation scope transactionId m = .ok ())
    {version : VersionId} {row : Option SharedTableRow} :
    applyMutation scope transactionId t written m version = .ok row ↔
      ∃ p, t.provider m.tableId = some p ∧
        (m.operationKind = .insert → ∀ known, written (rowKey scope m) = some known →
          known.deleted = true) ∧
        Writes p m version (t.mutationTarget (rowKey scope m) (written (rowKey scope m))).fields?
          row := by
  simp only [applyMutation, hcheck, bind_eq_ok_iff, loadProvider_eq_ok_iff]
  cases hkind : m.operationKind with
  | insert =>
    have hknown : ((written (rowKey scope m)).any fun row => !row.deleted) = false ↔
        ∀ known, written (rowKey scope m) = some known → known.deleted = true := by
      cases written (rowKey scope m) <;> simp
    simp only [Writes, hkind, ← hknown]
    cases (written (rowKey scope m)).any fun row => !row.deleted <;>
      simp [bind_eq_ok_iff, mapError_eq_ok_iff, pure, Except.pure]
  | update => simp [mapError_eq_ok_iff, updateByPkValueDeferredWithHot_eq_ok_iff hkind]
  | delete => simp [Writes, hkind, deleteByPkValueDeferredWithHot, pure, Except.pure]

/-- The tables as the walk sees them: what it remembers over what was there before. -/
structure Remembers (t s : Tables) (written : RowKey → Option SharedTableRow) : Prop where
  provider : s.provider = t.provider
  cold : s.cold = t.cold
  hot : ∀ key, s.hot key = (written key).or (t.hot key)

namespace Remembers

variable {t s : Tables} {written : RowKey → Option SharedTableRow} {version : VersionId}
  {row : Option SharedTableRow}

theorem start (t : Tables) : Remembers t t fun _ => none := ⟨rfl, rfl, fun _ => rfl⟩

section

variable (h : Remembers t s written)
include h

theorem put (key : RowKey) (row : SharedTableRow) :
    Remembers t (s.put key row) (Function.update written key (some row)) := by
  refine ⟨h.provider, h.cold, fun key' => ?_⟩
  rw [put_hot, h.hot, Function.update_apply]
  split <;> rfl

theorem mutationTarget (key : RowKey) :
    s.loadMutationTarget key = t.mutationTarget key (written key) := by
  simp only [loadMutationTarget, h.hot, h.cold]
  cases written key <;> rfl

section

variable (hcheck : checkMutation scope transactionId m = .ok ())
include hcheck

/-- What a statement of its own does, the walk does too. -/
theorem applyMutation (hrun : executeMutation scope s m version = .ok row) :
    Dml.applyMutation scope transactionId t written m version = .ok row := by
  obtain ⟨p, hp, habsent, hwrites⟩ := executeMutation_eq_ok_iff.mp hrun
  refine (applyMutation_eq_ok_iff hcheck).mpr
    ⟨p, h.provider ▸ hp, fun hkind known hknown => ?_, h.mutationTarget _ ▸ hwrites⟩
  -- A row the walk wrote is the newest of its key, and the key is free: it is a tombstone.
  have hhot : s.hot (rowKey scope m) = some known := by rw [h.hot, hknown, Option.some_or]
  simpa [Tables.Absent, hhot] using habsent hkind

end

end

end Remembers

/-- Where one by one succeeds, the walk succeeds and leaves the same tables. -/
theorem applyLoop_of_runOneByOne {s s' : Tables} (h : Remembers t s written)
    (hcheck : ∀ m ∈ mutations, checkMutation scope transactionId m.1 = .ok ())
    (hrun : runOneByOne scope s mutations = .ok s') :
    (applyLoop scope transactionId t written mutations).2.isOk = true ∧
      s.write (applyLoop scope transactionId t written mutations).1.flatten = s' := by
  induction mutations generalizing s written with
  | nil => simpa [applyLoop, runOneByOne, Except.toBool] using hrun
  | cons head rest ih =>
    obtain ⟨hm, hrest⟩ := forall_mem_cons.mp hcheck
    obtain ⟨row, hexecute, hrun⟩ := runOneByOne_cons_eq_ok_iff.mp hrun
    rw [applyLoop, h.applyMutation hm hexecute]
    cases row with
    | none => exact ih h hrest hrun
    | some row =>
      obtain ⟨hok, hwrite⟩ := ih (h.put _ row) hrest hrun
      exact ⟨by simpa only [isOk_map] using hok, hwrite⟩

/-! ### The walk before its first write -/

section

variable (hcheck : checkMutation scope transactionId m = .ok ())
include hcheck

theorem applyMutation_eq_ok_none_iff (version : VersionId) :
    applyMutation scope transactionId t (fun _ => none) m version = .ok none ↔
      HasNoEffect scope t m := by
  rw [applyMutation_eq_ok_iff hcheck, HasNoEffect, foundFields]
  simp only [reduceCtorEq, false_implies, implies_true, mutationTarget]
  unfold Writes
  cases m.operationKind <;> cases (t.loadMutationTarget (rowKey scope m)).fields? with
  | none => simp
  | some latest => by_cases hsame : latest.mergeFrom m.payload = latest <;> simp [hsame]

theorem applyMutation_isOk_eq_false_iff (version : VersionId) :
    (applyMutation scope transactionId t (fun _ => none) m version).isOk = false ↔
      IsRefused scope t m := by
  rw [← Bool.not_eq_true, isOk_eq_true_iff, IsRefused, foundFields]
  simp only [applyMutation_eq_ok_iff hcheck, reduceCtorEq, false_implies, implies_true,
    mutationTarget]
  unfold Writes
  cases m.operationKind <;> cases (t.loadMutationTarget (rowKey scope m)).fields? <;>
    simp [Option.isSome_iff_ne_none]

end

/-- The row a mutation writes has the mutation's version. -/
theorem Writes.version_eq {version : VersionId} {found : Option Row}
    (h : Writes p m version found (some row)) : row.version = version := by
  unfold Writes at h
  split at h
  · rw [← Option.some.inj h.2]
  · exact h.elim
  · obtain ⟨-, hrow⟩ := h
    split at hrow
    · cases hrow
    · rw [← Option.some.inj hrow]
  · obtain ⟨latest, -, rfl⟩ := Option.map_eq_some_iff.mp h
    rfl

/-- The walk fails without a write exactly if the first mutation with an effect is refused. -/
theorem applyLoop_fails_untouched_iff
    (hcheck : ∀ m ∈ mutations, checkMutation scope transactionId m.1 = .ok ()) :
    (applyLoop scope transactionId t (fun _ => none) mutations).2.isOk = false ∧
        (applyLoop scope transactionId t (fun _ => none) mutations).1.flatten = [] ↔
      IsRefusedFirst scope t (mutations.map Prod.fst) := by
  induction mutations with
  | nil => simp [applyLoop, IsRefusedFirst, Except.toBool]
  | cons head rest ih =>
    obtain ⟨m, version⟩ := head
    obtain ⟨hm, hrest⟩ := forall_mem_cons.mp hcheck
    have hnone := applyMutation_eq_ok_none_iff (t := t) hm version
    have hrefused := applyMutation_isOk_eq_false_iff (t := t) hm version
    rw [map_cons, IsRefusedFirst, ← hnone, ← hrefused, ← ih hrest, applyLoop]
    cases applyMutation scope transactionId t (fun _ => none) m version with
    | error e => simp [Except.toBool]
    | ok row => cases row <;> simp [Except.toBool]

/-! ### Writes leave a trace -/

/-- Rows of new versions change the tables. -/
theorem Tables.write_ne_self (hbatch : batch ≠ [])
    (hnew : ∀ entry ∈ batch, ∀ row, t.hot entry.1 = some row → row.version ≠ entry.2.version) :
    t.write batch ≠ t := by
  obtain ⟨earlier, last, rfl⟩ := (eq_nil_or_concat' batch).resolve_left hbatch
  intro hsame
  have hlast : (t.write (earlier ++ [last])).hot last.1 = some last.2 := by
    rw [write_append, write_cons, write_nil, put_hot_self]
  rw [hsame] at hlast
  exact hnew last (by simp) last.2 hlast rfl

theorem version_mem_of_mem_applyLoop {entry : RowKey × SharedTableRow}
    (h : entry ∈ (applyLoop scope transactionId t written mutations).1.flatten) :
    entry.2.version ∈ mutations.map Prod.snd := by
  induction mutations generalizing written with
  | nil => simp [applyLoop] at h
  | cons head rest ih =>
    obtain ⟨m, version⟩ := head
    rw [applyLoop] at h
    rw [map_cons, mem_cons]
    cases happly : applyMutation scope transactionId t written m version with
    | error e => simp [happly] at h
    | ok row =>
      rw [happly] at h
      cases row with
      | none => exact .inr (ih h)
      | some row =>
        rcases mem_cons.mp h with rfl | hrest
        · have hcheck : checkMutation scope transactionId m = .ok () := by
            rw [applyMutation, bind_eq_ok_iff] at happly
            exact happly.choose_spec.1
          obtain ⟨p, -, -, hwrites⟩ := (applyMutation_eq_ok_iff hcheck).mp happly
          exact .inl hwrites.version_eq
        · exact .inr (ih hrest)

/-! ### Insert batches -/

theorem Tables.absent_put_iff {key' : RowKey} (hlive : row.deleted = false) :
    (t.put key row).Absent key' ↔ key' ≠ key ∧ t.Absent key' := by
  by_cases h : key' = key
  · subst h
    simp [Absent, hlive]
  · simp [Absent, put_hot_of_ne _ _ h, h]

theorem runOneByOne_inserts_eq_ok_iff {t' : Tables} {table : TableId}
    (hp : t.provider table = some p)
    (hinsert : ∀ m ∈ mutations, m.1.operationKind = .insert ∧ m.1.tableId = table) :
    runOneByOne scope t mutations = .ok t' ↔
      (∀ m ∈ mutations, p.nullColumn m.1.payload = none) ∧
        (mutations.map fun m => rowKey scope m.1).Nodup ∧
        (∀ m ∈ mutations, t.Absent (rowKey scope m.1)) ∧
        t.write (mutations.map (insertEntry scope)) = t' := by
  induction mutations generalizing t with
  | nil => simp [runOneByOne]
  | cons head rest ih =>
    obtain ⟨m, version⟩ := head
    obtain ⟨hfirst, hrest⟩ := forall_mem_cons.mp hinsert
    obtain ⟨hkind, htable⟩ : m.operationKind = .insert ∧ m.tableId = table := hfirst
    have hexecute : ∀ written, executeMutation scope t m version = .ok written ↔
        (p.nullColumn m.payload = none ∧ t.Absent (rowKey scope m)) ∧
          some ⟨version, false, m.payload⟩ = written := by
      simp only [executeMutation_eq_ok_iff, Writes, hkind, htable, hp, Option.some.injEq,
        exists_eq_left', forall_const, and_assoc, and_left_comm]
    simp only [runOneByOne_cons_eq_ok_iff, hexecute, and_assoc, exists_and_left, exists_eq_left',
      putOption]
    rw [ih (t := t.put (rowKey scope m) ⟨version, false, m.payload⟩) hp hrest]
    simp only [absent_put_iff, forall_mem_cons, map_cons, nodup_cons,
      mem_map, forall_and, not_exists]
    tauto

theorem nullColumnInBatch_eq_none_iff {rows : List Row} (i : ℕ) :
    p.nullColumnInBatch i rows = none ↔ ∀ row ∈ rows, p.nullColumn row = none := by
  induction rows generalizing i with
  | nil => simp [TableProvider.nullColumnInBatch]
  | cons row rest ih =>
    rw [TableProvider.nullColumnInBatch, forall_mem_cons, ← ih (i + 1)]
    cases p.nullColumn row <;> simp

theorem repeatedPk_eq_none_iff {seen : List String} {keys : List RowKey} :
    repeatedPk seen (keys.map primaryKey) = none ↔
      (keys.map primaryKey).Nodup ∧ ∀ key ∈ keys, key.primaryKey ∉ seen := by
  induction keys generalizing seen with
  | nil => simp [repeatedPk]
  | cons key rest ih =>
    rw [KeyedList.nodup_map_cons_and_iff, ← ih, map_cons, repeatedPk]
    split_ifs with hseen <;> simp [hseen]

theorem validateInsertBatchRows_eq_ok_iff {keys : List RowKey} :
    t.validateInsertBatchRows p keys = .ok () ↔
      (keys.map primaryKey).Nodup ∧ ∀ key ∈ keys, t.Absent key := by
  have hnodup : repeatedPk [] (keys.map primaryKey) = none ↔
      (keys.map primaryKey).Nodup := by simp [repeatedPk_eq_none_iff]
  have habsent : (∀ key ∈ keys, t.Absent key) ↔
      keys.find? t.hotLive = none ∧ keys.find? t.coldOnly = none := by
    simp only [find?_eq_none, ← forall_and]
    refine forall₂_congr fun key _ => ?_
    unfold Tables.Absent hotLive coldOnly
    cases t.hot key <;> simp
  rw [← hnodup, habsent, validateInsertBatchRows]
  cases repeatedPk [] (keys.map primaryKey) with
  | some pk => simp
  | none =>
    cases keys.find? t.hotLive with
    | some key => simp
    | none => cases keys.find? t.coldOnly <;> simp

/-! ### Commit entries -/

section

variable {mutations : List StagedMutation}

/-- All entries but an insert batch of one user have their inserts checked one after another. -/
theorem prevalidate_eq_ok_iff
    (hcheck : ∀ m ∈ mutations, checkMutation scope transactionId m = .ok ())
    (h : ¬(scope = .user ∧ isInsertBatch scope transactionId mutations = true)) :
    prevalidate scope transactionId t mutations = .ok () ↔ InsertsUnused scope t mutations := by
  have hinserts := prevalidateInserts_eq_ok_iff (t := t) hcheck []
  cases mutations with
  | nil => simp [prevalidate, InsertsUnused, inserts]
  | cons first rest =>
    rw [prevalidate, if_neg h, hinserts]
    simp

theorem applyTransactionBatch_walk {versions : List VersionId} (hversions : versions ≠ [])
    (hbatch : ¬isInsertBatch scope transactionId mutations = true)
    (h : prevalidate scope transactionId t mutations = .ok ()) :
    applyTransactionBatch scope transactionId t mutations versions =
      applyLoop scope transactionId t (fun _ => none) (mutations.zip versions) := by
  unfold applyTransactionBatch
  rw [if_neg hversions, h]
  cases mutations with
  | nil => rfl
  | cons first rest => exact if_neg hbatch

end

namespace CommitBatch

variable {scope : Scope} {t : Tables} {b : CommitBatch scope t} {rest : List StagedMutation}
  {first : StagedMutation}

section

variable (b : CommitBatch scope t)

theorem checkMutation_eq_ok (hm : m ∈ b.mutations) :
    checkMutation scope b.transactionId m = .ok () :=
  Dml.checkMutation_eq_ok (b.sameTransaction m hm) fun hscope => b.owned hscope m hm

theorem map_fst_zip : (b.mutations.zip b.versions).map Prod.fst = b.mutations :=
  List.map_fst_zip b.slots.ge

theorem versions_ne_nil : b.versions ≠ [] := by
  rw [← length_pos_iff, b.slots, length_pos_iff]
  exact b.nonempty

/-- The tables are unchanged only if nothing was written. -/
theorem write_eq_self_iff (hversions : ∀ entry ∈ batch, entry.2.version ∈ b.versions) :
    t.write batch = t ↔ batch = [] := by
  refine ⟨fun hsame => ?_, fun h => by rw [h, write_nil]⟩
  by_contra hbatch
  refine write_ne_self hbatch (fun entry hentry row hrow => ?_) hsame
  exact (b.newer _ _ hrow _ (hversions entry hentry)).ne

end

/-- An entry written as one batch of inserts. -/
def IsInsertBatch (b : CommitBatch scope t) : Prop :=
  isInsertBatch scope b.transactionId b.mutations = true

theorem IsInsertBatch.exists_head (h : b.IsInsertBatch) :
    ∃ first rest, b.mutations = first :: rest ∧ ∀ m ∈ b.mutations,
      m.operationKind = .insert ∧ m.tableId = first.tableId ∧
        (rowKey scope m).userId = (rowKey scope first).userId := by
  obtain ⟨first, rest, hmutations⟩ := exists_cons_of_ne_nil b.nonempty
  refine ⟨first, rest, hmutations, fun m hm => ?_⟩
  simp only [IsInsertBatch, hmutations, isInsertBatch, Bool.and_eq_true, all_eq_true,
    decide_eq_true_eq] at h
  obtain ⟨⟨⟨-, hkind⟩, htable⟩, huser⟩ := h.2 m (hmutations ▸ hm)
  refine ⟨hkind, htable, ?_⟩
  cases scope with
  | user => simpa [rowKey] using huser
  | shared => rfl

/-! ### The exact condition -/

/-- **When the pre-check fits**: an insert batch of one user is checked exactly. For any other
entry, if one by one succeeds then the inserted keys are free before the entry, and if it fails
then they are not, or the failure comes before the first write. -/
def PrecheckFits (b : CommitBatch scope t) : Prop :=
  scope = .user ∧ b.IsInsertBatch ∨
    (b.oneByOne.isOk = true → InsertsUnused scope t b.mutations) ∧
      (b.oneByOne.isOk = false → InsertsUnused scope t b.mutations →
        FailsUntouched scope b.transactionId t b.mutations)

theorem appliesAtomically_iff (b : CommitBatch scope t) :
    b.AppliesAtomically ↔
      (∀ t', b.oneByOne = .ok t' → b.outcome.2.isOk = true ∧ b.tablesAfter = t') ∧
      (b.oneByOne.isOk = false → b.outcome.2.isOk = false ∧ b.tablesAfter = t) := by
  unfold AppliesAtomically
  cases b.oneByOne <;> simp [Except.toBool]

/-- An entry that its pre-check refuses changes nothing. -/
theorem appliesAtomically_of_prevalidate_ne_ok
    (h : prevalidate scope b.transactionId t b.mutations ≠ .ok ()) :
    b.AppliesAtomically ↔ b.oneByOne.isOk = false := by
  cases hprevalidate : prevalidate scope b.transactionId t b.mutations with
  | ok u => exact absurd hprevalidate h
  | error e =>
    have houtcome : b.outcome = ([], .error e) := by
      unfold outcome applyTransactionBatch
      rw [if_neg b.versions_ne_nil, hprevalidate]
    rw [AppliesAtomically, tablesAfter, houtcome]
    cases b.oneByOne <;> simp [Except.toBool]

section

variable (hbatch : b.IsInsertBatch) (hmutations : b.mutations = first :: rest)
  (hp : t.provider first.tableId = some p)
include hbatch hmutations hp

theorem outcome_of_insertBatch (h : prevalidate scope b.transactionId t b.mutations = .ok ()) :
    (b.outcome.2.isOk = true ↔ ∀ m ∈ b.mutations, p.nullColumn m.payload = none) ∧
      b.outcome.1 = if b.outcome.2.isOk then
        [(b.mutations.zip b.versions).map (insertEntry scope)] else [] := by
  have hnull : p.nullColumnInBatch 0 (b.mutations.map StagedMutation.payload) = none ↔
      ∀ m ∈ b.mutations, p.nullColumn m.payload = none := by
    rw [nullColumnInBatch_eq_none_iff, forall_mem_map]
  have hbatch' : isInsertBatch scope b.transactionId (first :: rest) = true := by
    rwa [IsInsertBatch, hmutations] at hbatch
  have houtcome : b.outcome =
      insertBatchDeferredPrevalidated scope t first b.mutations b.versions := by
    unfold outcome applyTransactionBatch
    rw [if_neg b.versions_ne_nil, h]
    simp only [hmutations, if_pos hbatch']
  rw [← hnull, houtcome, insertBatchDeferredPrevalidated, loadProvider_eq_ok_iff.mpr hp]
  cases hcolumn : p.nullColumnInBatch 0 (b.mutations.map StagedMutation.payload) with
  | some error => simp [hcolumn, Except.toBool]
  | none => simp [hcolumn, b.slots, Except.toBool]

theorem oneByOne_insertBatch_eq_ok_iff (t' : Tables) :
    b.oneByOne = .ok t' ↔
      (∀ m ∈ b.mutations, p.nullColumn m.payload = none) ∧
        (b.mutations.map (rowKey scope)).Nodup ∧ (∀ m ∈ b.mutations, t.Absent (rowKey scope m)) ∧
        t.write ((b.mutations.zip b.versions).map (insertEntry scope)) = t' := by
  have hinsert : ∀ m ∈ b.mutations, m.operationKind = .insert ∧ m.tableId = first.tableId := by
    obtain ⟨first', rest', hmutations', hfacts⟩ := hbatch.exists_head
    obtain ⟨rfl, -⟩ := cons.inj (hmutations.symm.trans hmutations')
    exact fun m hm => ⟨(hfacts m hm).1, (hfacts m hm).2.1⟩
  have hmem : ∀ P : StagedMutation → Prop,
      (∀ m ∈ b.mutations.zip b.versions, P m.1) ↔ ∀ m ∈ b.mutations, P m := by
    intro P
    conv_rhs => rw [← b.map_fst_zip]
    rw [forall_mem_map]
  have hkeys : (b.mutations.zip b.versions).map (fun m => rowKey scope m.1) =
      b.mutations.map (rowKey scope) := by
    conv_rhs => rw [← b.map_fst_zip, map_map]
    rfl
  rw [oneByOne, runOneByOne_inserts_eq_ok_iff hp ((hmem _).mpr hinsert), hkeys,
    hmem fun m => p.nullColumn m.payload = none, hmem fun m => t.Absent (rowKey scope m)]

/-- A batch of inserts that passed its check fails only by a missing value, and then writes
nothing. -/
theorem appliesAtomically_insertBatch_iff
    (h : prevalidate scope b.transactionId t b.mutations = .ok ()) :
    b.AppliesAtomically ↔
      (b.oneByOne.isOk = false → ∃ m ∈ b.mutations, (p.nullColumn m.payload).isSome = true) := by
  obtain ⟨hok, hwrites⟩ := outcome_of_insertBatch hbatch hmutations hp h
  have hnull : b.outcome.2.isOk = false ↔
      ∃ m ∈ b.mutations, (p.nullColumn m.payload).isSome = true := by
    rw [← Bool.not_eq_true, hok]
    simp [Option.isSome_iff_ne_none]
  rw [appliesAtomically_iff]
  constructor
  · exact fun hatomic hfails => hnull.mp (hatomic.2 hfails).1
  · refine fun hfails => ⟨fun t' ht' => ?_, fun hrun => ?_⟩
    · obtain ⟨hvalues, -, -, hwrite⟩ :=
        (oneByOne_insertBatch_eq_ok_iff hbatch hmutations hp t').mp ht'
      have hsucceeds := hok.mpr hvalues
      refine ⟨hsucceeds, ?_⟩
      rw [tablesAfter, hwrites, if_pos hsucceeds, flatten_singleton, hwrite]
    · have hrefused := hnull.mpr (hfails hrun)
      refine ⟨hrefused, ?_⟩
      rw [tablesAfter, hwrites, if_neg (by simp [hrefused]), flatten_nil, write_nil]

end

/-- An insert batch of one user is checked exactly. -/
theorem appliesAtomically_insertBatch_of_user (b : CommitBatch .user t) (h : b.IsInsertBatch) :
    b.AppliesAtomically := by
  obtain ⟨first, rest, hmutations, hfacts⟩ := h.exists_head
  have hcondition : Scope.user = .user ∧
      isInsertBatch .user b.transactionId (first :: rest) = true := by
    refine ⟨rfl, ?_⟩
    rwa [IsInsertBatch, hmutations] at h
  have hprevalidate : prevalidate .user b.transactionId t b.mutations =
      (t.loadProvider .user first.tableId >>= fun p =>
        (t.validateInsertBatchRows p (b.mutations.map (rowKey .user))).mapError
          (.fromTable "Failed to insert batch row")) := by
    rw [hmutations, prevalidate, if_pos hcondition]
  have hkeys : ((b.mutations.map (rowKey .user)).map RowKey.primaryKey).Nodup ↔
      (b.mutations.map (rowKey .user)).Nodup := by
    refine ⟨List.Nodup.of_map _, fun hnodup => hnodup.map_on fun x hx y hy hpk => ?_⟩
    obtain ⟨m, hm, rfl⟩ := mem_map.mp hx
    obtain ⟨m', hm', rfl⟩ := mem_map.mp hy
    obtain ⟨-, htable, huser⟩ := hfacts m hm
    obtain ⟨-, htable', huser'⟩ := hfacts m' hm'
    exact RowKey.ext (htable.trans htable'.symm) (huser.trans huser'.symm) hpk
  have hvalid : prevalidate .user b.transactionId t b.mutations = .ok () ↔
      ∃ p, t.provider first.tableId = some p ∧ (b.mutations.map (rowKey .user)).Nodup ∧
        ∀ m ∈ b.mutations, t.Absent (rowKey .user m) := by
    simp only [hprevalidate, bind_eq_ok_iff, loadProvider_eq_ok_iff, mapError_eq_ok_iff,
      validateInsertBatchRows_eq_ok_iff, hkeys, forall_mem_map]
  by_cases hfree : prevalidate .user b.transactionId t b.mutations = .ok ()
  · obtain ⟨p, hp, hnodup, habsent⟩ := hvalid.mp hfree
    rw [appliesAtomically_insertBatch_iff h hmutations hp hfree]
    intro hfails
    by_contra hvalues
    simp only [not_exists, not_and, Bool.not_eq_true, Option.isSome_eq_false_iff,
      Option.isNone_iff_eq_none] at hvalues
    have hok := (oneByOne_insertBatch_eq_ok_iff h hmutations hp _).mpr
      ⟨hvalues, hnodup, habsent, rfl⟩
    simp [hok, Except.toBool] at hfails
  · rw [appliesAtomically_of_prevalidate_ne_ok hfree, ← Bool.not_eq_true, isOk_eq_true_iff]
    rintro ⟨t', hrun⟩
    obtain ⟨p, hp⟩ : ∃ p, t.provider first.tableId = some p := by
      obtain ⟨version, versions, hversions⟩ := exists_cons_of_ne_nil b.versions_ne_nil
      rw [oneByOne, hmutations, hversions, zip_cons_cons, runOneByOne_cons_eq_ok_iff] at hrun
      obtain ⟨row, hexecute, -⟩ := hrun
      obtain ⟨p, hp, -⟩ := executeMutation_eq_ok_iff.mp hexecute
      exact ⟨p, hp⟩
    obtain ⟨-, hnodup, habsent, -⟩ := (oneByOne_insertBatch_eq_ok_iff h hmutations hp t').mp hrun
    exact hfree (hvalid.mpr ⟨p, hp, hnodup, habsent⟩)

/-- An entry whose inserts are free passes its check; then the walk or the insert batch decides. -/
theorem appliesAtomically_of_unused_iff (hbatch : ¬(scope = .user ∧ b.IsInsertBatch))
    (hunused : InsertsUnused scope t b.mutations) :
    b.AppliesAtomically ↔
      (b.oneByOne.isOk = false → FailsUntouched scope b.transactionId t b.mutations) := by
  have hprevalidate := (prevalidate_eq_ok_iff (fun _ => b.checkMutation_eq_ok) hbatch).mpr hunused
  rw [FailsUntouched]
  split
  · rename_i h
    obtain ⟨first, rest, hmutations, hfacts⟩ := IsInsertBatch.exists_head h
    have hfirst : first ∈ inserts b.mutations := by
      have hmem : first ∈ b.mutations := by simp [hmutations]
      simpa [inserts, hmem] using (hfacts first hmem).1
    obtain ⟨p, hp, -⟩ := hunused.2 first hfirst
    rw [appliesAtomically_insertBatch_iff h hmutations hp hprevalidate]
    refine imp_congr_right fun _ => exists_congr fun m => and_congr_right fun hm => ?_
    obtain ⟨hkind, htable, -⟩ := hfacts m hm
    simp [IsRefused, hkind, htable, hp]
  · rename_i h
    have houtcome : b.outcome = _ := applyTransactionBatch_walk b.versions_ne_nil h hprevalidate
    have hcheck : ∀ m ∈ b.mutations.zip b.versions,
        checkMutation scope b.transactionId m.1 = .ok () :=
      fun m hm => b.checkMutation_eq_ok (of_mem_zip hm).1
    have hsame : b.tablesAfter = t ↔ b.outcome.1.flatten = [] := by
      rw [tablesAfter, houtcome]
      refine b.write_eq_self_iff fun entry hentry => ?_
      obtain ⟨m, hm, hversion⟩ := mem_map.mp (version_mem_of_mem_applyLoop hentry)
      exact hversion ▸ (of_mem_zip hm).2
    have hfails := applyLoop_fails_untouched_iff (t := t) hcheck
    rw [b.map_fst_zip] at hfails
    rw [appliesAtomically_iff, hsame, houtcome, hfails]
    refine and_iff_right fun t' ht' => ?_
    rw [tablesAfter, houtcome]
    exact applyLoop_of_runOneByOne (.start t) hcheck ht'

end CommitBatch

/-! ### Two entries that are not atomic -/

def itemsTable : TableId := ("shop", "items")

def itemKey (pk : String) : RowKey := ⟨itemsTable, none, pk⟩

def itemRow (pk : String) (title : String) : Row := ⟨[("id", .utf8 pk), ("title", .utf8 title)]⟩

def itemsProvider : TableProvider := ⟨"id", .text, false, ["id"]⟩

/-- A shared table with one live row, `a`, in the hot store. -/
def oneItem : Tables where
  provider table := if table = itemsTable then some itemsProvider else none
  hot key := if key = itemKey "a" then some ⟨⟨65536, by decide⟩, false, itemRow "a" "old"⟩ else none
  cold _ := none

def itemMutation (order : ℕ) (kind : OperationKind) (pk : String) (payload : Row) :
    StagedMutation where
  transactionId := "tx"
  mutationOrder := order
  tableId := itemsTable
  tableType := .shared
  userId := none
  operationKind := kind
  primaryKey := pk
  payload := payload
  tombstone := kind = .delete

/-- Two mutations applied to `oneItem` by the log entry with index two. -/
def itemBatch (mutations : List StagedMutation) (hslots : 2 = mutations.length)
    (htransaction : ∀ m ∈ mutations, m.transactionId = "tx")
    (hkeys : ∀ m ∈ mutations, KeepsKey itemsProvider m) : CommitBatch .shared oneItem where
  transactionId := "tx"
  mutations := mutations
  versions := [⟨131072, by decide⟩, ⟨131073, by decide⟩]
  nonempty := by
    rintro rfl
    cases hslots
  sameTransaction := htransaction
  owned := nofun
  slots := hslots
  newer key row h version hversion := by
    have hrow : row.version = ⟨65536, by decide⟩ := by
      simp only [oneItem] at h
      split at h
      · rw [← Option.some.inj h]
      · cases h
    rw [hrow]
    simp only [List.mem_cons, List.not_mem_nil, or_false] at hversion
    rcases hversion with rfl | rfl <;> decide
  keysKept m hm p hp := by
    simp only [oneItem, Option.ite_none_right_eq_some, Option.some.injEq] at hp
    exact hp.2 ▸ hkeys m hm

/-- `DELETE a; INSERT a` in one transaction. -/
def deleteThenInsert : CommitBatch .shared oneItem :=
  itemBatch [itemMutation 1 .delete "a" ⟨[]⟩, itemMutation 2 .insert "a" (itemRow "a" "new")]
    rfl (by decide) (by decide)

/-- `INSERT b; UPDATE c` in one transaction, where `c` does not exist. -/
def insertThenUpdate : CommitBatch .shared oneItem :=
  itemBatch [itemMutation 1 .insert "b" (itemRow "b" "new"),
    itemMutation 2 .update "c" ⟨[("title", .utf8 "new")]⟩] rfl (by decide) (by decide)

end KalamDB.Dml
