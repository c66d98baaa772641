import KalamDB.Lib.Runs
import KalamDB.Topics.Partition

/-!
# Retained bytes

Byte retention deletes the oldest messages until a counter in memory says that the rest fits. The
counter is to be the sum of the sizes in the retention index. It is loaded lazily, by byte retention
only, and **whoever comes first after a restart takes an unset counter for zero**: a publish sets it
to the bytes of its own message, and a deletion by age sets it to zero
(`counter_restarts_from_zero`). Byte retention then stops long before the bytes fit.

As long as publishes and deletions by age find the counter set, or no entry before or after them,
the counter is exact whenever it is set, and byte retention only stops when the bytes fit or its
batch is used up (`retained_bytes_exact`).
-/

namespace KalamDB.Topics

open Runs List TopicRetentionIndexEntry OrderedStore PartitionWriteState
open KalamDB.Topics.Partition

namespace Partition

variable {encodedLen : TopicMessage → ℕ} {p p' : Partition}
  {others : List TopicRetentionIndexEntry} {rounds batchSize : ℕ}
  {stats : TopicRetentionDeletionStats} {rows : List PublishRow} {context : PublishContext}
  {cutoff maxBytes : Option ℤ}

/-- The counter is the sum over the index whenever it is set. -/
def Exact (p : Partition) : Prop :=
  ∀ b, p.write.retainedBytes = some b → b = p.store.retainedBytesForPartition

/-! ### Deletions -/

/-- A deletion keeps an exact counter exact, if it is set, or nothing or all is deleted. -/
theorem Exact.deleted {deleted : List TopicRetentionIndexEntry} (h : Exact p)
    (hindex : p.store.retentionIndex.entries = deleted ++ others)
    (hdeleted : Deleted p p' deleted others) (hset : p.write.retainedBytes ≠ none ∨ others = []) :
    Exact p' := by
  have htotal : p.store.retainedBytesForPartition = bytesOf deleted + bytesOf others := by
    rw [← bytesOf_append, ← hindex]
    rfl
  have hleft : p'.store.retainedBytesForPartition = bytesOf others := by
    rw [← hdeleted.index]
    rfl
  intro b hb
  rw [hleft]
  cases hcounter : p.write.retainedBytes with
  | some c =>
    have hbc : some b = some (c - bytesOf deleted) := hb.symm.trans (hdeleted.set c hcounter)
    rw [Option.some.inj hbc, h c hcounter, htotal, Nat.add_sub_cancel_left]
  | none =>
    obtain rfl : others = [] := hset.resolve_left fun hne => hne hcounter
    rcases hdeleted.unset hcounter with hnone | hzero
    · rw [hnone] at hb
      cases hb
    · exact (Option.some.inj (hb.symm.trans hzero)).trans rfl

/-! ### Byte retention -/

theorem selectEntries_ne_nil (retainedBytes maxBytes selected : ℕ)
    {entries : List TopicRetentionIndexEntry} (h : entries ≠ []) :
    selectEntries retainedBytes maxBytes selected entries ≠ [] := by
  cases entries with
  | nil => exact absurd rfl h
  | cons entry entries =>
    dsimp only [selectEntries]
    split <;> exact cons_ne_nil _ _

/-- Loading finds or makes the counter exact. -/
theorem Exact.load (h : Exact p) :
    p.loadRetainedBytes.2.write.retainedBytes = some p.loadRetainedBytes.1 ∧
      p.loadRetainedBytes.1 = p.store.retainedBytesForPartition ∧
      p.loadRetainedBytes.2.store = p.store := by
  unfold loadRetainedBytes
  split
  · next b hb => exact ⟨hb, h b hb, rfl⟩
  · exact ⟨rfl, rfl, rfl⟩

/-- A round of byte retention keeps an exact counter exact and deletes an entry. -/
theorem Exact.deleteSelected {limit : ℕ} (h : Exact p) (hset : p.write.retainedBytes ≠ none)
    (retained maxBytes : ℕ) (stats : TopicRetentionDeletionStats)
    (hne : p.store.retentionEntriesForPartition limit ≠ []) :
    Exact (p.deleteRetentionBatch (selectEntries retained maxBytes 0
        (p.store.retentionEntriesForPartition limit)) stats).2 ∧
      stats.messagesDeleted < (p.deleteRetentionBatch (selectEntries retained maxBytes 0
        (p.store.retentionEntriesForPartition limit)) stats).1.messagesDeleted := by
  have hselected := selectEntries_ne_nil retained maxBytes 0 hne
  obtain ⟨others, hindex⟩ := selected_append p.store retained maxBytes limit
  obtain ⟨-, hdeleted, hcount⟩ := deleteChunks_deleted stats le_rfl hindex
  refine ⟨h.deleted hindex hdeleted (.inl hset), ?_⟩
  rw [deleteRetentionBatch, hcount]
  exact Nat.lt_add_of_pos_right (length_pos_iff.mpr hselected)

/-- **Byte retention with an exact counter** keeps it exact, and stops when the bytes fit or the
batch is used up. -/
theorem Exact.enforceBytes (h : Exact p) (maxBytes : ℕ)
    (hrounds : batchSize ≤ stats.messagesDeleted + rounds) :
    Exact (enforceBytes maxBytes batchSize rounds p stats).2 ∧
      (batchSize ≤ (enforceBytes maxBytes batchSize rounds p stats).1.messagesDeleted ∨
        (enforceBytes maxBytes batchSize rounds p
          stats).2.store.retainedBytesForPartition ≤ maxBytes) := by
  induction rounds generalizing p stats with
  | zero => exact ⟨h, .inl hrounds⟩
  | succ rounds ih =>
    unfold enforceBytes
    by_cases hbatch : batchSize ≤ stats.messagesDeleted
    · rw [if_pos hbatch]
      exact ⟨h, .inl hbatch⟩
    rw [if_neg hbatch]
    obtain ⟨hcounter, hbytes, hstore⟩ := h.load
    generalize p.loadRetainedBytes = loaded at hcounter hbytes hstore ⊢
    obtain ⟨retained, q⟩ := loaded
    dsimp only at hcounter hbytes hstore ⊢
    have hq : Exact q := by
      intro b hb
      rw [hstore, ← hbytes]
      exact Option.some.inj (hb.symm.trans hcounter)
    split
    · next hfits =>
      refine ⟨hq, .inr ?_⟩
      rw [hstore, ← hbytes]
      exact hfits
    · split
      · next hempty =>
        -- An exact counter above the limit has an entry to delete.
        have hentries : q.store.retentionIndex.entries = [] := by
          have hnil := isEmpty_iff.mp hempty
          rcases take_eq_nil_iff.mp hnil with hzero | hnil
          · omega
          · exact hnil
        have hzero : q.store.retainedBytesForPartition = 0 := by
          rw [TopicMessageStore.retainedBytesForPartition, total, hentries]
          rfl
        rw [hstore] at hzero
        omega
      · next hnonempty =>
        have hset : q.write.retainedBytes ≠ none := by simp [hcounter]
        obtain ⟨hexact, hcount⟩ := hq.deleteSelected hset retained maxBytes stats
          fun hnil => hnonempty (isEmpty_iff.mpr hnil)
        rw [if_neg hcount.ne']
        exact ih hexact (by omega)

/-! ### Steps that keep the counter exact -/

/-- A publish finds the counter set or the index empty, and writes under new keys of the index. -/
def CountedPublish (p : Partition) (context : PublishContext) (rows : List PublishRow) : Prop :=
  (p.write.retainedBytes ≠ none ∨ p.store.retentionIndex.entries = []) ∧
    ∀ entry ∈ p.store.retentionIndex.entries,
      ∀ m ∈ messagesFrom context (p.write.nextOffset.getD 0) rows,
        entry.retentionKey ≠ toLex (m.timestampMs, m.offset)

/-- Publishes and deletions by age find the counter set, unless the index is empty before the
publish, or nothing or everything is deleted. -/
def Counted (p : Partition) : PartitionEvent → Prop
  | .publishMessage context row writes => writes = true → p.CountedPublish context [row]
  | .publishTyped payload timestampMs userId writes =>
    writes = true → p.CountedPublish ⟨timestampMs, userId, .insert⟩ [⟨payload, none⟩]
  | .publishBatch context rows writes => writes = true → p.CountedPublish context rows
  | .enforceRetention (some cutoff) _ batchSize =>
    p.write.retainedBytes ≠ none ∨ p.store.retentionEntriesBefore cutoff batchSize = [] ∨
      p.store.retentionEntriesBefore cutoff batchSize = p.store.retentionIndex.entries
  | _ => True

/-- New messages add their bytes to the sum over the index. -/
theorem retainedBytes_batchPut (hcounted : p.CountedPublish context rows) :
    (p.store.batchPutRawWithRetention encodedLen
        (messagesFrom context (p.write.nextOffset.getD 0) rows)).retainedBytesForPartition =
      p.store.retainedBytesForPartition +
        ((messagesFrom context (p.write.nextOffset.getD 0) rows).map encodedLen).sum := by
  generalize hmessages : messagesFrom context (p.write.nextOffset.getD 0) rows = messages
  have hdistinct : (messages.map fun m => new m (encodedLen m)).Pairwise
      fun a b => a.retentionKey ≠ b.retentionKey := by
    refine pairwise_map.mpr ?_
    rw [← hmessages]
    refine (messagesFrom_pairwise context _ rows).imp fun {a b} hne heq => ?_
    exact hne (congrArg (fun k => (ofLex k).2) heq)
  have hfresh : ∀ entry ∈ p.store.retentionIndex.entries,
      ∀ a ∈ messages.map fun m => new m (encodedLen m), entry.retentionKey ≠ a.retentionKey := by
    intro entry hentry a ha
    obtain ⟨m, hm, rfl⟩ := mem_map.mp ha
    exact hcounted.2 entry hentry m (hmessages ▸ hm)
  have htotal := total_putAll (f := messageBytes) hdistinct hfresh
  rw [map_map] at htotal
  exact htotal

theorem Exact.publish {writes : Bool} (h : Exact p)
    (hcounted : writes = true → p.CountedPublish context rows) :
    Exact (p.publishBatch encodedLen context rows writes).2 := by
  rcases p.publishBatch_cases encodedLen context rows writes with
    heq | ⟨-, heq⟩ | ⟨hwrites, -, messages, rfl, heq⟩ <;> rw [heq]
  · exact h
  · exact h
  intro b hb
  have hcounted := hcounted hwrites
  refine Eq.trans ?_ (retainedBytes_batchPut hcounted).symm
  simp only [addRetainedBytes] at hb
  split at hb
  · next hzero => rw [h b hb, hzero, Nat.add_zero]
  cases hb
  refine congrArg (· + _) ?_
  change p.write.retainedBytes.getD 0 = _
  cases hcounter : p.write.retainedBytes with
  | some c => exact h c hcounter
  | none =>
    have hempty := hcounted.1.resolve_left fun hne => hne hcounter
    rw [TopicMessageStore.retainedBytesForPartition, total, hempty]
    rfl

theorem Exact.enforceMaxBytes (h : Exact p) (maxBytes : Option ℤ) (batchSize : ℕ)
    (stats : TopicRetentionDeletionStats) :
    Exact (p.enforceMaxBytes maxBytes batchSize stats).2 ∧ ∀ limit, maxBytes = some limit →
      batchSize ≤ (p.enforceMaxBytes maxBytes batchSize stats).1.messagesDeleted ∨
      (p.enforceMaxBytes maxBytes batchSize stats).2.store.retainedBytesForPartition ≤
        limit.toNat := by
  cases maxBytes with
  | none => exact ⟨h, nofun⟩
  | some maxBytes =>
    obtain ⟨hexact, hstop⟩ := h.enforceBytes maxBytes.toNat (Nat.le_add_left batchSize _)
    refine ⟨hexact, fun limit hlimit => ?_⟩
    cases hlimit
    exact hstop

section

variable (h : Exact p) (hcounted : p.Counted (.enforceRetention cutoff maxBytes batchSize))
include h hcounted

theorem Exact.enforceCutoff : Exact (p.enforceCutoff cutoff batchSize).2 := by
  cases cutoff with
  | none => exact h
  | some cutoff =>
    obtain ⟨others, hothers⟩ := retentionEntriesBefore_append p.store cutoff batchSize
    have hdeleted := (deleteChunks_deleted ⟨0, 0⟩ le_rfl hothers).2.1
    rcases hcounted with hset | hnothing | hall
    · exact h.deleted hothers hdeleted (.inl hset)
    · have hkeeps : (p.enforceCutoff (some cutoff) batchSize).2 = p := by
        simp only [enforceCutoff, hnothing]
        rfl
      exact hkeeps.symm ▸ h
    · refine h.deleted hothers hdeleted (.inr ?_)
      rw [hall] at hothers
      exact append_cancel_left (hothers.symm.trans (append_nil _).symm)

/-- **A retention run** keeps the counter exact, and a limit on the bytes is met unless the batch is
used up. -/
theorem Exact.enforceRetention
    (hok : p.enforceRetention cutoff maxBytes batchSize = .ok (stats, p')) :
    Exact p' ∧ ∀ limit, maxBytes = some limit →
      batchSize ≤ stats.messagesDeleted ∨ p'.store.retainedBytesForPartition ≤ limit.toNat := by
  have hcutoff := h.enforceCutoff hcounted
  have hbytes := hcutoff.enforceMaxBytes maxBytes batchSize (p.enforceCutoff cutoff batchSize).1
  unfold Partition.enforceRetention at hok
  split at hok
  · cases hok
  dsimp only at hok
  split at hok
  · cases hok
    refine ⟨fun b hb => hbytes.1 b ?_, hbytes.2⟩
    rw [← hb]
    unfold setLogStart
    split <;> rfl
  · cases hok
    exact hbytes

end

/-- A retention run that is refused changes nothing. -/
theorem step_enforceRetention {P : Partition → Prop} (h : P p)
    (hok : ∀ stats p', p.enforceRetention cutoff maxBytes batchSize = .ok (stats, p') → P p') :
    P (p.step encodedLen (.enforceRetention cutoff maxBytes batchSize)).2 := by
  cases hret : p.enforceRetention cutoff maxBytes batchSize with
  | ok result => simpa only [step, hret] using hok _ _ hret
  | error message => simpa only [step, hret] using h

theorem Exact.step {e : PartitionEvent} (h : Exact p) (hcounted : p.Counted e) :
    Exact (p.step encodedLen e).2 := by
  cases e with
  | publishMessage | publishTyped | publishBatch => exact h.publish hcounted
  | enforceRetention cutoff maxBytes batchSize =>
    exact step_enforceRetention h fun stats p' hok => (h.enforceRetention hcounted hok).1
  | restart reads =>
    -- The counter is not set in a fresh runtime.
    intro b hb
    change (p.restart reads).write.retainedBytes = some b at hb
    unfold restart at hb
    dsimp only at hb
    split at hb <;> cases hb

/-! ### Runs -/

/-- The steps of a partition, without what they publish. -/
def stepEvent (encodedLen : TopicMessage → ℕ) (p : Partition) (e : PartitionEvent) :
    Option Partition :=
  some (p.step encodedLen e).2

/-- **The counter is exact whenever it is set**, as long as publishes and deletions by age do not
find it unset, and then byte retention stops only when the bytes fit or its batch is used up. -/
theorem retained_bytes_exact {es : List PartitionEvent}
    (hok : Meets (stepEvent encodedLen) Counted (fresh .empty) es)
    (hrun : run (stepEvent encodedLen) (fresh .empty) es = some p) :
    (∀ b, p.write.retainedBytes = some b → b = p.store.retainedBytesForPartition) ∧
      ∀ cutoff maxBytes batchSize stats p',
        p.Counted (.enforceRetention cutoff (some maxBytes) batchSize) →
        p.enforceRetention cutoff (some maxBytes) batchSize = .ok (stats, p') →
        batchSize ≤ stats.messagesDeleted ∨
          p'.store.retainedBytesForPartition ≤ maxBytes.toNat := by
  have h : Exact p := by
    refine run_invariant Exact (fun q e q' hcounted hq hstep => ?_) ?_ hok hrun
    · cases hstep
      exact hq.step hcounted
    · exact nofun
  refine ⟨h, fun cutoff maxBytes batchSize stats p' hcounted hret => ?_⟩
  exact (h.enforceRetention hcounted hret).2 maxBytes rfl

/-! ### Two runs -/

def publishBytes (timestampMs : ℤ) (payload : List UInt8) : PartitionEvent :=
  .publishMessage ⟨timestampMs, none, .insert⟩ ⟨payload, none⟩ true

/-- After the restart, a publish sets the counter to the bytes of its own message, and byte
retention finds nothing to do. -/
theorem counter_restarts_from_zero :
    ∃ p, run (stepEvent TopicMessage.payloadLen) (fresh .empty)
        [publishBytes 1 [1, 2, 3], .restart true, publishBytes 2 [4]] = some p ∧
      p.write.retainedBytes = some 1 ∧ p.store.retainedBytesForPartition = 4 ∧
      p.enforceRetention none (some 2) 100 = .ok (⟨0, 0⟩, p) :=
  ⟨_, rfl, rfl, rfl, rfl⟩

/-- Byte retention loads the counter before the next publish. -/
def loadedRun : List PartitionEvent :=
  [publishBytes 1 [1, 2, 3], .restart true, .enforceRetention none (some 100) 10,
    publishBytes 2 [4]]

theorem counter_of_loadedRun :
    ∃ p, run (stepEvent TopicMessage.payloadLen) (fresh .empty) loadedRun = some p ∧
      p.write.retainedBytes = some p.store.retainedBytesForPartition ∧
      ∃ stats p', p.enforceRetention none (some 2) 100 = .ok (stats, p') ∧
        (100 ≤ stats.messagesDeleted ∨ p'.store.retainedBytesForPartition ≤ 2) := by
  obtain ⟨p, stats, p', hrun, hcounter, hret⟩ :
      ∃ p stats p', run (stepEvent TopicMessage.payloadLen) (fresh .empty) loadedRun = some p ∧
        p.write.retainedBytes = some 4 ∧
        p.enforceRetention none (some 2) 100 = .ok (stats, p') :=
    ⟨_, _, _, rfl, rfl, rfl⟩
  have hok : Meets (stepEvent TopicMessage.payloadLen) Counted (fresh .empty) loadedRun := by
    refine ⟨fun _ => ⟨.inr rfl, nofun⟩, fun p₁ h₁ => ⟨trivial, fun p₂ h₂ => ⟨trivial,
      fun p₃ h₃ => ⟨fun _ => ?_, fun _ _ => trivial⟩⟩⟩⟩
    cases h₁
    cases h₂
    cases h₃
    exact ⟨.inl nofun, by decide⟩
  obtain ⟨hexact, hstop⟩ := retained_bytes_exact hok hrun
  exact ⟨p, hrun, hexact 4 hcounter ▸ hcounter, stats, p', hret,
    hstop none 2 100 stats p' trivial hret⟩

end Partition

end KalamDB.Topics
