import Mathlib.Data.List.Sort
import KalamDB.Topics.PartitionLog
import KalamDB.Topics.RetainedBytes

/-!
# The tail and the store

A fetch that the tail answers does not read the store. Retention deletes messages in the order of
their **timestamps**, and then trims the tail below the earliest **offset** that is left. If the
clock goes back between two publishes, the second message is deleted before the first one, and the
tail still returns it. A run that **fails** after deletions does not trim the tail at all
(`tail_returns_deleted`).

As long as retention finds its index in the order of the offsets and fails only before it has
deleted a message of the tail, every message of the tail is stored, and the tail returns what
reading the store would (`fetch_eq_fetchMessages`).
-/

namespace KalamDB.Topics.Partition

open Runs List OrderedStore PartitionTail

variable {encodedLen : TopicMessage → ℕ} {p p' : Partition}

/-- The messages of the tail are stored, and those of the store are in the retention index. -/
structure Mirrored (p : Partition) : Prop where
  sound : p.Sound
  stored : ∀ m ∈ p.tail.messages, m ∈ p.store.messages.entries
  indexed : ∀ m ∈ p.store.messages.entries,
    ∃ e ∈ p.store.retentionIndex.entries, e.offset = m.offset

/-- Where the tail begins, it holds all that is stored. -/
theorem Mirrored.scanFrom_eq_drop {offset : ℕ} (h : p.Mirrored) (hne : p.tail.messages ≠ [])
    (hle : p.tail.start ≤ offset) :
    p.store.messages.scanFrom offset = p.tail.messages.drop (offset - p.tail.start) := by
  have hoffsets : (p.tail.messages.drop (offset - p.tail.start)).map TopicMessage.offset =
      range' offset (p.tail.messages.length - (offset - p.tail.start)) := by
    rw [map_drop, h.sound.contiguous.offsets, drop_range', Nat.mul_one, Nat.add_sub_cancel' hle]
  refine (p.store.messages.sorted.filter _).eq_of_mem_iff
    (h.sound.contiguous.sorted.sublist (drop_sublist _ _)) fun m => ?_
  refine mem_scanFrom.trans ⟨?_, fun hm => ?_⟩
  · rintro ⟨hm, hge⟩
    have hlt := h.sound.tail_end hne m hm
    rw [h.sound.contiguous.endOffset hne] at hlt
    have hmem := mem_range'_1.mpr ⟨hge, (by omega : m.offset <
      offset + (p.tail.messages.length - (offset - p.tail.start)))⟩
    rw [← hoffsets] at hmem
    obtain ⟨m', hm', heq⟩ := mem_map.mp hmem
    exact eq_of_key_eq (h.stored m' (mem_of_mem_drop hm')) hm heq ▸ hm'
  · have hmem := mem_map_of_mem (f := TopicMessage.offset) hm
    rw [hoffsets] at hmem
    exact ⟨h.stored m (mem_of_mem_drop hm), (mem_range'_1.mp hmem).1⟩

/-- A retention run that ends with an error of the store. Until then it has deleted some first
entries of its index, by age and then by size, and may have loaded the counter of bytes. -/
def failRetention (p : Partition) (deleted : ℕ) (loads : Bool) : Partition :=
  let p := (p.deleteRetentionBatch (p.store.retentionIndex.entries.take deleted) ⟨0, 0⟩).2
  if loads then p.loadRetainedBytes.2 else p

inductive TailEvent where
  | event (e : PartitionEvent)
  | failRetention (deleted : ℕ) (loads : Bool)

def stepTail (encodedLen : TopicMessage → ℕ) (p : Partition) : TailEvent → Option Partition
  | .event e => stepEvent encodedLen p e
  | .failRetention deleted loads => some (p.failRetention deleted loads)

/-- Retention finds its index in the order of the offsets, or fails before it has deleted a message
of the tail, and restarts read the store. -/
def InOrder (p : Partition) : TailEvent → Prop
  | .event (.enforceRetention _ _ _) =>
    p.store.retentionIndex.entries.Pairwise fun a b => a.offset < b.offset
  | .event (.restart reads) => reads = true
  | .event _ => True
  | .failRetention deleted _ =>
    ∀ e ∈ p.store.retentionIndex.entries.take deleted, ∀ m ∈ p.tail.messages, m.offset ≠ e.offset

theorem Mirrored.publish (h : p.Mirrored) (context : PublishContext) (rows : List PublishRow)
    (writes : Bool) : (p.publishBatch encodedLen context rows writes).2.Mirrored := by
  have hsound : (p.publishBatch encodedLen context rows writes).2.Sound := h.sound.publish _ _ _
  rcases p.publishBatch_cases encodedLen context rows writes with
    heq | ⟨-, heq⟩ | ⟨-, -, messages, rfl, heq⟩ <;> rw [heq] at hsound ⊢
  · exact h
  · exact ⟨hsound, h.stored, h.indexed⟩
  refine ⟨hsound, fun m hm => ?_, fun m hm => ?_⟩
  · rcases mem_append.mp ((h.sound.contiguous.appendMessages _ _ _).2.2 hm) with hm | hm
    · have hm := h.stored m hm
      refine mem_putAll_of_mem hm fun m' hm' => ?_
      exact ((h.sound.stored_lt m hm).trans_le (mem_messagesFrom_offset hm').1).ne
    · exact mem_putAll (messagesFrom_pairwise context _ rows) hm
  · rcases mem_of_mem_putAll hm with hm | hm
    · have hkey := mem_map_of_mem (f := TopicRetentionIndexEntry.retentionKey)
        (mem_map_of_mem (f := fun m => .new m (encodedLen m)) hm)
      obtain ⟨e, he, heq⟩ := exists_mem_putAll (.inl hkey)
      exact ⟨e, he, congrArg (fun k => (ofLex k).2) heq⟩
    · obtain ⟨e, he, hoffset⟩ := h.indexed m hm
      obtain ⟨e', he', heq⟩ := exists_mem_putAll (.inr (mem_map_of_mem he))
      exact ⟨e', he', (congrArg (fun k => (ofLex k).2) heq).trans hoffset⟩

/-- The messages that a retention run leaves keep their entries. -/
theorem Mirrored.indexed_of_cuts {deleted : List TopicRetentionIndexEntry} (h : p.Mirrored)
    (hindex : p.store.retentionIndex.entries = deleted ++ p'.store.retentionIndex.entries)
    (hkept : ∀ m, m ∈ p'.store.messages.entries ↔ m ∈ p.store.messages.entries ∧
      m.offset ∉ deleted.map TopicRetentionIndexEntry.offset) :
    ∀ m ∈ p'.store.messages.entries,
      ∃ e ∈ p'.store.retentionIndex.entries, e.offset = m.offset := by
  intro m hm
  obtain ⟨hm, hnot⟩ := (hkept m).mp hm
  obtain ⟨e, he, heq⟩ := h.indexed m hm
  rw [hindex] at he
  refine ⟨e, (mem_append.mp he).resolve_left fun hd => hnot ?_, heq⟩
  exact heq ▸ mem_map_of_mem hd

theorem Mirrored.failRetention {deleted : ℕ} {loads : Bool} (h : p.Mirrored)
    (hin : p.InOrder (.failRetention deleted loads)) :
    (p.failRetention deleted loads).Mirrored := by
  have hsplit := (take_append_drop deleted p.store.retentionIndex.entries).symm
  obtain ⟨hdeletes, cut, hindex, hkept, -⟩ := (deleteChunks_deleted ⟨0, 0⟩ le_rfl hsplit).1
  have hcut : cut = p.store.retentionIndex.entries.take deleted := by
    have hrest := (deleteChunks_deleted ⟨0, 0⟩ le_rfl hsplit).2.1.index
    rw [hrest] at hindex
    exact (append_cancel_right (hsplit.symm.trans hindex)).symm
  have hdeleted :
      (p.deleteRetentionBatch (p.store.retentionIndex.entries.take deleted) ⟨0, 0⟩).2.Mirrored := by
    refine ⟨h.sound.deletes hdeletes, fun m hm => ?_, h.indexed_of_cuts hindex hkept⟩
    have hm : m ∈ p.tail.messages := hdeletes.tail ▸ hm
    refine (hkept m).mpr ⟨h.stored m hm, fun hmem => ?_⟩
    obtain ⟨e, he, heq⟩ := mem_map.mp hmem
    exact hin e (hcut ▸ he) m hm heq.symm
  have hload : ∀ q : Partition, q.Mirrored → q.loadRetainedBytes.2.Mirrored := by
    intro q hq
    unfold loadRetainedBytes
    split
    · exact hq
    · exact ⟨⟨hq.sound.stored_lt, hq.sound.logStart_le, hq.sound.contiguous, hq.sound.tail_end⟩,
        hq.stored, hq.indexed⟩
  cases loads with
  | false => exact hdeleted
  | true => exact hload _ hdeleted

theorem Mirrored.enforceRetention {cutoff maxBytes : Option ℤ} {batchSize : ℕ}
    {stats : TopicRetentionDeletionStats} (h : p.Mirrored)
    (hin : p.InOrder (.event (.enforceRetention cutoff maxBytes batchSize)))
    (hok : p.enforceRetention cutoff maxBytes batchSize = .ok (stats, p')) : p'.Mirrored := by
  have hsound := h.sound.enforceRetention hok
  obtain ⟨p₁, ⟨hdeletes, deleted, hindex, hkept, hcount⟩, hlast⟩ := enforceRetention_cases hok
  change List.Pairwise _ _ at hin
  rw [hindex] at hin
  have hleft := h.indexed_of_cuts hindex hkept
  rcases hlast with ⟨hzero, rfl⟩ | ⟨logStart, hlogStart, rfl⟩
  · refine ⟨hsound, fun m hm => (hkept m).mpr ⟨h.stored m (hdeletes.tail ▸ hm), ?_⟩, hleft⟩
    have hnil : deleted = [] := by simpa [hzero] using hcount.symm
    simp [hnil]
  refine ⟨hsound, fun m hm => ?_, hleft⟩
  have hcontiguous := h.sound.contiguous
  rw [← hdeletes.tail] at hcontiguous
  obtain ⟨htrimmed, hge⟩ := hcontiguous.trimBelow logStart
  have hge := hge m hm
  have hm := htrimmed.subset hm
  rw [hdeletes.tail] at hm
  refine (hkept m).mpr ⟨h.stored m hm, fun hmem => ?_⟩
  -- a message that was deleted lies below all that are left
  obtain ⟨d, hd, hoffset⟩ := mem_map.mp hmem
  rw [hlogStart, earliestOffset_eq, hdeletes.nextOffset] at hge
  cases hhead : p₁.store.messages.entries.head? with
  | none =>
    rw [hhead] at hge
    exact (h.sound.stored_lt m (h.stored m hm)).not_ge hge
  | some first =>
    rw [hhead] at hge
    obtain ⟨e, he, heq⟩ := hleft first (mem_of_mem_head? hhead)
    have hlt := (pairwise_append.mp hin).2.2 d hd e he
    rw [hoffset, heq] at hlt
    exact hlt.not_ge hge

theorem Mirrored.step {e : PartitionEvent} (h : p.Mirrored) (hin : p.InOrder (.event e)) :
    (p.step encodedLen e).2.Mirrored := by
  cases e with
  | publishMessage | publishTyped | publishBatch => exact h.publish _ _ _
  | enforceRetention cutoff maxBytes batchSize =>
    exact step_enforceRetention h fun stats p' hok => h.enforceRetention hin hok
  | restart reads =>
    obtain rfl : reads = true := hin
    have hfresh : (p.restart true).store = p.store ∧ (p.restart true).tail = .clear := by
      unfold restart
      dsimp only
      split <;> exact ⟨rfl, rfl⟩
    refine ⟨p.sound_restart, ?_, ?_⟩
    · change ∀ m ∈ (p.restart true).tail.messages, _
      simp [hfresh.2, clear]
    · exact hfresh.1.symm ▸ h.indexed

/-- **What the tail returns is what reading the store returns**, as long as retention finds its
index in the order of the offsets and fails before it has deleted a message of the tail. -/
theorem fetch_eq_fetchMessages {es : List TailEvent} {offset limit : ℕ}
    {messages : List TopicMessage} (hok : Meets (stepTail encodedLen) InOrder (fresh .empty) es)
    (hrun : run (stepTail encodedLen) (fresh .empty) es = some p)
    (hfetch : p.tail.fetch offset limit = some messages) :
    messages = p.store.fetchMessages offset limit := by
  have h : p.Mirrored := by
    refine run_invariant Mirrored (fun q e q' hin hq hstep => ?_) ?_ hok hrun
    · cases e with
      | event e =>
        cases hstep
        exact hq.step hin
      | failRetention deleted loads =>
        cases hstep
        exact hq.failRetention hin
    · exact ⟨⟨nofun, le_rfl, contiguous_clear, fun hne => absurd rfl hne⟩, nofun, nofun⟩
  unfold fetch at hfetch
  split at hfetch
  · cases hfetch
  next hempty =>
  have hne : p.tail.messages ≠ [] := mt isEmpty_iff.mpr hempty
  have hend := h.sound.contiguous.endOffset hne
  unfold TopicMessageStore.fetchMessages
  split at hfetch
  · cases hfetch
    rw [h.scanFrom_eq_drop hne (by omega), drop_of_length_le (by omega), take_nil]
  split at hfetch
  · cases hfetch
  rw [h.scanFrom_eq_drop hne (by omega)]
  split at hfetch
  · next hlimit => rw [← Option.some.inj hfetch, hlimit, take_zero]
  · exact (Option.some.inj hfetch).symm

/-- Two messages and a retention run. -/
def retained (first second cutoff : ℤ) : List TailEvent :=
  [.event (publishBytes first [1]), .event (publishBytes second [2]),
    .event (.enforceRetention (some cutoff) none 10)]

theorem tail_after_retention :
    ∃ p messages, run (stepTail TopicMessage.payloadLen) (fresh .empty) (retained 1 2 2) = some p ∧
      p.tail.fetch 1 5 = some messages ∧ messages = p.store.fetchMessages 1 5 := by
  have hok : Meets (stepTail TopicMessage.payloadLen) InOrder (fresh .empty) (retained 1 2 2) := by
    refine meets_cons trivial rfl (meets_cons trivial rfl ⟨?_, fun _ _ => trivial⟩)
    exact pairwise_pair.mpr Nat.zero_lt_one
  exact ⟨_, _, rfl, rfl, fetch_eq_fetchMessages hok rfl rfl⟩

/-- The second message is stamped before the first one and deleted alone; or the run fails after it
has deleted the message. -/
theorem tail_returns_deleted :
    (∃ p, run (stepTail TopicMessage.payloadLen) (fresh .empty) (retained 10 5 7) = some p ∧
      p.tail.fetch 1 5 = some [⟨1, [2], none, 5, none, .insert⟩] ∧
      p.store.fetchMessages 1 5 = []) ∧
    ∃ p, run (stepTail TopicMessage.payloadLen) (fresh .empty)
        [.event (publishBytes 1 [1]), .failRetention 1 false] = some p ∧
      p.tail.fetch 0 5 = some [⟨0, [1], none, 1, none, .insert⟩] ∧
      p.store.fetchMessages 0 5 = [] :=
  ⟨⟨_, rfl, rfl, rfl⟩, _, rfl, rfl, rfl⟩

end KalamDB.Topics.Partition
