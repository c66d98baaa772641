import KalamDB.Lib.Runs
import KalamDB.Topics.Partition

/-!
# Offsets of a topic partition

The counter of a partition lives in memory, so a restart rebuilds it from what is left in the store.
**Retention may have deleted the last message** by then, or the read may fail, which is only logged.
In both cases the next publish gets an offset that was given out before, and a consumer group that
has acked it will never see the new message (`offset_reused_after_retention`).

As long as every restart reads the store and finds the last published message there, offsets only
grow (`published_offsets_increase`).
-/

namespace KalamDB.Topics

open Runs List TopicMessage PartitionWriteState

/-- A partition with the offsets of all messages that were ever published, in order, and what a
consumer group has acked. -/
structure PartitionHistory where
  partition : Partition
  published : List ℕ
  acked : Option ℕ

inductive HistoryEvent where
  | partition (e : PartitionEvent)
  /-- The group acks a message that it has got. -/
  | ack (offset : ℕ)

namespace PartitionHistory

variable (encodedLen : TopicMessage → ℕ)

def new : PartitionHistory := ⟨.fresh .empty, [], none⟩

def step (s : PartitionHistory) : HistoryEvent → Option PartitionHistory
  | .partition e =>
    let (messages, partition) := s.partition.step encodedLen e
    some { s with partition, published := s.published ++ messages.map TopicMessage.offset }
  | .ack offset =>
    if offset ∈ s.published then some { s with acked := some (max (s.acked.getD 0) offset) }
    else none

/-- A restart reads the store and finds the last published message, or one after it. -/
def Restores (s : PartitionHistory) : HistoryEvent → Prop
  | .partition (.restart reads) =>
    s.published = [] ∨
      reads = true ∧ ∀ o ∈ s.published, ∃ m ∈ s.partition.store.messages.entries, o ≤ m.offset
  | _ => True

/-- What was published lies below the counter, in increasing order, and nothing was acked beyond
it. -/
structure Numbered (s : PartitionHistory) : Prop where
  increasing : s.published.Pairwise (· < ·)
  below : ∀ o ∈ s.published, o < s.partition.write.nextOffset.getD 0
  acked : ∀ a, s.acked = some a → ∃ o ∈ s.published, a ≤ o

variable {encodedLen} {s s' : PartitionHistory}

/-- A counter that does not shrink keeps its place above what was published. -/
theorem Numbered.keep (h : Numbered s) {partition : Partition}
    (hnext : s.partition.write.nextOffset.getD 0 ≤ partition.write.nextOffset.getD 0) :
    Numbered { s with partition } where
  increasing := h.increasing
  below o ho := (h.below o ho).trans_le hnext
  acked := h.acked

theorem Numbered.publish (h : Numbered s) (context : PublishContext) (rows : List PublishRow)
    (writes : Bool) :
    Numbered { s with
      partition := (s.partition.publishBatch encodedLen context rows writes).2
      published := s.published ++
        (s.partition.publishBatch encodedLen context rows writes).1.map offset } := by
  rcases s.partition.publishBatch_cases encodedLen context rows writes with
    heq | ⟨-, heq⟩ | ⟨-, -, messages, rfl, heq⟩ <;> rw [heq]
  · simpa using h
  · have hkeep : Numbered { s with partition :=
        ⟨s.partition.store, (s.partition.write.allocate rows.length).2, s.partition.tail⟩ } :=
      h.keep (Nat.le_add_right _ _)
    simpa using hkeep
  · simp only [map_offset_messagesFrom]
    refine ⟨pairwise_append.mpr ⟨h.increasing, pairwise_lt_range', fun o ho o' ho' => ?_⟩,
      fun o ho => ?_, fun a ha => ?_⟩
    · exact (h.below o ho).trans_le (mem_range'_1.mp ho').1
    · rw [(addRetainedBytes_keeps _ _).1]
      rcases mem_append.mp ho with ho | ho
      · exact (h.below o ho).trans_le (Nat.le_add_right _ _)
      · exact (mem_range'_1.mp ho).2
    · obtain ⟨o, ho, hle⟩ := h.acked a ha
      exact ⟨o, mem_append_left _ ho, hle⟩

theorem Numbered.restart {reads : Bool} (h : Numbered s)
    (hrestores : Restores s (.partition (.restart reads))) :
    Numbered { s with partition := s.partition.restart reads } := by
  refine ⟨h.increasing, fun o ho => ?_, h.acked⟩
  rcases hrestores with hnone | ⟨rfl, hstored⟩
  · simp [hnone] at ho
  obtain ⟨m, hm, hle⟩ := hstored o ho
  obtain ⟨last, hlast⟩ : ∃ last, s.partition.store.messages.entries.getLast? = some last :=
    Option.isSome_iff_exists.mp (getLast?_isSome.mpr (ne_nil_of_mem hm))
  have hrestart : (s.partition.restart true).write.nextOffset = some (last.offset + 1) := by
    simp [Partition.restart, Partition.fresh, TopicMessageStore.latestOffset, hlast, seed]
  have hmax : m.offset ≤ last.offset := OrderedStore.le_of_getLast hlast hm
  rw [hrestart]
  exact Nat.lt_succ_of_le (hle.trans hmax)

theorem Numbered.step (e : HistoryEvent) (hrestores : Restores s e) (h : Numbered s)
    (hstep : PartitionHistory.step encodedLen s e = some s') : Numbered s' := by
  cases e with
  | partition e =>
    simp only [PartitionHistory.step] at hstep
    cases hstep
    rcases s.partition.step_cases encodedLen e with
      ⟨context, rows, writes, heq⟩ | (heq | ⟨cutoff, maxBytes, batchSize, stats, p', hret, heq⟩) |
        ⟨reads, rfl, heq⟩ <;> rw [heq]
    · exact h.publish context rows writes
    · simpa using h
    · have hkeep : Numbered { s with partition := p' } :=
        h.keep (by rw [Partition.enforceRetention_nextOffset hret])
      simpa using hkeep
    · simpa using h.restart hrestores
  | ack offset =>
    simp only [PartitionHistory.step] at hstep
    split at hstep
    · next hmem =>
      cases hstep
      refine ⟨h.increasing, h.below, fun a ha => ?_⟩
      cases ha
      cases hacked : s.acked with
      | none => exact ⟨offset, hmem, (Nat.zero_max offset).le⟩
      | some a =>
        obtain ⟨o, ho, hle⟩ := h.acked a hacked
        rcases le_total a offset with hmax | hmax
        · exact ⟨offset, hmem, max_le hmax le_rfl⟩
        · exact ⟨o, ho, max_le hle (hmax.trans hle)⟩
    · cases hstep

theorem numbered_new : Numbered new := ⟨.nil, nofun, nofun⟩

/-- New messages get offsets from the counter on. -/
theorem nextOffset_le_of_mem_step {p : Partition} {e : PartitionEvent} {m : TopicMessage}
    (hm : m ∈ (p.step encodedLen e).1) : p.write.nextOffset.getD 0 ≤ m.offset := by
  rcases p.step_cases encodedLen e with
    ⟨context, rows, writes, heq⟩ | (heq | ⟨_, _, _, _, _, -, heq⟩) | ⟨_, -, heq⟩ <;> rw [heq] at hm
  · rcases p.publishBatch_cases encodedLen context rows writes with
      heq | ⟨-, heq⟩ | ⟨-, -, messages, rfl, heq⟩ <;> rw [heq] at hm
    · cases hm
    · cases hm
    · exact (mem_messagesFrom_offset hm).1
  · cases hm
  · cases hm
  · cases hm

/-- **Offsets only grow** as long as every restart finds the last published message: they are
published in increasing order, and what is published next is beyond everything that was acked. -/
theorem published_offsets_increase {es : List HistoryEvent}
    (hok : Meets (step encodedLen) Restores new es) (hrun : run (step encodedLen) new es = some s) :
    s.published.Pairwise (· < ·) ∧
      ∀ a, s.acked = some a → ∀ e, ∀ m ∈ (s.partition.step encodedLen e).1, a < m.offset := by
  have h : Numbered s := run_invariant Numbered (fun _ e _ => Numbered.step e) numbered_new hok hrun
  refine ⟨h.increasing, fun a ha e m hm => ?_⟩
  obtain ⟨o, ho, hle⟩ := h.acked a ha
  exact (hle.trans_lt (h.below o ho)).trans_le (nextOffset_le_of_mem_step hm)

/-! ### Two runs -/

/-- A row that is published with a given timestamp. -/
def publishAt (timestampMs : ℤ) : HistoryEvent :=
  .partition (.publishMessage ⟨timestampMs, none, .insert⟩ ⟨[0], none⟩ true)

/-- Retention empties the partition between the ack and the restart. -/
def emptiedRun : List HistoryEvent :=
  [publishAt 1, .ack 0, .partition (.enforceRetention (some 10) none 100),
    .partition (.restart true), publishAt 20]

/-- The message that is published after the restart has the offset that was acked before it. -/
theorem offset_reused_after_retention :
    ∃ s, run (step TopicMessage.payloadLen) new emptiedRun = some s ∧
      s.published = [0, 0] ∧ s.acked = some 0 :=
  ⟨_, rfl, rfl, rfl⟩

/-- A write fails before the restart, and a message is left. -/
def keptRun : List HistoryEvent :=
  [publishAt 1, publishAt 20, .ack 1,
    .partition (.publishTyped [0] 21 none false),
    .partition (.enforceRetention (some 10) none 100), .partition (.restart true), publishAt 30]

theorem offsets_of_keptRun :
    ∃ s, run (step TopicMessage.payloadLen) new keptRun = some s ∧
      s.published = [0, 1, 2] ∧ s.acked = some 1 ∧ s.published.Pairwise (· < ·) ∧
      ∀ e, ∀ m ∈ (s.partition.step TopicMessage.payloadLen e).1, 1 < m.offset := by
  obtain ⟨s, hrun, hpublished, hacked⟩ :
      ∃ s, run (step payloadLen) new keptRun = some s ∧
        s.published = [0, 1, 2] ∧ s.acked = some 1 := ⟨_, rfl, rfl, rfl⟩
  have hok : Meets (step payloadLen) Restores new keptRun := by
    refine ⟨trivial, fun s₁ h₁ => ⟨trivial, fun s₂ h₂ => ⟨trivial, fun s₃ h₃ => ⟨trivial,
      fun s₄ h₄ => ⟨trivial, fun s₅ h₅ => ⟨?_, fun s₆ h₆ => ⟨trivial, fun _ _ => trivial⟩⟩⟩⟩⟩⟩⟩
    cases h₁; cases h₂; cases h₃; cases h₄; cases h₅
    exact .inr ⟨rfl, by decide⟩
  obtain ⟨hincreasing, hbeyond⟩ := published_offsets_increase hok hrun
  exact ⟨s, hrun, hpublished, hacked, hincreasing, hbeyond 1 hacked⟩

end PartitionHistory

end KalamDB.Topics
