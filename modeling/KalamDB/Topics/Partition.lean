import Mathlib.Data.Prod.Lex
import KalamDB.Lib.OrderedStore

/-!
# Topic partitions

A topic partition is a log of messages in two column families: the **messages**, ordered by offset,
and a **retention index**, ordered by timestamp and then offset. Beside the store, the server keeps
the runtime of the partition in memory: the next offset, the bytes that are retained, the start of
the log, and a **tail** of recently published messages.

A publish takes its offset from the counter before the message is written, so a write that fails
leaves a hole in the log. Retention deletes messages by age and by size. A restart forgets the
runtime and seeds the counter from the last message that is stored. A partition without a runtime is
read like one whose runtime is fresh.
-/

namespace KalamDB.Topics

open List OrderedStore

inductive TopicOp where
  | insert
  | update
  | delete
  deriving DecidableEq

structure TopicMessage where
  offset : ℕ
  payload : List UInt8
  key : Option String
  timestampMs : ℤ
  userId : Option String
  op : TopicOp
  deriving DecidableEq

/-- A size for messages that only counts the payload. The real one is that of the encoding. -/
def TopicMessage.payloadLen (m : TopicMessage) : ℕ := m.payload.length

structure TopicRetentionIndexEntry where
  timestampMs : ℤ
  offset : ℕ
  messageBytes : ℕ
  deriving DecidableEq

def TopicRetentionIndexEntry.new (message : TopicMessage) (messageBytes : ℕ) :
    TopicRetentionIndexEntry :=
  ⟨message.timestampMs, message.offset, messageBytes⟩

def TopicRetentionIndexEntry.retentionKey (entry : TopicRetentionIndexEntry) : ℤ ×ₗ ℕ :=
  toLex (entry.timestampMs, entry.offset)

structure TopicRetentionDeletionStats where
  messagesDeleted : ℕ
  bytesFreed : ℕ
  deriving DecidableEq

/-! ### The message store -/

structure TopicMessageStore where
  messages : OrderedStore TopicMessage.offset
  retentionIndex : OrderedStore TopicRetentionIndexEntry.retentionKey

variable (store : TopicMessageStore) (encodedLen : TopicMessage → ℕ)

namespace TopicMessageStore

def empty : TopicMessageStore := ⟨.empty, .empty⟩

/-- Messages and their index entries are written in one batch. -/
def batchPutRawWithRetention (store : TopicMessageStore)
    (messages : List TopicMessage) : TopicMessageStore where
  messages := store.messages.putAll messages
  retentionIndex := store.retentionIndex.putAll
    (messages.map fun message => .new message (encodedLen message))

def fetchMessages (offset limit : ℕ) : List TopicMessage :=
  (store.messages.scanFrom offset).take limit

def latestOffset : Option ℕ :=
  store.messages.entries.getLast?.map TopicMessage.offset

def earliestOffset : Option ℕ :=
  (store.fetchMessages 0 1).head?.map TopicMessage.offset

def retentionEntriesForPartition (limit : ℕ) :
    List TopicRetentionIndexEntry :=
  store.retentionIndex.entries.take limit

def retentionEntriesBefore (cutoff : ℤ) (limit : ℕ) :
    List TopicRetentionIndexEntry :=
  (store.retentionEntriesForPartition limit).takeWhile fun entry =>
    decide (entry.timestampMs < cutoff)

/-- Messages and their index entries are deleted in one batch. -/
def deleteRetentionEntries (entries : List TopicRetentionIndexEntry) :
    TopicRetentionDeletionStats × TopicMessageStore :=
  (⟨entries.length, (entries.map TopicRetentionIndexEntry.messageBytes).sum⟩,
    { messages := store.messages.removeAll (entries.map TopicRetentionIndexEntry.offset)
      retentionIndex :=
        store.retentionIndex.removeAll (entries.map TopicRetentionIndexEntry.retentionKey) })

def retainedBytesForPartition : ℕ :=
  store.retentionIndex.total TopicRetentionIndexEntry.messageBytes

end TopicMessageStore

/-! ### The tail -/

def tailMaxMessages : ℕ := 1024

def tailMaxBytes : ℕ := 1024 * 1024

/-- Recently published messages, with consecutive offsets. -/
structure PartitionTail where
  start : ℕ
  endOffset : ℕ
  bytes : ℕ
  messages : List TopicMessage

namespace PartitionTail

def clear : PartitionTail := ⟨0, 0, 0, []⟩

/-- Messages are popped from the front as long as a test holds. -/
def popFrontWhile (test : PartitionTail → TopicMessage → Bool) :
    List TopicMessage → PartitionTail → PartitionTail
  | [], tail => tail
  | dropped :: rest, tail =>
    if test tail dropped then
      popFrontWhile test rest
        { tail with
          messages := rest
          bytes := tail.bytes - dropped.payload.length
          start := dropped.offset + 1 }
    else tail

variable (tail : PartitionTail)

def trimCapacity : PartitionTail :=
  let tail := popFrontWhile (fun tail _ =>
    decide (tailMaxMessages < tail.messages.length ∨ tailMaxBytes < tail.bytes)) tail.messages tail
  if tail.messages.isEmpty then { tail with endOffset := tail.start, bytes := 0 } else tail

def trimBelow (earliest : ℕ) : PartitionTail :=
  let tail := popFrontWhile (fun _ front => decide (front.offset < earliest)) tail.messages tail
  if tail.messages.isEmpty then
    { tail with start := earliest, endOffset := earliest, bytes := 0 }
  else tail

def append (message : TopicMessage) : PartitionTail :=
  let tail :=
    if !tail.messages.isEmpty && decide (message.offset ≠ tail.endOffset) then clear else tail
  if tail.messages.isEmpty then
    trimCapacity ⟨message.offset, message.offset + 1, message.payload.length, [message]⟩
  else
    trimCapacity
      { tail with
        bytes := tail.bytes + message.payload.length
        endOffset := message.offset + 1
        messages := tail.messages ++ [message] }

def appendMessages (messages : List TopicMessage) : PartitionTail :=
  messages.foldl append tail

/-- No messages at the end of the tail are a hit; `none` means that the store is to be read. -/
def fetch (offset limit : ℕ) : Option (List TopicMessage) :=
  if tail.messages.isEmpty then none
  else if offset = tail.endOffset then some []
  else if offset < tail.start ∨ tail.endOffset < offset then none
  else if limit = 0 then some []
  else some ((tail.messages.drop (offset - tail.start)).take limit)

end PartitionTail

/-! ### The write state -/

structure PartitionWriteState where
  nextOffset : Option ℕ
  retainedBytes : Option ℕ
  logStart : ℕ
  deriving DecidableEq

namespace PartitionWriteState

def fresh : PartitionWriteState := ⟨none, none, 0⟩

variable (write : PartitionWriteState)

/-- The first of the allocated offsets, and the state after. -/
def allocate (count : ℕ) : ℕ × PartitionWriteState :=
  let start := write.nextOffset.getD 0
  (start, { write with nextOffset := some (start + count) })

def seed (nextOffset : ℕ) : PartitionWriteState :=
  { write with nextOffset := some nextOffset }

def addRetainedBytes (bytes : ℕ) : PartitionWriteState :=
  if bytes = 0 then write
  else { write with retainedBytes := some (write.retainedBytes.getD 0 + bytes) }

def subtractRetainedBytes (bytes : ℕ) : PartitionWriteState :=
  if bytes = 0 then write
  else match write.retainedBytes with
    | some current => { write with retainedBytes := some (current - bytes) }
    | none => { write with retainedBytes := some 0 }

def setRetainedBytes (bytes : ℕ) : PartitionWriteState :=
  { write with retainedBytes := some bytes }

def setLogStart (offset : ℕ) : PartitionWriteState :=
  if write.logStart < offset then { write with logStart := offset } else write

end PartitionWriteState

/-! ### Publishing -/

/-- The log of a partition with its runtime. -/
structure Partition where
  store : TopicMessageStore
  write : PartitionWriteState
  tail : PartitionTail

/-- What a route made of a row. -/
structure PublishRow where
  payload : List UInt8
  key : Option String
  deriving DecidableEq

/-- What the rows of a publish have in common. -/
structure PublishContext where
  timestampMs : ℤ
  userId : Option String
  op : TopicOp
  deriving DecidableEq

/-- The messages of consecutive rows. -/
def messagesFrom (context : PublishContext) : ℕ → List PublishRow → List TopicMessage
  | _, [] => []
  | offset, row :: rows =>
    ⟨offset, row.payload, row.key, context.timestampMs, context.userId, context.op⟩ ::
      messagesFrom context (offset + 1) rows

namespace Partition

variable (encodedLen : TopicMessage → ℕ)

def fresh : Partition := ⟨store, .fresh, .clear⟩

variable (p : Partition)

/-- The rows of a batch that fall into the partition are published under the write lock. The
messages are returned if the write succeeds; otherwise only the offsets are used up. -/
def publishBatch (context : PublishContext) (rows : List PublishRow)
    (writes : Bool) : List TopicMessage × Partition :=
  if rows.isEmpty then ([], p)
  else
    let (startOffset, write) := p.write.allocate rows.length
    let messages := messagesFrom context startOffset rows
    if writes then
      (messages,
        { store := p.store.batchPutRawWithRetention encodedLen messages
          write := write.addRetainedBytes (messages.map encodedLen).sum
          tail := p.tail.appendMessages messages })
    else ([], { p with write })

def publishMessage (context : PublishContext) (row : PublishRow) (writes : Bool) :
    List TopicMessage × Partition :=
  p.publishBatch encodedLen context [row] writes

/-- A typed payload has no key and is always an insert. -/
def publishTyped (payload : List UInt8) (timestampMs : ℤ) (userId : Option String)
    (writes : Bool) : List TopicMessage × Partition :=
  p.publishMessage encodedLen ⟨timestampMs, userId, .insert⟩ ⟨payload, none⟩ writes

/-! ### Reading -/

def earliestAvailableOffset : ℕ :=
  p.store.earliestOffset.getD p.write.logStart

def latestOffset : Option ℕ :=
  match p.write.nextOffset with
  | some next => if next = 0 then none else some (next - 1)
  | none => p.store.latestOffset

def logHighWatermark (earliest : ℕ) : ℕ :=
  match p.latestOffset with
  | some last => last + 1
  | none => earliest

def loadMessages (offset limit : ℕ) : List TopicMessage :=
  (p.tail.fetch offset limit).getD (p.store.fetchMessages offset limit)

/-! ### Retention -/

def retentionChunk : ℕ := 512

/-- Entries are deleted in chunks, with the counter adjusted after each. Every chunk deletes an
entry, so there are at most as many rounds as entries. -/
def deleteChunks : ℕ → Partition → List TopicRetentionIndexEntry → TopicRetentionDeletionStats →
    TopicRetentionDeletionStats × Partition
  | 0, p, _, stats => (stats, p)
  | rounds + 1, p, rest, stats =>
    if rest.isEmpty then (stats, p)
    else
      let (deleted, store) := p.store.deleteRetentionEntries (rest.take retentionChunk)
      if deleted.messagesDeleted = 0 then (stats, { p with store })
      else
        deleteChunks rounds
          { p with store, write := p.write.subtractRetainedBytes deleted.bytesFreed }
          (rest.drop retentionChunk)
          ⟨stats.messagesDeleted + deleted.messagesDeleted, stats.bytesFreed + deleted.bytesFreed⟩

def deleteRetentionBatch (entries : List TopicRetentionIndexEntry)
    (stats : TopicRetentionDeletionStats) : TopicRetentionDeletionStats × Partition :=
  deleteChunks entries.length p entries stats

/-- The counter, which is loaded from the index when it is not set. -/
def loadRetainedBytes : ℕ × Partition :=
  match p.write.retainedBytes with
  | some bytes => (bytes, p)
  | none =>
    let bytes := p.store.retainedBytesForPartition
    (bytes, { p with write := p.write.setRetainedBytes bytes })

/-- The first entries, up to the one with which enough bytes are selected. -/
def selectEntries (retainedBytes maxBytes : ℕ) :
    ℕ → List TopicRetentionIndexEntry → List TopicRetentionIndexEntry
  | _, [] => []
  | selectedBytes, entry :: entries =>
    let selectedBytes := selectedBytes + entry.messageBytes
    if retainedBytes - selectedBytes ≤ maxBytes then [entry]
    else entry :: selectEntries retainedBytes maxBytes selectedBytes entries

/-- The loop of byte retention. Every round but the last deletes an entry, so there are at most as
many rounds as the batch size. -/
def enforceBytes (maxBytes batchSize : ℕ) :
    ℕ → Partition → TopicRetentionDeletionStats → TopicRetentionDeletionStats × Partition
  | 0, p, stats => (stats, p)
  | rounds + 1, p, stats =>
    if batchSize ≤ stats.messagesDeleted then (stats, p)
    else
      let (retainedBytes, p) := p.loadRetainedBytes
      if retainedBytes ≤ maxBytes then (stats, p)
      else
        let entries := p.store.retentionEntriesForPartition (batchSize - stats.messagesDeleted)
        if entries.isEmpty then (stats, { p with write := p.write.setRetainedBytes 0 })
        else
          let before := stats.messagesDeleted
          let (stats, p) :=
            p.deleteRetentionBatch (selectEntries retainedBytes maxBytes 0 entries) stats
          if stats.messagesDeleted = before then (stats, p)
          else enforceBytes maxBytes batchSize rounds p stats

/-- The part of a retention run that is about age. -/
def enforceCutoff (cutoff : Option ℤ) (batchSize : ℕ) :
    TopicRetentionDeletionStats × Partition :=
  match cutoff with
  | some cutoff => p.deleteRetentionBatch (p.store.retentionEntriesBefore cutoff batchSize) ⟨0, 0⟩
  | none => (⟨0, 0⟩, p)

/-- The part of a retention run that is about size. A negative limit counts as none left. -/
def enforceMaxBytes (maxBytes : Option ℤ) (batchSize : ℕ)
    (stats : TopicRetentionDeletionStats) : TopicRetentionDeletionStats × Partition :=
  match maxBytes with
  | some maxBytes => enforceBytes maxBytes.toNat batchSize batchSize p stats
  | none => (stats, p)

/-- Expired entries are deleted first, and then the oldest ones until the bytes fit. This is a run
in which the store answers; one that ends with an error of the store is `failRetention`. -/
def enforceRetention (cutoff maxBytes : Option ℤ) (batchSize : ℕ) :
    Except String (TopicRetentionDeletionStats × Partition) :=
  if batchSize = 0 then .error "batch_size must be greater than 0"
  else
    let (stats, p) := p.enforceCutoff cutoff batchSize
    let (stats, p) := p.enforceMaxBytes maxBytes batchSize stats
    if 0 < stats.messagesDeleted then
      let logStart := p.store.earliestOffset.getD (p.write.nextOffset.getD 0)
      .ok (stats,
        { p with write := p.write.setLogStart logStart, tail := p.tail.trimBelow logStart })
    else .ok (stats, p)

/-! ### Restarts -/

/-- The runtime is lost, and the counter restored from the store. A read that fails is only
logged. -/
def restart (reads : Bool) : Partition :=
  let p := fresh p.store
  match if reads then p.store.latestOffset else none with
  | some lastOffset => { p with write := p.write.seed (lastOffset + 1) }
  | none => p

end Partition

/-! ### What the operations change -/

variable (context : PublishContext) (start : ℕ) (rows : List PublishRow) (p : Partition)

theorem map_offset_messagesFrom :
    (messagesFrom context start rows).map TopicMessage.offset = range' start rows.length := by
  induction rows generalizing start with
  | nil => rfl
  | cons row rows ih => exact congrArg (start :: ·) (ih (start + 1))

theorem mem_messagesFrom_offset {context : PublishContext} {start : ℕ} {rows : List PublishRow}
    {m : TopicMessage} (hm : m ∈ messagesFrom context start rows) :
    start ≤ m.offset ∧ m.offset < start + rows.length := by
  have hmem := mem_map_of_mem (f := TopicMessage.offset) hm
  rw [map_offset_messagesFrom] at hmem
  exact mem_range'_1.mp hmem

theorem messagesFrom_pairwise :
    (messagesFrom context start rows).Pairwise fun a b => a.offset ≠ b.offset := by
  have h := nodup_range' (s := start) (n := rows.length)
  rw [← map_offset_messagesFrom context start rows] at h
  exact pairwise_map.mp h

/-- **A publish** does nothing, uses up offsets, or writes messages at the next offsets. -/
theorem Partition.publishBatch_cases (context : PublishContext)
    (rows : List PublishRow) (writes : Bool) :
    p.publishBatch encodedLen context rows writes = ([], p) ∨
    writes = false ∧ p.publishBatch encodedLen context rows writes =
      ([], { p with write := (p.write.allocate rows.length).2 }) ∨
    writes = true ∧ rows ≠ [] ∧ ∃ messages,
      messages = messagesFrom context (p.write.nextOffset.getD 0) rows ∧
      p.publishBatch encodedLen context rows writes = (messages,
        { store := p.store.batchPutRawWithRetention encodedLen messages
          write := (p.write.allocate rows.length).2.addRetainedBytes (messages.map encodedLen).sum
          tail := p.tail.appendMessages messages }) := by
  unfold publishBatch
  by_cases hrows : rows = []
  · exact .inl (if_pos (isEmpty_iff.mpr hrows))
  rw [if_neg (mt List.isEmpty_iff.mp hrows)]
  cases writes with
  | false => exact .inr (.inl ⟨rfl, rfl⟩)
  | true => exact .inr (.inr ⟨rfl, hrows, _, rfl, rfl⟩)

section

variable (write : PartitionWriteState) (bytes : ℕ)

theorem PartitionWriteState.addRetainedBytes_keeps :
    (write.addRetainedBytes bytes).nextOffset = write.nextOffset ∧
      (write.addRetainedBytes bytes).logStart = write.logStart := by
  unfold addRetainedBytes
  split <;> exact ⟨rfl, rfl⟩

theorem PartitionWriteState.subtractRetainedBytes_keeps :
    (write.subtractRetainedBytes bytes).nextOffset = write.nextOffset ∧
      (write.subtractRetainedBytes bytes).logStart = write.logStart := by
  unfold subtractRetainedBytes
  split
  · exact ⟨rfl, rfl⟩
  · split <;> exact ⟨rfl, rfl⟩

theorem PartitionWriteState.setLogStart_keeps (offset : ℕ) :
    (write.setLogStart offset).nextOffset = write.nextOffset ∧
      (write.setLogStart offset).logStart = max write.logStart offset := by
  unfold setLogStart
  split
  · next h => exact ⟨rfl, (max_eq_right h.le).symm⟩
  · next h => exact ⟨rfl, (max_eq_left (not_lt.mp h)).symm⟩

end

/-- Some messages are deleted and the counter of bytes is adjusted. -/
structure Partition.Deletes (p p' : Partition) : Prop where
  nextOffset : p'.write.nextOffset = p.write.nextOffset
  logStart : p'.write.logStart = p.write.logStart
  tail : p'.tail = p.tail
  messages : ∀ m ∈ p'.store.messages.entries, m ∈ p.store.messages.entries

namespace Partition

variable {stats : TopicRetentionDeletionStats} {p p' : Partition} {rounds batchSize : ℕ}
  {cutoff maxBytes : Option ℤ} {l r others : List TopicRetentionIndexEntry}

theorem Deletes.trans {p₁ p₂ p₃ : Partition} (h : Deletes p₁ p₂) (h' : Deletes p₂ p₃) :
    Deletes p₁ p₃ :=
  ⟨h'.nextOffset.trans h.nextOffset, h'.logStart.trans h.logStart, h'.tail.trans h.tail,
    fun m hm => h.messages m (h'.messages m hm)⟩

/-- The bytes of some entries. -/
def bytesOf (entries : List TopicRetentionIndexEntry) : ℕ :=
  (entries.map TopicRetentionIndexEntry.messageBytes).sum

theorem bytesOf_append (l r : List TopicRetentionIndexEntry) :
    bytesOf (l ++ r) = bytesOf l + bytesOf r := by
  rw [bytesOf, map_append, sum_append]
  rfl

/-- What a deletion leaves: the other entries, and a counter that was set is lowered by the bytes of
the deleted ones. A counter that was not set is zero afterwards, if it is set at all. -/
structure Deleted (p p' : Partition) (deleted others : List TopicRetentionIndexEntry) : Prop where
  index : p'.store.retentionIndex.entries = others
  set : ∀ b, p.write.retainedBytes = some b → p'.write.retainedBytes = some (b - bytesOf deleted)
  unset : p.write.retainedBytes = none →
    p'.write.retainedBytes = none ∨ p'.write.retainedBytes = some 0

theorem Deleted.trans {p₁ p₂ p₃ : Partition} {others' : List TopicRetentionIndexEntry}
    (h : Deleted p₁ p₂ l others) (h' : Deleted p₂ p₃ r others') :
    Deleted p₁ p₃ (l ++ r) others' where
  index := h'.index
  set b hb := by
    rw [h'.set _ (h.set b hb), bytesOf_append, Nat.sub_add_eq]
  unset hnone := by
    rcases h.unset hnone with hmid | hmid
    · exact h'.unset hmid
    · exact .inr (by rw [h'.set 0 hmid, Nat.zero_sub])

open PartitionWriteState

theorem deleted_chunk (hindex : p.store.retentionIndex.entries = l ++ r) :
    Deleted p
      { p with
        store := (p.store.deleteRetentionEntries l).2
        write := p.write.subtractRetainedBytes (bytesOf l) } l r where
  index := entries_removeAll_of_append hindex
  set b hb := by
    by_cases hzero : bytesOf l = 0 <;> simp [subtractRetainedBytes, hzero, hb]
  unset hnone := by
    by_cases hzero : bytesOf l = 0 <;> simp [subtractRetainedBytes, hzero, hnone]

/-- A part of a retention run deletes the first entries of the index with their messages, and counts
them. -/
def Cuts (a b : TopicRetentionDeletionStats × Partition) : Prop :=
  Deletes a.2 b.2 ∧ ∃ deleted,
    a.2.store.retentionIndex.entries = deleted ++ b.2.store.retentionIndex.entries ∧
    (∀ m, m ∈ b.2.store.messages.entries ↔ m ∈ a.2.store.messages.entries ∧
      m.offset ∉ deleted.map TopicRetentionIndexEntry.offset) ∧
    b.1.messagesDeleted = a.1.messagesDeleted + deleted.length

theorem cuts_refl (a : TopicRetentionDeletionStats × Partition) : Cuts a a :=
  ⟨⟨rfl, rfl, rfl, fun _ => id⟩, [], rfl, by simp, rfl⟩

theorem cuts_setRetainedBytes (p : Partition) (bytes : ℕ) :
    Cuts (stats, p) (stats, { p with write := p.write.setRetainedBytes bytes }) :=
  ⟨⟨rfl, rfl, rfl, fun _ => id⟩, [], rfl, by simp, rfl⟩

theorem Cuts.trans {a b c : TopicRetentionDeletionStats × Partition} (h : Cuts a b)
    (h' : Cuts b c) : Cuts a c := by
  obtain ⟨hdeletes, l, hindex, hkept, hcount⟩ := h
  obtain ⟨hdeletes', r, hindex', hkept', hcount'⟩ := h'
  refine ⟨hdeletes.trans hdeletes', l ++ r, ?_, fun m => ?_, ?_⟩
  · rw [hindex, hindex', append_assoc]
  · rw [hkept', hkept, map_append, mem_append, not_or, and_assoc]
  · rw [hcount', hcount, length_append, Nat.add_assoc]

/-- **Deleting in chunks** deletes the first entries of the index. -/
theorem deleteChunks_deleted {rest : List TopicRetentionIndexEntry}
    (stats : TopicRetentionDeletionStats) (hrounds : rest.length ≤ rounds)
    (hindex : p.store.retentionIndex.entries = rest ++ others) :
    Cuts (stats, p) (deleteChunks rounds p rest stats) ∧
      Deleted p (deleteChunks rounds p rest stats).2 rest others ∧
      (deleteChunks rounds p rest stats).1.messagesDeleted =
        stats.messagesDeleted + rest.length := by
  induction rounds generalizing p rest stats with
  | zero =>
    obtain rfl := eq_nil_of_length_eq_zero (Nat.le_zero.mp hrounds)
    exact ⟨cuts_refl _, ⟨hindex, fun b hb => hb, .inl⟩, rfl⟩
  | succ rounds ih =>
    unfold deleteChunks
    by_cases hrest : rest = []
    · subst hrest
      exact ⟨cuts_refl _, ⟨hindex, fun b hb => hb, .inl⟩, rfl⟩
    have hlength : 0 < rest.length := length_pos_iff.mpr hrest
    have htake : (rest.take retentionChunk).length ≠ 0 := by
      rw [length_take, retentionChunk]
      omega
    have hsplit : p.store.retentionIndex.entries =
        rest.take retentionChunk ++ (rest.drop retentionChunk ++ others) := by
      rw [← append_assoc, take_append_drop, hindex]
    have hchunk := deleted_chunk hsplit
    have hdrop : (rest.drop retentionChunk).length ≤ rounds := by
      rw [length_drop, retentionChunk]
      omega
    rw [if_neg (mt List.isEmpty_iff.mp hrest)]
    dsimp only [TopicMessageStore.deleteRetentionEntries]
    rw [if_neg htake]
    obtain ⟨hcuts, hdeleted, hcount⟩ := ih
      ⟨stats.messagesDeleted + (rest.take retentionChunk).length,
        stats.bytesFreed + bytesOf (rest.take retentionChunk)⟩ hdrop hchunk.index
    have hwrite := p.write.subtractRetainedBytes_keeps (bytesOf (rest.take retentionChunk))
    refine ⟨Cuts.trans ?_ hcuts, ?_, hcount.trans ?_⟩
    · refine ⟨⟨hwrite.1, hwrite.2, rfl, fun m hm => ?_⟩, rest.take retentionChunk, ?_, fun m => ?_,
        rfl⟩
      · exact (mem_removeAll.mp hm).1
      · rw [hchunk.index, hsplit]
      · exact mem_removeAll
    · have htrans := hchunk.trans hdeleted
      rw [take_append_drop] at htrans
      exact htrans
    · rw [Nat.add_assoc, ← length_append, take_append_drop]

theorem retentionEntriesBefore_append (store : TopicMessageStore) (cutoff : ℤ) (limit : ℕ) :
    ∃ others, store.retentionIndex.entries =
      store.retentionEntriesBefore cutoff limit ++ others := by
  have hscanned := take_prefix limit store.retentionIndex.entries
  have hexpired := takeWhile_prefix (l := store.retentionIndex.entries.take limit)
    fun entry => decide (entry.timestampMs < cutoff)
  obtain ⟨others, hothers⟩ := hexpired.trans hscanned
  exact ⟨others, hothers.symm⟩

theorem selectEntries_append (retainedBytes maxBytes selected : ℕ)
    (entries : List TopicRetentionIndexEntry) :
    ∃ others, entries = selectEntries retainedBytes maxBytes selected entries ++ others := by
  fun_induction selectEntries retainedBytes maxBytes selected entries with
  | case1 => exact ⟨[], rfl⟩
  | case2 _ entry entries => exact ⟨entries, rfl⟩
  | case3 _ entry entries _ _ ih =>
    obtain ⟨others, hothers⟩ := ih
    exact ⟨others, congrArg (entry :: ·) hothers⟩

theorem selected_append (store : TopicMessageStore) (retained maxBytes limit : ℕ) :
    ∃ others, store.retentionIndex.entries = selectEntries retained maxBytes 0
      (store.retentionEntriesForPartition limit) ++ others := by
  obtain ⟨others, hothers⟩ := selectEntries_append retained maxBytes 0
    (store.retentionEntriesForPartition limit)
  refine ⟨others ++ store.retentionIndex.entries.drop limit, ?_⟩
  rw [← append_assoc, ← hothers]
  exact (take_append_drop _ _).symm

theorem enforceBytes_cuts (maxBytes batchSize rounds : ℕ) (p : Partition)
    (stats : TopicRetentionDeletionStats) :
    Cuts (stats, p) (enforceBytes maxBytes batchSize rounds p stats) := by
  induction rounds generalizing p stats with
  | zero => exact cuts_refl _
  | succ rounds ih =>
    have hload : Cuts (stats, p) (stats, p.loadRetainedBytes.2) := by
      unfold loadRetainedBytes
      split
      · exact cuts_refl _
      · exact cuts_setRetainedBytes p _
    unfold enforceBytes
    split
    · exact cuts_refl _
    dsimp only
    split
    · exact hload
    split
    · exact hload.trans (cuts_setRetainedBytes _ 0)
    obtain ⟨others, hothers⟩ := selected_append p.loadRetainedBytes.2.store p.loadRetainedBytes.1
      maxBytes (batchSize - stats.messagesDeleted)
    have hbatch := hload.trans (deleteChunks_deleted stats le_rfl hothers).1
    split
    · exact hbatch
    · exact hbatch.trans (ih _ _)

section

variable (h : p.enforceRetention cutoff maxBytes batchSize = .ok (stats, p'))
include h

/-- **A retention run** deletes messages. If there were any, the start of the log is moved up and
the tail trimmed. -/
theorem enforceRetention_cases :
    ∃ p₁, Cuts (⟨0, 0⟩, p) (stats, p₁) ∧ (stats.messagesDeleted = 0 ∧ p' = p₁ ∨
      ∃ logStart, logStart = p₁.store.earliestOffset.getD (p₁.write.nextOffset.getD 0) ∧
        p' = { p₁ with
          write := p₁.write.setLogStart logStart, tail := p₁.tail.trimBelow logStart }) := by
  have hcutoff : Cuts (⟨0, 0⟩, p) (p.enforceCutoff cutoff batchSize) := by
    cases cutoff with
    | none => exact cuts_refl _
    | some cutoff =>
      obtain ⟨others, hothers⟩ := retentionEntriesBefore_append p.store cutoff batchSize
      exact (deleteChunks_deleted _ le_rfl hothers).1
  have hbytes : ∀ stats (q : Partition),
      Cuts (stats, q) (q.enforceMaxBytes maxBytes batchSize stats) := by
    intro stats q
    cases maxBytes with
    | none => exact cuts_refl _
    | some maxBytes => exact enforceBytes_cuts _ _ _ _ _
  have hcuts := hcutoff.trans (hbytes (p.enforceCutoff cutoff batchSize).1 _)
  unfold enforceRetention at h
  split at h
  · cases h
  dsimp only at h
  split at h
  · cases h
    exact ⟨_, hcuts, .inr ⟨_, rfl, rfl⟩⟩
  · next hnone =>
    cases h
    exact ⟨_, hcuts, .inl ⟨Nat.eq_zero_of_not_pos hnone, rfl⟩⟩

theorem enforceRetention_nextOffset : p'.write.nextOffset = p.write.nextOffset := by
  obtain ⟨p₁, ⟨hdeletes, -⟩, ⟨-, rfl⟩ | ⟨logStart, -, rfl⟩⟩ := enforceRetention_cases h
  · exact hdeletes.nextOffset
  · rw [← hdeletes.nextOffset]
    exact (p₁.write.setLogStart_keeps logStart).1

end

end Partition

/-! ### Steps -/

/-- What happens to a partition. Whether a write or a read succeeds is decided by the storage. -/
inductive PartitionEvent where
  | publishMessage (context : PublishContext) (row : PublishRow) (writes : Bool)
  | publishTyped (payload : List UInt8) (timestampMs : ℤ) (userId : Option String) (writes : Bool)
  | publishBatch (context : PublishContext) (rows : List PublishRow) (writes : Bool)
  | enforceRetention (cutoff maxBytes : Option ℤ) (batchSize : ℕ)
  | restart (reads : Bool)

/-- The messages that are published by a step, and the partition after. A retention run that is
refused changes nothing. -/
def Partition.step (p : Partition) :
    PartitionEvent → List TopicMessage × Partition
  | .publishMessage context row writes => p.publishMessage encodedLen context row writes
  | .publishTyped payload timestampMs userId writes =>
    p.publishTyped encodedLen payload timestampMs userId writes
  | .publishBatch context rows writes => p.publishBatch encodedLen context rows writes
  | .enforceRetention cutoff maxBytes batchSize =>
    match p.enforceRetention cutoff maxBytes batchSize with
    | .ok (_, p') => ([], p')
    | .error _ => ([], p)
  | .restart reads => ([], p.restart reads)

/-- All ways of publishing are batches. -/
theorem Partition.step_cases (e : PartitionEvent) :
    (∃ context rows writes, p.step encodedLen e = p.publishBatch encodedLen context rows writes) ∨
    (p.step encodedLen e = ([], p) ∨ ∃ cutoff maxBytes batchSize stats p',
      p.enforceRetention cutoff maxBytes batchSize = .ok (stats, p') ∧
        p.step encodedLen e = ([], p')) ∨
    ∃ reads, e = .restart reads ∧ p.step encodedLen e = ([], p.restart reads) := by
  cases e with
  | publishMessage context row writes => exact .inl ⟨context, [row], writes, rfl⟩
  | publishTyped payload timestampMs userId writes =>
    exact .inl ⟨⟨timestampMs, userId, .insert⟩, [⟨payload, none⟩], writes, rfl⟩
  | publishBatch context rows writes => exact .inl ⟨context, rows, writes, rfl⟩
  | enforceRetention cutoff maxBytes batchSize =>
    refine .inr (.inl ?_)
    cases h : p.enforceRetention cutoff maxBytes batchSize with
    | ok result =>
      refine .inr ⟨cutoff, maxBytes, batchSize, result.1, result.2, h, ?_⟩
      rw [step, h]
    | error message => exact .inl (by rw [step, h])
  | restart reads => exact .inr (.inr ⟨reads, rfl, rfl⟩)

end KalamDB.Topics
