import KalamDB.Lib.IndexMap
import KalamDB.Lib.Runs
import KalamDB.Raft.Errors

/-!
# The log of a Raft group

Entries live in two places. The **cache** holds recent entries with their full log id; the
**store** holds packed records of index, term and payload. In a cluster an append fills the cache
and **queues** its records for a worker that writes them; Raft waits for that write before it
changes the log again, but reads go on meanwhile. A single node writes the store only when it
applies, so that a restart forgets what was appended and not yet applied.

A read is answered from the cache if every index of the range is there, and otherwise from the
store alone. `LogSpec` is the log as a map from indexes to entries, each with a mark whether it
is durable and one whether a restart recovered it. Along every run the storage refines it
(`Refines`), and a read returns what the map holds whenever the range is in the cache or all of its
entries are durable. The leader's node id, which the records do not hold, comes back from the cache
only, unless a restart filled it.
-/

namespace KalamDB.Raft

open Runs IndexMap OrderedStore

structure LogId where
  term : ℕ
  leader : NodeId
  index : ℕ
  deriving DecidableEq

inductive LogPayload (M : Type) where
  | blank
  | normal (data : List UInt8)
  | membership (membership : M)
  deriving DecidableEq

/-- A log entry; `M` are the memberships. -/
structure Entry (M : Type) where
  logId : LogId
  payload : LogPayload M
  deriving DecidableEq

/-- What an entry holds apart from the leader's node id. -/
def Entry.content {M : Type} (e : Entry M) : ℕ × ℕ × LogPayload M :=
  (e.logId.index, e.logId.term, e.payload)

/-! ### Records -/

/-- How memberships are serialized. -/
structure MembershipCodec (M : Type) where
  encode : M → List UInt8
  decode : List UInt8 → Except RaftError M
  decode_encode : ∀ m, decode (encode m) = .ok m

def PAYLOAD_BLANK : UInt8 := 0
def PAYLOAD_NORMAL : UInt8 := 1
def PAYLOAD_MEMBERSHIP : UInt8 := 2

/-- A packed record: a version byte, index and term of eight bytes each, the tagged payload. -/
structure RaftLogEntry where
  index : ℕ
  term : ℕ
  payload : List UInt8
  deriving DecidableEq

def RECORD_HEADER_LEN : ℕ := 1 + 8 + 8

def RaftLogEntry.recordLen (record : RaftLogEntry) : ℕ := RECORD_HEADER_LEN + record.payload.length

/-- The leader of an entry is not stored. -/
def storedLogId (term index : ℕ) : LogId := ⟨term, 0, index⟩

section Codec

variable {M : Type} (codec : MembershipCodec M)

def taggedPayload : LogPayload M → List UInt8
  | .blank => [PAYLOAD_BLANK]
  | .normal data => PAYLOAD_NORMAL :: data
  | .membership m => PAYLOAD_MEMBERSHIP :: codec.encode m

def encodeStoredEntry (e : Entry M) : RaftLogEntry :=
  ⟨e.logId.index, e.logId.term, taggedPayload codec e.payload⟩

def decodeLogPayload : List UInt8 → Except RaftError (LogPayload M)
  | [] => .error (.serialization "empty raft log payload")
  | tag :: rest =>
    if tag = PAYLOAD_BLANK ∧ rest = [] then .ok .blank
    else if tag = PAYLOAD_NORMAL then .ok (.normal rest)
    else if tag = PAYLOAD_MEMBERSHIP then (codec.decode rest).map .membership
    else .error (.serialization ("unknown raft log payload tag " ++ toString tag))

/-- An entry that does not decode is left out of a read. -/
def entryFromPayload (logId : LogId) (payload : List UInt8) : Option (Entry M) :=
  match decodeLogPayload codec payload with
  | .ok payload => some ⟨logId, payload⟩
  | .error _ => none

variable {codec}

theorem decodeLogPayload_taggedPayload (payload : LogPayload M) :
    decodeLogPayload codec (taggedPayload codec payload) = .ok payload := by
  cases payload with
  | blank | normal => rfl
  | membership m =>
    have htag : PAYLOAD_MEMBERSHIP ≠ PAYLOAD_BLANK ∧ PAYLOAD_MEMBERSHIP ≠ PAYLOAD_NORMAL := by
      decide
    simp [taggedPayload, decodeLogPayload, htag, codec.decode_encode, Except.map]

theorem entryFromPayload_taggedPayload (logId : LogId) (payload : LogPayload M) :
    entryFromPayload codec logId (taggedPayload codec payload) = some ⟨logId, payload⟩ := by
  rw [entryFromPayload, decodeLogPayload_taggedPayload]

end Codec

/-! ### The storage -/

/-- A cached entry: its full log id and its record. -/
structure LogEntryData where
  logId : LogId
  record : RaftLogEntry
  deriving DecidableEq

structure LogStorage where
  log : IndexMap LogEntryData
  logCacheBytes : ℕ
  store : IndexMap RaftLogEntry
  /-- The records handed to the worker and not written yet. -/
  queued : List (ℕ × RaftLogEntry)
  flushLogOnAppend : Bool

def LOG_CACHE_SIZE : ℕ := 1000
def LOG_CACHE_MAX_BYTES : ℕ := 16 * 1024 * 1024

namespace LogStorage

/-- Oldest entries leave until the cache is within its limits. -/
def trimList : List (ℕ × LogEntryData) → ℕ → List (ℕ × LogEntryData) × ℕ
  | [], bytes => ([], bytes)
  | p :: rest, bytes =>
    if LOG_CACHE_SIZE < (p :: rest).length ∨ LOG_CACHE_MAX_BYTES < bytes then
      trimList rest (bytes - p.2.record.recordLen)
    else (p :: rest, bytes)

theorem trimList_suffix (l : List (ℕ × LogEntryData)) (bytes : ℕ) : (trimList l bytes).1 <:+ l := by
  induction l generalizing bytes with
  | nil => exact List.suffix_refl _
  | cons p rest ih =>
    unfold trimList
    split
    · exact (ih _).trans (List.suffix_cons p rest)
    · exact List.suffix_refl _

def trimLogCache (s : LogStorage) : LogStorage :=
  { s with
    log := ⟨(trimList s.log.toList s.logCacheBytes).1,
      s.log.rising.sublist (trimList_suffix _ _).sublist⟩
    logCacheBytes := (trimList s.log.toList s.logCacheBytes).2 }

/-- Remove the cached entries that fail a test, with their bytes. -/
def removeCached (s : LogStorage) (kept : ℕ → Bool) : LogStorage :=
  { s with
    log := s.log.keep kept
    logCacheBytes := s.logCacheBytes -
      ((s.log.toList.filter fun p => !kept p.1).map fun p => p.2.record.recordLen).sum }

def cacheCoversRange (log : IndexMap LogEntryData) (start stop : ℕ) : Bool :=
  if stop ≤ start then true
  else if log.toList.length < stop - start then false
  else decide ((log.between start stop).length = stop - start)

section Operations

variable {M : Type} (codec : MembershipCodec M) (s : LogStorage) (entries : List (Entry M))

/-- Entries enter the cache; it is trimmed if the store takes them too. -/
def stageLogEntries : LogStorage :=
  let staged :=
    { s with
      log := s.log.insertAll
        (entries.map fun e => (e.logId.index, ⟨e.logId, encodeStoredEntry codec e⟩))
      logCacheBytes := s.logCacheBytes +
        (entries.map fun e => (encodeStoredEntry codec e).recordLen).sum }
  if s.flushLogOnAppend then staged.trimLogCache else staged

def appendEntries : LogStorage :=
  let staged := s.stageLogEntries codec entries
  if s.flushLogOnAppend then
    { staged with
      queued := entries.map fun e => (e.logId.index, encodeStoredEntry codec e) }
  else staged

/-- The worker writes what is queued. -/
def runLogIoJob : LogStorage := { s with store := s.store.insertAll s.queued, queued := [] }

/-- The entries of a range. -/
def getLogEntriesSync (start stop : ℕ) : List (Entry M) :=
  if stop ≤ start then []
  else if cacheCoversRange s.log start stop then
    (s.log.between start stop).filterMap fun p =>
      entryFromPayload codec p.2.logId p.2.record.payload
  else
    (s.store.between start stop).filterMap fun p =>
      entryFromPayload codec (storedLogId p.2.term p.2.index) p.2.payload

/-- On a single node, applying entries writes their records: those of the cache, or the entries
encoded again. -/
def persistAppliedProgress : LogStorage :=
  let record (e : Entry M) : RaftLogEntry :=
    (s.log.get e.logId.index).elim (encodeStoredEntry codec e) LogEntryData.record
  if s.flushLogOnAppend then s
  else
    { s with
      store := s.store.insertAll
        (entries.map fun e : Entry M => (e.logId.index, record e)) }.trimLogCache

def deleteConflictLogsSince (index : ℕ) : LogStorage :=
  { s with store := s.store.keep fun i => decide (i < index) }.removeCached
    fun i => decide (i < index)

def purgeLogsUpto (index : ℕ) : LogStorage :=
  { s with store := s.store.keep fun i => decide (index < i) }.removeCached
    fun i => decide (index < i)

/-- The cache of a restarted node: the last records of the store. -/
def recoveredCache (store : IndexMap RaftLogEntry) : IndexMap LogEntryData :=
  match store.toList.getLast? with
  | none => .empty
  | some (last, _) =>
    store.filterMap fun i record =>
      if last - (LOG_CACHE_SIZE - 1) ≤ i then
        match decodeLogPayload codec record.payload with
        | .ok _ => some ⟨storedLogId record.term record.index, record⟩
        | .error _ => none
      else none

def newPersistent (store : IndexMap RaftLogEntry) (flushLogOnAppend : Bool) : LogStorage where
  log := recoveredCache codec store
  logCacheBytes := ((recoveredCache codec store).toList.map fun p => p.2.record.recordLen).sum
  store := store
  queued := []
  flushLogOnAppend := flushLogOnAppend

end Operations

/-! ### Runs -/

inductive Event (M : Type) where
  | append (entries : List (Entry M))
  | written
  | truncate (index : ℕ)
  | purge (index : ℕ)
  | apply (start stop : ℕ)
  | restart (flushLogOnAppend : Bool)
  deriving DecidableEq

variable {M : Type} (codec : MembershipCodec M)

/-- Raft appends rising indexes behind the log. -/
def Behind (s : LogStorage) (entries : List (Entry M)) : Prop :=
  (entries.Pairwise fun e f => e.logId.index < f.logId.index) ∧
    ∀ e ∈ entries, (∀ p ∈ s.log.toList, p.1 < e.logId.index) ∧
      ∀ p ∈ s.store.toList, p.1 < e.logId.index

instance (s : LogStorage) (entries : List (Entry M)) : Decidable (s.Behind entries) :=
  inferInstanceAs (Decidable (_ ∧ _))

/-- Raft changes the log when nothing is queued. Entries are applied as they are read from the log,
a range without gaps at a time. -/
def step (s : LogStorage) : Event M → Option LogStorage
  | .append entries =>
    if s.queued = [] ∧ s.Behind entries then some (s.appendEntries codec entries) else none
  | .written => if s.queued = [] then none else some s.runLogIoJob
  | .truncate index => if s.queued = [] then some (s.deleteConflictLogsSince index) else none
  | .purge index => if s.queued = [] then some (s.purgeLogsUpto index) else none
  | .apply start stop =>
    let entries := s.getLogEntriesSync codec start stop
    if entries.length = stop - start then some (s.persistAppliedProgress codec entries) else none
  | .restart flush => some (newPersistent codec s.store flush)

def fresh (flushLogOnAppend : Bool) : LogStorage := ⟨.empty, 0, .empty, [], flushLogOnAppend⟩

end LogStorage

/-! ### The log as a map -/

structure Logged (M : Type) where
  entry : Entry M
  durable : Bool
  recovered : Bool

/-- An entry as a read returns it. Only the cache can name its leader, and only if the entry was
appended since the node started. -/
def Logged.readBack {M : Type} (x : Logged M) (fromCache : Bool) : Entry M :=
  if fromCache && !x.recovered then x.entry
  else { x.entry with logId := storedLogId x.entry.logId.term x.entry.logId.index }

@[simp]
theorem Logged.content_readBack {M : Type} (x : Logged M) (fromCache : Bool) :
    (x.readBack fromCache).content = x.entry.content := by
  unfold readBack
  split <;> rfl

structure LogSpec (M : Type) where
  entries : IndexMap (Logged M)
  flushLogOnAppend : Bool

namespace LogSpec

variable {M : Type}

def fresh (flushLogOnAppend : Bool) : LogSpec M := ⟨.empty, flushLogOnAppend⟩

/-- The log with other marks of what is durable. -/
def mark (l : LogSpec M) (durable : ℕ → Logged M → Bool) : LogSpec M :=
  { l with entries := l.entries.filterMap fun i x => some { x with durable := durable i x } }

/-- Appended entries are durable once they are written, where appends are flushed, and otherwise
once they are applied; a restart keeps the durable ones. -/
def step (l : LogSpec M) : LogStorage.Event M → LogSpec M
  | .append entries =>
    { l with
      entries := l.entries.insertAll (entries.map fun e => (e.logId.index, ⟨e, false, false⟩)) }
  | .written => l.mark fun _ _ => true
  | .truncate index => { l with entries := l.entries.keep fun i => decide (i < index) }
  | .purge index => { l with entries := l.entries.keep fun i => decide (index < i) }
  | .apply start stop => l.mark fun i x => x.durable ||
      !l.flushLogOnAppend && decide (start ≤ i ∧ i < stop)
  | .restart flush =>
    { entries := l.entries.filterMap fun _ x =>
        if x.durable then some { x with recovered := true } else none
      flushLogOnAppend := flush }

/-- The log after some events. -/
def after (flushLogOnAppend : Bool) (events : List (LogStorage.Event M)) : LogSpec M :=
  events.foldl step (fresh flushLogOnAppend)

/-- The entries of a range. -/
def read (l : LogSpec M) (fromCache : Bool) (start stop : ℕ) : List (Entry M) :=
  (l.entries.between start stop).map fun p => p.2.readBack fromCache

end LogSpec

/-! ### Refinement -/

namespace LogStorage

variable {M : Type} {codec : MembershipCodec M} {s s' : LogStorage} {l : LogSpec M}
  {start i stop : ℕ} {α : Type} {entries : List (Entry M)} {m : IndexMap α} {x : α}
  {v : Entry M → α} {e : Entry M} {store : IndexMap RaftLogEntry}

/-- The cache holds entries of the log, the store exactly the durable ones. Where appends are
flushed, all others are queued. -/
structure Refines (codec : MembershipCodec M) (s : LogStorage) (l : LogSpec M) : Prop where
  mode : s.flushLogOnAppend = l.flushLogOnAppend
  flushed : l.flushLogOnAppend = true → ∀ i x, (i, x) ∈ l.entries →
    x.durable = true ∨ i ∈ s.queued.map Prod.fst
  queued : ∀ p ∈ s.queued, l.flushLogOnAppend = true ∧
    ∃ x, (p.1, x) ∈ l.entries ∧ p.2 = encodeStoredEntry codec x.entry
  keyed : ∀ i x, (i, x) ∈ l.entries → x.entry.logId.index = i
  cached : ∀ i d, (i, d) ∈ s.log → ∃ x, (i, x) ∈ l.entries ∧
    d.record = encodeStoredEntry codec x.entry ∧ d.logId = (x.readBack true).logId
  stored : ∀ i r, (i, r) ∈ s.store → ∃ x, (i, x) ∈ l.entries ∧ x.durable = true ∧
    r = encodeStoredEntry codec x.entry
  durable : ∀ i x, (i, x) ∈ l.entries → x.durable = true →
    (i, encodeStoredEntry codec x.entry) ∈ s.store

/-- Trimming the cache loses nothing that the refinement needs. -/
theorem Refines.trimLogCache (h : Refines codec s l) : Refines codec s.trimLogCache l :=
  ⟨h.mode, h.flushed, h.queued, h.keyed,
    fun i d hd => h.cached i d ((trimList_suffix _ _).subset hd), h.stored, h.durable⟩

theorem Refines.fresh (flush : Bool) :
    Refines codec (LogStorage.fresh flush) (LogSpec.fresh flush) := by
  refine ⟨rfl, ?_, ?_, ?_, ?_, ?_, ?_⟩ <;> intros <;>
    simp_all [LogStorage.fresh, LogSpec.fresh]

/-- Entries are kept or removed alike in the cache, in the store and in the map. -/
theorem Refines.keep (h : Refines codec s l) (hqueued : s.queued = []) (kept : ℕ → Bool) :
    Refines codec ({ s with store := s.store.keep kept }.removeCached kept)
      { l with entries := l.entries.keep kept } where
  mode := h.mode
  flushed hflush i x hx := h.flushed hflush i x (mem_keep.mp hx).1
  queued p hp := absurd hp (by simp [removeCached, hqueued])
  keyed i x hx := h.keyed i x (mem_keep.mp hx).1
  cached i d hd := by
    obtain ⟨hd, hkept⟩ := mem_keep.mp hd
    obtain ⟨x, hx, hrest⟩ := h.cached i d hd
    exact ⟨x, mem_keep.mpr ⟨hx, hkept⟩, hrest⟩
  stored i r hr := by
    obtain ⟨hr, hkept⟩ := mem_keep.mp hr
    obtain ⟨x, hx, hrest⟩ := h.stored i r hr
    exact ⟨x, mem_keep.mpr ⟨hx, hkept⟩, hrest⟩
  durable i x hx hdurable := by
    obtain ⟨hx, hkept⟩ := mem_keep.mp hx
    exact mem_keep.mpr ⟨h.durable i x hx hdurable, hkept⟩

/-! ### Reading -/

/-- A read returns what the map holds if it is answered from the cache or if all entries of the
range are durable. -/
theorem Refines.read (h : Refines codec s l) (hread : cacheCoversRange s.log start stop = true ∨
      ∀ p ∈ l.entries.between start stop, p.2.durable = true) :
    s.getLogEntriesSync codec start stop =
      l.read (cacheCoversRange s.log start stop) start stop := by
  unfold getLogEntriesSync
  split
  · rename_i hle
    refine (List.map_eq_nil_iff.mpr (List.filter_eq_nil_iff.mpr fun p _ => ?_)).symm
    simp only [decide_eq_true_eq]
    omega
  split
  · rename_i hcovers
    rw [hcovers]
    refine filterMap_between_eq (f := fun d : LogEntryData =>
        entryFromPayload codec d.logId d.record.payload)
      (g := fun x : Logged M => x.readBack true) (fun i d hd => ?_) fun i x hx => ?_
    · obtain ⟨x, hx, hrecord, hid⟩ := h.cached i d (mem_between.mp hd).1
      refine ⟨x, hx, ?_⟩
      rw [hrecord, encodeStoredEntry, entryFromPayload_taggedPayload, hid, Logged.readBack]
      split <;> rfl
    · obtain ⟨-, hstart, hstop⟩ := mem_between.mp hx
      unfold cacheCoversRange at hcovers
      rw [if_neg (by omega)] at hcovers
      split at hcovers
      · cases hcovers
      · exact exists_mem_of_full (of_decide_eq_true hcovers) hstart hstop
  · rename_i hcovers
    have hdurable := hread.resolve_left hcovers
    rw [Bool.not_eq_true] at hcovers
    rw [hcovers]
    refine filterMap_between_eq (f := fun r : RaftLogEntry =>
        entryFromPayload codec (storedLogId r.term r.index) r.payload)
      (g := fun x : Logged M => x.readBack false) (fun i r hr => ?_) fun i x hx => ?_
    · obtain ⟨x, hx, -, rfl⟩ := h.stored i r (mem_between.mp hr).1
      refine ⟨x, hx, ?_⟩
      rw [encodeStoredEntry, entryFromPayload_taggedPayload]
      rfl
    · exact ⟨_, h.durable i x (mem_between.mp hx).1 (hdurable _ hx)⟩

/-! ### Steps -/

/-- What lies in front of the appended entries is not overwritten by them. -/
theorem mem_insertAll_of_behind (h : (i, x) ∈ m) (hbehind : ∀ e ∈ entries, i < e.logId.index) :
    (i, x) ∈ m.insertAll (entries.map fun e => (e.logId.index, v e)) := by
  refine mem_insertAll.mpr (mem_putAll_of_mem h fun q hq => ?_)
  obtain ⟨e, he, rfl⟩ := List.mem_map.mp hq
  exact (hbehind e he).ne

/-- An entry of the map or of the storage after an append is appended or was there. -/
theorem eq_or_mem_of_mem_insertAll
    (h : (i, x) ∈ m.insertAll (entries.map fun e => (e.logId.index, v e))) :
    (∃ e ∈ entries, e.logId.index = i ∧ v e = x) ∨ (i, x) ∈ m := by
  refine (mem_of_mem_putAll (mem_insertAll.mp h)).imp_left fun hp => ?_
  obtain ⟨e, he, heq⟩ := List.mem_map.mp hp
  exact ⟨e, he, congrArg Prod.fst heq, congrArg Prod.snd heq⟩

theorem mem_insertAll_of_mem_entries
    (h : entries.Pairwise fun e f => e.logId.index < f.logId.index) (v : Entry M → α)
    (he : e ∈ entries) :
    (e.logId.index, v e) ∈ m.insertAll (entries.map fun e => (e.logId.index, v e)) :=
  mem_insertAll.mpr (mem_putAll (List.pairwise_map.mpr (h.imp ne_of_lt))
    (List.mem_map.mpr ⟨e, he, rfl⟩))

section

variable (h : Refines codec s l)
include h

theorem Refines.append (hqueued : s.queued = []) (hbehind : s.Behind entries) :
    Refines codec (s.appendEntries codec entries) (l.step (.append entries)) := by
  obtain ⟨hrising, hnew⟩ := hbehind
  have hcached : ∀ i d, (i, d) ∈ s.log.insertAll (entries.map fun e => (e.logId.index,
        (⟨e.logId, encodeStoredEntry codec e⟩ : LogEntryData))) →
      ∃ x, (i, x) ∈ (l.step (.append entries)).entries ∧
        d.record = encodeStoredEntry codec x.entry ∧ d.logId = (x.readBack true).logId := by
    intro i d hd
    obtain ⟨e, he, rfl, rfl⟩ | hd := eq_or_mem_of_mem_insertAll hd
    · exact ⟨_, mem_insertAll_of_mem_entries hrising _ he, rfl, rfl⟩
    · obtain ⟨x, hx, hrest⟩ := h.cached i d hd
      exact ⟨x, mem_insertAll_of_behind hx fun e he => (hnew e he).1 _ hd, hrest⟩
  have hkeyed : ∀ i x, (i, x) ∈ (l.step (.append entries)).entries → x.entry.logId.index = i := by
    intro i x hx
    obtain ⟨e, -, rfl, rfl⟩ | hx := eq_or_mem_of_mem_insertAll hx
    · rfl
    · exact h.keyed i x hx
  have hstored : ∀ i r, (i, r) ∈ s.store → ∃ x, (i, x) ∈ (l.step (.append entries)).entries ∧
      x.durable = true ∧ r = encodeStoredEntry codec x.entry := by
    intro i r hr
    obtain ⟨x, hx, hrest⟩ := h.stored i r hr
    exact ⟨x, mem_insertAll_of_behind hx fun e he => (hnew e he).2 _ hr, hrest⟩
  have hdurable : ∀ i x, (i, x) ∈ (l.step (.append entries)).entries → x.durable = true →
      (i, encodeStoredEntry codec x.entry) ∈ s.store := by
    intro i x hx hdurable
    obtain ⟨e, -, -, rfl⟩ | hx := eq_or_mem_of_mem_insertAll hx
    · cases hdurable
    · exact h.durable i x hx hdurable
  have hmode := h.mode
  cases hflush : s.flushLogOnAppend with
  | true =>
    rw [hflush] at hmode
    simp only [appendEntries, stageLogEntries, hflush, if_true]
    refine Refines.trimLogCache (s := ⟨_, _, s.store, entries.map _, true⟩)
      (l := l.step (.append entries))
      ⟨hmode, fun hl i x hx => ?_, fun p hp => ?_, hkeyed, hcached, hstored, hdurable⟩
    · obtain ⟨e, he, rfl, -⟩ | hx := eq_or_mem_of_mem_insertAll hx
      · exact .inr (List.mem_map_of_mem (List.mem_map_of_mem he))
      · exact .inl ((h.flushed hl i x hx).resolve_right (by simp [hqueued]))
    · obtain ⟨e, he, rfl⟩ := List.mem_map.mp hp
      exact ⟨hmode.symm, _, mem_insertAll_of_mem_entries hrising _ he, rfl⟩
  | false =>
    rw [hflush] at hmode
    simp only [appendEntries, stageLogEntries, hflush]
    refine ⟨hmode, fun hl => absurd (hmode.trans hl) (by simp), fun p hp => ?_, hkeyed, hcached,
      hstored, hdurable⟩
    exact absurd hp (by simp [hqueued])

/-- A read without gaps was answered from the cache or found durable entries. -/
theorem Refines.answered (hfull : (s.getLogEntriesSync codec start stop).length = stop - start) :
    cacheCoversRange s.log start stop = true ∨
      ∀ p ∈ l.entries.between start stop, p.2.durable = true := by
  refine or_iff_not_imp_left.mpr fun hcovers p hp => ?_
  obtain ⟨hp, hstart, hstop⟩ := mem_between.mp hp
  have hlength : (s.store.between start stop).length = stop - start := by
    rw [getLogEntriesSync, if_neg (by omega), if_neg hcovers] at hfull
    have hle := List.length_filterMap_le (fun p : ℕ × RaftLogEntry =>
      entryFromPayload codec (storedLogId p.2.term p.2.index) p.2.payload)
      (s.store.between start stop)
    have hge := s.store.length_between_le start stop
    omega
  obtain ⟨r, hr⟩ := exists_mem_of_full hlength hstart hstop
  obtain ⟨x, hx, hdurable, -⟩ := h.stored _ r hr
  rwa [mem_unique hp hx]

/-- What an apply writes for an entry it read: the record of the entry in the map. -/
theorem Refines.record_eq {x : Logged M} (hx : (i, x) ∈ l.entries)
    (he : e.content = x.entry.content) :
    e.logId.index = i ∧
      (s.log.get e.logId.index).elim (encodeStoredEntry codec e) LogEntryData.record =
        encodeStoredEntry codec x.entry := by
  have hindex : e.logId.index = i := (congrArg Prod.fst he).trans (h.keyed i x hx)
  refine ⟨hindex, ?_⟩
  cases hget : s.log.get e.logId.index with
  | none =>
    simp only [Entry.content, Prod.mk.injEq] at he
    simp only [Option.elim_none, encodeStoredEntry, he]
  | some d =>
    obtain ⟨y, hy, hrecord, -⟩ := h.cached _ d (mem_of_get hget)
    rw [hindex] at hy
    rw [Option.elim_some, hrecord, mem_unique hx hy]

/-- Records of entries are written, and these entries become durable. -/
theorem Refines.write (pairs queued : List (ℕ × RaftLogEntry)) {mark : ℕ → Logged M → Bool}
    (hraised : ∀ i x, x.durable = true → mark i x = true)
    (hpairs : ∀ p ∈ pairs, ∃ x, (p.1, x) ∈ l.entries ∧ mark p.1 x = true ∧
      p.2 = encodeStoredEntry codec x.entry)
    (hmarked : ∀ i x, (i, x) ∈ l.entries → mark i x = true →
      i ∈ pairs.map Prod.fst ∨ x.durable = true)
    (hqueued : queued ⊆ s.queued) (hflushed : l.flushLogOnAppend = true →
      ∀ i x, (i, x) ∈ l.entries → mark i x = true ∨ i ∈ queued.map Prod.fst) :
    Refines codec { s with store := s.store.insertAll pairs, queued := queued }
      (l.mark mark) := by
  have hwritten : ∀ i r, (i, r) ∈ s.store.insertAll pairs →
      ∃ x, (i, x) ∈ l.entries ∧ mark i x = true ∧ r = encodeStoredEntry codec x.entry := by
    intro i r hr
    rcases mem_of_mem_putAll (mem_insertAll.mp hr) with hp | hr
    · exact hpairs _ hp
    · obtain ⟨x, hx, hdurable, hrest⟩ := h.stored i r hr
      exact ⟨x, hx, hraised i x hdurable, hrest⟩
  refine ⟨h.mode, fun hl i y hy => ?_, fun p hp => ?_, fun i y hy => ?_, fun i d hd => ?_,
    fun i r hr => ?_, fun i y hy hdurable => ?_⟩
  · obtain ⟨x, hx, ⟨⟩⟩ := mem_filterMap.mp hy
    exact hflushed hl i x hx
  · obtain ⟨hl, x, hx, hrest⟩ := h.queued p (hqueued hp)
    exact ⟨hl, _, mem_filterMap.mpr ⟨x, hx, rfl⟩, hrest⟩
  · obtain ⟨x, hx, ⟨⟩⟩ := mem_filterMap.mp hy
    exact h.keyed i x hx
  · obtain ⟨x, hx, hrest⟩ := h.cached i d hd
    exact ⟨_, mem_filterMap.mpr ⟨x, hx, rfl⟩, hrest⟩
  · obtain ⟨x, hx, hrest⟩ := hwritten i r hr
    exact ⟨_, mem_filterMap.mpr ⟨x, hx, rfl⟩, hrest⟩
  · obtain ⟨x, hx, ⟨⟩⟩ := mem_filterMap.mp hy
    -- the entry has a record, and there is only one it can be
    have hput : i ∈ pairs.map Prod.fst ∨ i ∈ s.store.toList.map Prod.fst :=
      (hmarked i x hx hdurable).imp_right fun hold => List.mem_map_of_mem (h.durable i x hx hold)
    obtain ⟨⟨_, r⟩, hr, rfl⟩ := exists_mem_putAll (s := s.store.toStore) hput
    have hin := mem_insertAll.mpr hr
    obtain ⟨z, hz, -, rfl⟩ := hwritten _ r hin
    rwa [mem_unique hx hz]

/-- The worker writes what is queued. -/
theorem Refines.written (hqueued : s.queued ≠ []) :
    Refines codec s.runLogIoJob (l.step .written) := by
  obtain ⟨p, hp⟩ := List.exists_mem_of_ne_nil _ hqueued
  have hflush := (h.queued p hp).1
  refine h.write _ [] (fun _ _ _ => rfl) (fun p hp => ?_) (fun i x hx _ => ?_) (List.nil_subset _)
    fun _ _ _ _ => .inl rfl
  · obtain ⟨-, x, hx, hrest⟩ := h.queued p hp
    exact ⟨x, hx, rfl, hrest⟩
  · exact (h.flushed hflush i x hx).symm

theorem Refines.apply (hfull : (s.getLogEntriesSync codec start stop).length = stop - start) :
    Refines codec (s.persistAppliedProgress codec (s.getLogEntriesSync codec start stop))
      (l.step (.apply start stop)) := by
  have hread := h.read (h.answered hfull)
  generalize s.getLogEntriesSync codec start stop = entries at hread
  have hread' : ∀ e, e ∈ entries ↔ ∃ p ∈ l.entries.between start stop,
      p.2.readBack (cacheCoversRange s.log start stop) = e := by
    intro e
    rw [hread, LogSpec.read, List.mem_map]
  unfold persistAppliedProgress
  split
  · rename_i hflush
    have hl := h.mode.symm.trans hflush
    refine h.write [] s.queued (fun i x hx => by rw [hx, Bool.true_or])
      nofun (fun i x hx hmark => .inr (by simpa [hl] using hmark)) (List.Subset.refl _)
      fun hl i x hx => (h.flushed hl i x hx).imp_left fun hx => by rw [hx, Bool.true_or]
  · rename_i hflush
    have hl : l.flushLogOnAppend = false := by simpa [h.mode] using hflush
    -- the records of the applied entries are written
    refine Refines.trimLogCache (h.write _ s.queued
      (fun i x hx => by rw [hx, Bool.true_or]) (fun p hp => ?_) (fun i x hx hmark => ?_)
      (List.Subset.refl _) fun hflushed => absurd (hl.symm.trans hflushed) (by simp))
    · obtain ⟨e, he, rfl⟩ := List.mem_map.mp hp
      obtain ⟨⟨j, x⟩, hx, rfl⟩ := (hread' e).mp he
      obtain ⟨hx, hrange⟩ := mem_between.mp hx
      obtain ⟨rfl, hrecord⟩ :=
        h.record_eq hx (x.content_readBack (cacheCoversRange s.log start stop))
      exact ⟨x, hx, by simp [hl, hrange], hrecord⟩
    · by_cases hold : x.durable = true
      · exact .inr hold
      have hrange : start ≤ i ∧ i < stop := by simpa [hl, hold] using hmark
      have he := (hread' _).mpr ⟨(i, x), mem_between.mpr ⟨hx, hrange⟩, rfl⟩
      obtain ⟨hi, -⟩ := h.record_eq hx (x.content_readBack (cacheCoversRange s.log start stop))
      exact .inl (hi ▸ List.mem_map_of_mem (List.mem_map_of_mem he))

theorem Refines.restart (flush : Bool) :
    Refines codec (newPersistent codec s.store flush) (l.step (.restart flush)) := by
  have hkept : ∀ i y, (i, y) ∈ (l.step (.restart flush)).entries ↔
      ∃ x, (i, x) ∈ l.entries ∧ x.durable = true ∧ { x with recovered := true } = y := by
    intro i y
    refine mem_filterMap.trans (exists_congr fun x => and_congr_right fun _ => ?_)
    simp
  have hstored : ∀ i r, (i, r) ∈ s.store → ∃ y, (i, y) ∈ (l.step (.restart flush)).entries ∧
      y.durable = true ∧ y.recovered = true ∧ r = encodeStoredEntry codec y.entry := by
    intro i r hr
    obtain ⟨x, hx, hdurable, rfl⟩ := h.stored i r hr
    exact ⟨_, (hkept i _).mpr ⟨x, hx, hdurable, rfl⟩, hdurable, rfl, rfl⟩
  have hkeyed : ∀ i y, (i, y) ∈ (l.step (.restart flush)).entries → y.entry.logId.index = i := by
    intro i y hy
    obtain ⟨x, hx, -, rfl⟩ := (hkept i y).mp hy
    exact h.keyed i x hx
  refine ⟨rfl, fun _ i y hy => ?_, nofun, hkeyed, fun i d hd => ?_, fun i r hr => ?_,
    fun i y hy _ => ?_⟩
  · obtain ⟨x, -, hdurable, rfl⟩ := (hkept i y).mp hy
    exact .inl hdurable
  · change (i, d) ∈ recoveredCache codec s.store at hd
    unfold recoveredCache at hd
    split at hd
    · exact absurd hd not_mem_empty
    obtain ⟨r, hr, hd⟩ := mem_filterMap.mp hd
    obtain ⟨y, hy, -, hrecovered, rfl⟩ := hstored i r hr
    split at hd
    · split at hd
      · obtain rfl := Option.some.inj hd
        exact ⟨y, hy, rfl, by simp [Logged.readBack, hrecovered, encodeStoredEntry]⟩
      · cases hd
    · cases hd
  · obtain ⟨y, hy, hdurable, -, hrest⟩ := hstored i r hr
    exact ⟨y, hy, hdurable, hrest⟩
  · obtain ⟨x, hx, hdurable, rfl⟩ := (hkept i y).mp hy
    exact h.durable i x hx hdurable

theorem Refines.of_step {event : Event M}
    (hstep : s.step codec event = some s') : Refines codec s' (l.step event) := by
  cases event with
  | append entries =>
    obtain ⟨⟨hqueued, hbehind⟩, rfl⟩ :
        (s.queued = [] ∧ s.Behind entries) ∧ s.appendEntries codec entries = s' := by
      simpa [step] using hstep
    exact h.append hqueued hbehind
  | written =>
    obtain ⟨hqueued, rfl⟩ : s.queued ≠ [] ∧ s.runLogIoJob = s' := by simpa [step] using hstep
    exact h.written hqueued
  | truncate index =>
    obtain ⟨hqueued, rfl⟩ : s.queued = [] ∧ s.deleteConflictLogsSince index = s' := by
      simpa [step] using hstep
    exact h.keep hqueued _
  | purge index =>
    obtain ⟨hqueued, rfl⟩ : s.queued = [] ∧ s.purgeLogsUpto index = s' := by
      simpa [step] using hstep
    exact h.keep hqueued _
  | apply start stop =>
    obtain ⟨hfull, rfl⟩ : (s.getLogEntriesSync codec start stop).length = stop - start ∧
        s.persistAppliedProgress codec (s.getLogEntriesSync codec start stop) = s' := by
      simpa [step] using hstep
    exact h.apply hfull
  | restart flush =>
    cases hstep
    exact h.restart flush

theorem Refines.of_run {events : List (Event M)} (hrun : run (step codec) s events = some s') :
    Refines codec s' (events.foldl LogSpec.step l) := by
  induction events generalizing s l with
  | nil =>
    cases hrun
    exact h
  | cons event rest ih =>
    obtain ⟨s₁, hstep, hrest⟩ := run_cons_eq_some.mp hrun
    exact ih (h.of_step hstep) hrest

end

/-- **Reading the log.** After every run, a range read returns exactly the entries the log holds
there, with the leader's id where the cache can name it: for a range in the cache or of durable
entries, and where appends are flushed for every range as soon as nothing is queued. -/
theorem read_eq_log_read (codec : MembershipCodec M) (flush : Bool) (events : List (Event M))
    (s : LogStorage) (hrun : run (step codec) (fresh flush) events = some s) (start stop : ℕ)
    (hread : s.flushLogOnAppend = true ∧ s.queued = [] ∨
      cacheCoversRange s.log start stop = true ∨
      ∀ p ∈ (LogSpec.after flush events).entries.between start stop, p.2.durable = true) :
    s.getLogEntriesSync codec start stop =
      (LogSpec.after flush events).read (cacheCoversRange s.log start stop) start stop := by
  have h : Refines codec s (LogSpec.after flush events) := (Refines.fresh flush).of_run hrun
  refine h.read (hread.elim (fun ⟨hflush, hqueued⟩ => .inr fun p hp => ?_) id)
  have hdurable := h.flushed (h.mode.symm.trans hflush) p.1 p.2 (mem_between.mp hp).1
  exact hdurable.resolve_right (by simp [hqueued])

/-! ### What a restart forgets -/

def unitCodec : MembershipCodec Unit := ⟨fun _ => [], fun _ => .ok (), fun _ => rfl⟩

def proposedEntry : Entry Unit := ⟨⟨1, 1, 1⟩, .normal [7]⟩

/-- A single node forgets an appended entry that it has not applied. A node of a cluster does not
find the entry in a longer range before it is written, and after a restart it reads the entry back
without its leader. -/
theorem restart_forgets_unapplied_entry_and_leader :
    ((run (step unitCodec) (fresh false) [.append [proposedEntry], .restart false]).map
        fun s => s.getLogEntriesSync unitCodec 1 2) = some [] ∧
      ((run (step unitCodec) (fresh true) [.append [proposedEntry]]).map
        fun s => s.getLogEntriesSync unitCodec 1 3) = some [] ∧
      ((run (step unitCodec) (fresh true) [.append [proposedEntry], .written, .restart true]).map
        fun s => s.getLogEntriesSync unitCodec 1 2) = some [⟨⟨1, 0, 1⟩, .normal [7]⟩] := by
  decide

/-- Appended, applied in part, truncated and restarted on a single node: the read of what is left
is exact. -/
theorem read_eq_log_read_singleNodeRun :
    ∃ s, run (step unitCodec) (fresh false)
        [.append [proposedEntry, ⟨⟨1, 1, 2⟩, .blank⟩], .apply 1 2, .truncate 2, .restart false] =
          some s ∧
      s.getLogEntriesSync unitCodec 0 5 =
        (LogSpec.after false
          [.append [proposedEntry, ⟨⟨1, 1, 2⟩, .blank⟩], .apply 1 2, .truncate 2,
            .restart false]).read (cacheCoversRange s.log 0 5) 0 5 := by
  refine ⟨_, rfl, read_eq_log_read unitCodec false _ _ rfl 0 5 (.inr (.inr ?_))⟩
  decide

/-! ### Entries that are not applied yet -/

/-- A read that is not answered from the cache returns durable entries only. -/
theorem Refines.durable_of_read (h : Refines codec s l) {x : Logged M}
    (hcovers : ¬cacheCoversRange s.log start stop = true) (hx : (i, x) ∈ l.entries)
    (hread : x.entry.content ∈ (s.getLogEntriesSync codec start stop).map Entry.content) :
    x.durable = true := by
  obtain ⟨e, he, hcontent⟩ := List.mem_map.mp hread
  unfold getLogEntriesSync at he
  split at he
  · cases he
  obtain ⟨⟨j, r⟩, hr, he⟩ := List.mem_filterMap.mp he
  obtain ⟨y, hy, hdurable, rfl⟩ := h.stored j r (mem_between.mp hr).1
  simp only [encodeStoredEntry, entryFromPayload_taggedPayload, Option.some.injEq] at he
  subst he
  have hindex : y.entry.logId.index = x.entry.logId.index := congrArg Prod.fst hcontent
  rw [h.keyed _ _ hy, h.keyed _ _ hx] at hindex
  subst hindex
  rwa [mem_unique hx hy]

/-- **Every entry stays readable.** After every run, a read of a range returns every entry that the
log still holds there if and only if the range is in the cache or all of its entries are durable. -/
theorem reads_every_entry_iff (codec : MembershipCodec M) (flush : Bool) (events : List (Event M))
    (s : LogStorage) (hrun : run (step codec) (fresh flush) events = some s) (start stop : ℕ) :
    (∀ p ∈ (LogSpec.after flush events).entries.between start stop,
        p.2.entry.content ∈ (s.getLogEntriesSync codec start stop).map Entry.content) ↔
      cacheCoversRange s.log start stop = true ∨
        ∀ p ∈ (LogSpec.after flush events).entries.between start stop, p.2.durable = true := by
  have h : Refines codec s (LogSpec.after flush events) := (Refines.fresh flush).of_run hrun
  constructor
  · refine fun hreads => or_iff_not_imp_left.mpr fun hcovers p hp => ?_
    exact h.durable_of_read hcovers (mem_between.mp hp).1 (hreads p hp)
  · intro hread p hp
    rw [h.read hread, LogSpec.read, List.map_map]
    exact List.mem_map.mpr ⟨p, hp, p.2.content_readBack _⟩

/-- An entry that waits for its apply is not read together with an index that has no entry yet. -/
theorem unapplied_entry_not_read :
    ∃ s, run (step unitCodec) (fresh false) [.append [proposedEntry]] = some s ∧
      s.getLogEntriesSync unitCodec 1 2 = [proposedEntry] ∧
      s.getLogEntriesSync unitCodec 1 3 = [] :=
  ⟨_, rfl, by decide, by decide⟩

/-- The first of two entries is applied: it is read in any range. -/
theorem reads_applied_entry :
    ∃ s, run (step unitCodec) (fresh false)
        [.append [proposedEntry, ⟨⟨1, 1, 2⟩, .blank⟩], .apply 1 2] = some s ∧
      ∀ p ∈ (LogSpec.after false [.append [proposedEntry, ⟨⟨1, 1, 2⟩, .blank⟩],
          .apply 1 2]).entries.between 0 2,
        p.2.entry.content ∈ (s.getLogEntriesSync unitCodec 0 2).map Entry.content :=
  ⟨_, rfl, (reads_every_entry_iff unitCodec false _ _ rfl 0 2).mpr (.inr (by decide))⟩

end LogStorage

end KalamDB.Raft
