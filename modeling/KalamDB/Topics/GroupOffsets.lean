import KalamDB.Lib.OrderedStore
import KalamDB.Storage.PkIndex

/-!
# Offsets of consumer groups

The offset that a consumer group has acked on a partition is a row under the text
`topic:group:partition`. Names may contain colons, so rows of two groups can have **one key**, and
the rows that begin with the names of a group or a topic can belong to others. A scan reads 10 000
rows at most, so it may also miss some. Offsets do not interfere exactly when the texts differ and
the scanned rows are the own ones (`isolated_iff`).
-/

namespace KalamDB.Topics

open PkIndex OrderedStore List Nat

structure OffsetId where
  topicId : String
  groupId : String
  partitionId : ℕ
  deriving DecidableEq

structure TopicOffset extends OffsetId where
  lastAckedOffset : ℕ
  updatedAt : ℕ
  deriving DecidableEq

namespace OffsetId

variable {id other : OffsetId}

/-- The names, joined as in the key. -/
def names (id : OffsetId) : String := id.topicId ++ ":" ++ id.groupId

def makeKey (id : OffsetId) : String := id.names ++ ":" ++ toString id.partitionId

/-- A key tells the joined names and the partition. -/
theorem makeKey_eq_iff :
    id.makeKey = other.makeKey ↔ id.names = other.names ∧ id.partitionId = other.partitionId := by
  refine ⟨fun h => ?_, fun ⟨hnames, hpartition⟩ => by rw [makeKey, makeKey, hnames, hpartition]⟩
  have hcolon : ∀ n : ℕ, ':' ∉ toDigits 10 n := fun n hmem =>
    absurd (isDigit_of_mem_toDigits (by decide) (by decide) hmem) (by decide)
  have hlist : id.names.toList ++ ':' :: toDigits 10 id.partitionId =
      other.names.toList ++ ':' :: toDigits 10 other.partitionId := by
    simpa [makeKey] using congrArg String.toList h
  -- the digits hold no colon, so the last one separates them
  have hparts : id.names.toList = other.names.toList ∧
      toDigits 10 id.partitionId = toDigits 10 other.partitionId := by
    have hid := hcolon id.partitionId
    have hother := hcolon other.partitionId
    generalize toDigits 10 id.partitionId = a at *
    generalize toDigits 10 other.partitionId = b at *
    rcases append_eq_append_iff.mp hlist with ⟨c, hc, hrest⟩ | ⟨c, hc, hrest⟩
    all_goals cases c <;> simp_all
  have hvalue := congrArg (ofDigitChars 10 · 0) hparts.2
  simp only [ofDigitChars_ten_toDigits] at hvalue
  exact ⟨String.toList_injective hparts.1, hvalue⟩

end OffsetId

/-- The committed offset only advances. -/
def TopicOffset.ack (o : TopicOffset) (offset now : ℕ) : TopicOffset :=
  if o.lastAckedOffset < offset then { o with lastAckedOffset := offset, updatedAt := now } else o

def TopicOffset.key (encodeKey : String → KeyBytes) (o : TopicOffset) : KeyBytes :=
  encodeKey o.makeKey

/-- The rows of `system.topic_offsets`, in the order of their encoded keys. -/
abbrev TopicOffsets (encodeKey : String → KeyBytes) : Type :=
  OrderedStore (TopicOffset.key encodeKey)

/-- The bytes of a text, as they are compared with encoded keys. -/
def rawBytes (text : String) : KeyBytes :=
  (utf8Bytes text).map fun b => ⟨b.toNat, b.toNat_lt⟩

def SCAN_LIMIT : ℕ := 10000

namespace TopicOffsets

variable {encodeKey : String → KeyBytes} (s : TopicOffsets encodeKey) (id other : OffsetId)
  (topicId start : String) (own : TopicOffset → Bool)

def getOffset : Option TopicOffset :=
  s.entries.find? fun o => decide (o.key encodeKey = encodeKey id.makeKey)

/-- The row that was found is written back under its key, a new one under its own. -/
def ackOffset (offset now : ℕ) : TopicOffsets encodeKey :=
  s.put (((s.getOffset id).getD { id with lastAckedOffset := 0, updatedAt := now }).ack offset now)

/-- There is no offset before zero, so the row is removed. -/
def resetOffset (nextOffset now : ℕ) : TopicOffsets encodeKey :=
  if nextOffset = 0 then s.removeAll [encodeKey id.makeKey]
  else s.put { id with lastAckedOffset := nextOffset - 1, updatedAt := now }

def scanWithRawPrefix : List TopicOffset :=
  (s.entries.filter fun o => decide (rawBytes start <+: o.key encodeKey)).take SCAN_LIMIT

def getGroupOffsets : List TopicOffset := s.scanWithRawPrefix (id.names ++ ":")

def getTopicOffsets : List TopicOffset := s.scanWithRawPrefix (topicId ++ ":")

def deleteTopicOffsets : ℕ × TopicOffsets encodeKey :=
  ((s.getTopicOffsets topicId).length,
    s.removeAll ((s.getTopicOffsets topicId).map (TopicOffset.key encodeKey)))

/-- **Offsets do not interfere.** -/
structure Isolated : Prop where
  ack : ∀ offset now, (s.ackOffset id offset now).getOffset other = s.getOffset other
  reset : ∀ nextOffset now, (s.resetOffset id nextOffset now).getOffset other = s.getOffset other
  group : ∀ o, o ∈ s.getGroupOffsets id ↔
    o ∈ s.entries ∧ o.topicId = id.topicId ∧ o.groupId = id.groupId
  deleted : ∀ o, o ∈ (s.deleteTopicOffsets id.topicId).2.entries ↔
    o ∈ s.entries ∧ o.topicId ≠ id.topicId

/-- The rows of an owner begin with the text and are not too many, and other rows that begin with
it are out of the reach of a scan. -/
def Confined : Prop :=
  (∀ o ∈ s.entries, own o = true → rawBytes start <+: o.key encodeKey) ∧
  s.entries.countP own ≤ SCAN_LIMIT ∧
  ∀ o ∈ s.entries, rawBytes start <+: o.key encodeKey → own o = false →
    SCAN_LIMIT ≤ s.countBefore (fun b => decide (rawBytes start <+: b.key encodeKey)) o

variable {s id other start} {o : TopicOffset}

theorem getOffset_eq_some_iff :
    s.getOffset id = some o ↔ o ∈ s.entries ∧ o.key encodeKey = encodeKey id.makeKey := by
  have hfound : ∀ o', s.getOffset id = some o' →
      o' ∈ s.entries ∧ o'.key encodeKey = encodeKey id.makeKey :=
    fun o' h => ⟨mem_of_find?_eq_some h, by simpa using find?_some h⟩
  refine ⟨hfound o, fun ⟨ho, hkey⟩ => ?_⟩
  cases h : s.getOffset id with
  | none => exact absurd (decide_eq_true hkey) (find?_eq_none.mp h o ho)
  | some o' => rw [eq_of_key_eq ho (hfound o' h).1 (hkey.trans (hfound o' h).2.symm)]

theorem key_acked (offset now : ℕ) :
    (((s.getOffset id).getD { id with lastAckedOffset := 0, updatedAt := now }).ack offset
      now).key encodeKey = encodeKey id.makeKey := by
  have hack : ∀ o : TopicOffset, (o.ack offset now).key encodeKey = o.key encodeKey := by
    intro o
    unfold TopicOffset.ack
    split <;> rfl
  rw [hack]
  cases hfound : s.getOffset id with
  | none => rfl
  | some o => exact (getOffset_eq_some_iff.mp hfound).2

theorem getOffset_put (h : o.key encodeKey ≠ encodeKey other.makeKey) :
    getOffset (s.put o) other = s.getOffset other := by
  refine Option.ext fun o' => ?_
  simp only [getOffset_eq_some_iff, mem_put]
  refine and_congr_left fun hkey => ?_
  rw [hkey, or_iff_right (fun heq => h (by rw [← heq, hkey])), and_iff_left h.symm]

/-- **Acks and resets of an offset leave another one alone** exactly when the keys differ. -/
theorem frame_iff (hencode : Function.Injective encodeKey) :
    ((∀ offset now, (s.ackOffset id offset now).getOffset other = s.getOffset other) ∧
      ∀ nextOffset now, (s.resetOffset id nextOffset now).getOffset other = s.getOffset other) ↔
      id.names ≠ other.names ∨ id.partitionId ≠ other.partitionId := by
  rw [← not_and_or, ← OffsetId.makeKey_eq_iff, ← hencode.eq_iff]
  constructor
  · rintro ⟨hack, hreset⟩ hkey
    -- an offset appears by an ack or disappears by a reset
    cases hfound : s.getOffset other with
    | none =>
      have hnone := find?_eq_none.mp ((hack 0 0).trans hfound) _ (mem_put.mpr (.inl rfl))
      exact hnone (decide_eq_true ((key_acked 0 0).trans hkey))
    | some o =>
      obtain ⟨hmem, ho⟩ := getOffset_eq_some_iff.mp ((hreset 0 0).trans hfound)
      exact (mem_removeAll.mp hmem).2 (mem_singleton.mpr (ho.trans hkey.symm))
  · intro hkey
    refine ⟨fun offset now => getOffset_put ((key_acked offset now).trans_ne hkey),
      fun nextOffset now => ?_⟩
    unfold resetOffset
    split
    · refine Option.ext fun o => ?_
      simp only [getOffset_eq_some_iff, mem_removeAll, mem_singleton]
      exact and_congr_left fun ho => and_iff_left (ho.trans_ne (Ne.symm hkey))
    · exact getOffset_put hkey

theorem mem_of_mem_scan (h : o ∈ s.scanWithRawPrefix start) : o ∈ s.entries :=
  mem_of_mem_filter (mem_of_mem_take h)

theorem mem_deleteTopicOffsets_iff :
    o ∈ (s.deleteTopicOffsets topicId).2.entries ↔
      o ∈ s.entries ∧ o ∉ s.getTopicOffsets topicId := by
  refine mem_removeAll.trans (and_congr_right fun ho => not_congr ?_)
  refine ⟨fun h => ?_, mem_map_of_mem⟩
  obtain ⟨o', ho', hkey⟩ := mem_map.mp h
  rwa [eq_of_key_eq ho (mem_of_mem_scan ho') hkey.symm]

theorem confined_iff : s.Confined start own ↔
    ∀ o, o ∈ s.scanWithRawPrefix start ↔ o ∈ s.entries ∧ own o = true := by
  rw [scanWithRawPrefix, forall_mem_take_filter_iff]
  simp only [decide_eq_true_eq]
  rfl

/-- **When offsets do not interfere**, under an injective encoding of keys. -/
theorem isolated_iff (hencode : Function.Injective encodeKey) (s : TopicOffsets encodeKey)
    (id other : OffsetId) :
    s.Isolated id other ↔
      (id.names ≠ other.names ∨ id.partitionId ≠ other.partitionId) ∧
      s.Confined (id.names ++ ":")
        (fun o => decide (o.topicId = id.topicId ∧ o.groupId = id.groupId)) ∧
      s.Confined (id.topicId ++ ":") fun o => decide (o.topicId = id.topicId) := by
  rw [confined_iff, confined_iff, ← frame_iff hencode]
  simp only [decide_eq_true_eq]
  have hdeleted : (∀ o, o ∈ (s.deleteTopicOffsets id.topicId).2.entries ↔
      o ∈ s.entries ∧ o.topicId ≠ id.topicId) ↔
      ∀ o, o ∈ s.getTopicOffsets id.topicId ↔ o ∈ s.entries ∧ o.topicId = id.topicId := by
    refine forall_congr' fun o => ?_
    have hmem : o ∈ s.getTopicOffsets id.topicId → o ∈ s.entries := mem_of_mem_scan
    rw [mem_deleteTopicOffsets_iff]
    tauto
  exact ⟨fun h => ⟨⟨h.ack, h.reset⟩, h.group, hdeleted.mp h.deleted⟩,
    fun ⟨⟨hack, hreset⟩, hgroup, htopic⟩ => ⟨hack, hreset, hgroup, hdeleted.mpr htopic⟩⟩

/-- A text under the key encoding: its bytes and a terminator. -/
def terminatedBytes (text : String) : KeyBytes := rawBytes text ++ [⟨0, by decide⟩]

/-- One acked offset, on the first partition. -/
def acked (topicId groupId : String) : TopicOffsets terminatedBytes :=
  OrderedStore.empty.put ⟨⟨topicId, groupId, 0⟩, 7, 1⟩

/-- **Two groups with one key**: an ack of the one is read as an offset of the other. -/
theorem not_isolated_of_colons : ¬ (acked "a" "b:c").Isolated ⟨"a:b", "c", 0⟩ ⟨"a", "b:c", 0⟩ := by
  intro h
  have hread := h.ack 9 2
  revert hread
  decide

theorem terminatedBytes_injective : Function.Injective terminatedBytes := by
  intro a b h
  have hraw : rawBytes a = rawBytes b := append_cancel_right h
  refine utf8Bytes_injective (map_injective_iff.mpr (fun x y hxy => ?_) hraw)
  exact UInt8.toNat_inj.mp (Fin.mk.inj hxy)

/-- Offsets of two groups of one topic. -/
def ackedByTwo : TopicOffsets terminatedBytes := (acked "t" "g").put ⟨⟨"t", "h", 0⟩, 3, 1⟩

theorem isolated_without_colons : ackedByTwo.Isolated ⟨"t", "g", 0⟩ ⟨"t", "h", 0⟩ := by
  refine (isolated_iff terminatedBytes_injective _ _ _).mpr ⟨by decide, ?_, ?_⟩
  all_goals exact ⟨by decide, by decide, by decide⟩

end TopicOffsets

end KalamDB.Topics
