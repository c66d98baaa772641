import KalamDB.Topics.Partition

/-!
# Logs of a partition

A log is **sound** if its messages lie below the counter and its tail is a run of consecutive
offsets that no stored message is beyond. All operations keep logs sound, and a restart that reads
the store makes a sound one of any store. Reading a sound log from an offset finds nothing only if
nothing is stored there or later (`Sound.offset_lt_of_load_eq_nil`). A log **without gaps** has a
message at every offset from the earliest one to the counter, and only failing writes and retention
make gaps.
-/

namespace KalamDB.Topics

open List OrderedStore PartitionTail TopicMessageStore Nat

/-! ### Tails -/

/-- The messages have consecutive offsets from the start to the end of the tail. -/
structure PartitionTail.Contiguous (t : PartitionTail) : Prop where
  offsets : t.messages.map TopicMessage.offset = List.range' t.start t.messages.length
  endOffset : t.messages ≠ [] → t.endOffset = t.start + t.messages.length

namespace PartitionTail

variable {t : PartitionTail}

theorem contiguous_clear : clear.Contiguous := ⟨rfl, fun h => absurd rfl h⟩

/-- A tail that has lost some of its first messages. -/
structure Trimmed (t t' : PartitionTail) : Prop where
  contiguous : t'.Contiguous
  endOffset : t'.messages ≠ [] → t'.endOffset = t.endOffset
  subset : t'.messages ⊆ t.messages

theorem trimmed_of_nil {t' : PartitionTail} (h : t'.messages = []) : Trimmed t t' where
  contiguous := ⟨by simp [h], fun hne => absurd h hne⟩
  endOffset hne := absurd h hne
  subset := by simp [h]

section

variable (h : t.Contiguous)
include h

theorem Contiguous.sorted : t.messages.Pairwise fun a b => a.offset < b.offset := by
  have hsorted := pairwise_lt_range' (s := t.start) (n := t.messages.length)
  rw [← h.offsets] at hsorted
  exact pairwise_map.mp hsorted

/-- Popping stops in front of a message that fails the test. -/
theorem Contiguous.popFrontWhile (test : PartitionTail → TopicMessage → Bool) :
    Trimmed t (popFrontWhile test t.messages t) ∧
      ∀ front ∈ (popFrontWhile test t.messages t).messages.head?,
        test (popFrontWhile test t.messages t) front = false := by
  generalize hl : t.messages = l
  induction l generalizing t with
  | nil => exact ⟨⟨h, fun _ => rfl, Subset.refl _⟩, by simp [popFrontWhile, hl]⟩
  | cons dropped rest ih =>
    unfold popFrontWhile
    split
    · have hoffsets := h.offsets
      rw [hl, map_cons, length_cons, range'_succ, cons.injEq] at hoffsets
      have hend := h.endOffset (hl ▸ cons_ne_nil dropped rest)
      rw [hl, length_cons] at hend
      have hrest : Contiguous ⟨dropped.offset + 1, t.endOffset,
          t.bytes - dropped.payload.length, rest⟩ := by
        refine ⟨hoffsets.1 ▸ hoffsets.2, fun _ => ?_⟩
        change t.endOffset = dropped.offset + 1 + rest.length
        omega
      obtain ⟨htrimmed, hfront⟩ := ih hrest rfl
      refine ⟨⟨htrimmed.contiguous, htrimmed.endOffset, ?_⟩, hfront⟩
      rw [hl]
      exact subset_cons_of_subset dropped htrimmed.subset
    · next htest => exact ⟨⟨h, fun _ => rfl, Subset.refl _⟩, by simpa [hl] using htest⟩

theorem Contiguous.trimCapacity : Trimmed t t.trimCapacity := by
  have htrimmed := (h.popFrontWhile fun tail _ =>
    decide (tailMaxMessages < tail.messages.length ∨ tailMaxBytes < tail.bytes)).1
  unfold PartitionTail.trimCapacity
  dsimp only
  split
  · next hempty => exact trimmed_of_nil (isEmpty_iff.mp hempty)
  · exact htrimmed

theorem Contiguous.trimBelow (earliest : ℕ) :
    Trimmed t (t.trimBelow earliest) ∧
      ∀ m ∈ (t.trimBelow earliest).messages, earliest ≤ m.offset := by
  obtain ⟨htrimmed, hfront⟩ := h.popFrontWhile fun _ front => decide (front.offset < earliest)
  unfold PartitionTail.trimBelow
  dsimp only
  split
  · next hempty =>
    have hnil := isEmpty_iff.mp hempty
    exact ⟨trimmed_of_nil hnil, by simp [hnil]⟩
  refine ⟨htrimmed, fun m hm => ?_⟩
  obtain ⟨front, hhead⟩ := Option.isSome_iff_exists.mp (isSome_head?.mpr (ne_nil_of_mem hm))
  have hle := le_of_head (s := ⟨_, htrimmed.contiguous.sorted⟩) hhead hm
  exact (not_lt.mp (of_decide_eq_false (hfront front hhead))).trans hle

/-- A tail ends after the message that was appended last. -/
theorem Contiguous.append (message : TopicMessage) :
    (t.append message).Contiguous ∧
      ((t.append message).messages ≠ [] → (t.append message).endOffset = message.offset + 1) ∧
      (t.append message).messages ⊆ t.messages ++ [message] := by
  have hone : (⟨message.offset, message.offset + 1, message.payload.length, [message]⟩ :
      PartitionTail).Contiguous := ⟨rfl, fun _ => rfl⟩
  have htrimmed := hone.trimCapacity
  have hsubset := subset_append_of_subset_right t.messages htrimmed.subset
  unfold PartitionTail.append
  dsimp only
  split
  · exact ⟨htrimmed.contiguous, htrimmed.endOffset, hsubset⟩
  rename_i hgap
  split
  · exact ⟨htrimmed.contiguous, htrimmed.endOffset, hsubset⟩
  rename_i hempty
  have hne : t.messages ≠ [] := mt isEmpty_iff.mpr hempty
  have hnext : message.offset = t.endOffset := by
    by_contra hoffset
    simp [hne, hoffset] at hgap
  have hwhole : Contiguous ⟨t.start, message.offset + 1, t.bytes + message.payload.length,
      t.messages ++ [message]⟩ := by
    refine ⟨?_, fun _ => ?_⟩
    · rw [map_append, length_append, h.offsets, length_singleton,
        range'_concat, map_singleton, hnext, h.endOffset hne, one_mul]
    · rw [hnext, h.endOffset hne, length_append, length_singleton, add_assoc]
  have htrimmed := hwhole.trimCapacity
  exact ⟨htrimmed.contiguous, htrimmed.endOffset, htrimmed.subset⟩

theorem Contiguous.appendMessages (context : PublishContext) (start : ℕ) (rows : List PublishRow) :
    (t.appendMessages (messagesFrom context start rows)).Contiguous ∧
      ((t.appendMessages (messagesFrom context start rows)).messages ≠ [] → rows ≠ [] →
        (t.appendMessages (messagesFrom context start rows)).endOffset = start + rows.length) ∧
      (t.appendMessages (messagesFrom context start rows)).messages ⊆
        t.messages ++ messagesFrom context start rows := by
  induction rows generalizing t start with
  | nil => exact ⟨h, fun _ hrows => absurd rfl hrows, subset_append_left _ _⟩
  | cons row rows ih =>
    obtain ⟨hcontiguous, hend, hsubset⟩ := h.append
      ⟨start, row.payload, row.key, context.timestampMs, context.userId, context.op⟩
    obtain ⟨hrest, hrest_end, hrest_subset⟩ := ih hcontiguous (start + 1)
    refine ⟨hrest, fun hne _ => ?_, fun m hm => ?_⟩
    · cases rows with
      | nil => exact hend hne
      | cons row' rows =>
        refine (hrest_end hne (cons_ne_nil row' rows)).trans ?_
        simp only [length_cons]
        omega
    · refine (mem_append.mp (hrest_subset hm)).elim (fun hm => ?_) fun hm => ?_
      · grind [messagesFrom]
      · grind [messagesFrom]

/-- Reading a tail is a miss, or a hit at its end, or begins at the offset. -/
theorem Contiguous.fetch_cases (offset : ℕ) {limit : ℕ} (hlimit : 0 < limit) :
    t.fetch offset limit = none ∨
      (t.messages ≠ [] ∧ offset = t.endOffset ∧ t.fetch offset limit = some []) ∨
      ∃ m rest, m.offset = offset ∧ t.fetch offset limit = some (m :: rest) := by
  unfold fetch
  split
  · exact .inl rfl
  rename_i hempty
  have hne : t.messages ≠ [] := mt isEmpty_iff.mpr hempty
  have hend := h.endOffset hne
  split
  · next hoffset => exact .inr (.inl ⟨hne, hoffset, rfl⟩)
  split
  · exact .inl rfl
  obtain ⟨limit, rfl⟩ := Nat.exists_eq_succ_of_ne_zero (Nat.pos_iff_ne_zero.mp hlimit)
  have hindex : offset - t.start < t.messages.length := by omega
  have hfirst : (t.messages.get ⟨offset - t.start, hindex⟩).offset = offset := by
    have hget := congrArg (fun l => l[offset - t.start]?) h.offsets
    simp only [getElem?_map, getElem?_range' hindex,
      getElem?_eq_getElem hindex, Option.map_some, Option.some.injEq] at hget
    exact hget.trans (by omega)
  refine .inr (.inr ⟨_, (t.messages.drop (offset - t.start + 1)).take limit, hfirst, ?_⟩)
  rw [drop_eq_getElem_cons hindex]
  rfl

end

end PartitionTail

/-! ### Sound logs -/

namespace Partition

variable {m : TopicMessage} {offset limit : ℕ}

/-- A sound log. -/
structure Sound (p : Partition) : Prop where
  stored_lt : ∀ m ∈ p.store.messages.entries, m.offset < p.write.nextOffset.getD 0
  logStart_le : p.write.logStart ≤ p.write.nextOffset.getD 0
  contiguous : p.tail.Contiguous
  tail_end : p.tail.messages ≠ [] →
    ∀ m ∈ p.store.messages.entries, m.offset < p.tail.endOffset

variable {encodedLen : TopicMessage → ℕ} {p p' : Partition}

theorem Sound.publish (h : p.Sound) (context : PublishContext) (rows : List PublishRow)
    (writes : Bool) : (p.publishBatch encodedLen context rows writes).2.Sound := by
  rcases p.publishBatch_cases encodedLen context rows writes with
    heq | ⟨-, heq⟩ | ⟨-, hrows, messages, rfl, heq⟩ <;> rw [heq]
  · exact h
  · have hnext : p.write.nextOffset.getD 0 ≤ p.write.nextOffset.getD 0 + rows.length :=
      le_add_right _ _
    exact ⟨fun m hm => (h.stored_lt m hm).trans_le hnext, h.logStart_le.trans hnext, h.contiguous,
      h.tail_end⟩
  · have hwrite := (p.write.allocate rows.length).2.addRetainedBytes_keeps
    obtain ⟨hcontiguous, hend, -⟩ :=
      h.contiguous.appendMessages context (p.write.nextOffset.getD 0) rows
    have hstored : ∀ m ∈ (p.store.messages.putAll
        (messagesFrom context (p.write.nextOffset.getD 0) rows)).entries,
          m.offset < p.write.nextOffset.getD 0 + rows.length := by
      intro m hm
      rcases mem_of_mem_putAll hm with hm | hm
      · exact (mem_messagesFrom_offset hm).2
      · exact (h.stored_lt m hm).trans_le (le_add_right _ _)
    refine ⟨?_, ?_, hcontiguous, fun hne m hm => ?_⟩
    · rw [(hwrite _).1]
      exact hstored
    · rw [(hwrite _).1, (hwrite _).2]
      exact h.logStart_le.trans (le_add_right _ _)
    · rw [hend hne hrows]
      exact hstored m hm

theorem earliestOffset_eq (store : TopicMessageStore) :
    store.earliestOffset = store.messages.entries.head?.map TopicMessage.offset := by
  have hall : store.messages.scanFrom 0 = store.messages.entries :=
    filter_eq_self.mpr fun m _ => decide_eq_true (zero_le m.offset)
  rw [earliestOffset, fetchMessages, hall]
  cases store.messages.entries <;> rfl

/-- The log does not begin beyond the counter. -/
theorem Sound.earliest_getD_le (h : p.Sound) {default : ℕ}
    (hdefault : default ≤ p.write.nextOffset.getD 0) :
    p.store.earliestOffset.getD default ≤ p.write.nextOffset.getD 0 := by
  rw [earliestOffset_eq]
  cases hhead : p.store.messages.entries.head? with
  | none => exact hdefault
  | some m => exact (h.stored_lt m (mem_of_mem_head? hhead)).le

theorem Sound.deletes (h : p.Sound) (hdeletes : Deletes p p') : p'.Sound where
  stored_lt m hm := by
    rw [hdeletes.nextOffset]
    exact h.stored_lt m (hdeletes.messages m hm)
  logStart_le := by
    rw [hdeletes.nextOffset, hdeletes.logStart]
    exact h.logStart_le
  contiguous := by
    rw [hdeletes.tail]
    exact h.contiguous
  tail_end hne m hm := by
    rw [hdeletes.tail] at hne ⊢
    exact h.tail_end hne m (hdeletes.messages m hm)

theorem Sound.enforceRetention {cutoff maxBytes : Option ℤ} {batchSize : ℕ}
    {stats : TopicRetentionDeletionStats} (h : p.Sound)
    (hok : p.enforceRetention cutoff maxBytes batchSize = .ok (stats, p')) : p'.Sound := by
  obtain ⟨p₁, ⟨hdeletes, -⟩, ⟨-, rfl⟩ | ⟨logStart, hlogStart, rfl⟩⟩ := enforceRetention_cases hok
  · exact h.deletes hdeletes
  have h₁ := h.deletes hdeletes
  have hwrite := p₁.write.setLogStart_keeps logStart
  have hle := hlogStart.trans_le (h₁.earliest_getD_le le_rfl)
  have htrimmed := (h₁.contiguous.trimBelow logStart).1
  refine ⟨?_, ?_, htrimmed.contiguous, fun hne m hm => ?_⟩
  · rw [hwrite.1]
    exact h₁.stored_lt
  · rw [hwrite.1, hwrite.2]
    exact max_le h₁.logStart_le hle
  · rw [htrimmed.endOffset hne]
    exact h₁.tail_end (fun hnil => hne (subset_nil.mp (hnil ▸ htrimmed.subset))) m hm

/-- A store that was read on restart is a sound log. -/
theorem sound_restart (p : Partition) : (p.restart true).Sound := by
  have hclear : ∀ {P : Prop}, clear.messages ≠ [] → P := fun hne => absurd rfl hne
  cases hlast : p.store.messages.entries.getLast? with
  | none =>
    have hnil := getLast?_eq_none_iff.mp hlast
    have heq : p.restart true = fresh p.store := by
      simp [restart, fresh, TopicMessageStore.latestOffset, hlast]
    rw [heq]
    refine ⟨fun m hm => ?_, le_rfl, contiguous_clear, hclear⟩
    change m ∈ p.store.messages.entries at hm
    rw [hnil] at hm
    cases hm
  | some last =>
    have heq : p.restart true = ⟨p.store, ⟨some (last.offset + 1), none, 0⟩, .clear⟩ := by
      simp [restart, fresh, TopicMessageStore.latestOffset, hlast, PartitionWriteState.seed,
        PartitionWriteState.fresh]
    rw [heq]
    refine ⟨fun m hm => ?_, zero_le _, contiguous_clear, hclear⟩
    have hmax : m.offset ≤ last.offset := le_of_getLast hlast hm
    exact lt_succ_of_le hmax

/-! ### Reading a sound log -/

theorem earliest_le (hm : m ∈ p.store.messages.entries) : p.earliestAvailableOffset ≤ m.offset := by
  rw [earliestAvailableOffset, earliestOffset_eq]
  cases hhead : p.store.messages.entries.head? with
  | none => simp [head?_eq_none_iff.mp hhead] at hm
  | some first => exact le_of_head hhead hm

theorem Sound.offset_lt_highWatermark (h : p.Sound) (hm : m ∈ p.store.messages.entries)
    (earliest : ℕ) : m.offset < p.logHighWatermark earliest := by
  have hlt := h.stored_lt m hm
  unfold logHighWatermark latestOffset
  cases hnext : p.write.nextOffset with
  | none => simp [hnext] at hlt
  | some next =>
    rw [hnext, Option.getD_some] at hlt
    have hpos : next ≠ 0 := by omega
    simp only [hpos, if_false]
    omega

theorem Sound.highWatermark_le (h : p.Sound) (earliest : ℕ) :
    p.logHighWatermark earliest ≤ max (p.write.nextOffset.getD 0) earliest := by
  unfold logHighWatermark latestOffset
  cases hnext : p.write.nextOffset with
  | none =>
    cases hlast : p.store.messages.entries.getLast? with
    | none => simp [TopicMessageStore.latestOffset, hlast]
    | some m =>
      have hlt := h.stored_lt m (mem_of_getLast? hlast)
      simp [hnext] at hlt
  | some next =>
    by_cases hzero : next = 0
    · simp [hzero]
    · simp only [hzero, if_false, Option.getD_some]
      omega

theorem loadMessages_zero (p : Partition) (offset : ℕ) : p.loadMessages offset 0 = [] := by
  unfold loadMessages fetch
  split
  · rfl
  split
  · rfl
  · split <;> rfl

/-- If nothing is read from an offset on, nothing is stored there. -/
theorem Sound.offset_lt_of_load_eq_nil (h : p.Sound) (hlimit : 0 < limit)
    (hload : p.loadMessages offset limit = []) :
    ∀ m ∈ p.store.messages.entries, m.offset < offset := by
  unfold loadMessages at hload
  rcases h.contiguous.fetch_cases offset hlimit with
    hmiss | ⟨hne, hend, -⟩ | ⟨m, rest, -, hhit⟩
  · rw [hmiss] at hload
    intro m hm
    by_contra hge
    have hmem : m ∈ p.store.messages.scanFrom offset := mem_scanFrom.mpr ⟨hm, not_lt.mp hge⟩
    rcases take_eq_nil_iff.mp hload with hzero | hnil
    · omega
    · rw [hnil] at hmem
      cases hmem
  · rw [hend]
    exact h.tail_end hne
  · rw [hhit] at hload
    cases hload

/-! ### Logs without gaps -/

/-- There is a message at every offset from the earliest one to the counter. -/
def GapFree (p : Partition) : Prop :=
  ∀ o, p.earliestAvailableOffset ≤ o → o < p.write.nextOffset.getD 0 →
    ∃ m ∈ p.store.messages.entries, m.offset = o

/-- New messages do not move the earliest offset down. -/
theorem Sound.earliest_le_putAll (h : p.Sound) {context : PublishContext} {rows : List PublishRow}
    (hrows : rows ≠ []) {store : TopicMessageStore} (hstore : store.messages =
      p.store.messages.putAll (messagesFrom context (p.write.nextOffset.getD 0) rows))
    (default : ℕ) : p.earliestAvailableOffset ≤ store.earliestOffset.getD default := by
  rw [earliestOffset_eq]
  cases hhead : store.messages.entries.head? with
  | none =>
    obtain ⟨row, rows, rfl⟩ := exists_cons_of_ne_nil hrows
    have hmem := mem_putAll (s := p.store.messages)
      (messagesFrom_pairwise context (p.write.nextOffset.getD 0) (row :: rows)) mem_cons_self
    rw [← hstore, head?_eq_none_iff.mp hhead] at hmem
    cases hmem
  | some first =>
    have hfirst := mem_of_mem_head? hhead
    rw [hstore] at hfirst
    rcases mem_of_mem_putAll hfirst with hnew | hold
    · exact (h.earliest_getD_le h.logStart_le).trans (mem_messagesFrom_offset hnew).1
    · exact earliest_le hold

/-- Writes that succeed make no gap. -/
theorem GapFree.publish (h : p.GapFree) (hsound : p.Sound) (context : PublishContext)
    (rows : List PublishRow) : (p.publishBatch encodedLen context rows true).2.GapFree := by
  rcases p.publishBatch_cases encodedLen context rows true with
    heq | ⟨hwrites, -⟩ | ⟨-, hrows, messages, rfl, heq⟩
  · rw [heq]
    exact h
  · cases hwrites
  rw [heq]
  intro o hfrom hto
  rw [(PartitionWriteState.addRetainedBytes_keeps _ _).1] at hto
  by_cases hold : o < p.write.nextOffset.getD 0
  · -- The earliest offset does not fall, so the message was there before.
    have hearliest : p.earliestAvailableOffset ≤ o :=
      (hsound.earliest_le_putAll hrows rfl _).trans hfrom
    obtain ⟨m, hm, hoffset⟩ := h o hearliest hold
    refine ⟨m, mem_putAll_of_mem hm fun m' hm' => ?_, hoffset⟩
    exact (hoffset.trans_lt (hold.trans_le (mem_messagesFrom_offset hm').1)).ne
  · have hmem : o ∈ (messagesFrom context (p.write.nextOffset.getD 0) rows).map
        TopicMessage.offset := by
      rw [map_offset_messagesFrom]
      exact mem_range'_1.mpr ⟨not_lt.mp hold, hto⟩
    obtain ⟨m, hm, hoffset⟩ := mem_map.mp hmem
    exact ⟨m, mem_putAll (messagesFrom_pairwise context _ rows) hm, hoffset⟩

/-- Reading a log without gaps begins at the offset. -/
theorem GapFree.load (h : p.GapFree) (hsound : p.Sound) (hlimit : 0 < limit)
    (hfrom : p.earliestAvailableOffset ≤ offset) (hto : offset < p.write.nextOffset.getD 0) :
    ∃ m ∈ p.loadMessages offset limit, m.offset = offset := by
  obtain ⟨m, hm, hoffset⟩ := h offset hfrom hto
  unfold loadMessages
  rcases hsound.contiguous.fetch_cases offset hlimit with
    hmiss | ⟨hne, hend, -⟩ | ⟨m', rest, hoffset', hhit⟩
  · have hmem : m ∈ p.store.messages.scanFrom offset := mem_scanFrom.mpr ⟨hm, hoffset.ge⟩
    cases hscan : p.store.messages.scanFrom offset with
    | nil =>
      rw [hscan] at hmem
      cases hmem
    | cons first rest =>
      have hfirst : first ∈ p.store.messages.scanFrom offset := by
        rw [hscan]
        exact mem_cons_self
      have hle : first.offset ≤ m.offset := le_of_head_scanFrom (by rw [hscan]; rfl) hm hoffset.ge
      refine ⟨first, ?_, le_antisymm (hle.trans hoffset.le) (mem_scanFrom.mp hfirst).2⟩
      obtain ⟨limit, rfl⟩ := Nat.exists_eq_succ_of_ne_zero (Nat.pos_iff_ne_zero.mp hlimit)
      simp [hmiss, fetchMessages, hscan]
  · exact absurd (hsound.tail_end hne m hm) (by omega)
  · exact ⟨m', by simp [hhit], hoffset'⟩

end Partition

end KalamDB.Topics
