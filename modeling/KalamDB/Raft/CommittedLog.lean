import KalamDB.Raft.DataMachine

/-!
# Committed logs and what one entry does to the machine

The log of a data group is the same on every replica. Each of its commands is known by its
watermark, by the command it executes (`acceptedEntry`) and by the form in which it waits
(`toPending`).

The lemmas of the second half say what applying one entry does, in the terms later modules
need: **commands are accounted for**, since each is executed or waits afterwards
(`applyEntry_accounts`), and **nothing else is executed** than the entry itself and commands that
waited, even when the apply fails (`applyEntry_effect`).
-/

namespace KalamDB.Raft

open List PendingBuffer

variable {A C T : Type}

/-! ### Committed logs -/

def LogEntry.isNormal (entry : LogEntry) : Bool :=
  match entry.payload with
  | .normal _ => true
  | .blank | .membership => false

def LogEntry.command (entry : LogEntry) : List UInt8 :=
  match entry.payload with
  | .normal command => command
  | .blank | .membership => []

theorem LogEntry.payload_of_isNormal {entry : LogEntry} (h : entry.isNormal = true) :
    entry.payload = .normal entry.command := by
  cases hp : entry.payload <;> simp_all [isNormal, command]

namespace DataGroup

variable (g : DataGroup A C T) {cmd : C} {entry : LogEntry} {m' m : DataStateMachine C T}
  {r : Except RaftError Unit} {index metaAtDrain metaAtCheck : ℕ}

/-- The watermark of an entry. -/
def watermark (entry : LogEntry) : ℕ :=
  match g.decodeApplyCommand entry.command with
  | .ok cmd => g.requiredMetaIndex cmd
  | .error _ => 0

/-- The command an entry has executed, unless its row versions cannot be assigned. -/
def acceptedEntry (entry : LogEntry) : Option (ℕ × C) := g.accepted entry.index entry.command

/-- The entry as it waits in the pending buffer. -/
def toPending (entry : LogEntry) : PendingCommand :=
  ⟨entry.index, entry.term, g.watermark entry, entry.command⟩

/-- The committed log of a group: indexes rise, commands were encoded by a proposer, and the
first index of a log is never a command. -/
structure CommittedLog where
  entries : List LogEntry
  rising : entries.Pairwise fun a b => a.index < b.index
  decodes : ∀ e ∈ entries, e.isNormal = true →
    0 < e.index ∧ ∃ cmd, g.decodeApplyCommand e.command = .ok cmd

variable {g}

/-- The accepted commands of a log, in log order. -/
def CommittedLog.acceptedCommands (log : g.CommittedLog) : List (ℕ × C) :=
  (log.entries.filter LogEntry.isNormal).filterMap g.acceptedEntry

theorem watermark_of_decode (h : g.decodeApplyCommand entry.command = .ok cmd) :
    g.watermark entry = g.requiredMetaIndex cmd := by
  simp [watermark, h]

theorem fst_of_acceptedEntry {x : ℕ × C} (h : g.acceptedEntry entry = some x) :
    x.1 = entry.index := by
  unfold acceptedEntry at h
  revert h
  fun_cases g.accepted entry.index entry.command <;> rintro ⟨⟩
  rfl

/-! ### What one entry does -/

variable {appliers : ℕ → A} {m₁ m₂ : DataStateMachine C T}

/-- An entry without a command is applied by moving the applied index. -/
theorem applyEntry_of_not_isNormal (h : entry.isNormal = false) (metaAtCheck metaAtDrain : ℕ)
    (m : DataStateMachine C T) :
    g.applyEntry appliers entry metaAtCheck metaAtDrain m =
      (.ok .noOp, m.markAppliedIndex entry.index entry.term) := by
  unfold applyEntry
  cases hp : entry.payload <;> simp_all [LogEntry.isNormal]

/-- The machine has executed some of these commands. -/
structure DrainOf (pending : List PendingCommand) (m m' : DataStateMachine C T) : Prop where
  pendingBuffer : m'.pendingBuffer = m.pendingBuffer
  lastAppliedIndex : m'.lastAppliedIndex = m.lastAppliedIndex
  executed : ∃ new, m'.executed = m.executed ++ new ∧ ∀ x ∈ new, ∃ p ∈ pending, p.logIndex = x.1

theorem DrainOf.cons {p : PendingCommand} {rest : List PendingCommand}
    (h₂ : DrainOf rest m₁ m₂) (h₁ : DrainOf [p] m m₁) : DrainOf (p :: rest) m m₂ := by
  obtain ⟨hpending₁, hlast₁, new₁, hnew₁, hindex₁⟩ := h₁
  obtain ⟨hpending₂, hlast₂, new₂, hnew₂, hindex₂⟩ := h₂
  refine ⟨hpending₂.trans hpending₁, hlast₂.trans hlast₁, new₁ ++ new₂, ?_, fun x hx => ?_⟩
  · rw [hnew₂, hnew₁, append_assoc]
  · obtain hx | hx := mem_append.mp hx
    · exact ⟨p, mem_cons_self, by simpa using hindex₁ x hx⟩
    · obtain ⟨q, hq, hqx⟩ := hindex₂ x hx
      exact ⟨q, mem_cons_of_mem p hq, hqx⟩

/-- A drain, even one that fails, executes only commands it was given. -/
theorem drainLoop_effect {pending : List PendingCommand}
    (h : g.drainLoop appliers pending m = (r, m')) : DrainOf pending m m' := by
  fun_induction g.drainLoop appliers pending m with
  | case1 | case2 | case4 =>
    cases h
    exact ⟨rfl, rfl, [], by simp, by simp⟩
  | case3 m p rest _ _ _ _ ih => exact (ih h).cons ⟨rfl, rfl, [], by simp, by simp⟩
  | case5 m p rest _ _ _ _ _ _ _ ih => exact (ih h).cons ⟨rfl, rfl, [_], rfl, by simp⟩

/-- The machine has executed the entry of this index or commands that waited, and only that
entry can have begun to wait. -/
structure EffectOf (index : ℕ) (m m' : DataStateMachine C T) : Prop where
  executed : ∃ new, m'.executed = m.executed ++ new ∧ ∀ x ∈ new,
    index = x.1 ∨ ∃ p ∈ m.pendingBuffer.commands, p.logIndex = x.1
  pending : ∀ p ∈ m'.pendingBuffer.commands,
    p ∈ m.pendingBuffer.commands ∨ p.logIndex = index

theorem EffectOf.of_eq (hexecuted : m'.executed = m.executed)
    (hpending : m'.pendingBuffer = m.pendingBuffer) : EffectOf index m m' :=
  ⟨⟨[], by simp [hexecuted], by simp⟩, fun p hp => .inl (by rwa [hpending] at hp)⟩

theorem EffectOf.grows (h : EffectOf index m m') : ∀ x ∈ m.executed, x ∈ m'.executed := by
  obtain ⟨⟨new, hnew, -⟩, -⟩ := h
  rw [hnew]
  exact fun _ => mem_append_left _

theorem EffectOf.trans (h₁ : EffectOf index m m₁)
    (h₂ : EffectOf index m₁ m₂) : EffectOf index m m₂ := by
  obtain ⟨⟨new₁, hnew₁, hx₁⟩, hp₁⟩ := h₁
  obtain ⟨⟨new₂, hnew₂, hx₂⟩, hp₂⟩ := h₂
  refine ⟨⟨new₁ ++ new₂, by rw [hnew₂, hnew₁, append_assoc], fun x hx => ?_⟩, fun p hp => ?_⟩
  · obtain hx | hx := mem_append.mp hx
    · exact hx₁ x hx
    obtain hx | ⟨p, hp, hpx⟩ := hx₂ x hx
    · exact .inl hx
    obtain hp | hp := hp₁ p hp
    · exact .inr ⟨p, hp, hpx⟩
    · exact .inl (hp.symm.trans hpx)
  · obtain hp | hp := hp₂ p hp
    · exact hp₁ p hp
    · exact .inr hp

theorem drainPending_effect (index : ℕ) {metaIndex : ℕ}
    (h : g.drainPending appliers metaIndex m = (r, m')) : EffectOf index m m' := by
  obtain ⟨hpending, -, new, hnew, hindex⟩ := drainLoop_effect h
  refine ⟨⟨new, hnew, fun x hx => ?_⟩, fun p hp => .inl ?_⟩
  · obtain ⟨p, hp, hpx⟩ := hindex x hx
    rw [drained, mem_insertionSort] at hp
    exact .inr ⟨p, mem_of_mem_filter hp, hpx⟩
  · rw [hpending] at hp
    exact mem_of_mem_filter hp

/-- **Nothing else is executed**, whatever comes of applying an entry. -/
theorem applyEntry_effect {r : Except RaftError ApplyResult}
    (h : g.applyEntry appliers entry metaAtCheck metaAtDrain m = (r, m')) :
    EffectOf entry.index m m' := by
  have hdrain : ∀ {r' : Except RaftError Unit} {n : DataStateMachine C T},
      (if m.pendingBuffer.isEmpty then (.ok (), m)
        else g.drainPending appliers metaAtDrain m) = (r', n) → EffectOf entry.index m n := by
    intro r' n hn
    split at hn
    · cases hn
      exact .of_eq rfl rfl
    · exact drainPending_effect _ hn
  revert h
  fun_cases g.applyEntry appliers entry metaAtCheck metaAtDrain m
  · next command _ =>
    fun_cases g.apply appliers entry.index entry.term command metaAtCheck metaAtDrain m
    case case3 =>
      -- the entry begins to wait
      rintro ⟨⟩
      refine ⟨⟨[], by simp [DataStateMachine.buffered, DataStateMachine.markApplied], by simp⟩,
        fun p hp => ?_⟩
      obtain hp | hp := mem_append.mp ((add_perm _ _).mem_iff.mp hp)
      · exact .inl hp
      · rw [mem_singleton.mp hp]
        exact .inr rfl
    case case4 hn =>
      rintro ⟨⟩
      exact hdrain hn
    case case5 cmd _ _ n hn =>
      refine fun h => (hdrain hn).trans ?_
      revert h
      fun_cases g.applyCurrent appliers entry.index entry.term cmd n <;> rintro ⟨⟩
      case case3 => exact ⟨⟨[(entry.index, _)], rfl, by simp⟩, fun p hp => .inl hp⟩
      all_goals exact .of_eq rfl rfl
    all_goals
      rintro ⟨⟩
      exact .of_eq rfl rfl
  all_goals
    rintro ⟨⟩
    exact .of_eq (by simp) (by simp)

/-- **Commands are accounted for** by an entry that is applied. -/
structure Accounts (g : DataGroup A C T) (entry : LogEntry) (metaAtCheck metaAtDrain : ℕ)
    (m m' : DataStateMachine C T) : Prop where
  waited : ∀ p ∈ m.pendingBuffer.commands, p ∈ m'.pendingBuffer.commands ∨
    ∀ x, g.accepted p.logIndex p.commandBytes = some x → x ∈ m'.executed
  arrived : entry.isNormal = true → m.lastAppliedIndex < entry.index →
    ∀ x, g.acceptedEntry entry = some x →
      x ∈ m'.executed ∨ g.toPending entry ∈ m'.pendingBuffer.commands
  waits : ∀ p ∈ m'.pendingBuffer.commands, p ∈ m.pendingBuffer.commands ∨
    entry.isNormal = true ∧ p = g.toPending entry
  last : m'.lastAppliedIndex ≤ max m.lastAppliedIndex entry.index
  passed : entry.isNormal = true → m.lastAppliedIndex < entry.index →
    g.watermark entry ≤ metaAtCheck →
    ∀ p ∈ m'.pendingBuffer.commands, metaAtDrain < p.requiredMetaIndex

theorem applyEntry_accounts {r : ApplyResult}
    (h : g.applyEntry appliers entry metaAtCheck metaAtDrain m = (.ok r, m')) :
    Accounts g entry metaAtCheck metaAtDrain m m' := by
  cases hnormal : entry.isNormal with
  | false =>
    have hm : m' = m.markAppliedIndex entry.index entry.term := by
      rw [applyEntry_of_not_isNormal hnormal] at h
      exact (Prod.mk.inj h).2.symm
    have hsame : m'.pendingBuffer = m.pendingBuffer ∧
        m'.lastAppliedIndex ≤ max m.lastAppliedIndex entry.index := by
      simp [hm]
    refine ⟨fun p hp => .inl (by rwa [hsame.1]), by simp [hnormal],
      fun p hp => .inl (by rwa [hsame.1] at hp), hsame.2, by simp [hnormal]⟩
  | true =>
    rw [applyEntry, LogEntry.payload_of_isNormal hnormal] at h
    obtain ⟨hskip, rfl⟩ | ⟨hnew, cmd, hdecode, hcase⟩ := apply_ok h
    · exact ⟨fun p hp => .inl hp, fun _ hnew => absurd hskip (not_le.mpr hnew),
        fun p hp => .inl hp, le_max_left _ _, fun _ hnew => absurd hskip (not_le.mpr hnew)⟩
    have hmark := watermark_of_decode hdecode
    have hwaits : (⟨entry.index, entry.term, g.requiredMetaIndex cmd, entry.command⟩ :
        PendingCommand) = g.toPending entry := by rw [toPending, hmark]
    obtain ⟨hahead, rfl⟩ | ⟨-, hcase⟩ := hcase
    · rw [hwaits]
      have hperm := add_perm m.pendingBuffer (g.toPending entry)
      refine ⟨fun p hp => .inl (hperm.mem_iff.mpr (by simp [hp])), fun _ _ x _ =>
        .inr (hperm.mem_iff.mpr (by simp)), fun p hp => ?_, le_max_right _ _, fun _ _ hle => ?_⟩
      · obtain hp | hp := mem_append.mp (hperm.mem_iff.mp hp)
        · exact .inl hp
        · exact .inr ⟨hnormal, mem_singleton.mp hp⟩
      · omega
    · -- the drained commands are executed, the others still wait
      have hdrained : ∀ p ∈ m.pendingBuffer.commands,
          p ∈ (m.pendingBuffer.remaining metaAtDrain).commands ∨
            ∀ x, g.accepted p.logIndex p.commandBytes = some x →
              x ∈ (afterDrain g appliers m metaAtDrain).executed := by
        intro p hp
        by_cases hle : p.requiredMetaIndex ≤ metaAtDrain
        · refine .inr fun x hx => mem_append_right _ (mem_filterMap.mpr ⟨p, ?_, hx⟩)
          rw [drained, mem_insertionSort]
          exact mem_filter.mpr ⟨hp, by simpa using hle⟩
        · exact .inl (mem_filter.mpr ⟨hp, by simpa using hle⟩)
      have hpassed : ∀ p ∈ (m.pendingBuffer.remaining metaAtDrain).commands,
          metaAtDrain < p.requiredMetaIndex := fun p hp => by
        simpa using (mem_filter.mp hp).2
      obtain ⟨haccepted, rfl⟩ | ⟨haccepted, rfl⟩ := hcase
      · have hnone : g.acceptedEntry entry = none := haccepted
        exact ⟨hdrained, fun _ _ x hx => by simp [hnone] at hx,
          fun p hp => .inl (mem_of_mem_filter hp), le_max_left _ _, fun _ _ _ => hpassed⟩
      have hsome : g.acceptedEntry entry = some (entry.index, cmd) := haccepted
      refine ⟨fun p hp => (hdrained p hp).imp id fun h x hx => mem_append_left _ (h x hx),
        fun _ _ x hx => .inl ?_, fun p hp => .inl (mem_of_mem_filter hp), le_max_right _ _,
        fun _ _ _ => hpassed⟩
      obtain rfl := Option.some.inj (hsome.symm.trans hx)
      exact mem_append_right _ (mem_singleton_self _)

end DataGroup

end KalamDB.Raft
