import Mathlib.Algebra.Order.BigOperators.Group.List
import KalamDB.Lib.GatedQueue
import KalamDB.Raft.CommittedLog
import KalamDB.Raft.DataGroups

/-!
# Watermarks and log order

A replica applies the committed log of its data group while the Meta group advances on its own.
A *schedule* is an interleaving of the two: Meta advances, and the next entry is applied, the
Meta index possibly moving between the watermark check and the drain.

The machine refines a **gated queue** (`Tracks`): commands are the items, watermarks the gates,
the Meta index the level, and the pending buffer what waits. So every schedule that drains its
buffer executes the accepted commands in log order if their watermarks do not fall, the last
command of the log excepted. And only then: with a falling watermark some schedule executes
the later command first (`exists_schedule_out_of_order`).
-/

namespace KalamDB.Raft

open Runs List DataGroup GatedQueue PendingBuffer LogEntry

variable {A C T : Type}

/-! ### Schedules -/

variable {g : DataGroup A C T}

structure Replica (C T : Type) where
  machine : DataStateMachine C T
  metaIndex : ℕ
  unapplied : List LogEntry

inductive ScheduleEvent where
  | metaAdvance (n : ℕ)
  | applyNext (metaDuring : ℕ)

namespace Replica

variable (g : DataGroup A C T) (appliers : ℕ → A)

def start (tables : T) (entries : List LogEntry) : Replica C T := ⟨.new tables, 0, entries⟩

/-- One event of a schedule. A replica whose apply fails stops. -/
def step (s : Replica C T) : ScheduleEvent → Option (Replica C T)
  | .metaAdvance n => some { s with metaIndex := max s.metaIndex n }
  | .applyNext n =>
    match s.unapplied with
    | [] => none
    | entry :: rest =>
      match g.applyEntry appliers entry s.metaIndex (max s.metaIndex n) s.machine with
      | (.ok _, machine) => some ⟨machine, max s.metaIndex n, rest⟩
      | (.error _, _) => none

/-- Every entry is applied, every watermark reached and nothing waits. -/
structure Complete (log : g.CommittedLog) (s : Replica C T) : Prop where
  applied : s.unapplied = []
  reached : ∀ e ∈ log.entries, g.watermark e ≤ s.metaIndex
  drained : s.machine.pendingBuffer.isEmpty = true

end Replica

/-- **The tables are a function of the log**: any two schedules that complete execute the same
commands, those of the log in its order, and appliers that answer alike leave the same tables. -/
def LogDetermined (g : DataGroup A C T) (tables : T) (log : g.CommittedLog) : Prop :=
  ∀ (appliers₁ appliers₂ : ℕ → A) (es₁ es₂ : List ScheduleEvent)
    (s₁ s₂ : Replica C T),
    run (Replica.step g appliers₁) (.start tables log.entries) es₁ = some s₁ →
    run (Replica.step g appliers₂) (.start tables log.entries) es₂ = some s₂ →
    s₁.Complete g log → s₂.Complete g log →
    s₁.machine.executed = s₂.machine.executed ∧
      s₁.machine.executed = log.acceptedCommands ∧
      (appliers₁ = appliers₂ → s₁.machine.tables = s₂.machine.tables)

/-- Up to the last command of the log, the watermarks of the accepted commands do not fall. -/
def WatermarksRise (g : DataGroup A C T) (log : g.CommittedLog) : Prop :=
  GatedQueue.Rising g.watermark (fun e => (g.acceptedEntry e).isSome)
    (log.entries.filter LogEntry.isNormal)

/-! ### The machine as a gated queue -/

/-- The replica does what the queue does: commands yet to apply arrive, buffered ones wait, and
the executed ones are the accepted among the released. -/
structure Tracks (g : DataGroup A C T) (s : Replica C T) (q : GatedQueue.State LogEntry) :
    Prop where
  level : q.level = s.metaIndex
  arriving : q.arriving = s.unapplied.filter LogEntry.isNormal
  waiting : s.machine.pendingBuffer.commands.Perm (q.waiting.map g.toPending)
  executed : s.machine.executed = q.released.filterMap g.acceptedEntry
  rising : (q.waiting ++ s.unapplied).Pairwise fun a b => a.index < b.index
  fresh : ∀ e ∈ s.unapplied, e.isNormal = true → s.machine.lastAppliedIndex < e.index
  waitingDecodes : ∀ e ∈ q.waiting, ∃ cmd, g.decodeApplyCommand e.command = .ok cmd
  unappliedDecodes : ∀ e ∈ s.unapplied, e.isNormal = true →
    ∃ cmd, g.decodeApplyCommand e.command = .ok cmd

namespace Tracks

variable {g : DataGroup A C T} {appliers : ℕ → A} {s : Replica C T}
  {q : GatedQueue.State LogEntry} {m : DataStateMachine C T} {rest : List LogEntry} {e : LogEntry}
  {n : ℕ} {r : ApplyResult}

theorem start (tables : T) (log : g.CommittedLog) :
    Tracks g (.start tables log.entries)
      (GatedQueue.start 0 (log.entries.filter isNormal)) where
  level := rfl
  arriving := rfl
  waiting := .refl _
  executed := rfl
  rising := log.rising
  fresh e he hn := (log.decodes e he hn).1
  waitingDecodes _ he := absurd he (by simp [GatedQueue.start])
  unappliedDecodes e he hn := (log.decodes e he hn).2

section

variable (h : Tracks g s q) (metaIndex : ℕ)
include h

/-- Draining hands over the waiting commands that are satisfied, in the order they wait in. -/
theorem drained :
    (s.machine.pendingBuffer.drained metaIndex).filterMap
        (fun p => g.accepted p.logIndex p.commandBytes) =
      (q.waiting.filter fun e => decide (g.watermark e ≤ metaIndex)).filterMap g.acceptedEntry := by
  have hrising : (q.waiting.map g.toPending).Pairwise fun a b => a.logIndex < b.logIndex :=
    pairwise_map.mpr (pairwise_append.mp h.rising).1
  rw [drained_eq h.waiting hrising, filter_map, filterMap_map]
  rfl

theorem remaining :
    (s.machine.pendingBuffer.remaining metaIndex).commands.Perm
      ((q.waiting.filter fun e => decide (metaIndex < g.watermark e)).map g.toPending) := by
  have hperm := h.waiting.filter fun c => decide (metaIndex < c.requiredMetaIndex)
  rwa [filter_map] at hperm

section

variable (hnext : s.unapplied = e :: rest)
include hnext

/-- The order, freshness and decoding of what is left after an entry. -/
theorem advance {metaIndex : ℕ} {q' : GatedQueue.State LogEntry}
    (hlevel : q'.level = metaIndex) (harriving : q'.arriving = rest.filter isNormal)
    (hwaiting : m.pendingBuffer.commands.Perm (q'.waiting.map g.toPending))
    (hexecuted : m.executed = q'.released.filterMap g.acceptedEntry)
    (hsub : q'.waiting.Sublist (q.waiting ++ [e]))
    (hdecodes : e ∈ q'.waiting → ∃ cmd, g.decodeApplyCommand e.command = .ok cmd)
    (hlast : m.lastAppliedIndex ≤ max s.machine.lastAppliedIndex e.index) :
    Tracks g ⟨m, metaIndex, rest⟩ q' := by
  have hrising := h.rising
  rw [hnext, append_cons] at hrising
  refine ⟨hlevel, harriving, hwaiting, hexecuted, hrising.sublist (hsub.append_right rest),
    fun f hf hn => ?_, fun f hf => ?_, fun f hf hn => ?_⟩
  · have hbehind : e.index < f.index := (pairwise_append.mp hrising).2.2 e (by simp) f hf
    have hnew := h.fresh f (by simp [hnext, hf]) hn
    change m.lastAppliedIndex < f.index
    omega
  · obtain hq | he := mem_append.mp (hsub.subset hf)
    · exact h.waitingDecodes f hq
    · obtain rfl := mem_singleton.mp he
      exact hdecodes hf
  · exact h.unappliedDecodes f (by simp [hnext, hf]) hn

/-- **A command is admitted as an item of the queue.** -/
theorem enter (hnormal : e.isNormal = true)
    (happly : g.applyEntry appliers e s.metaIndex (max s.metaIndex n) s.machine = (.ok r, m)) :
    Tracks g ⟨m, max s.metaIndex n, rest⟩
      (GatedQueue.enter g.watermark q (max q.level n) e (rest.filter isNormal)) := by
  rw [applyEntry, payload_of_isNormal hnormal] at happly
  have hfresh := h.fresh e (by simp [hnext]) hnormal
  obtain ⟨hskip, -⟩ | ⟨-, cmd, hdecode, hcase⟩ := apply_ok happly
  · omega
  have hmark := watermark_of_decode hdecode
  obtain ⟨hahead, rfl⟩ | ⟨hreached, hcase⟩ := hcase
  · -- the watermark is ahead of the Meta group: the command waits behind the others
    have hgate : q.level < g.watermark e := by rw [h.level, hmark]; exact hahead
    rw [enter, if_pos hgate]
    refine h.advance hnext (by rw [h.level]) rfl ?_ h.executed (.refl _) (fun _ => ⟨cmd, hdecode⟩)
      (le_max_right _ _)
    rw [map_append]
    refine (add_perm _ _).trans ?_
    rw [← hmark]
    exact h.waiting.append_right _
  · -- it passes: the satisfied commands leave the buffer in front of it
    have hgate : ¬q.level < g.watermark e := by rw [h.level]; omega
    rw [GatedQueue.enter, if_neg hgate, h.level]
    have hdrained := h.drained (max s.metaIndex n)
    have hremaining := h.remaining (max s.metaIndex n)
    have hsub : (q.waiting.filter fun w => decide (max s.metaIndex n < g.watermark w)).Sublist
        (q.waiting ++ [e]) :=
      filter_sublist.trans (sublist_append_left _ _)
    obtain ⟨haccepted, rfl⟩ | ⟨haccepted, rfl⟩ := hcase
    · refine h.advance hnext rfl rfl hremaining ?_ hsub (fun _ => ⟨cmd, hdecode⟩) (le_max_left _ _)
      have hnone : g.acceptedEntry e = none := haccepted
      simp only [afterDrain, ran, hdrained, h.executed]
      simp [hnone]
    · refine h.advance hnext rfl rfl hremaining ?_ hsub (fun _ => ⟨cmd, hdecode⟩) (le_max_right _ _)
      have hsome : g.acceptedEntry e = some (e.index, cmd) := haccepted
      simp only [afterDrain, ran, DataStateMachine.markApplied, hdrained, h.executed]
      simp [hsome]

/-- A command to apply is the next item to arrive. -/
theorem step_arrive (hnormal : e.isNormal = true) (n : ℕ) :
    GatedQueue.step g.watermark q (.arrive n) =
      some (GatedQueue.enter g.watermark q (max q.level n) e (rest.filter isNormal)) := by
  have harriving : q.arriving = e :: rest.filter isNormal := by
    rw [h.arriving, hnext, filter_cons, hnormal]
    rfl
  simp [step, harriving]

/-- Entries without a command leave the queue as it is. -/
theorem skip (hnormal : e.isNormal = false)
    (happly : g.applyEntry appliers e s.metaIndex (max s.metaIndex n) s.machine = (.ok r, m)) :
    Tracks g ⟨m, max s.metaIndex n, rest⟩ { q with level := max q.level n } := by
  rw [applyEntry_of_not_isNormal hnormal] at happly
  cases happly
  have hnot : e ∉ q.waiting := by
    intro hmem
    have hrising := h.rising
    rw [hnext] at hrising
    exact lt_irrefl _ ((pairwise_append.mp hrising).2.2 e hmem e (by simp))
  refine h.advance hnext (by rw [h.level]) ?_ (by simpa using h.waiting)
    (by simpa using h.executed) (sublist_append_left _ _)
    (fun hmem => absurd hmem hnot) (by simp)
  rw [h.arriving, hnext, filter_cons, hnormal]
  rfl

end

end

end Tracks

namespace Replica

variable {g : DataGroup A C T} {appliers : ℕ → A} {s s' : Replica C T} {event : ScheduleEvent}
  {es : List ScheduleEvent} {log : g.CommittedLog} {tables : T} {rest front back : List LogEntry}
  {early late : LogEntry}

/-- What an event of a schedule can do. -/
theorem step_cases (h : step g appliers s event = some s') :
    (∃ n, event = .metaAdvance n ∧ s' = { s with metaIndex := max s.metaIndex n }) ∨
      ∃ n e rest r m, event = .applyNext n ∧ s.unapplied = e :: rest ∧
        g.applyEntry appliers e s.metaIndex (max s.metaIndex n) s.machine = (.ok r, m) ∧
        s' = ⟨m, max s.metaIndex n, rest⟩ := by
  cases event with
  | metaAdvance n => exact .inl ⟨n, rfl, (Option.some.inj h).symm⟩
  | applyNext n =>
    cases hnext : s.unapplied with
    | nil => simp [step, hnext] at h
    | cons e rest =>
      simp only [step, hnext] at h
      split at h
      · rename_i r m happly
        exact .inr ⟨n, e, rest, r, m, rfl, rfl, happly, (Option.some.inj h).symm⟩
      · cases h

/-- The queue follows every event. -/
theorem step_tracks {q : GatedQueue.State LogEntry} (hq : Tracks g s q)
    (h : step g appliers s event = some s') :
    ∃ fs q', run (GatedQueue.step g.watermark) q fs = some q' ∧ Tracks g s' q' := by
  obtain ⟨n, -, rfl⟩ | ⟨n, e, rest, r, m, -, hnext, happly, rfl⟩ := step_cases h
  · refine ⟨[.raise n], { q with level := max q.level n }, rfl, ?_⟩
    exact { hq with level := by rw [← hq.level] }
  cases hnormal : e.isNormal with
  | false => exact ⟨[.raise n], _, rfl, hq.skip hnext hnormal happly⟩
  | true =>
    exact ⟨[.arrive n], _, run_cons_eq_some.mpr ⟨_, hq.step_arrive hnext hnormal n, run_nil _⟩,
      hq.enter hnext hnormal happly⟩

/-- **The machine refines the gated queue** along every schedule. -/
theorem run_tracks {q : GatedQueue.State LogEntry} (hq : Tracks g s q)
    (h : run (step g appliers) s es = some s') :
    ∃ fs q', run (GatedQueue.step g.watermark) q fs = some q' ∧ Tracks g s' q' :=
  run_simulation (Tracks g) (fun _ _ _ _ hR hstep => step_tracks hR hstep) hq h

/-- A complete replica has nothing waiting. -/
theorem Complete.queue_empty {q : GatedQueue.State LogEntry} (h : s.Complete g log)
    (hq : Tracks g s q) : q.arriving = [] ∧ q.waiting = [] := by
  refine ⟨by rw [hq.arriving, h.applied, filter_nil], ?_⟩
  have hempty := hq.waiting
  rw [PendingBuffer.isEmpty_iff.mp h.drained] at hempty
  exact map_eq_nil_iff.mp hempty.nil_eq.symm

/-- The tables are what the executed commands made of them. -/
theorem run_tables (hs : s.machine.tables = s.machine.executed.foldl (g.execute appliers) tables)
    (h : run (step g appliers) s es = some s') :
    s'.machine.tables = s'.machine.executed.foldl (g.execute appliers) tables := by
  refine run_preserves (fun s : Replica C T =>
    s.machine.tables = s.machine.executed.foldl (g.execute appliers) tables) ?_ hs h
  intro s event s' hs hstep
  obtain ⟨n, -, rfl⟩ | ⟨n, e, rest, r, m, -, -, happly, rfl⟩ := step_cases hstep
  · exact hs
  · exact applyEntry_tables hs happly

/-! ### Rising watermarks keep the log order -/

theorem executed_eq_of_watermarksRise (hrise : WatermarksRise g log)
    (hrun : run (step g appliers) (start tables log.entries) es = some s)
    (hcomplete : s.Complete g log) : s.machine.executed = log.acceptedCommands := by
  obtain ⟨fs, q, hqueue, hq⟩ := run_tracks (Tracks.start tables log) hrun
  obtain ⟨harriving, hwaiting⟩ := hcomplete.queue_empty hq
  rw [hq.executed]
  have hkeep : ∀ l : List LogEntry, (l.filter fun e => (g.acceptedEntry e).isSome).filterMap
      g.acceptedEntry = l.filterMap g.acceptedEntry := by
    intro l
    rw [filterMap_filter]
    congr 1
    funext e
    cases g.acceptedEntry e <;> rfl
  rw [← hkeep, released_eq_of_rising hrise hqueue harriving hwaiting]
  exact hkeep _

theorem logDetermined_of_watermarksRise (tables : T) (hrise : WatermarksRise g log) :
    LogDetermined g tables log := by
  intro appliers₁ appliers₂ es₁ es₂ s₁ s₂ hrun₁ hrun₂ hcomplete₁ hcomplete₂
  have hexec₁ := executed_eq_of_watermarksRise hrise hrun₁ hcomplete₁
  have hexec₂ := executed_eq_of_watermarksRise hrise hrun₂ hcomplete₂
  refine ⟨hexec₁.trans hexec₂.symm, hexec₁, ?_⟩
  rintro rfl
  have htables₁ : s₁.machine.tables = _ := run_tables rfl hrun₁
  have htables₂ : s₂.machine.tables = _ := run_tables rfl hrun₂
  rw [htables₁, htables₂, hexec₁, hexec₂]

/-! ### A falling watermark breaks it -/

variable {a : A} {q : GatedQueue.State LogEntry}

/-- Under an applier that executes everything the next entry is applied. -/
theorem exists_step {e : LogEntry} (hexec : g.Executes a) (hq : Tracks g s q)
    (hnext : s.unapplied = e :: rest) (n : ℕ) :
    ∃ s', step g (fun _ => a) s (.applyNext n) = some s' ∧ s'.unapplied = rest ∧
      s'.metaIndex = max s.metaIndex n := by
  have happly : ∃ r m, g.applyEntry (fun _ => a) e s.metaIndex (max s.metaIndex n) s.machine =
      (.ok r, m) := by
    cases hnormal : e.isNormal with
    | false => exact ⟨_, _, applyEntry_of_not_isNormal hnormal _ _ _⟩
    | true =>
      rw [applyEntry, payload_of_isNormal hnormal]
      obtain ⟨cmd, hdecode⟩ := hq.unappliedDecodes e (by simp [hnext]) hnormal
      refine hexec.apply hdecode (fun p hp => ?_) _ _ _ _
      obtain ⟨w, hw, rfl⟩ := mem_map.mp (hq.waiting.mem_iff.mp hp)
      exact hq.waitingDecodes w hw
  obtain ⟨r, m, happly⟩ := happly
  exact ⟨⟨m, max s.metaIndex n, rest⟩, by simp [step, hnext, happly], rfl, rfl⟩

/-- So are all entries of a front of the log, while the Meta group stands still. -/
theorem exists_run (hexec : g.Executes a) (hq : Tracks g s q)
    (hnext : s.unapplied = front ++ rest) :
    ∃ es s', run (step g fun _ => a) s es = some s' ∧ s'.unapplied = rest ∧
      s'.metaIndex = s.metaIndex := by
  induction front generalizing s q with
  | nil => exact ⟨[], s, rfl, hnext, rfl⟩
  | cons e front ih =>
    obtain ⟨s₁, hstep, hrest, hmeta⟩ := exists_step hexec hq hnext 0
    obtain ⟨-, q₁, -, hq₁⟩ := step_tracks hq hstep
    obtain ⟨es, s', hrun, hrest', hmeta'⟩ := ih hq₁ hrest
    exact ⟨.applyNext 0 :: es, s', run_cons_eq_some.mpr ⟨s₁, hstep, hrun⟩, hrest', by
      rw [hmeta', hmeta, Nat.max_zero]⟩

/-- Accepted commands of a log have rising indexes. -/
theorem acceptedCommands_rising (log : g.CommittedLog) :
    log.acceptedCommands.Pairwise fun x y => x.1 < y.1 := by
  refine List.Pairwise.filterMap _ ?_ (log.rising.filter _)
  intro e f hlt x hx y hy
  rw [fst_of_acceptedEntry hx, fst_of_acceptedEntry hy]
  exact hlt

/-- Meta stands at the watermark of a later command when that one is applied, so an earlier
command with a higher watermark has been overtaken. -/
theorem exists_overtaken (hexec : g.Executes a) (hlog : log.entries = front ++ late :: back)
    (hlate : late.isNormal = true) (hfall : g.watermark late < g.watermark early) (tables : T) :
    ∃ es s fs q, run (step g fun _ => a) (start tables log.entries) es = some s ∧
      s.unapplied = back ∧ Tracks g s q ∧
      run (GatedQueue.step g.watermark)
        (GatedQueue.start 0 (log.entries.filter isNormal)) fs = some q ∧
      late ∈ q.released ∧ early ∉ q.released := by
  -- Meta reaches the later command's watermark, and the entries in front of it are applied
  have hq₀ := Tracks.start tables log
  let s₀ : Replica C T := { start tables log.entries with metaIndex := g.watermark late }
  have hstep₀ : step g (fun _ => a) (start tables log.entries)
      (.metaAdvance (g.watermark late)) = some s₀ := by
    simp [step, start, s₀]
  obtain ⟨fs₀, q₁, hfs₀, hq₁⟩ := step_tracks hq₀ hstep₀
  obtain ⟨es₁, s₁, hrun₁, hnext₁, hmeta₁⟩ := exists_run hexec hq₁ hlog
  obtain ⟨fs₁, q₂, hfs₁, hq₂⟩ := run_tracks hq₁ hrun₁
  -- the later command passes, the earlier one is still above the level
  obtain ⟨s₂, hstep₂, -, -⟩ := exists_step hexec hq₂ hnext₁ 0
  have hcase := step_cases hstep₂
  simp only [reduceCtorEq, false_and, exists_false, false_or] at hcase
  obtain ⟨n, e, rest, r, m, hn, hnext, happly, rfl⟩ := hcase
  obtain rfl : 0 = n := ScheduleEvent.applyNext.inj hn
  obtain ⟨rfl, rfl⟩ : e = late ∧ rest = back := cons.inj (hnext.symm.trans hnext₁)
  have hq₃ := hq₂.enter hnext hlate happly
  have hlevel₂ : q₂.level = g.watermark e := by rw [hq₂.level, hmeta₁]
  have hfs₂ := hq₂.step_arrive hnext hlate 0
  have hqueue := run_append_eq_some.mpr ⟨q₁, hfs₀, run_append_eq_some.mpr
    ⟨q₂, hfs₁, run_cons_eq_some.mpr ⟨_, hfs₂, run_nil _⟩⟩⟩
  have hrun := run_cons_eq_some.mpr ⟨s₀, hstep₀, run_append_eq_some.mpr
    ⟨s₁, hrun₁, run_cons_eq_some.mpr ⟨_, hstep₂, run_nil _⟩⟩⟩
  refine ⟨_, _, _, _, hrun, rfl, hq₃, hqueue, mem_released_enter hlevel₂.ge, ?_⟩
  intro hmem
  have hle := GatedQueue.gate_le_level (by simp [GatedQueue.start]) hqueue early hmem
  rw [GatedQueue.enter_level] at hle
  omega

/-- Meta passes every watermark and the rest of the log is applied: if a command is among it,
the replica is complete. -/
theorem exists_completion (hexec : g.Executes a) (hq : Tracks g s q)
    (hrest : ∃ z ∈ s.unapplied, z.isNormal = true)
    (hlog : ∀ e ∈ q.waiting ++ q.arriving, e ∈ log.entries) :
    ∃ es s' fs q', run (step g fun _ => a) s es = some s' ∧ s'.Complete g log ∧
      Tracks g s' q' ∧ run (GatedQueue.step g.watermark) q fs = some q' := by
  obtain ⟨top, htop⟩ : ∃ top, ∀ e ∈ log.entries, g.watermark e ≤ top :=
    ⟨(log.entries.map g.watermark).sum, fun e he => le_sum_of_mem (mem_map_of_mem he)⟩
  let s₁ : Replica C T := { s with metaIndex := max s.metaIndex top }
  let q₁ : GatedQueue.State LogEntry := { q with level := max q.level top }
  have hq₁ : Tracks g s₁ q₁ := { hq with level := by simp only [s₁, q₁, hq.level] }
  obtain ⟨es, s₂, hrun, hnext, hmeta⟩ :=
    exists_run hexec hq₁ (show s₁.unapplied = s.unapplied ++ [] by simp [s₁])
  obtain ⟨fs, q₂, hqueue, hq₂⟩ := run_tracks hq₁ hrun
  have hgates : ∀ e ∈ q₁.waiting ++ q₁.arriving, g.watermark e ≤ q₁.level :=
    fun e he => (htop e (hlog e he)).trans (le_max_right _ _)
  have harriving : q₁.arriving ≠ [] := by
    obtain ⟨z, hz, hnormal⟩ := hrest
    rw [hq₁.arriving]
    exact ne_nil_of_mem (mem_filter.mpr ⟨hz, hnormal⟩)
  have hend : q₂.arriving = [] := by rw [hq₂.arriving, hnext, filter_nil]
  have hnil := waiting_eq_nil_of_le_level hgates harriving hqueue hend
  refine ⟨.metaAdvance top :: es, s₂, .raise top :: fs, q₂,
    run_cons_eq_some.mpr ⟨s₁, rfl, hrun⟩, ⟨hnext, fun e he => ?_, ?_⟩, hq₂,
    run_cons_eq_some.mpr ⟨q₁, rfl, hqueue⟩⟩
  · rw [hmeta]
    exact (htop e he).trans (le_max_right _ _)
  · have hpending := hq₂.waiting
    rw [hnil] at hpending
    exact PendingBuffer.isEmpty_iff.mpr hpending.eq_nil

/-- **A falling watermark is overtaken**: a schedule that completes executes the later command
first. -/
theorem exists_schedule_out_of_order (hexec : g.Executes a)
    (hlog : log.entries = front ++ late :: back) (hearly : early ∈ front)
    (hearlyNormal : early.isNormal = true) (hlateNormal : late.isNormal = true)
    (hback : ∃ z ∈ back, z.isNormal = true) (hearlyAccepted : (g.acceptedEntry early).isSome)
    (hlateAccepted : (g.acceptedEntry late).isSome) (hfall : g.watermark late < g.watermark early)
    (tables : T) :
    ∃ es s, run (step g fun _ => a) (start tables log.entries) es = some s ∧
      s.Complete g log ∧ s.machine.executed ≠ log.acceptedCommands := by
  obtain ⟨es, s, fs, q, hrun, hnext, hq, hqueue, hreleased, hkept⟩ :=
    exists_overtaken hexec hlog hlateNormal hfall tables
  have hitems := released_append_perm (.refl _) hqueue
  obtain ⟨es', s', fs', q', hrun', hcomplete, hq', hqueue'⟩ :=
    exists_completion hexec hq (by rwa [hnext]) fun e he => mem_of_mem_filter (hitems.mem_iff.mp (by
        rw [append_assoc]
        exact mem_append_right _ he))
  refine ⟨es ++ es', s', run_append_eq_some.mpr ⟨s, hrun, hrun'⟩, hcomplete, fun horder => ?_⟩
  -- the earlier command is released only behind the later one
  obtain ⟨tail, htail⟩ := released_isPrefix hqueue'
  have hitems' := released_append_perm hitems hqueue'
  obtain ⟨harriving, hwaiting⟩ := hcomplete.queue_empty hq'
  have hmem : early ∈ tail := by
    have : early ∈ q'.released := by
      have hin : early ∈ log.entries.filter isNormal :=
        mem_filter.mpr ⟨by simp [hlog, hearly], hearlyNormal⟩
      have := hitems'.mem_iff.mpr hin
      simpa [harriving, hwaiting] using this
    rw [← htail] at this
    exact (mem_append.mp this).resolve_left hkept
  have hrising := acceptedCommands_rising log
  rw [← horder, hq'.executed, ← htail, filterMap_append] at hrising
  obtain ⟨x, hx⟩ := Option.isSome_iff_exists.mp hlateAccepted
  obtain ⟨y, hy⟩ := Option.isSome_iff_exists.mp hearlyAccepted
  have hlt := (pairwise_append.mp hrising).2.2 x
    (mem_filterMap.mpr ⟨late, hreleased, hx⟩) y (mem_filterMap.mpr ⟨early, hmem, hy⟩)
  rw [fst_of_acceptedEntry hx, fst_of_acceptedEntry hy] at hlt
  have hindex : early.index < late.index := by
    have := log.rising
    rw [hlog] at this
    exact (pairwise_append.mp this).2.2 early hearly late (by simp)
  omega

end Replica

/-! ### The exact condition -/

/-- A fall of watermarks before the last command gives an earlier and a later entry with a
command behind them. -/
theorem exists_fall {log : g.CommittedLog} (h : ¬WatermarksRise g log) :
    ∃ front early late back, log.entries = front ++ late :: back ∧ early ∈ front ∧
      early.isNormal = true ∧ late.isNormal = true ∧ (∃ z ∈ back, z.isNormal = true) ∧
      (g.acceptedEntry early).isSome ∧ (g.acceptedEntry late).isSome ∧
      g.watermark late < g.watermark early := by
  unfold WatermarksRise GatedQueue.Rising at h
  rw [pairwise_iff_forall_sublist] at h
  push Not at h
  obtain ⟨early, late, hsub, hfall⟩ := h
  set items := log.entries.filter isNormal
  have hmem : ∀ e ∈ [early, late], e ∈ items.dropLast ∧ (g.acceptedEntry e).isSome := fun e he =>
    mem_filter.mp (hsub.subset he)
  have hne : items ≠ [] := ne_nil_of_mem ((dropLast_sublist _).subset (hmem early (by simp)).1)
  -- the two and the last command stand in the log in this order
  have hitems : [early, late] ++ [items.getLast hne] <+ items := by
    have happend := (hsub.trans filter_sublist).append_right [items.getLast hne]
    rwa [dropLast_append_getLast hne] at happend
  have hnormal : ∀ e ∈ [early, late] ++ [items.getLast hne], e.isNormal = true := fun e he =>
    (mem_filter.mp (hitems.subset he)).2
  obtain ⟨front, rest, hlog, hearly, hrest⟩ := cons_sublist_iff.mp (hitems.trans filter_sublist)
  obtain ⟨middle, back, rfl, hlate, hlast⟩ := cons_sublist_iff.mp hrest
  obtain ⟨between, behind, rfl⟩ := append_of_mem hlate
  refine ⟨front ++ between, early, late, behind ++ back, by simp [hlog], by simp [hearly],
    hnormal early (by simp), hnormal late (by simp), ⟨items.getLast hne, ?_, ?_⟩,
    (hmem early (by simp)).2, (hmem late (by simp)).2, hfall⟩
  · exact mem_append_right _ (singleton_sublist.mp hlast)
  · exact hnormal _ (by simp)

theorem logDetermined_iff_of_executes {a : A} (hexec : g.Executes a) (tables : T)
    (log : g.CommittedLog) : LogDetermined g tables log ↔ WatermarksRise g log := by
  refine ⟨fun hdet => ?_, Replica.logDetermined_of_watermarksRise tables⟩
  by_contra hrise
  obtain ⟨front, early, late, back, hlog, hearly, hearlyN, hlateN, hback, hearlyA, hlateA, hfall⟩ :=
    exists_fall hrise
  obtain ⟨es, s, hrun, hcomplete, hne⟩ := Replica.exists_schedule_out_of_order hexec hlog hearly
    hearlyN hlateN hback hearlyA hlateA hfall tables
  exact hne (hdet _ _ es es s s hrun hrun hcomplete hcomplete).2.1

/-- **The tables of a data group are a function of its log exactly when the watermarks of the
accepted commands do not fall before the last command**, for shared and for user tables. -/
theorem logDetermined_iff_watermarksRise (T : Type) (tables : T) (codec : CommandCodec) :
    (∀ shard (log : (sharedDataGroup T codec shard).CommittedLog),
      LogDetermined _ tables log ↔ WatermarksRise _ log) ∧
    ∀ log : (userDataGroup T codec).CommittedLog,
      LogDetermined _ tables log ↔ WatermarksRise _ log :=
  ⟨fun shard => logDetermined_iff_of_executes (sharedDataGroup_executes codec shard) tables,
    logDetermined_iff_of_executes (userDataGroup_executes codec) tables⟩

/-! ### Two sessions of one leader -/

def overtakenCodec : CommandCodec :=
  knownCommands [([1], insertItem 5 1), ([2], insertItem 4 2), ([3], insertItem 5 3)]

/-- One session reads Meta index 4 before another reads 5, and its proposal reaches the log
second. -/
def overtakenLog : (sharedDataGroup Unit overtakenCodec 0).CommittedLog where
  entries := [⟨1, 1, .normal [1]⟩, ⟨2, 1, .normal [2]⟩, ⟨3, 1, .normal [3]⟩]
  rising := by decide
  decodes := by
    intro e he _
    simp only [List.mem_cons, List.not_mem_nil, or_false] at he
    obtain rfl | rfl | rfl := he <;> exact ⟨by decide, _, rfl⟩

/-- A replica whose Meta group is at 4 when it applies the second insert executes it first. -/
theorem overtakenLog_not_determined :
    ¬LogDetermined (sharedDataGroup Unit overtakenCodec 0) () overtakenLog := by
  intro h
  have hrun := h (fun _ => some (NoOpSharedDataApplier Unit 0))
    (fun _ => some (NoOpSharedDataApplier Unit 0))
    [.metaAdvance 4, .applyNext 0, .applyNext 0, .metaAdvance 5, .applyNext 0]
    [.metaAdvance 5, .applyNext 0, .applyNext 0, .applyNext 0] _ _ rfl rfl
    ⟨rfl, by decide, rfl⟩ ⟨rfl, by decide, rfl⟩
  have hfirst := congrArg (fun l : List (ℕ × SharedApplyCommand) => l.map Prod.fst) hrun.1
  exact absurd hfirst (by decide)

end KalamDB.Raft
