import Mathlib.Algebra.Order.Ring.Nat
import Mathlib.Data.List.Basic
import KalamDB.Lib.Runs

/-!
# Group commit of the write-ahead log

Writers append to the log without syncing it and then share one `flush_wal`. A call takes a
ticket after its write and returns once the durable mark has reached the ticket. A step here is
one critical section of `wait_durable`, or the unlocked flush between two of them, so the runs
are the interleavings of any number of writers with any pattern of failing flushes.

The ticket counter saturates. A call that takes its ticket below the largest `u64` returns only
after a flush that started behind its write (`Sound`); one that takes it there shares the ticket
of a call before it, and with it that call's flush.
-/

namespace KalamDB.Storage

open Function Runs

/-- The largest `u64`, where `saturating_add` stops. -/
def u64Max : ℕ := 2 ^ 64 - 1

structure WalGroupState where
  nextTicket : ℕ
  durableTicket : ℕ
  flushingThrough : Option ℕ

/-- How far a writer's call is. -/
inductive Call where
  | idle
  | written
  | waiting (ticket : ℕ)
  /-- The call runs `flush_wal`, with `start` writes in the log before it, or has its result. -/
  | flushing (ticket through start : ℕ) (result : Option Bool)
  | returned (ok : Bool)

@[grind]
def Call.ticket : Call → Option ℕ
  | .waiting ticket | .flushing ticket _ _ _ => some ticket
  | _ => none

@[grind]
def Call.isFlushing : Call → Prop
  | .flushing .. => True
  | _ => False

structure WalGroupCommit where
  state : WalGroupState
  calls : ℕ → Call
  /-- The calls whose writes are in the log, in its order. -/
  log : List ℕ
  /-- How many writes were in the log when each flush that succeeded started. -/
  flushes : List ℕ

inductive WalEvent where
  | write (c : ℕ)
  | takeTicket (c : ℕ)
  | check (c : ℕ)
  | flushWal (c : ℕ) (ok : Bool)
  | settle (c : ℕ)

namespace WalGroupCommit

variable {s s' : WalGroupCommit} {e : WalEvent} {c : ℕ}

def new : WalGroupCommit := ⟨⟨0, 0, none⟩, fun _ => .idle, [], []⟩

def step (s : WalGroupCommit) : WalEvent → Option WalGroupCommit
  | .write c =>
    match s.calls c with
    | .idle => some { s with calls := update s.calls c .written, log := s.log ++ [c] }
    | _ => none
  | .takeTicket c =>
    match s.calls c with
    | .written =>
      let ticket := min (s.state.nextTicket + 1) u64Max
      some { s with state.nextTicket := ticket, calls := update s.calls c (.waiting ticket) }
    | _ => none
  | .check c =>
    match s.calls c with
    | .waiting ticket =>
      if ticket ≤ s.state.durableTicket then
        some { s with calls := update s.calls c (.returned true) }
      else if s.state.flushingThrough.isSome then
        -- The call waits for a notification and then checks again.
        some s
      else
        let through := s.state.nextTicket
        some { s with
          state.flushingThrough := some through
          calls := update s.calls c (.flushing ticket through s.log.length none) }
    | _ => none
  | .flushWal c ok =>
    match s.calls c with
    | .flushing ticket through start none =>
      some { s with
        calls := update s.calls c (.flushing ticket through start (some ok))
        flushes := if ok then start :: s.flushes else s.flushes }
    | _ => none
  | .settle c =>
    match s.calls c with
    | .flushing ticket through _ (some ok) =>
      some { s with
        state.flushingThrough := none
        state.durableTicket :=
          if ok then max s.state.durableTicket through else s.state.durableTicket
        calls := update s.calls c (if ok then .waiting ticket else .returned false) }
    | _ => none

/-- Tickets are taken below the largest `u64`. -/
def TicketsLeft (s : WalGroupCommit) : WalEvent → Prop
  | .takeTicket _ => s.state.nextTicket < u64Max
  | _ => True

/-- A flush that started after the call's write was appended has succeeded. -/
@[grind]
def Synced (s : WalGroupCommit) (c : ℕ) : Prop := ∃ start ∈ s.flushes, c ∈ s.log.take start

/-- The calls with tickets up to `through` were in the log when it had `start` writes. -/
@[grind]
def Behind (s : WalGroupCommit) (through start : ℕ) : Prop :=
  ∀ c ticket, (s.calls c).ticket = some ticket → ticket ≤ through → c ∈ s.log.take start

structure Sound (s : WalGroupCommit) : Prop where
  durable_le : s.state.durableTicket ≤ s.state.nextTicket
  logged : ∀ c ticket, (s.calls c).ticket = some ticket ∨ s.calls c = .written → c ∈ s.log
  durable : ∀ c ticket, (s.calls c).ticket = some ticket → ticket ≤ s.state.durableTicket →
    s.Synced c
  returned : ∀ c, s.calls c = .returned true → s.Synced c
  flushing : ∀ c ticket through start result, s.calls c = .flushing ticket through start result →
    s.state.flushingThrough = some through ∧ through ≤ s.state.nextTicket ∧
      s.Behind through start ∧ (result = some true → start ∈ s.flushes)
  flushing_unique : ∀ c d, (s.calls c).isFlushing → (s.calls d).isFlushing → c = d

open WalGroupCommit

theorem Sound.step (h : Sound s) (hok : TicketsLeft s e) (hstep : s.step e = some s') :
    Sound s' := by
  obtain ⟨hle, hlog, hdur, hret, hfl, hone⟩ := h
  cases e with
  | write c =>
    simp only [step] at hstep
    split at hstep <;> cases hstep
    constructor <;> grind [List.take_append]
  | takeTicket c =>
    simp only [step] at hstep
    split at hstep <;> cases hstep
    -- The new ticket lies above the durable mark and above what a running flush covers.
    have hnew : min (s.state.nextTicket + 1) u64Max = s.state.nextTicket + 1 := min_eq_left hok
    constructor <;> grind
  | check c =>
    simp only [step] at hstep
    split at hstep
    · split at hstep
      · cases hstep
        constructor <;> grind
      split at hstep <;> cases hstep
      · exact ⟨hle, hlog, hdur, hret, hfl, hone⟩
      -- The flush covers every call with a ticket: all of them are in the log by now.
      · have hnone : ∀ d, ¬ (s.calls d).isFlushing := by
          intro d hd
          cases hcall : s.calls d <;> grind
        constructor <;> grind
    · cases hstep
  | flushWal c ok =>
    simp only [step] at hstep
    split at hstep <;> cases hstep
    next ticket through start heq =>
    have hmore : ∀ d, s.Synced d → ∃ n ∈ start :: s.flushes, d ∈ s.log.take n := fun d =>
      List.exists_mem_cons_of_exists
    cases ok <;> constructor <;> grind
  | settle c =>
    simp only [step] at hstep
    split at hstep <;> cases hstep
    -- The durable mark reaches what the flush covered only if the flush has succeeded.
    constructor <;> grind

theorem sound_new : Sound new := by
  constructor <;> simp [new, Call.ticket, Call.isFlushing]

/-- **Group commit is durable** while tickets are left: a call that returned `Ok` was synced by a
flush that started behind its write, one flush runs at a time, and the end of a failed flush moves
no durable mark and lets no other call on. -/
theorem synced_of_returned (events : List WalEvent) (hok : Meets step TicketsLeft new events)
    (hrun : run step new events = some s) :
    (∀ c, s.calls c = .returned true → s.Synced c) ∧
    (∀ c d, (s.calls c).isFlushing → (s.calls d).isFlushing → c = d) ∧
    ∀ c ticket through start s', s.calls c = .flushing ticket through start (some false) →
      s.step (.settle c) = some s' → s'.state.durableTicket = s.state.durableTicket ∧
        ∀ d ≠ c, s'.calls d = s.calls d := by
  have h : Sound s := run_invariant Sound (fun _ _ _ hok h hs => h.step hok hs) sound_new hok hrun
  refine ⟨h.returned, h.flushing_unique, fun c ticket through start s' hc hs => ?_⟩
  simp only [step, hc] at hs
  cases hs
  exact ⟨rfl, fun d hd => update_of_ne hd _ _⟩

/-- The second writer's ticket is behind the first one's flush, and it flushes once more. -/
theorem synced_of_returned_two :
    ∃ events s, run step new events = some s ∧ s.calls 1 = .returned true ∧ s.Synced 1 := by
  have hrun : run step new [.write 0, .takeTicket 0, .check 0, .write 1, .takeTicket 1, .check 1,
      .flushWal 0 true, .settle 0, .check 1, .flushWal 1 true, .settle 1, .check 1] = some _ := rfl
  refine ⟨_, _, hrun, rfl, (synced_of_returned _ ?_ hrun).1 1 rfl⟩
  simp [Meets, TicketsLeft, step, new, u64Max]

/-- Serving `k` calls one after the other leaves the durable mark at `k`. -/
theorem exists_served (k : ℕ) (hk : k ≤ u64Max) :
    ∃ events calls log flushes,
      run step new events = some ⟨⟨k, k, none⟩, calls, log, flushes⟩ ∧
      (∀ c ≥ k, calls c = .idle) ∧ log.length = k ∧ (∀ c ∈ log, c < k) ∧
      ∀ start ∈ flushes, start ≤ k := by
  induction k with
  | zero => exact ⟨[], _, [], [], rfl, by simp⟩
  | succ k ih =>
    obtain ⟨events, calls, log, flushes, hrun, hidle, hlen, hlog, hfl⟩ := ih (by omega)
    refine ⟨events ++ [.write k, .takeTicket k, .check k, .flushWal k true, .settle k, .check k],
      update calls k (.returned true), log ++ [k], (k + 1) :: flushes,
      run_append_eq_some.mpr ⟨_, hrun, ?_⟩, by grind⟩
    simp [run, step, hidle, min_eq_left hk, hlen]

/-- The call after `2 ^ 64 - 1` others shares the ticket of the last of them. -/
theorem returned_without_flush :
    ∃ events s c, run step new events = some s ∧ s.calls c = .returned true ∧ ¬ s.Synced c := by
  obtain ⟨events, calls, log, flushes, hrun, hidle, hlen, hlog, hfl⟩ := exists_served u64Max le_rfl
  refine ⟨events ++ [.write u64Max, .takeTicket u64Max, .check u64Max],
    ⟨⟨u64Max, u64Max, none⟩, update calls u64Max (.returned true), log ++ [u64Max], flushes⟩,
    u64Max, run_append_eq_some.mpr ⟨_, hrun, ?_⟩, by simp, ?_⟩
  · simp [run, step, hidle]
  · rintro ⟨start, hstart, hc⟩
    rw [List.take_append_of_le_length (hlen ▸ hfl start hstart)] at hc
    exact (hlog _ (List.mem_of_mem_take hc)).false

end WalGroupCommit

end KalamDB.Storage
