import Mathlib.Algebra.Order.Ring.Nat
import Mathlib.Data.List.Sort
import Mathlib.Data.List.TakeWhile
import Mathlib.Data.Prod.Lex
import Mathlib.Tactic.Common

/-!
# The deadline supervisor

Function invocations register with one supervisor, which terminates those that are overdue or
cancelled. It keeps them in a heap, the earliest deadline first, and a pass goes on from the top
while there is something to stop or to throw away. An invocation that deregisters leaves its heap
item behind.

A deadline that has passed comes before every one that has not. A cancelled invocation need not: the
pass ends at one with an earlier deadline that goes on.
-/

namespace KalamDB.Functions

open List Function OrderDual

variable {Instant Token : Type}

structure Entry (Instant Token : Type) where
  deadline : Instant
  cancel : Token
  terminated : Bool

@[ext]
structure HeapItem (Instant : Type) where
  deadline : Instant
  id : ℕ

section Loop

variable (due : Instant → Token → Bool)

/-- The entry as a pass should leave it. -/
def Entry.stop (entry : Entry Instant Token) : Entry Instant Token :=
  { entry with terminated := entry.terminated || due entry.deadline entry.cancel }

/-- The loop over the items of the heap, from the top. -/
def superviseLoop (entries : ℕ → Option (Entry Instant Token)) :
    List (HeapItem Instant) → List (HeapItem Instant) × (ℕ → Option (Entry Instant Token))
  | [] => ([], entries)
  | item :: heap =>
    match entries item.id with
    | none => superviseLoop entries heap
    | some entry =>
      if entry.terminated then superviseLoop entries heap
      else if due entry.deadline entry.cancel then
        superviseLoop (update entries item.id (some { entry with terminated := true })) heap
      else (item :: heap, entries)

variable (entries : ℕ → Option (Entry Instant Token)) (item : HeapItem Instant)
  (heap : List (HeapItem Instant))

/-- The loop does not end at this item. -/
def passes : Bool := (entries item.id).all fun entry => (entry.stop due).terminated

@[simp]
theorem Entry.stop_stop (entry : Entry Instant Token) :
    (entry.stop due).stop due = entry.stop due := by
  rw [stop, stop, Bool.or_assoc, Bool.or_self]

theorem passes_update (id : ℕ) :
    passes due (update entries id ((entries id).map (Entry.stop due))) = passes due entries := by
  funext item
  by_cases hid : item.id = id
  · cases hentry : entries id <;> simp [passes, hid, hentry]
  · simp [passes, hid]

theorem superviseLoop_cons :
    superviseLoop due entries (item :: heap) =
      if passes due entries item then
        superviseLoop due (update entries item.id ((entries item.id).map (Entry.stop due))) heap
      else (item :: heap, entries) := by
  have hself := update_eq_self item.id entries
  rw [superviseLoop, passes]
  cases hentry : entries item.id with
  | none =>
    rw [hentry] at hself
    simp [hself]
  | some entry =>
    rw [hentry] at hself
    obtain ⟨deadline, cancel, _ | _⟩ := entry
    · cases hdue : due deadline cancel <;> simp [Entry.stop, hdue]
    · simp [Entry.stop, hself]

/-- **A pass stops what it gets to.** -/
theorem superviseLoop_eq :
    superviseLoop due entries heap = (heap.dropWhile (passes due entries), fun id =>
      if id ∈ (heap.takeWhile (passes due entries)).map HeapItem.id then
        (entries id).map (Entry.stop due) else entries id) := by
  induction heap generalizing entries with
  | nil => simp [superviseLoop]
  | cons item heap ih =>
    rw [superviseLoop_cons]
    split
    · next hpass =>
      rw [ih, passes_update, dropWhile_cons_of_pos hpass, takeWhile_cons_of_pos hpass]
      refine congrArg _ (funext fun id => ?_)
      by_cases hid : id = item.id
      · simp [hid, comp_def]
      · simp [hid]
    · next hpass => simp [hpass]

end Loop

variable [LinearOrder Instant]

/-- The largest item is the one with the earliest deadline, of equal ones the latest. -/
instance : LinearOrder (HeapItem Instant) :=
  .lift' (fun item => toLex (toDual item.deadline, item.id)) fun _ _ h =>
    HeapItem.ext (congrArg Prod.fst h) (congrArg Prod.snd h)

theorem HeapItem.lt_of_deadline_lt {a b : HeapItem Instant} (h : a.deadline < b.deadline) : b < a :=
  Prod.Lex.toLex_lt_toLex.mpr (.inl h)

/-- What the supervisor stops at a reading of the clock. -/
def isDue (now : Instant) (isCancelled : Token → Bool) (deadline : Instant) (cancel : Token) :
    Bool :=
  decide (deadline ≤ now) || isCancelled cancel

/-- What the supervisor keeps. Every running invocation has its item in the heap. -/
structure State (Instant Token : Type) where
  nextId : ℕ
  entries : ℕ → Option (Entry Instant Token)
  heap : List (HeapItem Instant)
  pending : ∀ id, ∀ entry ∈ entries id, entry.terminated = false → ⟨entry.deadline, id⟩ ∈ heap
  agrees : ∀ item ∈ heap, item.id ≤ nextId ∧
    ∀ entry ∈ entries item.id, entry.deadline = item.deadline

namespace State

def empty : State Instant Token := ⟨0, fun _ => none, [], nofun, nofun⟩

variable (s : State Instant Token)

/-- `DeadlineGuard::new`. The ids are 64 bits wide. -/
def register (deadline : Instant) (cancel : Token) : Option (State Instant Token) :=
  if s.nextId + 1 < 2 ^ 64 then some
    { nextId := s.nextId + 1
      entries := update s.entries (s.nextId + 1) (some ⟨deadline, cancel, false⟩)
      heap := ⟨deadline, s.nextId + 1⟩ :: s.heap
      pending := by
        have := s.pending
        grind
      agrees := by
        have := s.agrees
        grind }
  else none

/-- The items from the top of the heap to the bottom. -/
def descending : List (HeapItem Instant) := s.heap.insertionSort (· ≥ ·)

variable {s} {due : Instant → Token → Bool} {entry : Entry Instant Token}

theorem eq_of_mem_descending {item : HeapItem Instant} (hitem : item ∈ s.descending)
    (hentry : s.entries item.id = some entry) : ⟨entry.deadline, item.id⟩ = item :=
  HeapItem.ext ((s.agrees item ((mem_insertionSort (· ≥ ·)).mp hitem)).2 entry hentry) rfl

/-- The item of a running invocation is passed or left in the heap. -/
theorem mem_of_running {id : ℕ} (hentry : s.entries id = some entry)
    (hrunning : entry.terminated = false) :
    ⟨entry.deadline, id⟩ ∈ s.descending.takeWhile (passes due s.entries) ∨
      ⟨entry.deadline, id⟩ ∈ s.descending.dropWhile (passes due s.entries) := by
  rw [← mem_append, takeWhile_append_dropWhile, descending, mem_insertionSort]
  exact s.pending id entry hentry hrunning

/-- What was passed does not go on. -/
theorem stop_of_passed {item : HeapItem Instant}
    (hitem : item ∈ s.descending.takeWhile (passes due s.entries))
    (hentry : s.entries item.id = some entry) : (entry.stop due).terminated = true := by
  have hpass := mem_takeWhile_imp hitem
  rwa [passes, hentry, Option.all_some] at hpass

variable (due s) in
/-- One pass. -/
def supervise : State Instant Token where
  nextId := s.nextId
  heap := (superviseLoop due s.entries s.descending).1
  entries := (superviseLoop due s.entries s.descending).2
  pending := by
    intro id entry hentry hrunning
    rw [superviseLoop_eq] at hentry ⊢
    dsimp only at hentry ⊢
    split at hentry
    · next htaken =>
      obtain ⟨item, hitem, rfl⟩ := mem_map.mp htaken
      obtain ⟨old, hold, rfl⟩ := Option.mem_map.mp hentry
      cases (stop_of_passed hitem hold).symm.trans hrunning
    · next hleft =>
      exact (mem_of_running hentry hrunning).resolve_left fun hmem => hleft (mem_map_of_mem hmem)
  agrees := by
    intro item hitem
    rw [superviseLoop_eq] at hitem ⊢
    have hmem : item ∈ s.heap :=
      (mem_insertionSort (· ≥ ·)).mp ((dropWhile_sublist _).subset hitem)
    have hagrees := s.agrees item hmem
    grind [Entry.stop, Option.mem_map]

variable (now : Instant) (isCancelled : Token → Bool)

variable (s) in
/-- A cancelled invocation is not behind one that goes on. -/
def CancelledFirst : Prop :=
  ∀ id, ∀ entry ∈ s.entries id, entry.terminated = false → isCancelled entry.cancel = true →
    ∀ id', ∀ running ∈ s.entries id', (running.stop (isDue now isCancelled)).terminated = false →
      (⟨running.deadline, id'⟩ : HeapItem Instant) < ⟨entry.deadline, id⟩

/-- **A pass stops exactly the overdue and cancelled invocations** if and only if none of the
cancelled ones is behind one that goes on. -/
theorem supervise_stops_iff (s : State Instant Token) :
    (∀ id, (s.supervise (isDue now isCancelled)).entries id =
      (s.entries id).map (Entry.stop (isDue now isCancelled))) ↔
      s.CancelledFirst now isCancelled := by
  have hsorted : s.descending.Pairwise (· ≥ ·) := pairwise_insertionSort _ _
  rw [← takeWhile_append_dropWhile (p := passes (isDue now isCancelled) s.entries)
    (l := s.descending), pairwise_append] at hsorted
  obtain ⟨-, hleft, hbefore⟩ := hsorted
  simp only [supervise, superviseLoop_eq]
  constructor
  · intro h id entry hentry hrunning hcancelled id' running hrunning' hgoes
    -- the cancelled one was passed, the running one was not
    have hstopped := h id
    split at hstopped
    swap
    · rw [hentry] at hstopped
      have := congrArg Entry.terminated (Option.some.inj hstopped)
      simp [Entry.stop, isDue, hrunning, hcancelled] at this
    next htaken =>
    obtain ⟨item, hitem, rfl⟩ := mem_map.mp htaken
    rw [eq_of_mem_descending (( takeWhile_prefix _).subset hitem) hentry]
    have hnot : ∀ item ∈ s.descending.takeWhile (passes (isDue now isCancelled) s.entries),
        item ≠ ⟨running.deadline, id'⟩ := by
      rintro _ hpassed rfl
      cases (stop_of_passed hpassed hrunning').symm.trans hgoes
    have hkept := (mem_of_running hrunning' (Bool.or_eq_false_iff.mp hgoes).1).resolve_left
      fun hpassed => hnot _ hpassed rfl
    exact lt_of_le_of_ne (hbefore _ hitem _ hkept) (hnot item hitem).symm
  · intro h id
    split
    · rfl
    next hnot =>
    cases hentry : s.entries id with
    | none => rfl
    | some entry =>
      by_cases hsame : entry.stop (isDue now isCancelled) = entry
      · rw [Option.map_some, hsame]
      -- otherwise the invocation is running and due, and the pass has ended at one that goes on
      obtain ⟨hrunning, hdue⟩ : entry.terminated = false ∧
          isDue now isCancelled entry.deadline entry.cancel = true := by
        obtain ⟨deadline, cancel, _ | _⟩ := entry <;> simp_all [Entry.stop]
      have hitem := (mem_of_running hentry hrunning).resolve_left fun hmem =>
        hnot (mem_map_of_mem hmem)
      have htop := head_dropWhile_not _ (ne_nil_of_mem hitem)
      obtain ⟨top, rest, hdrop⟩ := exists_cons_of_ne_nil (ne_nil_of_mem hitem)
      have hmem : top ∈ s.descending := (dropWhile_sublist _).subset (hdrop ▸ mem_cons_self)
      simp only [hdrop, head_cons] at htop hitem hleft
      obtain ⟨running, hrunning', hgoes⟩ := (Option.all_eq_false _ _).mp htop
      have hle : ⟨entry.deadline, id⟩ ≤ top :=
        (mem_cons.mp hitem).elim le_of_eq (rel_of_pairwise_cons hleft)
      refine absurd hle (not_le.mpr ?_)
      rw [← eq_of_mem_descending hmem hrunning']
      rcases Bool.or_eq_true_iff.mp hdue with hoverdue | hcancelled
      · have hlater : now < running.deadline := by simp_all [Entry.stop, isDue]
        exact HeapItem.lt_of_deadline_lt ((of_decide_eq_true hoverdue).trans_lt hlater)
      · exact h id entry hentry hrunning hcancelled top.id running hrunning' hgoes

/-- An invocation that runs until 10, and a cancelled one that runs until 20. -/
def twoInvocations : Option (State ℕ Bool) := (empty.register 10 false).bind (·.register 20 true)

theorem cancelled_invocation_runs_on :
    ∃ s ∈ twoInvocations, ¬∀ i, (s.supervise (isDue 0 id)).entries i =
      (s.entries i).map (Entry.stop (isDue 0 id)) := by
  refine ⟨_, rfl, fun h => ?_⟩
  exact absurd (congrArg (Option.map Entry.terminated) (h 2)) (by decide)

end State

end KalamDB.Functions
