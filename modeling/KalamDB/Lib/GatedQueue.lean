import Mathlib.Data.List.Sort
import KalamDB.Lib.Runs

/-!
# Gated queues

Items arrive in a fixed order and each has a *gate*. A level rises over time. An item whose
gate is above the level waits; any other item first releases the waiting items whose gates are
at or below the level, in the order of their arrival, and is then released itself. The level
may rise while this happens, so the release can see a higher level than the gate check did.

Items are released **in arrival order in every run that ends with nothing waiting** as soon as
the gates of all items but the last do not fall (`released_eq_of_rising`). The remaining lemmas
say how an order is missed: nothing above the level is ever released (`gate_le_level`), what
was released stays in front (`released_isPrefix`), and once the level has passed every gate the
next arrival empties the queue (`waiting_eq_nil_of_le_level`).
-/

namespace GatedQueue

open Runs List

variable {α : Type*} (gate : α → ℕ) {level : ℕ} {a : α} {rest items arrived : List α}

structure State (α : Type*) where
  level : ℕ
  arriving : List α
  waiting : List α
  released : List α

variable {s s' : State α}

inductive Event where
  | raise (n : ℕ)
  | arrive (n : ℕ)

variable {es : List Event}

def start (level : ℕ) (items : List α) : State α := ⟨level, items, [], []⟩

/-- The next item at the gate, the level reaching `level` before anything is released. -/
def enter (s : State α) (level : ℕ) (a : α) (rest : List α) : State α :=
  if s.level < gate a then ⟨level, rest, s.waiting ++ [a], s.released⟩
  else
    ⟨level, rest, s.waiting.filter fun w => decide (level < gate w),
      s.released ++ s.waiting.filter (fun w => decide (gate w ≤ level)) ++ [a]⟩

def step (s : State α) : Event → Option (State α)
  | .raise n => some { s with level := max s.level n }
  | .arrive n =>
    match s.arriving with
    | [] => none
    | a :: rest => some (enter gate s (max s.level n) a rest)

variable {gate}

/-- What a step can do. -/
theorem step_cases {e : Event} (h : step gate s e = some s') :
    (∃ n, s' = { s with level := max s.level n }) ∨
      ∃ n a rest, s.arriving = a :: rest ∧ s' = enter gate s (max s.level n) a rest := by
  cases e with
  | raise n => exact .inl ⟨n, (Option.some.inj h).symm⟩
  | arrive n =>
    cases harr : s.arriving with
    | nil => simp [step, harr] at h
    | cons a rest =>
      simp only [step, harr, Option.some.injEq] at h
      exact .inr ⟨n, a, rest, rfl, h.symm⟩

/-! ### Levels and gates -/

theorem enter_level (s : State α) (level : ℕ) (a : α) (rest : List α) :
    (enter gate s level a rest).level = level := by
  unfold enter; split <;> rfl

theorem enter_arriving (s : State α) (level : ℕ) (a : α) (rest : List α) :
    (enter gate s level a rest).arriving = rest := by
  unfold enter; split <;> rfl

/-- An item whose gate is not above the level is released at once. -/
theorem mem_released_enter (h : gate a ≤ s.level) : a ∈ (enter gate s level a rest).released := by
  rw [enter, if_neg (by omega)]
  simp

/-- **Nothing above the level is released.** -/
theorem gate_le_level (hs : ∀ a ∈ s.released, gate a ≤ s.level)
    (hrun : run (step gate) s es = some s') : ∀ a ∈ s'.released, gate a ≤ s'.level := by
  refine run_preserves (fun s : State α => ∀ a ∈ s.released, gate a ≤ s.level) ?_ hs hrun
  intro s e s' hs hstep
  obtain ⟨n, rfl⟩ | ⟨n, a, rest, -, rfl⟩ := step_cases hstep
  · exact fun b hb => (hs b hb).trans (le_max_left _ _)
  intro b hb
  rw [enter_level]
  unfold enter at hb
  split at hb
  · exact (hs b hb).trans (le_max_left _ _)
  simp only [mem_append, mem_filter, decide_eq_true_eq, mem_singleton] at hb
  obtain (hb | ⟨-, hb⟩) | rfl := hb
  · exact (hs b hb).trans (le_max_left _ _)
  · exact hb
  · omega

/-- What was released stays in front. -/
theorem released_isPrefix (hrun : run (step gate) s es = some s') : s.released <+: s'.released := by
  refine run_preserves (fun t : State α => s.released <+: t.released) ?_ prefix_rfl hrun
  intro t e t' ht hstep
  obtain ⟨n, rfl⟩ | ⟨n, a, rest, -, rfl⟩ := step_cases hstep
  · exact ht
  refine ht.trans ?_
  unfold enter
  split
  · exact prefix_rfl
  · rw [append_assoc]
    exact prefix_append _ _

variable (gate) in
theorem filter_le_append_perm (level : ℕ) (l : List α) :
    (l.filter (fun w => decide (gate w ≤ level)) ++
      l.filter (fun w => decide (level < gate w))).Perm l := by
  have hneg : (fun w => decide (level < gate w)) = fun w => !decide (gate w ≤ level) := by
    funext w
    rw [← decide_not, decide_eq_decide, not_le]
  rw [hneg]
  exact filter_append_perm _ l

/-- Every item is released, waiting or still to arrive. -/
theorem released_append_perm (hs : (s.released ++ s.waiting ++ s.arriving).Perm items)
    (hrun : run (step gate) s es = some s') :
    (s'.released ++ s'.waiting ++ s'.arriving).Perm items := by
  refine run_preserves
    (fun s : State α => (s.released ++ s.waiting ++ s.arriving).Perm items) ?_ hs hrun
  intro s e s' hs hstep
  obtain ⟨n, rfl⟩ | ⟨n, a, rest, harr, rfl⟩ := step_cases hstep
  · exact hs
  rw [harr] at hs
  refine List.Perm.trans ?_ hs
  unfold enter
  split
  · simp
  -- the released and the remaining items make up the queue; the newcomer moves behind it
  have hsplit := filter_le_append_perm gate (max s.level n) s.waiting
  have hqueue := (hsplit.append_right (a :: rest)).append_left s.released
  rw [← append_assoc s.released s.waiting] at hqueue
  refine List.Perm.trans ?_ hqueue
  simp only [append_assoc, singleton_append]
  exact (perm_middle.symm.append_left _).append_left _

/-- Once the level has passed every gate, the next arrival empties the queue and nothing waits
after it. -/
theorem waiting_eq_nil_of_le_level (hs : ∀ a ∈ s.waiting ++ s.arriving, gate a ≤ s.level)
    (harr : s.arriving ≠ []) (hrun : run (step gate) s es = some s') (hend : s'.arriving = []) :
    s'.waiting = [] := by
  have hinv : (∀ a ∈ s'.waiting ++ s'.arriving, gate a ≤ s'.level) ∧
      (s'.arriving = s.arriving ∨ s'.waiting = []) := by
    refine run_preserves (fun t : State α => (∀ a ∈ t.waiting ++ t.arriving, gate a ≤ t.level) ∧
      (t.arriving = s.arriving ∨ t.waiting = [])) ?_ ⟨hs, .inl rfl⟩ hrun
    rintro t e t' ⟨hgate, ht⟩ hstep
    obtain ⟨n, rfl⟩ | ⟨n, a, rest, htarr, rfl⟩ := step_cases hstep
    · exact ⟨fun b hb => (hgate b hb).trans (le_max_left _ _), ht⟩
    rw [htarr] at hgate
    have hpass : ¬ t.level < gate a := by
      have := hgate a (by simp)
      omega
    have hempty : (enter gate t (max t.level n) a rest).waiting = [] := by
      rw [enter, if_neg hpass, filter_eq_nil_iff]
      intro w hw
      have := hgate w (by simp [hw])
      simp only [decide_eq_true_eq]
      omega
    refine ⟨?_, .inr hempty⟩
    rw [hempty, enter_level, enter_arriving]
    exact fun b hb => (hgate b (by simp at hb; simp [hb])).trans (le_max_left _ _)
  obtain hsame | hnil := hinv.2
  · exact absurd (hsame.symm.trans hend) harr
  · exact hnil

/-! ### Arrival order -/

variable (p : α → Bool)

variable (gate) in
/-- Among the items but the last, the gates of those that satisfy `p` do not fall. -/
def Rising (items : List α) : Prop :=
  (items.dropLast.filter p).Pairwise fun a b => gate a ≤ gate b

variable {p}

/-- A list with rising gates is cut at a level without changing its order. -/
theorem filter_le_append_filter_lt {l : List α} (h : l.Pairwise fun a b => gate a ≤ gate b)
    (level : ℕ) :
    l.filter (fun w => decide (gate w ≤ level)) ++ l.filter (fun w => decide (level < gate w)) =
      l := by
  induction l with
  | nil => rfl
  | cons w l ih =>
    obtain ⟨hw, hl⟩ := pairwise_cons.mp h
    by_cases hlevel : gate w ≤ level
    · simp [hlevel, ih hl]
    -- everything behind an item above the level is above it too
    have hnone : l.filter (fun w => decide (gate w ≤ level)) = [] := by
      rw [filter_eq_nil_iff]
      intro x hx
      have := hw x hx
      simp only [decide_eq_true_eq]
      omega
    have hrest := ih hl
    rw [hnone, nil_append] at hrest
    simp [not_le.mp hlevel, hnone, hrest]

/-- The items of a state in the order of their arrival, restricted to those that satisfy `p`. -/
def Ordered (p : α → Bool) (s : State α) (arrived : List α) : Prop :=
  s.released.filter p ++ s.waiting.filter p = arrived.filter p

theorem Ordered.enter (h : Ordered p s arrived) (hlevel : s.level ≤ level)
    (hrising : ((arrived ++ [a]).filter p).Pairwise fun x y => gate x ≤ gate y) :
    Ordered p (enter gate s level a rest) (arrived ++ [a]) := by
  rw [filter_append, ← show s.released.filter p ++ s.waiting.filter p = _ from h] at hrising
  obtain ⟨hqueue, -, hbefore⟩ := pairwise_append.mp hrising
  have hwaiting := filter_le_append_filter_lt (hqueue.sublist (sublist_append_right _ _)) level
  simp only [filter_filter, Bool.and_comm] at hwaiting
  unfold Ordered at h ⊢
  unfold GatedQueue.enter
  split
  · simp only [filter_append, ← h, append_assoc]
  simp only [filter_append, filter_filter, ← h]
  cases hp : p a with
  | false => simp [hp, hwaiting]
  | true =>
    -- the newcomer passes, so no waiting item of interest is above the level
    have hnone : s.waiting.filter (fun w => p w && decide (level < gate w)) = [] := by
      rw [filter_eq_nil_iff]
      intro w hw
      simp only [Bool.and_eq_true, decide_eq_true_eq]
      intro hpw
      have := hbefore w (by simp [hw, hpw]) a (by simp [hp])
      omega
    rw [hnone, append_nil] at hwaiting ⊢
    rw [hwaiting]

/-- The last item needs no rising gate: it leaves nothing waiting only by releasing everything
in front of it. -/
theorem Ordered.enter_last (h : Ordered p s arrived)
    (hnil : (GatedQueue.enter gate s level a rest).waiting = []) :
    (GatedQueue.enter gate s level a rest).released.filter p = (arrived ++ [a]).filter p := by
  unfold GatedQueue.enter at hnil ⊢
  split at hnil
  · simp at hnil
  rename_i hpass
  have hall : s.waiting.filter (fun w => decide (gate w ≤ level)) = s.waiting := by
    rw [filter_eq_self]
    intro w hw
    have := filter_eq_nil_iff.mp hnil w hw
    simp only [decide_eq_true_eq, not_lt] at this ⊢
    exact this
  simp only [hpass, if_false, hall, filter_append, ← show _ = arrived.filter p from h]

/-- **Rising gates keep the arrival order**: every run that ends with nothing waiting releases
the items of interest in the order in which they arrived. -/
theorem released_eq_of_rising (hrising : Rising gate p items)
    (hrun : run (step gate) (start level items) es = some s) (harr : s.arriving = [])
    (hnil : s.waiting = []) : s.released.filter p = items.filter p := by
  have hinv : ∃ arrived, items = arrived ++ s.arriving ∧
      (s.arriving ≠ [] → Ordered p s arrived) ∧
      (s.arriving = [] → s.waiting = [] → s.released.filter p = items.filter p) := by
    refine run_preserves (fun t : State α => ∃ arrived, items = arrived ++ t.arriving ∧
      (t.arriving ≠ [] → Ordered p t arrived) ∧
      (t.arriving = [] → t.waiting = [] → t.released.filter p = items.filter p))
      ?_ ⟨[], rfl, fun _ => by simp [Ordered, start], fun h _ => ?_⟩ hrun
    · rintro t e t' ⟨arrived, rfl, hord, hend⟩ hstep
      obtain ⟨n, rfl⟩ | ⟨n, a, rest, htarr, rfl⟩ := step_cases hstep
      · exact ⟨arrived, rfl, hord, hend⟩
      rw [htarr] at hrising hord ⊢
      have ht : Ordered p t arrived := hord (by simp)
      refine ⟨arrived ++ [a], by simp [enter_arriving], fun hrest => ?_, fun hrest hwait => ?_⟩
      · -- another item follows, so the newcomer is among those with rising gates
        rw [enter_arriving] at hrest
        have hfront : (arrived ++ a :: rest).dropLast = arrived ++ [a] ++ rest.dropLast := by
          rw [append_cons, dropLast_append_of_ne_nil hrest]
        refine ht.enter (le_max_left _ _) (hrising.sublist (List.Sublist.filter _ ?_))
        rw [hfront]
        exact sublist_append_left _ _
      · rw [enter_arriving] at hrest
        rw [ht.enter_last hwait, hrest]
    · have hitems : items = [] := h
      rw [hitems]
      rfl
  obtain ⟨-, -, -, hend⟩ := hinv
  exact hend harr hnil

end GatedQueue
