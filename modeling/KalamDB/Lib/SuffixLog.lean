import Mathlib.Order.MinMax

/-!
# Bounded logs of a history

A **history** is a list of changes with rising versions. A log keeps a suffix of it and a **floor**:
nothing before the suffix is later than the floor. A reader whose cursor is not below the floor
finds every later change in the log (`Retains.after_eq`).

The rules say how a log stays sound: it may start anywhere without a floor, follow the history,
drop its first change when the floor moves there, and lower its floor as long as all changes that
it misses stay below.
-/

namespace SuffixLog

open List

variable {α V : Type*} [LinearOrder V] (version : α → Option V) {cursor f v : V} {c : α}

/-- The versions of the history rise. -/
def Rising (history : List α) : Prop :=
  history.Pairwise fun c d => ∀ v ∈ version c, ∀ w ∈ version d, v < w

instance (history : List α) : Decidable (Rising version history) :=
  inferInstanceAs (Decidable (history.Pairwise _))

/-- The changes after a cursor. -/
def after (cursor : V) (history : List α) : List α :=
  history.filter fun c => (version c).any fun v => decide (cursor < v)

/-- The log is a suffix of the history, and nothing before it is later than the floor. -/
def Retains (history log : List α) (floor : Option V) : Prop :=
  ∃ before, history = before ++ log ∧ ∀ f ∈ floor, ∀ c ∈ before, ∀ v ∈ version c, v ≤ f

variable {version} {history log : List α} {floor : Option V}

theorem mem_after :
    c ∈ after version cursor history ↔ c ∈ history ∧ ∃ v ∈ version c, cursor < v := by
  simp [after, Option.any_eq_true]

/-- **A covered cursor finds everything.** -/
theorem Retains.after_eq (h : Retains version history log (some f)) (hcovered : f ≤ cursor) :
    after version cursor log = after version cursor history := by
  obtain ⟨before, rfl, hbefore⟩ := h
  have hnil : after version cursor before = [] := by
    refine eq_nil_iff_forall_not_mem.mpr fun c hc => ?_
    obtain ⟨hc, v, hv, hlt⟩ := mem_after.mp hc
    exact not_le.mpr hlt ((hbefore f rfl c hc v hv).trans hcovered)
  rw [after, after, filter_append]
  exact (congrArg (· ++ _) hnil).symm

/-- A log without a floor promises nothing. -/
theorem Retains.start : Retains version history [] none :=
  ⟨history, (append_nil history).symm, nofun⟩

theorem Retains.append (h : Retains version history log floor) (c : α) :
    Retains version (history ++ [c]) (log ++ [c]) floor := by
  obtain ⟨before, rfl, hbefore⟩ := h
  exact ⟨before, append_assoc _ _ _, hbefore⟩

/-- A floor above the whole history but its last change. -/
theorem Retains.floor_at_last (hrising : Rising version (history ++ [c]))
    (h : Retains version (history ++ [c]) (log ++ [c]) floor) (hv : version c = some v) :
    Retains version (history ++ [c]) (log ++ [c]) (some v) := by
  obtain ⟨before, hhistory, -⟩ := h
  refine ⟨before, hhistory, fun f hf d hd w hw => ?_⟩
  cases hf
  rw [hhistory] at hrising
  obtain ⟨-, -, hlt⟩ := pairwise_append.mp hrising
  exact (hlt d hd c (mem_append_right _ mem_cons_self) w hw v hv).le

/-- The first change of the log becomes the floor when it is dropped. -/
theorem Retains.drop_first (hrising : Rising version history)
    (h : Retains version history (c :: log) floor) (hv : version c = some v) :
    Retains version history log (some v) := by
  obtain ⟨before, rfl, -⟩ := h
  refine ⟨before ++ [c], by simp, fun f hf d hd w hw => ?_⟩
  cases hf
  obtain ⟨-, -, hlt⟩ := pairwise_append.mp hrising
  rcases mem_append.mp hd with hd | hd
  · exact (hlt d hd c mem_cons_self w hw v hv).le
  · obtain rfl := mem_singleton.mp hd
    exact (Option.some.inj (hw.symm.trans hv)).le

/-- The floor may move to where every later change is in the log. -/
theorem Retains.lower (hrising : Rising version history) (h : Retains version history log floor)
    (hlog : ∀ c ∈ history, ∀ v ∈ version c, f < v → c ∈ log) :
    Retains version history log (some f) := by
  obtain ⟨before, rfl, -⟩ := h
  refine ⟨before, rfl, fun g hg c hc v hv => ?_⟩
  cases hg
  by_contra hlt
  have hmem := hlog c (mem_append_left _ hc) v hv (not_le.mp hlt)
  -- a change before the log is not in the log
  obtain ⟨-, -, hrise⟩ := pairwise_append.mp hrising
  exact lt_irrefl v (hrise c hc c hmem v hv v hv)

/-- Both floors are sound, so is the smaller one. -/
theorem Retains.min_floor {g : V} (hf : Retains version history log (some f))
    (hg : Retains version history log (some g)) : Retains version history log (some (min f g)) := by
  rcases min_choice f g with h | h <;> rwa [h]

end SuffixLog
