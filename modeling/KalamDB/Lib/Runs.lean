import Mathlib.Logic.Basic

/-!
# Runs of a partial transition function

A system is a partial step function: an event that is not enabled has no next state. A *run*
performs a list of events, all of them enabled. `Meets ok s events` says that every step of
the run satisfies the condition `ok` on the state before it. An invariant that every such step
keeps holds at the end of every such run (`run_invariant`). A system whose steps another system
can follow by runs of its own is followed along whole runs (`run_simulation`), and two systems
that agree step by step agree along whole runs (`run_lockstep`).
-/

namespace Runs

variable {σ ε : Type*} (step : σ → ε → Option σ) (ok : σ → ε → Prop) {e : ε} {s s'' s' : σ}
  {es fs : List ε}

def run : σ → List ε → Option σ
  | s, [] => some s
  | s, e :: es => (step s e).bind fun s' => run s' es

/-- Every step of the run meets the condition. -/
def Meets : σ → List ε → Prop
  | _, [] => True
  | s, e :: es => ok s e ∧ ∀ s', step s e = some s' → Meets s' es

variable {step ok} (Inv : σ → Prop)

/-- Conditions that can be tested can be tested along a run. -/
instance Meets.decidable [∀ s e, Decidable (ok s e)] :
    (s : σ) → (events : List ε) → Decidable (Meets step ok s events)
  | _, [] => .isTrue trivial
  | s, e :: es =>
    match h : step s e with
    | none => decidable_of_iff (ok s e) ⟨fun hok => ⟨hok, by simp [h]⟩, And.left⟩
    | some s' =>
      have := Meets.decidable s' es
      decidable_of_iff (ok s e ∧ Meets step ok s' es) (by simp [Meets, h])

@[simp]
theorem run_nil (s : σ) : run step s [] = some s := rfl

theorem run_cons_eq_some :
    run step s (e :: es) = some s'' ↔ ∃ s', step s e = some s' ∧ run step s' es = some s'' := by
  simp [run, Option.bind_eq_some_iff]

theorem run_append (s : σ) (es fs : List ε) :
    run step s (es ++ fs) = (run step s es).bind fun s' => run step s' fs := by
  induction es generalizing s with
  | nil => rfl
  | cons e es ih =>
    rw [List.cons_append, run, run, Option.bind_assoc]
    exact congrArg _ (funext ih)

theorem run_append_eq_some :
    run step s (es ++ fs) = some s'' ↔
      ∃ s', run step s es = some s' ∧ run step s' fs = some s'' := by
  rw [run_append, Option.bind_eq_some_iff]

theorem Meets.cons (h : Meets step ok s (e :: es)) (hstep : step s e = some s') :
    ok s e ∧ Meets step ok s' es :=
  ⟨h.1, h.2 s' hstep⟩

/-- A step that is known extends what the rest of the run meets. -/
theorem meets_cons (hok : ok s e) (hstep : step s e = some s') (h : Meets step ok s' es) :
    Meets step ok s (e :: es) :=
  ⟨hok, fun _ hs => Option.some.inj (hstep.symm.trans hs) ▸ h⟩

theorem Meets.mono {ok' : σ → ε → Prop} (h : Meets step ok s es)
    (himp : ∀ s e, ok s e → ok' s e) : Meets step ok' s es := by
  induction es generalizing s with
  | nil => trivial
  | cons e es ih => exact ⟨himp s e h.1, fun s' hs' => ih (h.2 s' hs')⟩

theorem Meets.append (h : Meets step ok s (es ++ fs)) (hrun : run step s es = some s') :
    Meets step ok s es ∧ Meets step ok s' fs := by
  induction es generalizing s with
  | nil =>
    cases hrun
    exact ⟨trivial, h⟩
  | cons e es ih =>
    obtain ⟨s₁, hstep, hrun'⟩ := run_cons_eq_some.mp hrun
    obtain ⟨hok, hrest⟩ := h.cons hstep
    obtain ⟨-, hfs⟩ := ih hrest hrun'
    refine ⟨⟨hok, fun s₂ hs₂ => ?_⟩, hfs⟩
    obtain rfl : s₁ = s₂ := Option.some.inj (hstep.symm.trans hs₂)
    exact (ih hrest hrun').1

/-- A run in which every event is enabled exactly under a condition exists exactly when every
step meets the condition. -/
theorem exists_run_iff_meets (h : ∀ s e, (∃ s', step s e = some s') ↔ ok s e) :
    (∃ s', run step s es = some s') ↔ Meets step ok s es := by
  induction es generalizing s with
  | nil => exact ⟨fun _ => trivial, fun _ => ⟨s, rfl⟩⟩
  | cons e es ih =>
    constructor
    · rintro ⟨s'', hrun⟩
      obtain ⟨s', hstep, hrun'⟩ := run_cons_eq_some.mp hrun
      refine ⟨(h s e).mp ⟨s', hstep⟩, fun t ht => ?_⟩
      obtain rfl : s' = t := Option.some.inj (hstep.symm.trans ht)
      exact ih.mp ⟨s'', hrun'⟩
    · rintro ⟨hok, hrest⟩
      obtain ⟨s', hstep⟩ := (h s e).mpr hok
      obtain ⟨s'', hrun'⟩ := ih.mpr (hrest s' hstep)
      exact ⟨s'', run_cons_eq_some.mpr ⟨s', hstep, hrun'⟩⟩

/-- **The invariant rule.** -/
theorem run_invariant (hstep : ∀ s e s', ok s e → Inv s → step s e = some s' → Inv s') (hs : Inv s)
    (hok : Meets step ok s es) (hrun : run step s es = some s') : Inv s' := by
  induction es generalizing s with
  | nil =>
    cases hrun
    exact hs
  | cons e es ih =>
    obtain ⟨s₁, hs₁, hrun'⟩ := run_cons_eq_some.mp hrun
    obtain ⟨hok₁, hrest⟩ := hok.cons hs₁
    exact ih (hstep s e s₁ hok₁ hs hs₁) hrest hrun'

/-- The invariant rule for a property that every step keeps. -/
theorem run_preserves (hstep : ∀ s e s', Inv s → step s e = some s' → Inv s')
    (hs : Inv s) (hrun : run step s es = some s') : Inv s' := by
  have hmeets : ∀ (es : List ε) (s : σ), Meets step (fun _ _ => True) s es := by
    intro es
    induction es with
    | nil => exact fun _ => trivial
    | cons e es ih => exact fun s => ⟨trivial, fun s' _ => ih s'⟩
  exact run_invariant Inv (fun s e s' _ => hstep s e s') hs (hmeets es s) hrun

/-! ### Simulation -/

section Simulation

variable {τ φ : Type*} {follow : τ → φ → Option τ} (R : σ → τ → Prop)

/-- **Forward simulation**: each step is followed by a run of the other system, which may be
empty. -/
theorem run_simulation (hstep : ∀ s e s' t, R s t → step s e = some s' →
      ∃ fs t', run follow t fs = some t' ∧ R s' t') (hR : R s t) (hrun : run step s es = some s') :
    ∃ fs t', run follow t fs = some t' ∧ R s' t' := by
  induction es generalizing s t with
  | nil =>
    cases hrun
    exact ⟨[], t, rfl, hR⟩
  | cons e es ih =>
    obtain ⟨s₁, hs₁, hrun'⟩ := run_cons_eq_some.mp hrun
    obtain ⟨fs, t₁, hfs, hR₁⟩ := hstep s e s₁ t hR hs₁
    obtain ⟨gs, t', hgs, hR'⟩ := ih hR₁ hrun'
    exact ⟨fs ++ gs, t', run_append_eq_some.mpr ⟨t₁, hfs, hgs⟩, hR'⟩

/-- **Lockstep**: two systems that do the same on related states do the same along whole runs. -/
theorem run_lockstep {follow : τ → ε → Option τ}
    (hstep : ∀ s t e, R s t → Option.Rel R (step s e) (follow t e)) (hR : R s t) (es : List ε) :
    Option.Rel R (run step s es) (run follow t es) := by
  induction es generalizing s t with
  | nil => exact .some hR
  | cons e es ih =>
    have h := hstep s t e hR
    rw [run, run]
    generalize step s e = s' at h
    generalize follow t e = t' at h
    cases h with
    | none => exact .none
    | some hR' => exact ih hR'

end Simulation

end Runs
