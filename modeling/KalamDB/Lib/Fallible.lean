import Mathlib.Logic.Basic

/-!
# Computations that can fail

Inversion lemmas for computations in `Except`: what is known when one of them **succeeds**.
-/

namespace Fallible

open List Except

variable {β α ε : Type} {f : α → Except ε β} {x : Except ε α} {b : β} {a : α}

theorem bind_eq_ok_iff : (x >>= f) = .ok b ↔ ∃ a, x = .ok a ∧ f a = .ok b := by
  cases x <;> simp [bind, Except.bind]

theorem pure_eq_ok_iff {b : α} : (pure a : Except ε α) = .ok b ↔ a = b := by
  simp [pure, Except.pure]

theorem mapError_eq_ok_iff {ε' : Type} {f : ε → ε'} : x.mapError f = .ok a ↔ x = .ok a := by
  cases x with
  | error e => constructor <;> intro h <;> cases h
  | ok b => exact (ok.injEq b a).to_iff.trans (ok.injEq b a).to_iff.symm

theorem map_eq_ok_iff {f : α → β} : x.map f = .ok b ↔ ∃ a, x = .ok a ∧ f a = b := by
  cases x <;> simp [Except.map]

theorem toOption_eq_some_iff : x.toOption = some a ↔ x = .ok a := by
  cases x <;> simp [Except.toOption]

/-- A check that did not fail lets the rest through. -/
theorem eq_ok_of_check {c : Prop} [Decidable c] {e : ε} (h : (if c then .error e else x) = .ok a) :
    x = .ok a := by
  split at h
  · cases h
  · exact h

@[simp]
theorem isOk_map (f : α → β) (x : Except ε α) : (x.map f).isOk = x.isOk := by
  cases x <;> rfl

theorem isOk_eq_true_iff : x.isOk = true ↔ ∃ a, x = .ok a := by
  cases x <;> simp [Except.toBool]

/-- A list that is mapped without an error is mapped item by item. -/
theorem mapM_eq_ok {γ : Type} {g : α → γ} {h : β → γ} (hf : ∀ a b, f a = .ok b → g a = h b) :
    ∀ {as : List α} {bs : List β}, as.mapM f = .ok bs → as.map g = bs.map h
  | [], bs, hm => by
    rw [mapM_nil, pure_eq_ok_iff] at hm
    rw [← hm]
    rfl
  | a :: as, bs, hm => by
    rw [mapM_cons, bind_eq_ok_iff] at hm
    obtain ⟨b, hb, hm⟩ := hm
    obtain ⟨rest, hrest, hm⟩ := bind_eq_ok_iff.mp hm
    rw [← pure_eq_ok_iff.mp hm, map_cons, map_cons, hf a b hb, mapM_eq_ok hf hrest]

theorem exists_mapM_eq_ok : ∀ {as : List α}, (∀ a ∈ as, ∃ b, f a = .ok b) →
    ∃ bs, as.mapM f = .ok bs
  | [], _ => ⟨[], rfl⟩
  | a :: as, h => by
    obtain ⟨⟨b, hb⟩, hrest⟩ := forall_mem_cons.mp h
    obtain ⟨bs, hbs⟩ := exists_mapM_eq_ok hrest
    refine ⟨b :: bs, ?_⟩
    rw [mapM_cons, bind_eq_ok_iff]
    exact ⟨b, hb, bind_eq_ok_iff.mpr ⟨bs, hbs, rfl⟩⟩

/-- What every single result satisfies holds of the items of a list of results. -/
theorem forall_mem_of_mapM_eq_ok {P : β → Prop} (hf : ∀ a b, f a = .ok b → P b) {as : List α}
    {bs : List β} (hm : as.mapM f = .ok bs) : ∀ b ∈ bs, P b := by
  have hmap := mapM_eq_ok (fun a b hab => (eq_true (hf a b hab)).symm)
    hm
  intro b hb
  have hmem : P b ∈ as.map fun _ => True := hmap ▸ mem_map_of_mem hb
  obtain ⟨-, -, htrue⟩ := mem_map.mp hmem
  exact of_eq_true htrue.symm

end Fallible
