import Mathlib.Logic.Basic

/-!
# Interleaved programs and rely-guarantee reasoning

A `Prog` is a sequential program whose only contact with the world are **atomic operations**
on a shared state: it is a finished result, or an operation with a continuation for each
answer. Several programs run concurrently when a scheduler picks, again and again, one of them
and lets it perform its next operation (`Prog.resume`).

The rules of the game are an `Interference`: what an operation does, when the scheduler may
let it happen, and a preorder `rely` between shared states. `Prog.Holds Q p s` says that the
program `p`, started in `s` among others that change the state only along `rely`, changes it
along `rely` itself and ends in a result and a state related by `Q`. The predicate is stable
under interference (`Holds.stable`) and kept by every operation the scheduler grants
(`Holds.resume`). Parts of a program are specified by `Prog.Returns`, which composes along the
program (`Returns.bind`).
-/

namespace Resumption

variable {Op : Type} {Ans : Op → Type}

/-- A program that returns an `α`. -/
inductive Prog (Op : Type) (Ans : Op → Type) (α : Type) where
  | pure (a : α)
  | op (o : Op) (k : Ans o → Prog Op Ans α)

namespace Prog

variable {α β σ : Type}

def bind : Prog Op Ans α → (α → Prog Op Ans β) → Prog Op Ans β
  | pure a, f => f a
  | op o k, f => op o fun answer => (k answer).bind f

instance : Monad (Prog Op Ans) where
  pure := Prog.pure
  bind := Prog.bind

theorem bind_pure_eq (p : Prog Op Ans α) : p.bind Prog.pure = p := by
  induction p with
  | pure a => rfl
  | op o k ih => exact congrArg (op o) (funext ih)

theorem bind_bind {γ : Type} (p : Prog Op Ans α) (f : α → Prog Op Ans β)
    (h : β → Prog Op Ans γ) : (p.bind f).bind h = p.bind fun a => (f a).bind h := by
  induction p with
  | pure a => rfl
  | op o k ih => exact congrArg (op o) (funext ih)

instance : LawfulMonad (Prog Op Ans) :=
  LawfulMonad.mk' _ bind_pure_eq (fun _ _ => rfl) bind_bind

/-- The program that performs one operation and returns its answer. -/
def perform (o : Op) : Prog Op Ans (Ans o) := op o Prog.pure

/-- The operation a program performs next, if it has not finished. -/
def next : Prog Op Ans α → Option Op
  | pure _ => none
  | op o _ => some o

end Prog

/-- How operations act on the shared state, when they may happen, and along which preorder
the other programs change it. -/
structure Interference (Op : Type) (Ans : Op → Type) (σ : Type) where
  exec : (o : Op) → σ → Ans o × σ
  allowed : Op → σ → Prop
  rely : σ → σ → Prop
  rely_refl : ∀ s, rely s s
  rely_trans : ∀ {s₁ s₂ s₃}, rely s₁ s₂ → rely s₂ s₃ → rely s₁ s₃

namespace Prog

variable {α β σ : Type} {s : σ} {p : Prog Op Ans α}

/-- One operation of a program. -/
def resume (exec : (o : Op) → σ → Ans o × σ) : Prog Op Ans α → σ → Prog Op Ans α × σ
  | pure a, s => (pure a, s)
  | op o k, s => (k (exec o s).1, (exec o s).2)

/-- The result of a program that runs alone, and the state it leaves. -/
def runAlone (exec : (o : Op) → σ → Ans o × σ) : Prog Op Ans α → σ → α × σ
  | pure a, s => (a, s)
  | op o k, s => (k (exec o s).1).runAlone exec (exec o s).2

section

variable (exec : (o : Op) → σ → Ans o × σ) (s : σ)

@[simp]
theorem runAlone_pure (a : α) : (Pure.pure a : Prog Op Ans α).runAlone exec s = (a, s) := rfl

@[simp]
theorem runAlone_perform (o : Op) : (perform o).runAlone exec s = exec o s := rfl

@[simp]
theorem runAlone_bind (p : Prog Op Ans α) (f : α → Prog Op Ans β) :
    (p >>= f).runAlone exec s = (f (p.runAlone exec s).1).runAlone exec (p.runAlone exec s).2 := by
  induction p generalizing s with
  | pure a => rfl
  | op o k ih => exact ih (exec o s).1 (exec o s).2

end

variable (W : Interference Op Ans σ)

/-- The program keeps to the preorder and returns only what `Q` permits. -/
def Holds (Q : α → σ → Prop) : Prog Op Ans α → σ → Prop
  | pure a, s => ∀ s', W.rely s s' → Q a s'
  | op o k, s => ∀ s', W.rely s s' → W.allowed o s' →
      W.rely s' (W.exec o s').2 ∧ (k (W.exec o s').1).Holds Q (W.exec o s').2

variable {W} {Q Q' : α → σ → Prop} {a : α}

theorem Holds.stable {s' : σ} (h : p.Holds W Q s) (hs : W.rely s s') : p.Holds W Q s' := by
  cases p with
  | pure | op => exact fun s'' hs' => h s'' (W.rely_trans hs hs')

theorem Holds.imp (h : p.Holds W Q s) (hQ : ∀ a s, Q a s → Q' a s) : p.Holds W Q' s := by
  induction p generalizing s with
  | pure a => exact fun s' hs => hQ a s' (h s' hs)
  | op o k ih => exact fun s' hs ho => ⟨(h s' hs ho).1, ih _ (h s' hs ho).2⟩

/-- A finished program has a permitted result. -/
theorem Holds.result (h : (pure a : Prog Op Ans α).Holds W Q s) : Q a s := h s (W.rely_refl s)

/-- **Granting an operation** keeps to the preorder and to the specification. -/
theorem Holds.resume (h : p.Holds W Q s) (ho : ∀ o, p.next = some o → W.allowed o s) :
    W.rely s (p.resume W.exec s).2 ∧ (p.resume W.exec s).1.Holds W Q (p.resume W.exec s).2 := by
  cases p with
  | pure a => exact ⟨W.rely_refl s, h⟩
  | op o k => exact h s (W.rely_refl s) (ho o rfl)

variable {P : α → σ → Prop}

variable (W) in
/-- However the program goes on, it suffices to treat the results and states, related by `P`, in
which it can return. -/
def Returns (P : α → σ → Prop) (p : Prog Op Ans α) (s : σ) : Prop :=
  ∀ (β : Type) (k : α → Prog Op Ans β) (Q : β → σ → Prop),
    (∀ a s', W.rely s s' → P a s' → (k a).Holds W Q s') → (p.bind k).Holds W Q s

theorem Returns.pure (h : P a s) : (Prog.pure a : Prog Op Ans α).Returns W P s :=
  fun _ _ _ hk => hk a s (W.rely_refl s) h

theorem Returns.bind {f : α → Prog Op Ans β} {P' : β → σ → Prop} (hp : p.Returns W P s)
    (hf : ∀ a s', W.rely s s' → P a s' → (f a).Returns W P' s') : (p.bind f).Returns W P' s := by
  intro γ k Q hk
  rw [bind_bind]
  refine hp _ _ _ fun a s₁ h₁ hP => hf a s₁ h₁ hP _ _ _ fun b s₂ h₂ => ?_
  exact hk b s₂ (W.rely_trans h₁ h₂)

theorem Returns.holds (h : p.Returns W P s)
    (hQ : ∀ a s' s'', W.rely s s' → P a s' → W.rely s' s'' → Q a s'') : p.Holds W Q s := by
  rw [← bind_pure_eq p]
  exact h _ _ _ fun a s' hs hP s'' => hQ a s' s'' hs hP

end Prog

end Resumption
