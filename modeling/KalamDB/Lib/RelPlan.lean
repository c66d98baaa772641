import Mathlib.Data.List.Basic

/-!
# Relational plans and constant folding

Plans over arbitrary relational operators, with scalar terms over arbitrary function symbols.
A function is **immutable** (its value depends on its arguments), **stable** (also on the
environment, but fixed for one statement) or **volatile** (evaluated anew each time).

`fold I s` replaces every non-volatile call with constant arguments by its value in the
environment `s`. `eval_fold` and `run_optimize` say when that is invisible to an execution in
another environment `s'`: when the two environments agree on every stable function the plan
calls.
-/

namespace RelPlan

open List

/-! ### Terms -/

/-- Scalar terms over function symbols `F` and values `V`. -/
inductive Term (F V : Type*) where
  | column (name : String)
  | literal (value : V)
  | placeholder (index : ℕ)
  | call (f : F) (args : List (Term F V))

/-- When a function may be evaluated ahead of time. -/
inductive Volatility where
  | immutable
  | stable
  | volatile
  deriving DecidableEq

/-- The meaning of the function symbols in environments `S`. -/
structure Interp (F V S : Type*) where
  volatility : F → Volatility
  apply : F → S → List V → V
  apply_immutable : ∀ f, volatility f = .immutable → ∀ s s' args, apply f s args = apply f s' args

variable {F V S : Type*}

/-- The two environments give a stable function the same values. -/
def Interp.Agrees (I : Interp F V S) (s s' : S) (f : F) : Prop :=
  I.volatility f = .stable → ∀ args, I.apply f s args = I.apply f s' args

theorem Interp.Agrees.refl (I : Interp F V S) (s : S) (f : F) : I.Agrees s s f := fun _ _ => rfl

namespace Term

/-- The values of a list of literals, if it is one. -/
def literals : List (Term F V) → Option (List V)
  | [] => some []
  | literal v :: ts => (literals ts).map (v :: ·)
  | _ :: _ => none

mutual

/-- The value of a term on a row. -/
def eval (I : Interp F V S) (s : S) (params : ℕ → V) (row : String → V) : Term F V → V
  | column name => row name
  | literal v => v
  | placeholder i => params i
  | call f args => I.apply f s (evalArgs I s params row args)

def evalArgs (I : Interp F V S) (s : S) (params : ℕ → V) (row : String → V) :
    List (Term F V) → List V
  | [] => []
  | t :: ts => eval I s params row t :: evalArgs I s params row ts

end

mutual

/-- **Constant folding** in the environment `s`. -/
def fold (I : Interp F V S) (s : S) : Term F V → Term F V
  | column name => column name
  | literal v => literal v
  | placeholder i => placeholder i
  | call f args =>
    match literals (foldArgs I s args) with
    | some vs =>
      if I.volatility f = .volatile then call f (foldArgs I s args) else literal (I.apply f s vs)
    | none => call f (foldArgs I s args)

def foldArgs (I : Interp F V S) (s : S) : List (Term F V) → List (Term F V)
  | [] => []
  | t :: ts => fold I s t :: foldArgs I s ts

end

mutual

/-- The function symbols of a term. -/
def functions : Term F V → List F
  | column _ | literal _ | placeholder _ => []
  | call f args => f :: functionsOfArgs args

def functionsOfArgs : List (Term F V) → List F
  | [] => []
  | t :: ts => functions t ++ functionsOfArgs ts

end

/-- Literals evaluate to themselves. -/
theorem evalArgs_of_literals {I : Interp F V S} {s : S} {params : ℕ → V} {row : String → V} :
    ∀ {ts : List (Term F V)} {vs : List V}, literals ts = some vs →
      evalArgs I s params row ts = vs
  | [], vs, h => by simpa [literals, evalArgs] using h
  | literal v :: ts, vs, h => by
    obtain ⟨vs', hvs', rfl⟩ := Option.map_eq_some_iff.mp h
    rw [evalArgs, eval, evalArgs_of_literals hvs']
  | column _ :: _, _, h | placeholder _ :: _, _, h | call _ _ :: _, _, h => by
    simp [literals] at h

section Fold

variable {I : Interp F V S} {s s' : S} {params : ℕ → V} {row : String → V}

mutual

/-- **Folding in one environment is invisible in another** that agrees on the stable
functions of the term. -/
theorem eval_fold : ∀ t : Term F V, (∀ f ∈ t.functions, I.Agrees s s' f) →
    eval I s' params row (fold I s t) = eval I s' params row t
  | column _, _ | literal _, _ | placeholder _, _ => rfl
  | call f args, h => by
    have hargs := evalArgs_fold args fun g hg => h g (mem_cons_of_mem _ hg)
    rw [fold]
    split
    · rename_i vs hvs
      -- the folded arguments are constants, so the value was computed in `s`
      split_ifs with hvol
      · rw [eval, eval, hargs]
      · rw [eval, eval, ← hargs, evalArgs_of_literals hvs]
        cases hf : I.volatility f with
        | immutable => exact I.apply_immutable f hf s s' vs
        | stable => exact h f mem_cons_self hf vs
        | volatile => exact absurd hf hvol
    · rw [eval, eval, hargs]

theorem evalArgs_fold : ∀ ts : List (Term F V), (∀ f ∈ functionsOfArgs ts, I.Agrees s s' f) →
    evalArgs I s' params row (foldArgs I s ts) = evalArgs I s' params row ts
  | [], _ => rfl
  | t :: ts, h => by
    rw [foldArgs, evalArgs, evalArgs, eval_fold t fun f hf => h f (mem_append_left _ hf),
      evalArgs_fold ts fun f hf => h f (mem_append_right _ hf)]

end

end Fold

end Term

/-! ### Plans -/

/-- Plans over tables `T` and relational operators `O`. -/
inductive Plan (T O F V : Type*) where
  | scan (table : T)
  | node (op : O) (terms : List (Term F V)) (inputs : List (Plan T O F V))

/-- What executes a plan: the rows of a table as an environment sees them, and the operators,
which are given their terms as functions of a row. -/
structure Engine (T O V S R : Type*) where
  cell : R → String → V
  rows : S → T → List R
  operator : O → List (R → V) → List (List R) → List R

variable {T O R : Type*}

namespace Plan

mutual

/-- The rows a plan returns in the environment `s`. -/
def run (E : Engine T O V S R) (I : Interp F V S) (s : S) (params : ℕ → V) :
    Plan T O F V → List R
  | scan table => E.rows s table
  | node op terms inputs =>
    E.operator op (terms.map fun t r => t.eval I s params (E.cell r))
      (runInputs E I s params inputs)

def runInputs (E : Engine T O V S R) (I : Interp F V S) (s : S) (params : ℕ → V) :
    List (Plan T O F V) → List (List R)
  | [] => []
  | p :: ps => run E I s params p :: runInputs E I s params ps

end

mutual

/-- Fold every term of a plan. -/
def optimize (I : Interp F V S) (s : S) : Plan T O F V → Plan T O F V
  | scan table => scan table
  | node op terms inputs => node op (terms.map (Term.fold I s)) (optimizeInputs I s inputs)

def optimizeInputs (I : Interp F V S) (s : S) : List (Plan T O F V) → List (Plan T O F V)
  | [] => []
  | p :: ps => optimize I s p :: optimizeInputs I s ps

end

mutual

/-- The function symbols of a plan. -/
def functions : Plan T O F V → List F
  | scan _ => []
  | node _ terms inputs => terms.flatMap Term.functions ++ functionsOfInputs inputs

def functionsOfInputs : List (Plan T O F V) → List F
  | [] => []
  | p :: ps => functions p ++ functionsOfInputs ps

end

section Optimize

variable {E : Engine T O V S R} {I : Interp F V S} {s s' : S} {params : ℕ → V}

mutual

/-- **A plan optimized in one environment runs in another as if it were not**, if they agree
on the stable functions it calls. -/
theorem run_optimize : ∀ p : Plan T O F V, (∀ f ∈ p.functions, I.Agrees s s' f) →
    run E I s' params (optimize I s p) = run E I s' params p
  | scan _, _ => rfl
  | node op terms inputs, h => by
    have hterms : (terms.map (Term.fold I s)).map (fun t r => t.eval I s' params (E.cell r)) =
        terms.map fun t r => t.eval I s' params (E.cell r) := by
      rw [map_map]
      refine map_congr_left fun t ht => funext fun r => ?_
      exact Term.eval_fold t fun f hf =>
        h f (mem_append_left _ (mem_flatMap.mpr ⟨t, ht, hf⟩))
    rw [optimize, run, run, hterms,
      runInputs_optimize inputs fun f hf => h f (mem_append_right _ hf)]

theorem runInputs_optimize : ∀ ps : List (Plan T O F V),
    (∀ f ∈ functionsOfInputs ps, I.Agrees s s' f) →
      runInputs E I s' params (optimizeInputs I s ps) = runInputs E I s' params ps
  | [], _ => rfl
  | p :: ps, h => by
    rw [optimizeInputs, runInputs, runInputs, run_optimize p fun f hf => h f (mem_append_left _ hf),
      runInputs_optimize ps fun f hf => h f (mem_append_right _ hf)]

end

end Optimize

end Plan

end RelPlan
