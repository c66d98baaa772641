import Mathlib.Algebra.Group.Int.Defs
import KalamDB.Commons.Table

/-!
# Filter expressions and the version bounds read off them

A filter reaches the storage layer as an expression tree. Before any row is fetched the layer reads
the **version bounds** of its `_version` comparisons off it, looking through `AND` only. No version
that satisfies a filter lies outside its bounds.

Expressions the layer has no use for (function calls, `CASE`, `IS NULL`, …) are the constructor
`other`, which keeps the columns they mention. An `IN` list keeps its literal items; the other
items are `none`, and their columns are kept.
-/

namespace KalamDB

/-- Binary operators. -/
inductive Operator where
  | eq
  | notEq
  | lt
  | ltEq
  | gt
  | gtEq
  | and
  | or
  | other (display : String)
  deriving DecidableEq

/-- Logical expressions. -/
inductive Expr where
  | column (name : String)
  | literal (value : ScalarValue)
  | aliased (expr : Expr) (name : String)
  | cast (expr : Expr) (dataType : String)
  | tryCast (expr : Expr) (dataType : String)
  | binaryExpr (left : Expr) (op : Operator) (right : Expr)
  | between (expr : Expr) (negated : Bool) (low high : Expr)
  | inList (expr : Expr) (negated : Bool) (items : List (Option ScalarValue))
      (columns : List String)
  | other (display : String) (columns : List String)
  deriving DecidableEq

namespace Expr

/-! ### Version bounds -/

def isVersionColumn : Expr → Bool
  | column name => name == SystemColumnNames.VERSION
  | _ => false

/-- Only an `Int64` literal bounds a version. -/
def extractI64Literal : Expr → Option Int64
  | literal (.int64 v) => some v
  | _ => none

/-- The operator seen from the other operand. -/
def invertComparisonOperator : Operator → Option Operator
  | .eq => some .eq
  | .gt => some .lt
  | .gtEq => some .ltEq
  | .lt => some .gt
  | .ltEq => some .gtEq
  | _ => none

/-- A comparison of `_version` with a literal, with the column on the left. -/
def normalizeVersionComparison (left : Expr) (op : Operator) (right : Expr) :
    Option (Operator × Int64) :=
  if left.isVersionColumn then right.extractI64Literal.map fun value => (op, value)
  else if right.isVersionColumn then
    left.extractI64Literal.bind fun value =>
      (invertComparisonOperator op).map fun op => (op, value)
  else none

/-- A signed 64-bit value as a row version. -/
def versionOfI64 (value : ℤ) : Option VersionId :=
  if h : 0 < value ∧ value < 2 ^ 63 then some ⟨value.toNat, by omega⟩ else none

/-- `value - 1`, saturating at the least `i64`. -/
def saturatingPred (value : Int64) : ℤ := max (value.toInt - 1) (-2 ^ 63)

/-- The tighter of two lower bounds. -/
def tighterMin : Option VersionId → Option VersionId → Option VersionId
  | some a, some b => some (max a b)
  | some a, none => some a
  | none, b => b

/-- The tighter of two upper bounds. -/
def tighterMax : Option VersionId → Option VersionId → Option VersionId
  | some a, some b => some (min a b)
  | some a, none => some a
  | none, b => b

/-- The bounds one comparison puts on `_version`. -/
def comparisonVersionBounds : Operator × Int64 → Option VersionId × Option VersionId
  | (.eq, value) => (versionOfI64 (saturatingPred value), versionOfI64 value.toInt)
  | (.gt, value) => (versionOfI64 value.toInt, none)
  | (.gtEq, value) => (versionOfI64 (saturatingPred value), none)
  | (.lt, value) => (none, versionOfI64 (saturatingPred value))
  | (.ltEq, value) => (none, versionOfI64 value.toInt)
  | _ => (none, none)

/-- `(since, until)` with `since` exclusive and `until` inclusive. -/
def extractVersionBounds : Expr → Option VersionId × Option VersionId
  | binaryExpr l .and r =>
    let (minL, maxL) := l.extractVersionBounds
    let (minR, maxR) := r.extractVersionBounds
    (tighterMin minL minR, tighterMax maxL maxR)
  | binaryExpr l op r =>
    match normalizeVersionComparison l op r with
    | some comparison => comparisonVersionBounds comparison
    | none => (none, none)
  | _ => (none, none)

/-! ### What the bounds promise -/

/-- Above the first bound and up to the second. -/
def WithinBounds (version : VersionId) (bounds : Option VersionId × Option VersionId) : Prop :=
  (∀ v, bounds.1 = some v → v.1 < version.1) ∧ ∀ v, bounds.2 = some v → version.1 ≤ v.1

/-- The number an operand of a version comparison stands for. -/
def versionOperand (version : VersionId) : Expr → Option ℤ
  | column name => if name == SystemColumnNames.VERSION then some version.1 else none
  | literal (.int64 v) => some v.toInt
  | _ => none

/-- The comparison operators on numbers. -/
def compareNumbers : Operator → ℤ → ℤ → Option Bool
  | .eq, a, b => some (a = b)
  | .notEq, a, b => some (a ≠ b)
  | .lt, a, b => some (a < b)
  | .ltEq, a, b => some (a ≤ b)
  | .gt, a, b => some (b < a)
  | .gtEq, a, b => some (b ≤ a)
  | .and, _, _ | .or, _, _ | .other _, _, _ => none

/-- Does a version satisfy a filter? What is neither a conjunction, a disjunction nor a
comparison of the version is up to the rest of the row, `decides`. -/
def satisfiedBy (decides : Expr → Bool) (version : VersionId) : Expr → Bool
  | binaryExpr l .and r => l.satisfiedBy decides version && r.satisfiedBy decides version
  | binaryExpr l .or r => l.satisfiedBy decides version || r.satisfiedBy decides version
  | binaryExpr l op r =>
    ((l.versionOperand version).bind fun a => (r.versionOperand version).bind fun b =>
      compareNumbers op a b).getD (decides (binaryExpr l op r))
  | e => decides e

variable {version : VersionId} {l r : Expr} {op : Operator}

theorem versionOfI64_eq_some {value : ℤ} (h : versionOfI64 value = some version) :
    (version.1 : ℤ) = value := by
  revert h
  fun_cases versionOfI64 value <;> rintro ⟨⟩
  exact Int.toNat_of_nonneg (by omega)

theorem withinBounds_tighter {minL minR maxL maxR : Option VersionId}
    (hl : WithinBounds version (minL, maxL)) (hr : WithinBounds version (minR, maxR)) :
    WithinBounds version (tighterMin minL minR, tighterMax maxL maxR) := by
  constructor
  · cases minL with
    | none => exact hr.1
    | some a =>
      cases minR with
      | none => exact hl.1
      | some b =>
        rintro _ ⟨⟩
        exact Nat.max_lt.mpr ⟨hl.1 a rfl, hr.1 b rfl⟩
  · cases maxL with
    | none => exact hr.2
    | some a =>
      cases maxR with
      | none => exact hl.2
      | some b =>
        rintro _ ⟨⟩
        exact Nat.le_min.mpr ⟨hl.2 a rfl, hr.2 b rfl⟩

theorem withinBounds_comparison {value : Int64}
    (h : compareNumbers op version.1 value.toInt ≠ some false) :
    WithinBounds version (comparisonVersionBounds (op, value)) := by
  -- at the least `i64` the saturated bound is not below the value, but it is no version either
  have hpred : saturatingPred value = max (value.toInt - 1) (-2 ^ 63) := rfl
  have hpos := version.2.1
  cases op <;> constructor <;> intro v hv <;>
    simp only [comparisonVersionBounds, reduceCtorEq] at hv
  all_goals
    have := versionOfI64_eq_some hv
    simp [compareNumbers] at h
    omega

theorem versionOperand_of_isVersionColumn {e : Expr} (h : e.isVersionColumn = true) :
    e.versionOperand version = some version.1 := by
  cases e <;> simp_all [isVersionColumn, versionOperand]

theorem versionOperand_of_literal {e : Expr} {value : Int64}
    (h : e.extractI64Literal = some value) : e.versionOperand version = some value.toInt := by
  unfold extractI64Literal at h
  split at h
  · cases h
    rfl
  · cases h

theorem compareNumbers_ne_false {decides : Expr → Bool} {value : Int64} {op' : Operator}
    (hc : normalizeVersionComparison l op r = some (op', value))
    (h : (binaryExpr l op r).satisfiedBy decides version = true) :
    compareNumbers op' version.1 value.toInt ≠ some false := by
  rw [normalizeVersionComparison] at hc
  split at hc
  · rename_i hl
    obtain ⟨_, hr, ⟨⟩⟩ := Option.map_eq_some_iff.mp hc
    cases op <;> simp_all [compareNumbers, satisfiedBy, versionOperand_of_isVersionColumn hl,
      versionOperand_of_literal hr]
  · split at hc
    · rename_i hr
      obtain ⟨_, hl, hc⟩ := Option.bind_eq_some_iff.mp hc
      obtain ⟨_, hop, ⟨⟩⟩ := Option.map_eq_some_iff.mp hc
      cases op <;> cases hop <;> simp_all [compareNumbers, satisfiedBy,
        versionOperand_of_isVersionColumn hr, versionOperand_of_literal hl]
    · cases hc

/-- **The bounds miss no version** that satisfies the filter. -/
theorem withinBounds_extractVersionBounds (decides : Expr → Bool) (version : VersionId)
    (filter : Expr) (h : filter.satisfiedBy decides version = true) :
    WithinBounds version filter.extractVersionBounds := by
  fun_induction extractVersionBounds filter with
  | case1 l r minL maxL hl minR maxR hr ihl ihr =>
    rw [satisfiedBy, Bool.and_eq_true] at h
    exact withinBounds_tighter (hl ▸ ihl h.1) (hr ▸ ihr h.2)
  | case2 l op r _ comparison hc => exact withinBounds_comparison (compareNumbers_ne_false hc h)
  | case3 | case4 => exact ⟨by rintro _ ⟨⟩, by rintro _ ⟨⟩⟩

theorem withinBounds_of_range :
    WithinBounds ⟨7, by decide⟩ (extractVersionBounds
      (binaryExpr (binaryExpr (literal (.int64 5)) .lt (column SystemColumnNames.VERSION)) .and
        (binaryExpr (column SystemColumnNames.VERSION) .ltEq (literal (.int64 9))))) :=
  withinBounds_extractVersionBounds (fun _ => false) _ _ (by decide)

end Expr

end KalamDB
