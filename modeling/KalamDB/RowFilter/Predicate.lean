import Mathlib.Order.Lattice
import KalamDB.Rls.Policy

/-!
# Row filters

The `WHERE` clause of a live subscription is compiled into a predicate on single rows. The
compiler takes comparisons, `BETWEEN`, `IN` lists, `IS` tests, `AND`, `OR` and `NOT` over columns
and literals, and refuses everything else. The evaluator is **two-valued**: a comparison with a
null is false, and `NOT` turns it into true.

Numbers are compared as 64-bit floats, and count as equal when they are less than the machine
epsilon apart. What is needed of the floats is `FloatOps`.

`LIKE` is left out.
-/

namespace KalamDB.RowFilter

open Rls (NumberLiteral Value)

/-! ### Expressions -/

inductive RowFilterError where
  | unsupportedSubquery
  | unsupportedExpression
  | unsupportedOperator
  | invalidOperation (text : String)
  deriving DecidableEq

inductive BinaryOperator where
  | and
  | or
  | eq
  | notEq
  | lt
  | gt
  | ltEq
  | gtEq
  | other
  deriving DecidableEq

inductive UnaryOperator where
  | not
  | other
  deriving DecidableEq

/-- A parsed `WHERE` clause. -/
inductive WhereExpr where
  | identifier (name : String)
  | compoundIdentifier (names : List String)
  | value (v : Value)
  | nested (e : WhereExpr)
  | unaryOp (op : UnaryOperator) (e : WhereExpr)
  | binaryOp (left : WhereExpr) (op : BinaryOperator) (right : WhereExpr)
  | between (e : WhereExpr) (negated : Bool) (low high : WhereExpr)
  | inList (e : WhereExpr) (list : List WhereExpr) (negated : Bool)
  | isNull (e : WhereExpr)
  | isNotNull (e : WhereExpr)
  | isTrue (e : WhereExpr)
  | isNotTrue (e : WhereExpr)
  | isFalse (e : WhereExpr)
  | isNotFalse (e : WhereExpr)
  | subquery
  | other

inductive ComparisonOp where
  | eq
  | notEq
  | lt
  | gt
  | ltEq
  | gtEq
  deriving DecidableEq

def ComparisonOp.fromBinaryOperator : BinaryOperator → Except RowFilterError ComparisonOp
  | .eq => .ok .eq
  | .notEq => .ok .notEq
  | .lt => .ok .lt
  | .gt => .ok .gt
  | .ltEq => .ok .ltEq
  | .gtEq => .ok .gtEq
  | .and | .or | .other => .error .unsupportedOperator

/-- The comparison in an ordered type. -/
def ComparisonOp.holds {α : Type} [LinearOrder α] : ComparisonOp → α → α → Bool
  | .eq, x, y => decide (x = y)
  | .notEq, x, y => decide (x ≠ y)
  | .lt, x, y => decide (x < y)
  | .gt, x, y => decide (y < x)
  | .ltEq, x, y => decide (x ≤ y)
  | .gtEq, x, y => decide (y ≤ x)

/-! ### Values -/

/-- A cell of a row, or a literal. -/
inductive Scalar (F : Type) where
  | cell (v : ScalarValue)
  | float64 (v : F)
  deriving DecidableEq

/-- The operations on 64-bit floats: the float of an integer, of a literal, and whether two of
them are less than the machine epsilon apart. Errors print the debug text of a value. -/
structure FloatOps (F : Type) where
  ofInt : ℤ → F
  parse : NumberLiteral → F
  near : F → F → Bool
  debug : Scalar F → String

structure ColumnRef where
  name : String
  lowerName : String
  upperName : String

def ColumnRef.new (name : String) : ColumnRef := ⟨name, name.toLower, name.toUpper⟩

def ColumnRef.lookup (column : ColumnRef) (row : Row) : Option ScalarValue :=
  (row.get column.name).or ((row.get column.lowerName).or (row.get column.upperName))

inductive ValueExpr (F : Type) where
  | column (ref : ColumnRef)
  | literal (v : Scalar F)

section Floats

variable {F : Type} (f : FloatOps F)

/-- An integer that fits 64 bits stays one, every other number is a float. -/
def scalarFromValue : Value → Except RowFilterError (Scalar F)
  | .singleQuotedString v | .doubleQuotedString v => .ok (.cell (.utf8 v))
  | .number n =>
    if n.exponent = none ∧ n.mantissa < 2 ^ 63 then .ok (.cell (.int64 (Int64.ofNat n.mantissa)))
    else .ok (.float64 (f.parse n))
  | .boolean v => .ok (.cell (.boolean v))
  | .null => .ok (.cell .null)
  | .other => .error .unsupportedExpression

def ValueExpr.compile : WhereExpr → Except RowFilterError (ValueExpr F)
  | .nested e => ValueExpr.compile e
  | .identifier name => .ok (.column (.new name))
  | .compoundIdentifier names =>
    match names.getLast? with
    | none => .error (.invalidOperation "empty compound identifier")
    | some name => .ok (.column (.new name))
  | .value v => (scalarFromValue f v).map .literal
  | _ => .error .unsupportedExpression

/-- A column that the row does not have is null. -/
def ValueExpr.evaluate (row : Row) : ValueExpr F → Scalar F
  | .column ref => .cell ((ref.lookup row).getD .null)
  | .literal v => v

namespace Scalar

def isNull : Scalar F → Bool
  | .cell .null => true
  | _ => false

def asStr : Scalar F → Option String
  | .cell (.utf8 v) | .cell (.largeUtf8 v) => some v
  | _ => none

def asF64 : Scalar F → Option F
  | .float64 v => some v
  | .cell (.int8 v) => some (f.ofInt v.toInt)
  | .cell (.int16 v) => some (f.ofInt v.toInt)
  | .cell (.int32 v) => some (f.ofInt v.toInt)
  | .cell (.int64 v) => some (f.ofInt v.toInt)
  | .cell (.uint8 v) => some (f.ofInt v.toNat)
  | .cell (.uint16 v) => some (f.ofInt v.toNat)
  | .cell (.uint32 v) => some (f.ofInt v.toNat)
  | .cell (.uint64 v) => some (f.ofInt v.toNat)
  | _ => none

end Scalar

/-! ### Predicates -/

inductive Predicate (F : Type) where
  | bool (value : ValueExpr F)
  | not (inner : Predicate F)
  | and (left right : Predicate F)
  | or (left right : Predicate F)
  | comparison (left : ValueExpr F) (op : ComparisonOp) (right : ValueExpr F)
  | between (value low high : ValueExpr F) (negated : Bool)
  | inList (value : ValueExpr F) (list : List (ValueExpr F)) (negated : Bool)
  | isNull (value : ValueExpr F) (negated : Bool)
  | isTrue (value : ValueExpr F) (negated : Bool)
  | isFalse (value : ValueExpr F) (negated : Bool)

def MAX_FILTER_DEPTH : ℕ := 64

def MAX_IN_LIST_VALUES : ℕ := 1024

namespace Predicate

/-- **The compiler.** -/
def compile (e : WhereExpr) (depth : ℕ) : Except RowFilterError (Predicate F) :=
  if MAX_FILTER_DEPTH < depth then
    .error (.invalidOperation
      ("row filter expression exceeds max depth of " ++ toString MAX_FILTER_DEPTH))
  else
    match e with
    | .nested inner => compile inner (depth + 1)
    | .unaryOp .not inner => do return .not (← compile inner (depth + 1))
    | .unaryOp .other _ => .error .unsupportedOperator
    | .binaryOp left .and right => do
      return .and (← compile left (depth + 1)) (← compile right (depth + 1))
    | .binaryOp left .or right => do
      return .or (← compile left (depth + 1)) (← compile right (depth + 1))
    | .binaryOp left op right => do
      let left ← ValueExpr.compile f left
      let op ← ComparisonOp.fromBinaryOperator op
      return .comparison left op (← ValueExpr.compile f right)
    | .between e negated low high => do
      return .between (← ValueExpr.compile f e) (← ValueExpr.compile f low)
        (← ValueExpr.compile f high) negated
    | .inList e list negated =>
      if MAX_IN_LIST_VALUES < list.length then
        .error (.invalidOperation ("IN list contains " ++ toString list.length ++
          " values, max supported is " ++ toString MAX_IN_LIST_VALUES))
      else do return .inList (← ValueExpr.compile f e) (← list.mapM (ValueExpr.compile f)) negated
    | .isNull e => do return .isNull (← ValueExpr.compile f e) false
    | .isNotNull e => do return .isNull (← ValueExpr.compile f e) true
    | .isTrue e => do return .isTrue (← ValueExpr.compile f e) false
    | .isNotTrue e => do return .isTrue (← ValueExpr.compile f e) true
    | .isFalse e => do return .isFalse (← ValueExpr.compile f e) false
    | .isNotFalse e => do return .isFalse (← ValueExpr.compile f e) true
    | .identifier name => do return .bool (← ValueExpr.compile f (.identifier name))
    | .compoundIdentifier names => do
      return .bool (← ValueExpr.compile f (.compoundIdentifier names))
    | .value v => do return .bool (← ValueExpr.compile f (.value v))
    | .subquery => .error .unsupportedSubquery
    | .other => .error .unsupportedExpression

def coerceToBool : Scalar F → Except RowFilterError Bool
  | .cell .null => .ok false
  | .cell (.boolean v) => .ok v
  | value => .error (.invalidOperation ("cannot coerce " ++ f.debug value ++ " to boolean"))

end Predicate

/-! ### Evaluation -/

variable [LinearOrder F]

def scalarsEqual (left right : Scalar F) : Bool :=
  if left = right then true
  else
    match left.asStr, right.asStr with
    | some lhs, some rhs => decide (lhs = rhs)
    | _, _ =>
      match left.asF64 f, right.asF64 f with
      | some lhs, some rhs => f.near lhs rhs
      | _, _ => false

def compareNumeric (left right : Scalar F) (compare : F → F → Bool) :
    Except RowFilterError Bool :=
  match left.asF64 f with
  | none => .error (.invalidOperation ("cannot convert " ++ f.debug left ++ " to number"))
  | some lhs =>
    match right.asF64 f with
    | none => .error (.invalidOperation ("cannot convert " ++ f.debug right ++ " to number"))
    | some rhs => .ok (compare lhs rhs)

def compareScalars (left : Scalar F) (op : ComparisonOp) (right : Scalar F) :
    Except RowFilterError Bool :=
  if left.isNull || right.isNull then .ok false
  else
    match op with
    | .eq => .ok (scalarsEqual f left right)
    | .notEq => .ok (!scalarsEqual f left right)
    | op => compareNumeric f left right op.holds

namespace Predicate

def isBetween (value low high : Scalar F) : Except RowFilterError Bool := do
  if ← compareScalars f value .gtEq low then compareScalars f value .ltEq high
  else return false

/-- The value equals one of the items. The search stops at the first one. -/
def matchesAny (row : Row) (value : Scalar F) : List (ValueExpr F) → Except RowFilterError Bool
  | [] => .ok false
  | item :: rest => do
    if ← compareScalars f value .eq (item.evaluate row) then return true
    else matchesAny row value rest

/-- **The evaluator.** `AND` and `OR` do not look at their right side when the left decides. -/
def evaluate (row : Row) : Predicate F → Except RowFilterError Bool
  | .bool value => coerceToBool f (value.evaluate row)
  | .not inner => do return !(← inner.evaluate row)
  | .and left right => do if ← left.evaluate row then right.evaluate row else return false
  | .or left right => do if ← left.evaluate row then return true else right.evaluate row
  | .comparison left op right => compareScalars f (left.evaluate row) op (right.evaluate row)
  | .between value low high negated => do
    let matched ← isBetween f (value.evaluate row) (low.evaluate row) (high.evaluate row)
    return if negated then !matched else matched
  | .inList value list negated =>
    if (value.evaluate row).isNull then .ok false
    else do
      let matched ← matchesAny f row (value.evaluate row) list
      return if negated then !matched else matched
  | .isNull value negated =>
    let isNull := (value.evaluate row).isNull
    .ok (if negated then !isNull else isNull)
  | .isTrue value negated =>
    let isTrue := decide (value.evaluate row = .cell (.boolean true))
    .ok (if negated then !isTrue else isTrue)
  | .isFalse value negated =>
    let isFalse := decide (value.evaluate row = .cell (.boolean false))
    .ok (if negated then !isFalse else isFalse)

end Predicate

end Floats

end KalamDB.RowFilter
