import Mathlib.Data.Int.Cast.Lemmas
import KalamDB.Rls.SqlMeaning

/-!
# Row-level security: comparisons in SQL and as compiled

A compiled policy compares scalars, SQL compares values. On the cells of integer, boolean and
text columns the two agree for the principal (`eq_text_iff_scalarEqualsPrincipal`), for keys
unless their columns have two different integer types (`eq_iff_same_scalar`), and for literals
unless they are a `Misfit` (`apply_toSql_iff_matchesLiteral`). A literal is compared within its
own type only: an integer literal never equals a cell of a narrower column, a decimal literal
never equals an integer cell, and a literal of another kind is unequal to every cell.

The second half follows the names: which column a resolved id stands for, what a reference
means in the scopes of a policy, and which comparisons the compiler recognises.
-/

namespace KalamDB.Rls

open SqlValue PolicyScalar SqlExpr Scope Option

/-! ### Typed rows -/

variable {type type' : KalamDataType} {v w : ScalarValue} {z : ℤ} {q : ℚ} {literal : PolicyScalar}
  {operator : PredicateOperator} {name qualifier : String} {e : SqlExpr}

def isIntegerType (type : KalamDataType) : Bool :=
  type == .smallInt || type == .int || type == .bigInt

/-- Integer, boolean and text columns. -/
def isPlainType (type : KalamDataType) : Bool :=
  isIntegerType type || type == .boolean || type == .text

/-- The cells of a column; nothing is said of the other types. -/
def admitsCell : KalamDataType → ScalarValue → Bool
  | _, .null => true
  | .smallInt, .int16 _ | .int, .int32 _ | .bigInt, .int64 _ | .boolean, .boolean _
  | .text, .utf8 _ => true
  | type, _ => !isPlainType type

variable (t : CatalogTable) (b : Bool)

/-- The cells of a row have the types of their columns. -/
def CatalogTable.TypedRow (row : Row) : Prop :=
  ∀ c ∈ t.definition.columns, ∀ v, row.get c.columnName = some v →
    admitsCell c.dataType v = true

/-- The type of a column that is known by its id. -/
def CatalogTable.typeOf (columnId : ℕ) : Option KalamDataType :=
  (t.definition.columns.find? fun c => c.columnId == columnId).map ColumnDefinition.dataType

/-- A column of integer, boolean or text type. -/
def CatalogTable.PlainColumn (columnId : ℕ) : Prop :=
  ∀ type, t.typeOf columnId = some type → isPlainType type = true

/-- The integers a column can hold. -/
def inIntegerRange : KalamDataType → ℤ → Prop
  | .smallInt, z => -2 ^ 15 ≤ z ∧ z < 2 ^ 15
  | .int, z => -2 ^ 31 ≤ z ∧ z < 2 ^ 31
  | .bigInt, z => -2 ^ 63 ≤ z ∧ z < 2 ^ 63
  | _, _ => False

/-- The cell of a column; one that is not stored is null. -/
def cellOf (row : Row) (columnId : ℕ) : ScalarValue :=
  (columnValue t row columnId).getD .null

/-! ### Cells in SQL -/

/-- The SQL value of a compiled literal. -/
def PolicyScalar.toSql : PolicyScalar → SqlValue
  | .null => .null
  | .boolean v => .boolean v
  | .int64 v => .number v.toInt
  | .uint64 v => .number v.toNat
  | .float64 v => .number v.value
  | .string v => .text v

/-- A comparison in SQL. -/
def PredicateOperator.apply (operator : PredicateOperator) (v w : SqlValue) : Option SqlTruth :=
  match operator with
  | .eq => v.eq w
  | .notEq => (v.eq w).map SqlTruth.not

/-- The test of a comparison with a literal, on the cell. -/
def matchesLiteral (operator : PredicateOperator) (v : ScalarValue) (literal : PolicyScalar) :
    Bool :=
  !(isNull v || literal == .null) &&
    match operator with
    | .eq => scalarEqualsPolicy v literal
    | .notEq => !scalarEqualsPolicy v literal

/-- **Literals that a comparison misses**: numbers that a cell of the column could equal, unless
both are 64-bit integers, and for `<>` literals of another kind than the column. -/
def Misfit (type : KalamDataType) (operator : PredicateOperator) : PolicyScalar → Prop
  | .null => False
  | .boolean _ => type ≠ .boolean ∧ operator = .notEq
  | .string _ => type ≠ .text ∧ operator = .notEq
  | .int64 v =>
    if isIntegerType type then type ≠ .bigInt ∧ inIntegerRange type v.toInt
    else operator = .notEq
  | .uint64 v =>
    if isIntegerType type then inIntegerRange type v.toNat else operator = .notEq
  | .float64 n =>
    if isIntegerType type then ∃ z : ℤ, n.value = z ∧ inIntegerRange type z
    else operator = .notEq

theorem SqlValue.eq_comm (v w : SqlValue) : v.eq w = w.eq v := by
  cases v <;> cases w <;> simp [eq, Bool.beq_comm]

@[simp]
theorem SqlTruth.ofBool_eq_true : ofBool b = SqlTruth.true ↔ b = Bool.true := by
  cases b <;> simp [ofBool]

@[simp]
theorem SqlTruth.not_ofBool : (ofBool b).not = ofBool (!b) := by
  cases b <;> rfl

@[simp]
theorem SqlTruth.not_unknown : SqlTruth.unknown.not = .unknown := rfl

/-- An integer cell: its value is in the range of the column and belongs to no other cell of the
column, and it equals one literal at most, a 64-bit one for a 64-bit column. -/
structure IntegerCell (type : KalamDataType) (v : ScalarValue) (z : ℤ) : Prop where
  integer : isIntegerType type = true
  range : inIntegerRange type z
  toSql : scalarToSql v = some (.number z)
  unique : ∀ w, admitsCell type w = true → scalarToSql w = some (.number z) → w = v
  equals : ∀ literal, scalarEqualsPolicy v literal = true ↔
    type = .bigInt ∧ literal = .int64 (Int64.ofInt z)

theorem plainCell_cases (htype : isPlainType type = true) (hv : admitsCell type v = true) :
    v = .null ∨ (type = .boolean ∧ ∃ b, v = .boolean b) ∨ (type = .text ∧ ∃ s, v = .utf8 s) ∨
      ∃ z, IntegerCell type v z := by
  cases type <;> simp [isPlainType, isIntegerType] at htype <;>
    cases v <;> simp [admitsCell, isPlainType, isIntegerType] at hv ⊢
  case int.int32 v | smallInt.int16 v | bigInt.int64 v =>
    refine ⟨v.toInt, rfl, ⟨v.le_toInt, v.toInt_lt⟩, rfl, fun w hw hz => ?_, fun literal => ?_⟩
    · cases w <;> simp [admitsCell, isPlainType, isIntegerType] at hw <;>
        simp [scalarToSql, Int16.toInt_inj, Int32.toInt_inj, Int64.toInt_inj] at hz ⊢
      exact hz
    · cases literal <;> simp [scalarEqualsPolicy, isNull] <;> exact eq_comm

section

variable (h : IntegerCell type v z)
include h

theorem IntegerCell.ne {other : KalamDataType} (hother : isIntegerType other = false) :
    type ≠ other := by
  rintro rfl
  exact absurd h.integer (by simp [hother])

theorem IntegerCell.isNull_eq_false : isNull v = false := by
  cases v <;> first | rfl | exact absurd h.toSql (by simp [scalarToSql])

/-- Numbers outside the range of a column are no cells of it. -/
theorem IntegerCell.ne_of_not_inIntegerRange (hq : ¬ ∃ z : ℤ, q = z ∧ inIntegerRange type z) :
    (z : ℚ) ≠ q :=
  fun heq => hq ⟨z, heq.symm, h.range⟩

/-- A number literal that fits its column is compared as in SQL. -/
theorem IntegerCell.equals_iff (hq : literal.toSql = .number q)
    (hfit : ¬ Misfit type operator literal) :
    scalarEqualsPolicy v literal = true ↔ (z : ℚ) = q := by
  rw [h.equals]
  cases literal with
  | null | boolean _ | string _ => simp [PolicyScalar.toSql] at hq
  | int64 w =>
    obtain rfl : (w.toInt : ℚ) = q := number.inj hq
    simp only [Misfit, h.integer, if_true, not_and] at hfit
    by_cases htype : type = .bigInt
    · rw [Int.cast_inj, PolicyScalar.int64.injEq]
      refine (and_iff_right htype).trans ⟨?_, ?_⟩
      · rintro rfl
        have hrange : inIntegerRange .bigInt z := htype ▸ h.range
        exact (Int64.toInt_ofInt_of_le hrange.1 hrange.2).symm
      · rintro rfl
        exact (Int64.ofInt_toInt w).symm
    · have hne : (z : ℚ) ≠ w.toInt := by
        refine h.ne_of_not_inIntegerRange ?_
        rintro ⟨z', hz', hrange⟩
        exact hfit htype (Int.cast_inj.mp hz' ▸ hrange)
      simp [htype, hne]
  | uint64 w =>
    obtain rfl : (w.toNat : ℚ) = q := number.inj hq
    simp only [Misfit, h.integer] at hfit
    have hne : (z : ℚ) ≠ w.toNat := by
      refine h.ne_of_not_inIntegerRange ?_
      rintro ⟨z', hz', hrange⟩
      have hz : (w.toNat : ℤ) = z' := by exact_mod_cast hz'
      exact hfit (hz ▸ hrange)
    simp [hne]
  | float64 n =>
    obtain rfl : n.value = q := number.inj hq
    simp only [Misfit, h.integer] at hfit
    simp [h.ne_of_not_inIntegerRange hfit]

end

section

variable (htype : isPlainType type = true) (hv : admitsCell type v = true)
include htype hv

/-- **A literal that fits** is compared as in SQL. -/
theorem apply_toSql_iff_matchesLiteral (hfit : ¬ Misfit type operator literal) :
    ((scalarToSql v).bind fun a => operator.apply a literal.toSql) = some .true ↔
      matchesLiteral operator v literal = true := by
  rcases plainCell_cases htype hv with rfl | ⟨rfl, b, rfl⟩ | ⟨rfl, s, rfl⟩ | ⟨z, hz⟩
  case inl => cases operator <;> simp [scalarToSql, PredicateOperator.apply, eq, matchesLiteral,
      isNull]
  case inr.inl | inr.inr.inl =>
    cases operator <;> cases literal <;> simp [Misfit, isIntegerType] at hfit <;>
      simp [scalarToSql, PredicateOperator.apply, eq, matchesLiteral, isNull,
        toSql, scalarEqualsPolicy]
  -- an integer cell
  have hnull : isNull v = false := hz.isNull_eq_false
  rw [hz.toSql]
  have hnumber : ∀ q, literal.toSql = .number q →
      (operator.apply (.number z) literal.toSql = some .true ↔
        matchesLiteral operator v literal = true) := by
    intro q hq
    have heq := hz.equals_iff hq hfit
    have hliteral : literal ≠ .null := by
      rintro rfl
      cases hq
    cases operator <;>
      simp [PredicateOperator.apply, hq, eq, matchesLiteral, hnull, hliteral, ← heq]
  have heq : operator ≠ .notEq → operator = .eq := by
    cases operator <;> simp
  cases literal with
  | int64 | uint64 | float64 => exact hnumber _ rfl
  | null => cases operator <;> simp [PredicateOperator.apply, eq, matchesLiteral, toSql]
  | boolean _ | string _ =>
    have hnot : operator = .eq := heq fun h => hfit ⟨hz.ne (by decide), h⟩
    simp [hnot, PredicateOperator.apply, eq, matchesLiteral, toSql, hz.equals]

/-- The current user is a text. -/
theorem eq_text_iff_scalarEqualsPrincipal {principal : String} :
    ((scalarToSql v).bind fun a => a.eq (.text principal)) = some .true ↔
      scalarEqualsPrincipal v principal = true := by
  rcases plainCell_cases htype hv with rfl | ⟨rfl, b, rfl⟩ | ⟨rfl, s, rfl⟩ | ⟨z, hz⟩
  · simp [scalarToSql, eq, scalarEqualsPrincipal]
  · simp [scalarToSql, eq, scalarEqualsPrincipal]
  · simp [scalarToSql, eq, scalarEqualsPrincipal]
  have hnot : scalarEqualsPrincipal v principal = false := by
    cases v <;> first | rfl | exact absurd hz.toSql (by simp [scalarToSql])
  simp [hz.toSql, eq, hnot]

end

/-- Two integer types, which hold different scalars for one number. -/
def MixedIntegers (type type' : KalamDataType) : Prop :=
  isIntegerType type = true ∧ isIntegerType type' = true ∧ type ≠ type'

/-- Cells of one type, or of types that are not both integers, are told apart by their SQL
values. -/
theorem scalarToSql_inj (htype : isPlainType type = true) (htype' : isPlainType type' = true)
    (hv : admitsCell type v = true) (hw : admitsCell type' w = true)
    (hmixed : ¬ MixedIntegers type type') (h : scalarToSql v = scalarToSql w) : v = w := by
  rcases plainCell_cases htype hv with rfl | ⟨rfl, b, rfl⟩ | ⟨rfl, s, rfl⟩ | ⟨z, hz⟩ <;>
    rcases plainCell_cases htype' hw with rfl | ⟨rfl, b', rfl⟩ | ⟨rfl, s', rfl⟩ | ⟨z', hz'⟩
  case inr.inr.inr.inr.inr.inr =>
    obtain rfl : type = type' := by
      by_contra hne
      exact hmixed ⟨hz.integer, hz'.integer, hne⟩
    exact (hz.unique w hw (h ▸ hz.toSql)).symm
  -- an integer and a cell of another kind
  case inl.inr.inr.inr | inr.inl.inr.inr.inr | inr.inr.inl.inr.inr.inr =>
    rw [hz'.toSql] at h
    cases h
  case inr.inr.inr.inl | inr.inr.inr.inr.inl | inr.inr.inr.inr.inr.inl =>
    rw [hz.toSql] at h
    cases h
  all_goals simp_all [scalarToSql]

theorem SqlValue.eq_eq_true {v w : SqlValue} : v.eq w = some SqlTruth.true ↔ v = w ∧ v ≠ .null := by
  cases v <;> cases w <;> simp [eq]

/-- **Keys** are equal in SQL when they are the same scalar and not null. -/
theorem eq_iff_same_scalar (htype : isPlainType type = true) (htype' : isPlainType type' = true)
    (hv : admitsCell type v = true) (hw : admitsCell type' w = true)
    (hmixed : ¬ MixedIntegers type type') :
    ((scalarToSql v).bind fun a => (scalarToSql w).bind fun b => a.eq b) = some .true ↔
      v = w ∧ isNull v = false := by
  obtain ⟨x, hx, hnull⟩ : ∃ x, scalarToSql v = some x ∧ (x = .null ↔ isNull v = true) := by
    rcases plainCell_cases htype hv with rfl | ⟨rfl, b, rfl⟩ | ⟨rfl, s, rfl⟩ | ⟨z, hz⟩
    · simp [scalarToSql, isNull]
    · simp [scalarToSql, isNull]
    · simp [scalarToSql, isNull]
    · simp [hz.toSql, hz.isNull_eq_false]
  simp only [bind_eq_some_iff, eq_eq_true]
  constructor
  · rintro ⟨a, ha, b, hb, rfl, hne⟩
    refine ⟨scalarToSql_inj htype htype' hv hw hmixed (ha.trans hb.symm), ?_⟩
    rw [← Bool.not_eq_true, ← hnull]
    rwa [some.inj (hx.symm.trans ha)]
  · rintro ⟨rfl, hne⟩
    rw [← Bool.not_eq_true, ← hnull] at hne
    exact ⟨x, hx, x, hx, rfl, hne⟩

/-! ### Columns and scopes -/

theorem eqIgnoreAsciiCase_comm (a b : String) :
    eqIgnoreAsciiCase a b = eqIgnoreAsciiCase b a := by
  simp [eqIgnoreAsciiCase, Bool.beq_comm]

/-- **A resolved column**: its id leads to the column the name means in SQL. -/
structure ResolvedColumn (t : CatalogTable) (name : String) (columnId : ℕ)
    (type : KalamDataType) : Prop where
  visible : (t.findColumn name).isSome = true
  typeOf : t.typeOf columnId = some type
  cell : ∀ (row : Row) (qualifier : String),
    ScopeTable.cell ⟨qualifier, t, row⟩ name = scalarToSql (cellOf t row columnId)
  admits : ∀ row, t.TypedRow row → admitsCell type (cellOf t row columnId) = true

theorem resolveColumnId_ok {t : CatalogTable} {columnId : ℕ}
    (h : resolveColumnId t name = .ok columnId) : ∃ type, ResolvedColumn t name columnId type := by
  unfold resolveColumnId at h
  split at h
  · rename_i c hc
    cases h
    have hmem : c ∈ t.definition.columns := List.mem_of_find?_eq_some hc
    have hfind := t.find?_columnId hmem
    have hcell : ∀ row, cellOf t row c.columnId = (row.get c.columnName).getD .null := by
      intro row
      rw [cellOf, columnValue, hfind]
    refine ⟨c.dataType, by rw [hc]; rfl, by rw [CatalogTable.typeOf, hfind]; rfl,
      fun row qualifier => ?_, fun row hrow => ?_⟩
    · rw [ScopeTable.cell, hc, hcell, bind_some]
    · rw [hcell]
      cases hv : row.get c.columnName with
      | none => cases c.dataType <;> rfl
      | some v => exact hrow c hmem v hv
  · cases h

section Scopes

variable {protectedTable table : CatalogTable} {qualifier principal name : String}
  {owner : Option String} {row r : Row}

/-- Inside the subquery, a name means a column of the relation first. -/
theorem innerScope_column (howner : owner.all (eqIgnoreAsciiCase · qualifier) = true)
    (hname : (table.findColumn name).isSome = true) :
    (innerScope protectedTable table qualifier principal row r).column owner name =
      ScopeTable.cell ⟨qualifier, table, r⟩ name := by
  cases owner with
  | none => simp [column, innerScope, hname]
  | some q =>
    rw [all_some, eqIgnoreAsciiCase_comm] at howner
    simp [column, innerScope, howner]

/-- The protected table is reached through its name, unless the relation goes by it. -/
theorem innerScope_protected_column {q : String}
    (hq : eqIgnoreAsciiCase q protectedTable.tableName = true)
    (hcaptured : eqIgnoreAsciiCase qualifier protectedTable.tableName = false) :
    (innerScope protectedTable table qualifier principal row r).column (some q) name =
      ScopeTable.cell ⟨protectedTable.tableName, protectedTable, row⟩ name := by
  have hne : eqIgnoreAsciiCase qualifier q = false := by
    rw [eqIgnoreAsciiCase, beq_iff_eq] at hq
    rwa [eqIgnoreAsciiCase, hq]
  rw [eqIgnoreAsciiCase_comm] at hq
  simp [column, innerScope, hne, hq]

theorem outerScope_column (howner : owner.all (eqIgnoreAsciiCase · protectedTable.tableName) = true)
    (hname : (protectedTable.findColumn name).isSome = true) :
    (outerScope protectedTable principal row).column owner name =
      ScopeTable.cell ⟨protectedTable.tableName, protectedTable, row⟩ name := by
  cases owner with
  | none => simp [column, outerScope, hname]
  | some q =>
    rw [all_some, eqIgnoreAsciiCase_comm] at howner
    simp [column, outerScope, howner]

end Scopes

/-! ### Sides of a comparison -/

section Sides

variable {scope : Scope} {e : SqlExpr}

theorem eval_of_columnName {owner : Option String} (h : columnName e = some (owner, name)) :
    e.eval scope = scope.column owner name := by
  induction e using columnName.induct with
  | case1 | case2 =>
    cases h
    rfl
  | case3 e ih => exact ih h
  | case4 e h₁ h₂ h₃ => simp [columnName] at h

/-- A double-quoted `"current_user"`, a column for SQL and the principal for the compiler. -/
def SqlExpr.isQuotedCurrentUser : SqlExpr → Bool
  | .identifier name => eqIgnoreAsciiCase name "CURRENT_USER"
  | _ => false

theorem eval_of_isCurrentUser (h : isCurrentUser e = true)
    (hquoted : e.isQuotedCurrentUser = false) : e.eval scope = some (.text scope.principal) := by
  cases e with
  | identifier name =>
    rw [isQuotedCurrentUser] at hquoted
    simp [isCurrentUser, hquoted] at h
  | function name n =>
    simp only [isCurrentUser, Bool.and_eq_true, beq_iff_eq] at h
    obtain ⟨hname, rfl⟩ := h
    simp [eval, hname]
  | compoundIdentifier | nested | value | unaryOp | binaryOp | other => simp [isCurrentUser] at h

theorem toSql_policyNumber (n : NumberLiteral) : (policyNumber n).toSql = .number n.value := by
  unfold policyNumber
  cases hexp : n.exponent with
  | some k => rfl
  | none =>
    have hvalue : n.value = n.mantissa := by simp [NumberLiteral.value, hexp]
    split_ifs with hsigned hunsigned
    · rw [toSql, Int64.toInt_ofNat_of_lt hsigned, hvalue]
      simp
    · rw [toSql, UInt64.toNat_ofNat', Nat.mod_eq_of_lt hunsigned, hvalue]
    · rfl

theorem eval_of_policyScalar (h : policyScalar e = some literal) :
    e.eval scope = some literal.toSql := by
  cases e with
  | value v =>
    cases v <;> simp only [policyScalar, some.injEq, reduceCtorEq] at h <;> subst h
    case number n => rw [toSql_policyNumber]; rfl
    all_goals rfl
  | identifier | compoundIdentifier | nested | function | unaryOp | binaryOp | other =>
    simp [policyScalar] at h

/-- The sides of a comparison, whichever way round it is written. -/
def Sides (l r column operand : SqlExpr) : Prop :=
  l = column ∧ r = operand ∨ l = operand ∧ r = column

theorem truth_binaryOp {l r : SqlExpr} {op : BinaryOperator}
    (hop : predicateOperator op = .ok operator) {column operand : SqlExpr}
    (hsides : Sides l r column operand) :
    (binaryOp l op r).truth scope =
      (column.eval scope).bind fun v => (operand.eval scope).bind fun w =>
        operator.apply v w := by
  have hboth : (binaryOp l op r).truth scope =
      (l.eval scope).bind fun v => (r.eval scope).bind fun w => operator.apply v w := by
    cases op <;> simp only [predicateOperator, Except.ok.injEq, reduceCtorEq] at hop <;>
      subst hop
    · rfl
    · simp only [truth, PredicateOperator.apply]
      cases l.eval scope <;> cases r.eval scope <;> simp [map_eq_bind]
  rw [hboth]
  rcases hsides with ⟨rfl, rfl⟩ | ⟨rfl, rfl⟩
  · rfl
  · cases operator <;> cases l.eval scope <;> cases r.eval scope <;>
      simp [PredicateOperator.apply, SqlValue.eq_comm]

end Sides

/-! ### What the compiler takes a comparison for -/

/-- Each side is tried as the column. -/
theorem sides_of_orElse {α : Type} {l r : SqlExpr} {side : SqlExpr → SqlExpr → Option α} {a : α}
    (h : (side l r <|> side r l) = some a) :
    ∃ column operand, Sides l r column operand ∧ side column operand = some a := by
  rw [orElse_eq_orElse, orElse_eq_or, or_eq_some_iff] at h
  rcases h with hl | ⟨-, hr⟩
  · exact ⟨l, r, .inl ⟨rfl, rfl⟩, hl⟩
  · exact ⟨r, l, .inr ⟨rfl, rfl⟩, hr⟩

theorem principalEquality_eq_some (h : principalEquality qualifier e = some name) :
    ∃ l r column operand owner, e = .binaryOp l .eq r ∧ Sides l r column operand ∧
      columnName column = some (owner, name) ∧
      owner.all (eqIgnoreAsciiCase · qualifier) = true ∧ isCurrentUser operand = true := by
  unfold principalEquality at h
  split at h
  · rename_i l r
    obtain ⟨column, operand, hsides, hside⟩ := sides_of_orElse h
    revert hside
    fun_cases principalSide qualifier column operand <;> rintro ⟨⟩
    next owner hcond hname =>
    exact ⟨l, r, column, operand, owner, rfl, hsides, hname, Bool.and_eq_true_iff.mp hcond⟩
  · cases h

theorem correlationEquality_eq_some {protectedQualifier : String} {names : String × String}
    (h : correlationEquality qualifier protectedQualifier e = some names) :
    ∃ l r column operand owner protectedOwner, e = .binaryOp l .eq r ∧
      Sides l r column operand ∧ columnName column = some (some owner, names.1) ∧
      columnName operand = some (some protectedOwner, names.2) ∧
      eqIgnoreAsciiCase owner qualifier = true ∧
      eqIgnoreAsciiCase protectedOwner protectedQualifier = true := by
  unfold correlationEquality at h
  split at h
  · rename_i l r
    obtain ⟨column, operand, hsides, hside⟩ := sides_of_orElse h
    revert hside
    fun_cases correlationSide qualifier protectedQualifier column operand <;> rintro ⟨⟩
    next owner _ protectedOwner _ hprotected hname hcond =>
    exact ⟨l, r, column, operand, owner, protectedOwner, rfl, hsides, hname, hprotected,
      Bool.and_eq_true_iff.mp hcond⟩
  · cases h

theorem compileStaticPredicate_ok {table : CatalogTable} {predicate : ScalarPredicate}
    (h : compileStaticPredicate table qualifier e = .ok predicate) :
    ∃ l op r column operand owner name, e = .binaryOp l op r ∧ Sides l r column operand ∧
      predicateOperator op = .ok predicate.operator ∧
      columnName column = some (owner, name) ∧
      owner.all (eqIgnoreAsciiCase · qualifier) = true ∧
      policyScalar operand = some predicate.value ∧
      resolveColumnId table name = .ok predicate.columnId := by
  have hread : ∃ l op r operator column operand, e = .binaryOp l op r ∧
      predicateOperator op = .ok operator ∧ Sides l r column operand ∧
      staticSide table qualifier operator column operand = .ok (some predicate) := by
    revert h
    fun_cases compileStaticPredicate table qualifier e <;> rintro ⟨⟩
    · next l op r operator hop hl =>
      exact ⟨l, op, r, operator, l, r, rfl, hop, .inl ⟨rfl, rfl⟩, hl⟩
    · next l op r operator hop _ hr =>
      exact ⟨l, op, r, operator, r, l, rfl, hop, .inr ⟨rfl, rfl⟩, hr⟩
  obtain ⟨l, op, r, operator, column, operand, rfl, hop, hsides, hside⟩ := hread
  revert hside
  fun_cases staticSide table qualifier operator column operand <;> rintro ⟨⟩
  next owner name hname howner value hvalue columnId hid =>
  refine ⟨l, op, r, column, operand, owner, name, rfl, hsides, hop, hname, ?_, hvalue, hid⟩
  unfold ensureRelationColumn at howner
  split_ifs at howner with hall
  exact hall

end KalamDB.Rls
