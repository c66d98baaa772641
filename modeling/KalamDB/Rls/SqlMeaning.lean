import Mathlib.Algebra.Order.Field.Rat
import KalamDB.Rls.Evaluate

/-!
# Row-level security: what a policy says in SQL

The meaning of a policy expression, stated from SQL and not from the compiler. Expressions are
evaluated in a **scope**, the tables whose columns are visible with their current rows, the
innermost first. Comparisons are three-valued: unknown when a side is null. What is not an SQL
expression has no value (`none`): a column that no visible table has, or a comparison between
a number, a text and a boolean. Values of different kinds are never cast into one another.

`x IN (SELECT k FROM t WHERE p)` is true when for some row of `t` both `p` and `x = k` are
true, and `EXISTS (SELECT .. FROM t WHERE p)` when `p` is true for some row, or when the
subquery aggregates, since it then has a row in any case. A column name inside the subquery
means a column of `t` before it means one of the protected table.
-/

namespace KalamDB.Rls

/-! ### Values -/

inductive SqlValue where
  | null
  | boolean (v : Bool)
  | number (v : ℚ)
  | text (v : String)
  deriving DecidableEq

/-- The SQL value of a cell; other column types are left out. -/
def scalarToSql : ScalarValue → Option SqlValue
  | .null => some .null
  | .boolean v => some (.boolean v)
  | .int8 v => some (.number v.toInt)
  | .int16 v => some (.number v.toInt)
  | .int32 v => some (.number v.toInt)
  | .int64 v => some (.number v.toInt)
  | .uint8 v => some (.number v.toNat)
  | .uint16 v => some (.number v.toNat)
  | .uint32 v => some (.number v.toNat)
  | .uint64 v => some (.number v.toNat)
  | .utf8 v | .largeUtf8 v | .utf8View v => some (.text v)
  | .binary _ | .fixedSizeBinary16 _ | .temporal _ _ | .other _ => none

/-- The number a literal denotes. -/
def NumberLiteral.value (n : NumberLiteral) : ℚ := n.mantissa * 10 ^ (n.exponent.getD 0)

def Value.toSql : Value → Option SqlValue
  | .boolean v => some (.boolean v)
  | .null => some .null
  | .singleQuotedString v | .doubleQuotedString v => some (.text v)
  | .number v => some (.number v.value)
  | .other => none

namespace SqlTruth

def ofBool (b : Bool) : SqlTruth := if b then .true else .false

def and : SqlTruth → SqlTruth → SqlTruth
  | .false, _ | _, .false => .false
  | .true, .true => .true
  | _, _ => .unknown

def or (a b : SqlTruth) : SqlTruth := (a.not.and b.not).not

end SqlTruth

/-- Equality of two values; there is none between values of different kinds. -/
def SqlValue.eq : SqlValue → SqlValue → Option SqlTruth
  | .null, _ | _, .null => some .unknown
  | .boolean v, .boolean w => some (.ofBool (v == w))
  | .number v, .number w => some (.ofBool (v == w))
  | .text v, .text w => some (.ofBool (v == w))
  | _, _ => none

/-! ### Scopes and expressions -/

/-- A visible table: the name its columns are qualified with, and its current row. -/
structure ScopeTable where
  qualifier : String
  table : CatalogTable
  row : Row

structure Scope where
  principal : String
  tables : List ScopeTable

/-- A cell by the name of its column; a cell that the row does not store is null. -/
def ScopeTable.cell (s : ScopeTable) (name : String) : Option SqlValue :=
  (s.table.findColumn name).bind fun c => scalarToSql ((s.row.get c.columnName).getD .null)

/-- A column reference, resolved from the inside. -/
def Scope.column (scope : Scope) (qualifier : Option String) (name : String) :
    Option SqlValue :=
  (scope.tables.find? fun s =>
    match qualifier with
    | none => (s.table.findColumn name).isSome
    | some q => eqIgnoreAsciiCase s.qualifier q).bind (·.cell name)

namespace SqlExpr

/-- The value of an expression. Calls of other functions than `CURRENT_USER` do not occur. -/
def eval (scope : Scope) : SqlExpr → Option SqlValue
  | .identifier name => scope.column none name
  | .compoundIdentifier [qualifier, name] => scope.column (some qualifier) name
  | .nested e => e.eval scope
  | .value v => v.toSql
  | .function name 0 =>
    if eqIgnoreAsciiCase name "CURRENT_USER" then some (.text scope.principal) else none
  | _ => none

/-- The truth value of a predicate. -/
def truth (scope : Scope) : SqlExpr → Option SqlTruth
  | .nested e => e.truth scope
  | .binaryOp l .and r => do return (← l.truth scope).and (← r.truth scope)
  | .binaryOp l .or r => do return (← l.truth scope).or (← r.truth scope)
  | .binaryOp l .eq r => do (← l.eval scope).eq (← r.eval scope)
  | .binaryOp l .notEq r => do return (← (← l.eval scope).eq (← r.eval scope)).not
  | e =>
    match e.eval scope with
    | some (.boolean v) => some (.ofBool v)
    | some .null => some .unknown
    | _ => none

end SqlExpr

/-! ### Policies -/

/-- The rows of every table. -/
abbrev Database : Type := TableId → List Row

/-- The `SELECT` of a query that has no further clauses. -/
def Query.plainSelect (query : Query) : Option Select :=
  if query.ctes || query.orderBy || query.limitClause || query.fetch || query.locks ||
      query.forClause then none
  else query.body.filter fun select =>
    !(select.distinct || select.groupBy || select.having || select.namedWindow || select.qualify)

section Policies

variable (compiler : PolicyCompiler) (protectedTable : CatalogTable)

/-- The table a plain subquery reads, and the name of its columns' qualifier there. -/
def Select.source (select : Select) : Option (CatalogTable × String) :=
  match select.fromTables with
  | [⟨.table name tableAlias false, false⟩] => do
    let t ← (compiler.objectNameToTableId protectedTable name).toOption
    let table ← (compiler.resolveTable t).toOption
    return (table, tableAlias.getD table.tableName)
  | _ => none

/-- The scope of a policy: the protected table. -/
def outerScope (principal : String) (row : Row) : Scope :=
  ⟨principal, [⟨protectedTable.tableName, protectedTable, row⟩]⟩

/-- The scope inside its subquery. -/
def innerScope (table : CatalogTable) (qualifier : String) (principal : String)
    (row relationRow : Row) : Scope :=
  ⟨principal, [⟨qualifier, table, relationRow⟩,
    ⟨protectedTable.tableName, protectedTable, row⟩]⟩

/-- The subquery's condition, true when there is none. -/
def Select.admits (select : Select) (scope : Scope) : Prop :=
  ∀ selection, select.selection = some selection → selection.truth scope = some .true

/-- `e = projection`, with `e` outside and the projection inside the subquery. -/
def memberTruth (outer inner : Scope) (e projection : SqlExpr) : Option SqlTruth := do
  (← e.eval outer).eq (← projection.eval inner)

/-- **The policy expression is true** for a principal and a row of the protected table. -/
def PolicyExpr.IsTrue (principal : String) (row : Row) (db : Database) : PolicyExpr → Prop
  | .expr e => e.truth (outerScope protectedTable principal row) = some .true
  | .exists query negated =>
    ∃ select table qualifier, query.plainSelect = some select ∧
      select.source compiler protectedTable = some (table, qualifier) ∧
      ((select.aggregates = true ∨ ∃ r ∈ db table.tableId,
        select.admits (innerScope protectedTable table qualifier principal row r)) ↔
          negated = false)
  | .inSubquery e query negated =>
    ∃ select table qualifier projection, query.plainSelect = some select ∧
      select.source compiler protectedTable = some (table, qualifier) ∧
      select.projection = [.unnamedExpr projection] ∧
      if negated then
        ∀ r ∈ db table.tableId,
          select.admits (innerScope protectedTable table qualifier principal row r) →
          memberTruth (outerScope protectedTable principal row)
            (innerScope protectedTable table qualifier principal row r) e projection =
            some .false
      else
        ∃ r ∈ db table.tableId,
          select.admits (innerScope protectedTable table qualifier principal row r) ∧
          memberTruth (outerScope protectedTable principal row)
            (innerScope protectedTable table qualifier principal row r) e projection =
            some .true

end Policies

end KalamDB.Rls
