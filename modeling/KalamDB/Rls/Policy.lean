import Mathlib.Data.Int.Notation
import KalamDB.Sql.Planning

/-!
# Row-level security: policies and their compiler

A policy is written as an SQL expression over the protected table and is compiled to a
**program** that no longer depends on the user: a row-local comparison, or an
*authorization relation*, which names the relation table, its principal column, the pair of
key columns and the literal predicates its rows must satisfy.

The compiler works on the parsed expression. Of the parser's tree only what the compiler
inspects is kept: identifiers without their quotes, literals, calls by name and number of
arguments, and for a subquery the clauses it refuses. A subquery inside a subquery is never
accepted, so the inner expressions have none. One thing the compiler passes over is kept for
the meaning of the policy: whether a projection aggregates.

`compileExists` and `compileRelationPredicates` walk the conjuncts of the `WHERE` clause. The
second rejects a repeated `CURRENT_USER` predicate; the first keeps **the last one it meets**,
and likewise the last key correlation.
-/

namespace KalamDB.Rls

open List

/-! ### Parsed expressions -/

/-- An unsigned number as written: its digits as one natural number and, unless it is a plain
integer, the power of ten that places the decimal point. -/
structure NumberLiteral where
  mantissa : ℕ
  exponent : Option ℤ
  deriving DecidableEq

inductive Value where
  | boolean (v : Bool)
  | null
  | singleQuotedString (v : String)
  | doubleQuotedString (v : String)
  | number (v : NumberLiteral)
  | other
  deriving DecidableEq

inductive BinaryOperator where
  | and
  | or
  | eq
  | notEq
  | other
  deriving DecidableEq

inductive SqlExpr where
  | identifier (name : String)
  | compoundIdentifier (names : List String)
  | nested (e : SqlExpr)
  | value (v : Value)
  | function (name : String) (arguments : ℕ)
  | unaryOp (e : SqlExpr)
  | binaryOp (left : SqlExpr) (op : BinaryOperator) (right : SqlExpr)
  | other
  deriving DecidableEq

inductive SelectItem where
  | unnamedExpr (e : SqlExpr)
  | exprWithAlias (e : SqlExpr)
  | wildcard
  deriving DecidableEq

/-- An object name is a list of identifiers; a part that is no identifier is `none`. -/
inductive TableFactor where
  | table (name : List (Option String)) (tableAlias : Option String) (arguments : Bool)
  | other
  deriving DecidableEq

structure TableWithJoins where
  relation : TableFactor
  joins : Bool
  deriving DecidableEq

/-- A `SELECT`. The compiler does not look at `aggregates`, which says that the projection calls
an aggregate function. -/
structure Select where
  distinct : Bool
  projection : List SelectItem
  aggregates : Bool
  fromTables : List TableWithJoins
  groupBy : Bool
  having : Bool
  namedWindow : Bool
  qualify : Bool
  selection : Option SqlExpr
  deriving DecidableEq

/-- A query; `body` is `none` for anything but a plain `SELECT`. -/
structure Query where
  ctes : Bool
  orderBy : Bool
  limitClause : Bool
  fetch : Bool
  locks : Bool
  forClause : Bool
  body : Option Select
  deriving DecidableEq

/-- A policy expression, by the shapes the compiler tells apart at the top. -/
inductive PolicyExpr where
  | inSubquery (e : SqlExpr) (subquery : Query) (negated : Bool)
  | exists (subquery : Query) (negated : Bool)
  | expr (e : SqlExpr)
  deriving DecidableEq

/-! ### Compiled programs -/

/-- A literal of a compiled policy. A number that is no 64-bit integer is kept as written. -/
inductive PolicyScalar where
  | null
  | boolean (v : Bool)
  | int64 (v : Int64)
  | uint64 (v : UInt64)
  | float64 (v : NumberLiteral)
  | string (v : String)
  deriving DecidableEq

inductive PrincipalExpr where
  | currentUser
  deriving DecidableEq

inductive PredicateOperator where
  | eq
  | notEq
  deriving DecidableEq

structure ScalarPredicate where
  columnId : ℕ
  operator : PredicateOperator
  value : PolicyScalar
  deriving DecidableEq

inductive BoundExprShape where
  | literal (v : Bool)
  | columnEqualsPrincipal (columnId : ℕ) (principal : PrincipalExpr)
  | columnEqualsScalar (columnId : ℕ) (value : PolicyScalar)
  | and (shapes : List BoundExprShape)
  | or (shapes : List BoundExprShape)
  | not (shape : BoundExprShape)

structure AuthorizationRelation where
  protectedTable : TableId
  protectedKeys : List ℕ
  relationTable : TableId
  relationKeys : List ℕ
  principalColumn : ℕ
  principal : PrincipalExpr
  staticPredicates : List ScalarPredicate
  deriving DecidableEq

inductive PolicyProgram where
  | rowLocal (expr : BoundExprShape)
  | authorizationRelation (relation : AuthorizationRelation)

/-! ### Tables of the catalog -/

/-- A table as the catalog knows it. Column ids are never reused within a table. -/
structure CatalogTable where
  namespaceId : String
  tableName : String
  isShared : Bool
  definition : TableDefinition
  ids_nodup : (definition.columns.map ColumnDefinition.columnId).Nodup

def CatalogTable.tableId (t : CatalogTable) : TableId := (t.namespaceId, t.tableName)

theorem CatalogTable.find?_columnId (t : CatalogTable) {c : ColumnDefinition}
    (hc : c ∈ t.definition.columns) :
    (t.definition.columns.find? fun c' => c'.columnId == c.columnId) = some c := by
  obtain ⟨c', hc'⟩ : ∃ c', (t.definition.columns.find? fun c' => c'.columnId == c.columnId) =
      some c' := Option.isSome_iff_exists.mp (find?_isSome.mpr ⟨c, hc, by simp⟩)
  have hid : c'.columnId = c.columnId := by simpa using find?_some hc'
  rw [hc', inj_on_of_nodup_map t.ids_nodup (mem_of_find?_eq_some hc') hc hid]

/-- The column an identifier means; case does not matter. -/
def CatalogTable.findColumn (t : CatalogTable) (name : String) : Option ColumnDefinition :=
  t.definition.columns.find? fun c => eqIgnoreAsciiCase c.columnName name

def resolveColumnId (t : CatalogTable) (name : String) : Except String ℕ :=
  match t.findColumn name with
  | some c => .ok c.columnId
  | none => .error ("column '" ++ name ++ "' does not exist on " ++ t.tableName)

/-- The catalog as the compiler sees it: validation of names and lookup of tables. -/
structure PolicyCompiler where
  parseNamespace : String → Except String String
  parseTableName : String → Except String String
  resolveTable : TableId → Except String CatalogTable
  tableId_of_resolveTable : ∀ {t table}, resolveTable t = .ok table → table.tableId = t

/-! ### Pieces of expressions -/

/-- A column reference: an optional qualifier and a name. -/
def columnName : SqlExpr → Option (Option String × String)
  | .identifier name => some (none, name)
  | .compoundIdentifier [qualifier, name] => some (some qualifier, name)
  | .nested e => columnName e
  | _ => none

def ensureRelationColumn (qualifier : Option String) (expected : String) : Except String Unit :=
  if qualifier.all (eqIgnoreAsciiCase · expected) then .ok ()
  else .error "authorization projection must come from its relation"

def isCurrentUser : SqlExpr → Bool
  | .identifier name => eqIgnoreAsciiCase name "CURRENT_USER"
  | .function name arguments => eqIgnoreAsciiCase name "CURRENT_USER" && arguments == 0
  | _ => false

/-- The conjuncts of a predicate, from left to right. -/
def flattenAnd : SqlExpr → List SqlExpr
  | .nested e => flattenAnd e
  | .binaryOp left .and right => flattenAnd left ++ flattenAnd right
  | e => [e]

/-- An integer literal is signed if it fits, else unsigned if that fits, else a float. -/
def policyNumber (n : NumberLiteral) : PolicyScalar :=
  match n.exponent with
  | none =>
    if n.mantissa < 2 ^ 63 then .int64 (Int64.ofNat n.mantissa)
    else if n.mantissa < 2 ^ 64 then .uint64 (UInt64.ofNat n.mantissa)
    else .float64 n
  | some _ => .float64 n

def policyScalar : SqlExpr → Option PolicyScalar
  | .value (.boolean v) => some (.boolean v)
  | .value .null => some .null
  | .value (.singleQuotedString v) | .value (.doubleQuotedString v) => some (.string v)
  | .value (.number v) => some (policyNumber v)
  | _ => none

/-- One orientation of `column = CURRENT_USER`. -/
def principalSide (qualifier : String) (column principal : SqlExpr) : Option String :=
  match columnName column with
  | some (owner, name) =>
    if owner.all (eqIgnoreAsciiCase · qualifier) && isCurrentUser principal then some name
    else none
  | none => none

/-- The column that a predicate equates with the current user, in either orientation. -/
def principalEquality (qualifier : String) : SqlExpr → Option String
  | .binaryOp left .eq right =>
    principalSide qualifier left right <|> principalSide qualifier right left
  | _ => none

/-- One orientation of `relation.column = protected.column`. -/
def correlationSide (relationQualifier protectedQualifier : String)
    (relation «protected» : SqlExpr) : Option (String × String) :=
  match columnName relation, columnName «protected» with
  | some (some relationOwner, relationColumn), some (some protectedOwner, protectedColumn) =>
    if eqIgnoreAsciiCase relationOwner relationQualifier &&
        eqIgnoreAsciiCase protectedOwner protectedQualifier then
      some (relationColumn, protectedColumn)
    else none
  | _, _ => none

/-- The two columns that a predicate correlates, in either orientation. -/
def correlationEquality (relationQualifier protectedQualifier : String) :
    SqlExpr → Option (String × String)
  | .binaryOp left .eq right =>
    correlationSide relationQualifier protectedQualifier left right <|>
      correlationSide relationQualifier protectedQualifier right left
  | _ => none

variable (table : CatalogTable)

/-- One orientation of a comparison with a literal. A column of another table is an error, a
side that is no column or no literal is passed over. -/
def staticSide (qualifier : String) (operator : PredicateOperator)
    (column literal : SqlExpr) : Except String (Option ScalarPredicate) :=
  match columnName column with
  | none => .ok none
  | some (owner, name) =>
    match ensureRelationColumn owner qualifier with
    | .error e => .error e
    | .ok () =>
      match policyScalar literal with
      | none => .ok none
      | some value =>
        match resolveColumnId table name with
        | .error e => .error e
        | .ok columnId => .ok (some ⟨columnId, operator, value⟩)

def predicateOperator : BinaryOperator → Except String PredicateOperator
  | .eq => .ok .eq
  | .notEq => .ok .notEq
  | _ => .error "authorization relation predicate operator is not supported"

/-- A comparison of a relation column with a literal, in either orientation. -/
def compileStaticPredicate (qualifier : String) :
    SqlExpr → Except String ScalarPredicate
  | .binaryOp left op right =>
    match predicateOperator op with
    | .error e => .error e
    | .ok operator =>
      match staticSide table qualifier operator left right with
      | .error e => .error e
      | .ok (some predicate) => .ok predicate
      | .ok none =>
        match staticSide table qualifier operator right left with
        | .error e => .error e
        | .ok (some predicate) => .ok predicate
        | .ok none =>
          .error "authorization relation predicate must compare a relation column to a literal"
  | _ => .error "authorization relation predicate must be scalar equality"

/-! ### Conjuncts of an authorization relation -/

/-- What a conjunct is taken for. -/
inductive Conjunct where
  | principal (column : ℕ)
  | correlation (relationKey protectedKey : ℕ)
  | static (predicate : ScalarPredicate)
  deriving DecidableEq

/-- The columns collected so far. -/
structure RelationParts where
  principalColumn : Option ℕ
  keyPair : Option (ℕ × ℕ)
  staticPredicates : List ScalarPredicate

def RelationParts.empty : RelationParts := ⟨none, none, []⟩

/-- Enter a conjunct: a principal column or a key pair **replaces** the one before it. -/
def RelationParts.add (parts : RelationParts) : Conjunct → RelationParts
  | .principal column => { parts with principalColumn := some column }
  | .correlation relationKey protectedKey =>
    { parts with keyPair := some (relationKey, protectedKey) }
  | .static predicate =>
    { parts with staticPredicates := parts.staticPredicates ++ [predicate] }

variable (relationTable : CatalogTable)

/-- How the `EXISTS` compiler reads a conjunct: as a principal predicate if it can, then as a
key correlation, and otherwise as a comparison with a literal. -/
def existsConjunct (qualifier : String)
    (protectedTable : CatalogTable) (predicate : SqlExpr) : Except String Conjunct :=
  match principalEquality qualifier predicate with
  | some column =>
    match resolveColumnId relationTable column with
    | .error e => .error e
    | .ok id => .ok (.principal id)
  | none =>
    match correlationEquality qualifier protectedTable.tableName predicate with
    | some (relationColumn, protectedColumn) =>
      match resolveColumnId relationTable relationColumn with
      | .error e => .error e
      | .ok relationKey =>
        match resolveColumnId protectedTable protectedColumn with
        | .error e => .error e
        | .ok protectedKey => .ok (.correlation relationKey protectedKey)
    | none =>
      match compileStaticPredicate relationTable qualifier predicate with
      | .error e => .error e
      | .ok static => .ok (.static static)

/-- The loop of the `EXISTS` compiler. -/
def compileExistsPredicates (relationTable : CatalogTable) (qualifier : String)
    (protectedTable : CatalogTable) : RelationParts → List SqlExpr → Except String RelationParts
  | parts, [] => .ok parts
  | parts, predicate :: rest =>
    match existsConjunct relationTable qualifier protectedTable predicate with
    | .error e => .error e
    | .ok conjunct =>
      compileExistsPredicates relationTable qualifier protectedTable (parts.add conjunct) rest

/-- How the `IN` compiler reads a conjunct; the key pair is outside the `WHERE` clause. -/
def inConjunct (qualifier : String) (predicate : SqlExpr) :
    Except String Conjunct :=
  match principalEquality qualifier predicate with
  | some column =>
    match resolveColumnId relationTable column with
    | .error e => .error e
    | .ok id => .ok (.principal id)
  | none =>
    match compileStaticPredicate relationTable qualifier predicate with
    | .error e => .error e
    | .ok static => .ok (.static static)

/-- The loop of the `IN` compiler, which accepts one principal predicate only. -/
def compileRelationPredicates (relationTable : CatalogTable) (qualifier : String) :
    RelationParts → List SqlExpr → Except String RelationParts
  | parts, [] => .ok parts
  | parts, predicate :: rest =>
    if (principalEquality qualifier predicate).isSome && parts.principalColumn.isSome then
      .error "authorization relation has multiple principal predicates"
    else
      match inConjunct relationTable qualifier predicate with
      | .error e => .error e
      | .ok conjunct =>
        compileRelationPredicates relationTable qualifier (parts.add conjunct) rest

/-! ### The compiler -/

namespace PolicyCompiler

variable (compiler : PolicyCompiler) (protectedTable : CatalogTable)

def objectNameToTableId (name : List (Option String)) : Except String TableId :=
  if name.all Option.isSome then
    match name.filterMap id with
    | [table] => do return (protectedTable.namespaceId, ← compiler.parseTableName table)
    | [namespaceId, table] => do
      return (← compiler.parseNamespace namespaceId, ← compiler.parseTableName table)
    | _ => .error "authorization table must be <table> or <namespace>.<table>"
  else .error "authorization table must contain identifiers"

/-- The single `SELECT` over a single table that a membership subquery must be, with the table
it reads and the name under which its columns are known. -/
def authorizationSelect (query : Query) : Except String (Select × TableId × String) :=
  if query.ctes || query.orderBy || query.limitClause || query.fetch || query.locks ||
      query.forClause then
    .error "authorization relation cannot use CTE, ordering, limits, or locks"
  else
    match query.body with
    | none => .error "authorization relation must be a single SELECT"
    | some select =>
      if select.distinct || select.groupBy || select.having || select.namedWindow ||
          select.qualify then
        .error "authorization relation cannot use joins, grouping, windows, or DISTINCT"
      else
        match select.fromTables with
        | [⟨factor, false⟩] =>
          match factor with
          | .table name tableAlias false => do
            let relationTableId ← compiler.objectNameToTableId protectedTable name
            if relationTableId = protectedTable.tableId then
              .error "RLS policy cannot reference its protected table"
            else return (select, relationTableId, tableAlias.getD relationTableId.2)
          | _ => .error "authorization relation must read one table"
        | _ => .error "authorization relation cannot use joins, grouping, windows, or DISTINCT"

def ensureSharedRelation : Except String Unit :=
  if table.isShared then .ok ()
  else .error ("authorization relation " ++ table.tableName ++ " must be a shared table")

/-- The program of an authorization relation, once its columns are known. -/
def relationProgram (relationTableId : TableId) (parts : RelationParts) (missingKey : String) :
    Except String PolicyProgram :=
  match parts.principalColumn with
  | none => .error "authorization relation must restrict CURRENT_USER"
  | some principalColumn =>
    match parts.keyPair with
    | none => .error missingKey
    | some (relationKey, protectedKey) =>
      .ok (.authorizationRelation
        { protectedTable := protectedTable.tableId
          protectedKeys := [protectedKey]
          relationTable := relationTableId
          relationKeys := [relationKey]
          principalColumn := principalColumn
          principal := .currentUser
          staticPredicates := parts.staticPredicates })

/-- `column IN (SELECT key FROM relation WHERE ..)`. The qualifier of the protected column is
not looked at. -/
def compileInSubquery (protectedExpr : SqlExpr) (query : Query) : Except String PolicyProgram := do
  let some (_, protectedColumn) := columnName protectedExpr
    | .error "membership key must be a protected-table column"
  let protectedKey ← resolveColumnId protectedTable protectedColumn
  let (select, relationTableId, qualifier) ← compiler.authorizationSelect protectedTable query
  let [.unnamedExpr projection] := select.projection
    | .error "authorization relation must project exactly one column"
  let some (owner, projected) := columnName projection
    | .error "authorization relation must project one column"
  ensureRelationColumn owner qualifier
  let relationTable ← compiler.resolveTable relationTableId
  ensureSharedRelation relationTable
  let relationKey ← resolveColumnId relationTable projected
  let some selection := select.selection
    | .error "authorization relation must restrict CURRENT_USER"
  let parts ← compileRelationPredicates relationTable qualifier
    (RelationParts.empty.add (.correlation relationKey protectedKey)) (flattenAnd selection)
  relationProgram protectedTable relationTableId parts ""

/-- `EXISTS (SELECT .. FROM relation WHERE ..)`. -/
def compileExists (query : Query) : Except String PolicyProgram := do
  let (select, relationTableId, qualifier) ← compiler.authorizationSelect protectedTable query
  let [_] := select.projection
    | .error "EXISTS authorization relation must have one projection"
  let relationTable ← compiler.resolveTable relationTableId
  ensureSharedRelation relationTable
  let some selection := select.selection
    | .error "authorization relation must correlate a key"
  let parts ← compileExistsPredicates relationTable qualifier protectedTable
    RelationParts.empty (flattenAnd selection)
  relationProgram protectedTable relationTableId parts
    "EXISTS authorization relation must correlate one key"

end PolicyCompiler

/-- One orientation of a row-local equality. -/
def rowEqualitySide (column value : SqlExpr) :
    Except String (Option BoundExprShape) :=
  match columnName column with
  | none => .ok none
  | some (owner, name) =>
    if owner.all (eqIgnoreAsciiCase · table.tableName) then
      match resolveColumnId table name with
      | .error e => .error e
      | .ok columnId =>
        if isCurrentUser value then .ok (some (.columnEqualsPrincipal columnId .currentUser))
        else .ok ((policyScalar value).map (.columnEqualsScalar columnId))
    else .error "row-local policy cannot reference another table"

def compileRowEquality (left right : SqlExpr) :
    Except String BoundExprShape :=
  match rowEqualitySide table left right with
  | .error e => .error e
  | .ok (some shape) => .ok shape
  | .ok none =>
    match rowEqualitySide table right left with
    | .error e => .error e
    | .ok (some shape) => .ok shape
    | .ok none =>
      .error "row-local equality must compare a protected column to CURRENT_USER or a literal"

def compileRowLocal (table : CatalogTable) : SqlExpr → Except String BoundExprShape
  | .nested e => compileRowLocal table e
  | .value (.boolean v) => .ok (.literal v)
  | .value _ => .error "row-local policy must evaluate to boolean"
  | .unaryOp _ | .binaryOp _ .and _ | .binaryOp _ .or _ =>
    .error ("row-local NOT, AND, and OR policies are disabled because they cannot guarantee " ++
      "bounded indexed live routing")
  | .binaryOp left .eq right => compileRowEquality table left right
  | _ => .error "policy expression is not a supported row-local or membership shape"

/-- **The policy compiler**, after parsing. -/
def PolicyCompiler.compile (compiler : PolicyCompiler) (protectedTable : CatalogTable) :
    PolicyExpr → Except String PolicyProgram
  | .inSubquery e subquery false => compiler.compileInSubquery protectedTable e subquery
  | .exists subquery false => compiler.compileExists protectedTable subquery
  | .inSubquery _ _ true | .exists _ true =>
    .error "negated authorization relations are not supported"
  | .expr e => (compileRowLocal protectedTable e).map .rowLocal

end KalamDB.Rls
