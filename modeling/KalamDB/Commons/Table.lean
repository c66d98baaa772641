import Mathlib.Data.List.Nodup
import KalamDB.Commons.Scalar

/-!
# Table definitions and `CREATE TABLE`

Column and table definitions, the checks `CREATE TABLE` makes on them, and the definition it
builds: the user's columns in statement order, then `_version` and `_deleted`, and last, for
a table without a primary key, the **synthesized key** `_row_id`.

`createTable` is the statement's path through the parser and the table builder. What it
returns is a `TableDefinition`, a structure that carries the facts every later stage relies
on: column names are distinct and some column is the primary key.
-/

namespace KalamDB

open List KeyedList

/-! ### Column types -/

/-- The column types of the dialect. -/
inductive KalamDataType where
  | boolean
  | int
  | bigInt
  | double
  | float
  | text
  | timestamp
  | date
  | dateTime
  | time
  | json
  | bytes
  | embedding (dimension : UInt16)
  | uuid
  | decimal (precision scale : UInt8)
  | smallInt
  | file
  deriving DecidableEq

/-- Types whose equality a Bloom filter can answer; embeddings, JSON, bytes, files and
floating-point columns are skipped. -/
def KalamDataType.supportsEqualityBloom : KalamDataType → Bool
  | .boolean | .int | .bigInt | .smallInt | .text | .uuid | .date | .timestamp | .dateTime
  | .time | .decimal _ _ => true
  | .double | .float | .json | .bytes | .embedding _ | .file => false

/-! ### System columns and identifier rules -/

namespace SystemColumnNames

def DELETED : String := "_deleted"
def VERSION : String := "_version"
def TIMESTAMP : String := "_timestamp"
def SEQ : String := "_seq"
def COMMIT_SEQ : String := "_commit_seq"
def ROW_ID : String := "_row_id"

/-- The names the storage layer keeps for itself. -/
def isSystemColumn (name : String) : Bool :=
  name ∈ [DELETED, VERSION, TIMESTAMP, SEQ, COMMIT_SEQ, ROW_ID]

end SystemColumnNames

/-- Column names no `CREATE TABLE` may use, compared without case. -/
def RESERVED_COLUMN_NAMES : List String :=
  ["_seq", "_deleted", "_id", "_row_id", "_rowid", "_key", "_updated", "_created",
    "_timestamp", "_version", "_hash"]

/-- Keywords that are never identifiers, compared without case. -/
def CRITICAL_RESERVED_SQL_KEYWORDS : List String :=
  ["TABLE", "TABLES", "TABLESPACE", "INDEX", "VIEW", "SCHEMA", "DATABASE", "INSERT", "UPDATE",
    "DELETE", "CREATE", "DROP", "ALTER"]

def MAX_SQL_IDENTIFIER_LENGTH : ℕ := 64

/-- ASCII lower-casing, under which column names are compared. -/
def asciiLower (s : String) : String := String.ofList (s.toList.map Char.toLower)

def eqIgnoreAsciiCase (a b : String) : Bool := asciiLower a == asciiLower b

/-- Why a name was rejected. -/
inductive ValidationError where
  | empty
  | tooLong (length : ℕ)
  | startsWithUnderscore
  | invalidCharacters (name : String)
  | reservedColumnName (name : String)
  | reservedSqlKeyword (name : String)
  | startsWithNumber
  | containsSpaces
  deriving DecidableEq

/-- Start of an unquoted identifier. Letters outside ASCII are covered by the last test. -/
def isPostgresqlIdentifierStart (c : Char) : Bool :=
  c.isAlpha || c == '_' || decide (128 ≤ c.toNat)

/-- Continuation of an unquoted identifier. -/
def isPostgresqlIdentifierPart (c : Char) : Bool :=
  c.isAlpha || c.isDigit || c == '$' || c == '_' || decide (128 ≤ c.toNat)

/-- The characters of a table or column name; a hyphen comes from a quoted identifier. -/
def sqlIdentifierCharactersOk (allowHyphen : Bool) (name : String) : Bool :=
  match name.toList with
  | [] => false
  | first :: rest =>
    isPostgresqlIdentifierStart first &&
      rest.all fun c => isPostgresqlIdentifierPart c || (allowHyphen && c == '-')

/-- The identifier rules, in the order they are checked. -/
def validateRelationIdentifier (name : String) : Except ValidationError Unit :=
  if name = "" then .error .empty
  else if name.utf8ByteSize > MAX_SQL_IDENTIFIER_LENGTH then .error (.tooLong name.utf8ByteSize)
  else if ' ' ∈ name.toList then .error .containsSpaces
  else if name.toList.head? = some '_' then .error .startsWithUnderscore
  else if (name.toList.head?.map Char.isDigit).getD false then .error .startsWithNumber
  else if !sqlIdentifierCharactersOk true name then .error (.invalidCharacters name)
  else if asciiLower name ∈ CRITICAL_RESERVED_SQL_KEYWORDS.map asciiLower then
    .error (.reservedSqlKeyword name)
  else .ok ()

/-- Reserved column names first, then the identifier rules. -/
def validateColumnName (name : String) : Except ValidationError Unit :=
  if asciiLower name ∈ RESERVED_COLUMN_NAMES then .error (.reservedColumnName name)
  else validateRelationIdentifier name

/-! ### Definitions -/

/-- A table by its namespace and its name. -/
abbrev TableId : Type := String × String

/-- A node of the cluster. -/
abbrev NodeId : Type := ℕ

/-- A column. Its ordinal position is its place in the table's list. -/
structure ColumnDefinition where
  columnId : ℕ
  columnName : String
  dataType : KalamDataType
  isPrimaryKey : Bool
  deriving DecidableEq

/-- A scalar index over columns named by id. -/
structure ScalarIndexDefinition where
  columns : List ℕ
  deriving DecidableEq

/-- A table: columns of distinct names, one of which is the primary key. -/
structure TableDefinition where
  columns : List ColumnDefinition
  nextColumnId : ℕ
  scalarIndexes : List ScalarIndexDefinition
  names_nodup : (columns.map ColumnDefinition.columnName).Nodup
  exists_primaryKey : ∃ c ∈ columns, c.isPrimaryKey = true

/-- The parsed statement: columns with their types and the declared primary key. -/
structure CreateTableStatement where
  fields : List (String × KalamDataType)
  primaryKeyColumn : Option String
  deriving DecidableEq

variable {stmt : CreateTableStatement}

/-- Why `CREATE TABLE` was rejected. -/
inductive CreateTableError where
  | invalidColumnName (name : String) (error : ValidationError)
  | duplicateColumnName (name : String)
  | noColumns
  | primaryKeyNotFound (pk : String)
  deriving DecidableEq

/-- The parser's loop over the columns: each name is valid and new up to case. -/
def checkColumnNames (seen : List String) :
    List (String × KalamDataType) → Except CreateTableError Unit
  | [] => .ok ()
  | (name, _) :: rest =>
    match validateColumnName name with
    | .error e => .error (.invalidColumnName name e)
    | .ok () =>
      if asciiLower name ∈ seen then .error (.duplicateColumnName name)
      else checkColumnNames (asciiLower name :: seen) rest

variable (stmt)

/-- The parser's checks on a statement. -/
def CreateTableStatement.check : Except CreateTableError Unit :=
  match checkColumnNames [] stmt.fields with
  | .error e => .error e
  | .ok () =>
    if stmt.fields = [] then .error .noColumns
    else
      match stmt.primaryKeyColumn with
      | none => .ok ()
      | some pk =>
        if pk ∈ stmt.fields.map Prod.fst then .ok () else .error (.primaryKeyNotFound pk)

/-- The user's columns, numbered from one. -/
def CreateTableStatement.userColumns : List ColumnDefinition :=
  stmt.fields.mapIdx fun idx field =>
    { columnId := idx + 1
      columnName := field.1
      dataType := field.2
      isPrimaryKey := stmt.primaryKeyColumn == some field.1 }

/-- `_version` and `_deleted` follow the user's columns. -/
def addSystemColumns (columns : List ColumnDefinition) (nextColumnId : ℕ) :
    List ColumnDefinition :=
  columns ++
    [{ columnId := nextColumnId, columnName := SystemColumnNames.VERSION,
       dataType := .bigInt, isPrimaryKey := false },
     { columnId := nextColumnId + 1, columnName := SystemColumnNames.DELETED,
       dataType := .boolean, isPrimaryKey := false }]

/-- A table without a primary key gets the stable row id as its last column. -/
def assignStableRowId (columns : List ColumnDefinition) (nextColumnId : ℕ) :
    List ColumnDefinition :=
  if columns.any ColumnDefinition.isPrimaryKey then columns
  else
    columns ++
      [{ columnId := nextColumnId, columnName := SystemColumnNames.ROW_ID,
         dataType := .bigInt, isPrimaryKey := true }]

/-- All columns of the table a statement creates. -/
def CreateTableStatement.allColumns : List ColumnDefinition :=
  assignStableRowId
    (addSystemColumns stmt.userColumns (stmt.fields.length + 1)) (stmt.fields.length + 3)

variable {stmt}

/-! ### What an accepted statement promises -/

/-- The parser's loop accepts only valid names that are distinct up to case. -/
theorem checkColumnNames_ok {fields : List (String × KalamDataType)} {seen : List String}
    (h : checkColumnNames seen fields = .ok ()) :
    (∀ f ∈ fields, validateColumnName f.1 = .ok ()) ∧
      (fields.map fun f => asciiLower f.1).Nodup ∧ ∀ f ∈ fields, asciiLower f.1 ∉ seen := by
  fun_induction checkColumnNames seen fields with
  | case1 => simp
  | case2 | case3 => cases h
  | case4 seen _ _ rest hvalid hseen ih =>
    obtain ⟨hall, hfresh⟩ := ih h
    exact ⟨forall_mem_cons.mpr ⟨hvalid, hall⟩, nodup_map_cons_and_iff.mpr ⟨hseen, hfresh⟩⟩

/-- The checks on an accepted statement, as the builder uses them. -/
theorem CreateTableStatement.check_ok (h : stmt.check = .ok ()) :
    (∀ f ∈ stmt.fields, validateColumnName f.1 = .ok ()) ∧
      (stmt.fields.map Prod.fst).Nodup ∧ stmt.fields ≠ [] ∧
      ∀ pk, stmt.primaryKeyColumn = some pk → pk ∈ stmt.fields.map Prod.fst := by
  unfold CreateTableStatement.check at h
  split at h
  · cases h
  rename_i hnames
  obtain ⟨hall, hnodup, -⟩ := checkColumnNames_ok hnames
  have hnodup' : (stmt.fields.map Prod.fst).Nodup := by
    refine List.Nodup.of_map asciiLower ?_
    rwa [map_map]
  split_ifs at h with hempty
  refine ⟨hall, hnodup', hempty, fun pk hpk => ?_⟩
  rw [hpk] at h
  dsimp only at h
  split_ifs at h with hmem
  exact hmem

theorem CreateTableStatement.userColumns_names (stmt : CreateTableStatement) :
    stmt.userColumns.map ColumnDefinition.columnName = stmt.fields.map Prod.fst := by
  refine ext_getElem (by simp [userColumns]) fun i hi hi' => ?_
  simp [userColumns]

/-- A column of the table is a user column, `_version`, `_deleted` or `_row_id`. -/
theorem CreateTableStatement.allColumns_names (stmt : CreateTableStatement) :
    stmt.allColumns.map ColumnDefinition.columnName =
      stmt.fields.map Prod.fst ++ [SystemColumnNames.VERSION, SystemColumnNames.DELETED] ++
        (if stmt.userColumns.any ColumnDefinition.isPrimaryKey then []
          else [SystemColumnNames.ROW_ID]) := by
  have hany : (addSystemColumns stmt.userColumns (stmt.fields.length + 1)).any
      ColumnDefinition.isPrimaryKey = stmt.userColumns.any ColumnDefinition.isPrimaryKey := by
    simp [addSystemColumns]
  unfold allColumns assignStableRowId
  rw [hany]
  split_ifs <;> simp [addSystemColumns, userColumns_names]

/-- The columns of an accepted statement have distinct names: user names never start with an
underscore, system names always do. -/
theorem CreateTableStatement.allColumns_names_nodup (h : stmt.check = .ok ()) :
    (stmt.allColumns.map ColumnDefinition.columnName).Nodup := by
  obtain ⟨hvalid, hnodup, -, -⟩ := check_ok h
  have huser : ∀ n ∈ stmt.fields.map Prod.fst, n.toList.head? ≠ some '_' := by
    intro n hn
    obtain ⟨f, hf, rfl⟩ := mem_map.mp hn
    intro hhead
    have hname := hvalid f hf
    unfold validateColumnName validateRelationIdentifier at hname
    split_ifs at hname
  rw [allColumns_names, append_assoc]
  refine hnodup.append ?_ fun n hn hsys => ?_
  · split_ifs <;> decide
  · have hhead : n.toList.head? = some '_' := by
      have hall : ∀ n ∈ [SystemColumnNames.VERSION, SystemColumnNames.DELETED,
          SystemColumnNames.ROW_ID], n.toList.head? = some '_' := by decide
      refine hall n ?_
      split_ifs at hsys
      · exact mem_append_left [SystemColumnNames.ROW_ID] hsys
      · exact hsys
    exact huser n hn hhead

/-- Every table has a primary key: the declared column, or `_row_id`. -/
theorem CreateTableStatement.exists_primaryKey (stmt : CreateTableStatement) :
    ∃ c ∈ stmt.allColumns, c.isPrimaryKey = true := by
  unfold allColumns assignStableRowId
  split_ifs with hany
  · exact any_eq_true.mp hany
  · exact ⟨_, mem_append_right _ (mem_singleton_self _), rfl⟩

/-- **`CREATE TABLE`**: the checks of the parser, then the definition of the builder. -/
def CreateTableStatement.createTable (stmt : CreateTableStatement) :
    Except CreateTableError TableDefinition :=
  match h : stmt.check with
  | .error e => .error e
  | .ok () =>
    .ok
      { columns := stmt.allColumns
        nextColumnId := stmt.allColumns.length + 1
        scalarIndexes := []
        names_nodup := stmt.allColumns_names_nodup h
        exists_primaryKey := stmt.exists_primaryKey }

namespace TableDefinition

variable (t : TableDefinition)

/-- The names of the table's fields, in schema order. -/
def fieldNames : List String := t.columns.map ColumnDefinition.columnName

/-- The column the providers treat as the primary key: the first one marked so. -/
def primaryKeyColumn : ColumnDefinition :=
  (t.columns.find? ColumnDefinition.isPrimaryKey).get
    (List.find?_isSome.mpr t.exists_primaryKey)

/-- The name under which the providers look up the primary key. -/
def primaryKeyFieldName : String := t.primaryKeyColumn.columnName

/-- Enter a column once. -/
def pushIndexedColumn (indexed : List (ℕ × String)) (columnId : ℕ) (columnName : String) :
    List (ℕ × String) :=
  if columnId ∈ indexed.map Prod.fst then indexed else indexed ++ [(columnId, columnName)]

/-- The names of an index's columns, if the table still has them all. -/
def resolvedColumnNames (index : ScalarIndexDefinition) : Option (List (ℕ × ColumnDefinition)) :=
  index.columns.mapM fun columnId =>
    (t.columns.find? fun c => c.columnId == columnId).map fun c => (columnId, c)

/-- The columns whose statistics a segment keeps: the primary key, the columns of scalar
indexes whose equality a Bloom filter can answer, and `_version`. -/
def computeIndexedColumns : List (ℕ × String) :=
  let primary := (t.columns.filter ColumnDefinition.isPrimaryKey).foldl
    (fun indexed c => pushIndexedColumn indexed c.columnId c.columnName) []
  let scalar := t.scalarIndexes.foldl
    (fun indexed index =>
      match t.resolvedColumnNames index with
      | none => indexed
      | some columns =>
        columns.foldl
          (fun indexed c =>
            if c.2.dataType.supportsEqualityBloom then
              pushIndexedColumn indexed c.1 c.2.columnName
            else indexed)
          indexed)
    primary
  scalar ++ [(0, SystemColumnNames.VERSION)]

end TableDefinition

end KalamDB
