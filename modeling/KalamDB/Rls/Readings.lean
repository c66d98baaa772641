import KalamDB.Rls.Comparisons

/-!
# Row-level security: how the compiler reads a policy

Every conjunct of an accepted policy is written in SQL and read by the compiler as a
`Conjunct`: a principal predicate, a key correlation or a comparison with a literal. This file
says what each reading tests (`Conjunct.AsRead`) and for which of them the test may differ
from the SQL (`Clause.Misread`):

* a double-quoted `"current_user"`, a column in SQL, is taken for the principal;
* a correlation inside a subquery whose relation goes by the name of the protected table, and
  the key of an `IN` that is qualified with another table, are taken for a protected column;
* key columns of two integer types never match;
* a literal may be a `Misfit` for its column.

In all other cases the reading is the SQL (`Clause.written_iff_asRead`). Over a list of
conjuncts there is one more way: a principal predicate or a correlation that is followed by
another one is **lost**, it is read as true (`readings`).
-/

namespace KalamDB.Rls

open List

variable {P Q : Row → Prop} (later : Conjunct)

/-- A condition of a policy as it is written: a conjunct of a `WHERE` clause, or the
membership of the `IN` itself. -/
inductive Clause where
  | predicate (e : SqlExpr)
  | member (e projection : SqlExpr)

section Clauses

variable (protectedTable table : CatalogTable) (qualifier : String) {e : SqlExpr}
  {conjunct : Conjunct} {name : String} {relationKey protectedKey : ℕ}

/-- The clause is true in SQL. -/
def Clause.Written (principal : String) (row r : Row) : Clause → Prop
  | .predicate e => e.truth (innerScope protectedTable table qualifier principal row r) =
      some .true
  | .member e projection => memberTruth (outerScope protectedTable principal row)
      (innerScope protectedTable table qualifier principal row r) e projection = some .true

/-- The test the compiled program makes. -/
def Conjunct.AsRead (principal : String) (row r : Row) : Conjunct → Prop
  | .principal column => scalarEqualsPrincipal (cellOf table r column) principal = true
  | .correlation relationKey protectedKey =>
    cellOf table r relationKey = cellOf protectedTable row protectedKey ∧
      isNull (cellOf table r relationKey) = false
  | .static p => matchesLiteral p.operator (cellOf table r p.columnId) p.value = true

/-- How the compiler read a clause. -/
def Clause.ReadAs : Clause → Conjunct → Prop
  | .predicate e, conjunct => existsConjunct table qualifier protectedTable e = .ok conjunct ∨
      inConjunct table qualifier e = .ok conjunct
  | .member e projection, .correlation relationKey protectedKey =>
    (∃ owner name, columnName e = some (owner, name) ∧
      resolveColumnId protectedTable name = .ok protectedKey) ∧
    ∃ owner name, columnName projection = some (owner, name) ∧
      owner.all (eqIgnoreAsciiCase · qualifier) = true ∧
      resolveColumnId table name = .ok relationKey
  | .member _ _, _ => False

/-- A `"current_user"` in double quotes on one side of a comparison. -/
def SqlExpr.comparesQuotedCurrentUser : SqlExpr → Bool
  | .nested e => e.comparesQuotedCurrentUser
  | .binaryOp l _ r => l.isQuotedCurrentUser || r.isQuotedCurrentUser
  | _ => false

/-- The two key columns are of different integer types. -/
def MixedKeys (relationKey protectedKey : ℕ) : Prop :=
  ∃ type type', table.typeOf relationKey = some type ∧
    protectedTable.typeOf protectedKey = some type' ∧ MixedIntegers type type'

/-- **The reading may differ from the SQL.** -/
def Clause.Misread : Clause → Conjunct → Prop
  | .predicate e, .principal _ => e.comparesQuotedCurrentUser = true
  | .predicate _, .correlation relationKey protectedKey =>
    eqIgnoreAsciiCase qualifier protectedTable.tableName = true ∨
      MixedKeys protectedTable table relationKey protectedKey
  | .predicate _, .static p =>
    ∃ type, table.typeOf p.columnId = some type ∧ Misfit type p.operator p.value
  | .member e _, .correlation relationKey protectedKey =>
    (∃ owner name, columnName e = some (some owner, name) ∧
      eqIgnoreAsciiCase owner protectedTable.tableName = false) ∨
      MixedKeys protectedTable table relationKey protectedKey
  | .member _ _, _ => False

/-- The compared columns are of integer, boolean or text type. -/
def Conjunct.Plain : Conjunct → Prop
  | .principal column => table.PlainColumn column
  | .correlation relationKey protectedKey =>
    table.PlainColumn relationKey ∧ protectedTable.PlainColumn protectedKey
  | .static p => table.PlainColumn p.columnId

variable {protectedTable table qualifier}

/-- What a predicate is read as, by either compiler. -/
theorem readAs_predicate_cases
    (h : (Clause.predicate e).ReadAs protectedTable table qualifier conjunct) :
    (∃ name column, conjunct = .principal column ∧ principalEquality qualifier e = some name ∧
      resolveColumnId table name = .ok column) ∨
    (∃ names relationKey protectedKey, conjunct = .correlation relationKey protectedKey ∧
      correlationEquality qualifier protectedTable.tableName e = some names ∧
      resolveColumnId table names.1 = .ok relationKey ∧
      resolveColumnId protectedTable names.2 = .ok protectedKey) ∨
    ∃ p, conjunct = .static p ∧ compileStaticPredicate table qualifier e = .ok p := by
  rcases h with h | h
  · revert h
    fun_cases existsConjunct table qualifier protectedTable e <;> rintro ⟨⟩
    · next name hname column hcolumn => exact .inl ⟨name, column, rfl, hname, hcolumn⟩
    · next hnames relationKey hrelation protectedKey hprotected =>
      exact .inr (.inl ⟨_, relationKey, protectedKey, rfl, hnames, hrelation, hprotected⟩)
    · next p hp => exact .inr (.inr ⟨p, rfl, hp⟩)
  · revert h
    fun_cases inConjunct table qualifier e <;> rintro ⟨⟩
    · next name hname column hcolumn => exact .inl ⟨name, column, rfl, hname, hcolumn⟩
    · next p hp => exact .inr (.inr ⟨p, rfl, hp⟩)

variable {principal : String} {row r : Row}

theorem written_iff_principal {column : ℕ} (hr : table.TypedRow r)
    (hname : principalEquality qualifier e = some name)
    (hcolumn : resolveColumnId table name = .ok column) (hplain : table.PlainColumn column)
    (hquoted : e.comparesQuotedCurrentUser = false) :
    e.truth (innerScope protectedTable table qualifier principal row r) = some .true ↔
      scalarEqualsPrincipal (cellOf table r column) principal = true := by
  obtain ⟨l, r', columnE, operand, owner, rfl, hsides, hcolumnE, howner, huser⟩ :=
    principalEquality_eq_some hname
  obtain ⟨type, htype⟩ := resolveColumnId_ok hcolumn
  have hoperand : operand.isQuotedCurrentUser = false := by
    rw [SqlExpr.comparesQuotedCurrentUser, Bool.or_eq_false_iff] at hquoted
    rcases hsides with ⟨rfl, rfl⟩ | ⟨rfl, rfl⟩
    · exact hquoted.2
    · exact hquoted.1
  have hop : predicateOperator .eq = .ok .eq := rfl
  rw [truth_binaryOp hop hsides, eval_of_isCurrentUser huser hoperand,
    eval_of_columnName hcolumnE, innerScope_column howner htype.visible, htype.cell]
  exact eq_text_iff_scalarEqualsPrincipal (hplain type htype.typeOf) (htype.admits r hr)

/-- Two resolved key columns. -/
theorem eq_iff_key {protectedName : String} (hrow : protectedTable.TypedRow row)
    (hr : table.TypedRow r) (hkey : resolveColumnId table name = .ok relationKey)
    (hprotected : resolveColumnId protectedTable protectedName = .ok protectedKey)
    (hplain : (Conjunct.correlation relationKey protectedKey).Plain protectedTable table)
    (hmixed : ¬ MixedKeys protectedTable table relationKey protectedKey) :
    ((ScopeTable.cell ⟨qualifier, table, r⟩ name).bind fun v =>
      (ScopeTable.cell ⟨protectedTable.tableName, protectedTable, row⟩ protectedName).bind
        fun w => v.eq w) = some .true ↔
      (Conjunct.correlation relationKey protectedKey).AsRead protectedTable table principal
        row r := by
  obtain ⟨type, htype⟩ := resolveColumnId_ok hkey
  obtain ⟨type', htype'⟩ := resolveColumnId_ok hprotected
  rw [htype.cell, htype'.cell]
  exact eq_iff_same_scalar (hplain.1 type htype.typeOf) (hplain.2 type' htype'.typeOf)
    (htype.admits r hr) (htype'.admits row hrow)
    fun hm => hmixed ⟨type, type', htype.typeOf, htype'.typeOf, hm⟩

theorem written_iff_static {p : ScalarPredicate} (hr : table.TypedRow r)
    (hp : compileStaticPredicate table qualifier e = .ok p) (hplain : table.PlainColumn p.columnId)
    (hfit : ¬ ∃ type, table.typeOf p.columnId = some type ∧ Misfit type p.operator p.value) :
    e.truth (innerScope protectedTable table qualifier principal row r) = some .true ↔
      matchesLiteral p.operator (cellOf table r p.columnId) p.value = true := by
  obtain ⟨l, op, r', columnE, operand, owner, name, rfl, hsides, hop, hcolumnE, howner, hvalue,
    hid⟩ := compileStaticPredicate_ok hp
  obtain ⟨type, htype⟩ := resolveColumnId_ok hid
  rw [truth_binaryOp hop hsides, eval_of_columnName hcolumnE, eval_of_policyScalar hvalue,
    innerScope_column howner htype.visible, htype.cell]
  exact apply_toSql_iff_matchesLiteral (hplain type htype.typeOf) (htype.admits r hr)
    fun h => hfit ⟨type, htype.typeOf, h⟩

/-- **A clause that is not misread** is tested as it is written. -/
theorem Clause.written_iff_asRead {clause : Clause}
    (hread : clause.ReadAs protectedTable table qualifier conjunct)
    (hplain : conjunct.Plain protectedTable table)
    (hnot : ¬ clause.Misread protectedTable table qualifier conjunct)
    (hrow : protectedTable.TypedRow row) (hr : table.TypedRow r) :
    clause.Written protectedTable table qualifier principal row r ↔
      conjunct.AsRead protectedTable table principal row r := by
  cases clause with
  | predicate e =>
    rcases readAs_predicate_cases hread with ⟨name, column, rfl, hname, hcolumn⟩ |
      ⟨names, relationKey, protectedKey, rfl, hnames, hkey, hprotected⟩ | ⟨p, rfl, hp⟩
    · exact written_iff_principal hr hname hcolumn hplain (by simpa [Misread] using hnot)
    · simp only [Misread, not_or, Bool.not_eq_true] at hnot
      obtain ⟨hcaptured, hmixed⟩ := hnot
      obtain ⟨l, r', columnE, operand, owner, protectedOwner, rfl, hsides, hcolumnE, hoperand,
        howner, hprotectedOwner⟩ := correlationEquality_eq_some hnames
      obtain ⟨type, htype⟩ := resolveColumnId_ok hkey
      have howner' : (some owner).all (eqIgnoreAsciiCase · qualifier) = true := howner
      have hop : predicateOperator .eq = .ok .eq := rfl
      rw [← eq_iff_key hrow hr hkey hprotected hplain hmixed, Written, truth_binaryOp hop hsides,
        eval_of_columnName hcolumnE, eval_of_columnName hoperand,
        innerScope_column howner' htype.visible,
        innerScope_protected_column hprotectedOwner hcaptured]
      rfl
    · exact written_iff_static hr hp hplain hnot
  | member e projection =>
    cases conjunct with
    | principal | static => exact hread.elim
    | correlation relationKey protectedKey =>
      obtain ⟨⟨owner, name, hname, hprotected⟩, owner', name', hname', howner', hkey⟩ := hread
      simp only [Misread, not_or, not_exists, not_and, Bool.not_eq_false] at hnot
      have howner : owner.all (eqIgnoreAsciiCase · protectedTable.tableName) = true := by
        cases owner with
        | none => rfl
        | some q => exact hnot.1 q name hname
      obtain ⟨type, htype⟩ := resolveColumnId_ok hkey
      obtain ⟨type', htype'⟩ := resolveColumnId_ok hprotected
      rw [← eq_iff_key hrow hr hkey hprotected hplain hnot.2, Written, memberTruth,
        eval_of_columnName hname, eval_of_columnName hname',
        outerScope_column howner htype'.visible, innerScope_column howner' htype.visible]
      -- the membership compares the other way round
      generalize ScopeTable.cell ⟨protectedTable.tableName, protectedTable, row⟩ name = v
      generalize ScopeTable.cell ⟨qualifier, table, r⟩ name' = w
      cases v <;> cases w <;> simp [SqlValue.eq_comm]

end Clauses

/-! ### Lists of clauses -/

/-- A condition of a policy: when it is true in SQL, when the program takes it for true, and
whether the two may differ. -/
structure Reading where
  written : String → Row → Row → Prop
  asRead : String → Row → Row → Prop
  misread : Prop

/-- **Misread conditions never decide**: wherever all the others are true, the misread ones are
true in SQL when the program takes them for true. -/
def NeverDecide (readings : List Reading) (typedRow typedRelationRow : Row → Prop) : Prop :=
  ∀ principal row r, typedRow row → typedRelationRow r →
    (∀ rd ∈ readings, ¬ rd.misread → rd.written principal row r) →
    ((∀ rd ∈ readings, rd.misread → rd.written principal row r) ↔
      ∀ rd ∈ readings, rd.misread → rd.asRead principal row r)

/-- A policy without misread conditions. -/
theorem NeverDecide.of_forall_not {readings : List Reading} (h : ∀ rd ∈ readings, ¬ rd.misread) :
    NeverDecide readings P Q :=
  fun _ _ _ _ _ _ =>
    ⟨fun _ rd hrd hm => absurd hm (h rd hrd), fun _ rd hrd hm => absurd hm (h rd hrd)⟩

theorem neverDecide_iff {readings : List Reading}
    (h : ∀ rd ∈ readings, ¬ rd.misread → ∀ principal row r, P row → Q r →
      (rd.written principal row r ↔ rd.asRead principal row r)) :
    NeverDecide readings P Q ↔ ∀ principal row r, P row → Q r →
      ((∀ rd ∈ readings, rd.asRead principal row r) ↔
        ∀ rd ∈ readings, rd.written principal row r) := by
  have hsplit : ∀ A : Reading → Prop, (∀ rd ∈ readings, A rd) ↔
      (∀ rd ∈ readings, ¬ rd.misread → A rd) ∧ ∀ rd ∈ readings, rd.misread → A rd := fun A =>
    ⟨fun hA => ⟨fun rd hrd _ => hA rd hrd, fun rd hrd _ => hA rd hrd⟩,
      fun hA rd hrd => (Classical.em rd.misread).elim (hA.2 rd hrd) (hA.1 rd hrd)⟩
  refine forall₅_congr fun principal row r hP hQ => ?_
  have hothers : (∀ rd ∈ readings, ¬ rd.misread → rd.asRead principal row r) ↔
      ∀ rd ∈ readings, ¬ rd.misread → rd.written principal row r :=
    forall₃_congr fun rd hrd hm => (h rd hrd hm principal row r hP hQ).symm
  rw [hsplit (·.asRead principal row r), hsplit (·.written principal row r), hothers,
    and_congr_right_iff]
  exact imp_congr_right fun _ => iff_comm

namespace Conjunct

def isPrincipal : Conjunct → Bool
  | .principal _ => true
  | _ => false

def isCorrelation : Conjunct → Bool
  | .correlation _ _ => true
  | _ => false

/-- A later conjunct of the same kind takes the place of a principal predicate or correlation. -/
def replaces (later conjunct : Conjunct) : Bool :=
  later.isPrincipal && conjunct.isPrincipal || later.isCorrelation && conjunct.isCorrelation

@[simp]
theorem replaces_principal (column : ℕ) :
    later.replaces (.principal column) = later.isPrincipal := by
  simp [replaces, isPrincipal, isCorrelation]

@[simp]
theorem replaces_correlation (relationKey protectedKey : ℕ) :
    later.replaces (.correlation relationKey protectedKey) = later.isCorrelation := by
  simp [replaces, isPrincipal, isCorrelation]

@[simp]
theorem replaces_static (p : ScalarPredicate) : later.replaces (.static p) = false := by
  simp [replaces, isPrincipal, isCorrelation]

end Conjunct

section Lists

variable (protectedTable table : CatalogTable) (qualifier : String)
  {clauses : List (Clause × Conjunct)} {r row : Row} {principal : String}

/-- The conditions of a list of clauses, lost ones included. -/
def readings : List (Clause × Conjunct) → List Reading
  | [] => []
  | (clause, conjunct) :: rest =>
    { written := clause.Written protectedTable table qualifier
      asRead := fun principal row r => rest.any (·.2.replaces conjunct) = true ∨
        conjunct.AsRead protectedTable table principal row r
      misread := rest.any (·.2.replaces conjunct) = true ∨
        clause.Misread protectedTable table qualifier conjunct } :: readings rest

variable {protectedTable table qualifier}

theorem readings_written_iff (hread : ∀ c ∈ clauses, c.1.ReadAs protectedTable table qualifier c.2)
    (hplain : ∀ c ∈ clauses, c.2.Plain protectedTable table) :
    ∀ rd ∈ readings protectedTable table qualifier clauses, ¬ rd.misread →
      ∀ principal row r, protectedTable.TypedRow row → table.TypedRow r →
        (rd.written principal row r ↔ rd.asRead principal row r) := by
  induction clauses with
  | nil => simp [readings]
  | cons c rest ih =>
    obtain ⟨hreadC, hreadRest⟩ := forall_mem_cons.mp hread
    obtain ⟨hplainC, hplainRest⟩ := forall_mem_cons.mp hplain
    refine forall_mem_cons.mpr ⟨fun hnot principal row r hrow hr => ?_, ih hreadRest hplainRest⟩
    obtain ⟨hlost, hmis⟩ := not_or.mp hnot
    exact (Clause.written_iff_asRead hreadC hplainC hmis hrow hr).trans (or_iff_right hlost).symm

theorem forall_readings_written_iff :
    (∀ rd ∈ readings protectedTable table qualifier clauses, rd.written principal row r) ↔
      ∀ c ∈ clauses, c.1.Written protectedTable table qualifier principal row r := by
  induction clauses with
  | nil => simp [readings]
  | cons c rest ih => simp [readings, ih]

/-! ### The collected parts -/

variable (protectedTable table) in
/-- What the parts test, except for a principal column or key pair that is yet to be replaced. -/
def RelationParts.HoldUnless (principalReplaced keyReplaced : Bool) (principal : String)
    (row r : Row) (parts : RelationParts) : Prop :=
  (principalReplaced = true ∨ ∀ column, parts.principalColumn = some column →
    (Conjunct.principal column).AsRead protectedTable table principal row r) ∧
  (keyReplaced = true ∨ ∀ keys, parts.keyPair = some keys →
    (Conjunct.correlation keys.1 keys.2).AsRead protectedTable table principal row r) ∧
  ∀ p ∈ parts.staticPredicates,
    (Conjunct.static p).AsRead protectedTable table principal row r

variable (qualifier) in
/-- **Collecting the parts**: at the end, they test what each clause is read as. -/
theorem holdUnless_foldl_add {parts : RelationParts} :
    ((clauses.map Prod.snd).foldl RelationParts.add parts).HoldUnless protectedTable table
        false false principal row r ↔
      parts.HoldUnless protectedTable table (clauses.any (·.2.isPrincipal))
        (clauses.any (·.2.isCorrelation)) principal row r ∧
      ∀ rd ∈ readings protectedTable table qualifier clauses, rd.asRead principal row r := by
  induction clauses generalizing parts with
  | nil => simp [readings]
  | cons c rest ih =>
    obtain ⟨clause, conjunct⟩ := c
    rw [map_cons, foldl_cons, ih, readings, forall_mem_cons]
    cases conjunct with
    | principal column =>
      simp only [RelationParts.HoldUnless, RelationParts.add, Conjunct.replaces_principal,
        Option.some.injEq, forall_eq']
      tauto
    | correlation relationKey protectedKey =>
      simp only [RelationParts.HoldUnless, RelationParts.add, Conjunct.replaces_correlation,
        Option.some.injEq, forall_eq']
      tauto
    | static p =>
      have hlost : (rest.any fun c => c.2.replaces (.static p)) = false := by simp
      simp only [RelationParts.HoldUnless, RelationParts.add, hlost, forall_mem_append,
        forall_mem_singleton]
      tauto

end Lists

end KalamDB.Rls
