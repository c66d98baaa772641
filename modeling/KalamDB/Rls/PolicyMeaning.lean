import KalamDB.Rls.Readings

/-!
# Row-level security: what a compiled policy tests

The evaluation of a compiled policy, row by row, against the readings of its clauses. The
loops of the two subquery compilers enter every conjunct they read
(`compileExistsPredicates_ok`, `compileRelationPredicates_ok`), and the authorization set of
the collected parts admits a protected row when some row of the relation passes all tests
(`containsProtectedRow_fromRelationRows_iff`). A row-local policy is one comparison
(`rowLocal_written_iff`).
-/

namespace KalamDB.Rls

open List AuthorizationSet

/-! ### Evaluation of a compiled relation -/

variable {table : CatalogTable} {principal : String} {relation : AuthorizationRelation}
  {row : Row} {r : Row} {columnId : ℕ} {e : SqlExpr} (t : CatalogTable)

theorem any_columnValue (row : Row) (columnId : ℕ) {f : ScalarValue → Bool}
    (hnull : f .null = false) : (columnValue t row columnId).any f = f (cellOf t row columnId) := by
  unfold cellOf
  cases columnValue t row columnId with
  | none => exact hnull.symm
  | some v => rfl

theorem staticPredicateMatches_eq (row : Row) (p : ScalarPredicate) :
    staticPredicateMatches t row p =
      matchesLiteral p.operator (cellOf t row p.columnId) p.value := by
  unfold staticPredicateMatches cellOf
  cases columnValue t row p.columnId with
  | none => rfl
  | some v =>
    simp only [matchesLiteral]
    split_ifs with h
    · simp [h]
    · cases p.operator <;> simp [h]

theorem columnValue_eq_some_iff {t : CatalogTable} {v : ScalarValue}
    (hv : isNull v = false) : columnValue t row columnId = some v ↔ cellOf t row columnId = v := by
  unfold cellOf
  cases columnValue t row columnId with
  | some w => simp
  | none =>
    have hne : ScalarValue.null ≠ v := by
      rintro rfl
      cases hv
    simp [hne]

/-- **The authorization set of a relation**, row by row. -/
theorem containsProtectedRow_fromRelationRows_iff {protectedTable : CatalogTable}
    {relationKey protectedKey : ℕ} {rows : List Row}
    (hrelation : relation.relationKeys = [relationKey])
    (hprotected : relation.protectedKeys = [protectedKey]) :
    (fromRelationRows relation table principal rows).containsProtectedRow
        protectedTable row = true ↔
      ∃ r ∈ rows, RelationParts.HoldUnless protectedTable table false false principal row r
        ⟨some relation.principalColumn, some (relationKey, protectedKey),
          relation.staticPredicates⟩ := by
  have hset : fromRelationRows relation table principal rows =
      ⟨relation, .single (((rows.filter (relationRowApplies relation table · principal)).filterMap
        (columnValue table · relationKey)).filter (!isNull ·))⟩ := by
    rw [fromRelationRows, hrelation]
  rw [hset, containsProtectedRow]
  simp only [hprotected]
  rw [any_columnValue _ _ _ (by simp [isNull])]
  generalize hw : cellOf protectedTable row protectedKey = w
  cases hnull : isNull w with
  | true =>
    -- a null key is in no set, and no relation row matches it
    simp only [Bool.not_true, Bool.false_and, Bool.false_eq_true, false_iff]
    rintro ⟨r, -, -, hkeys, -⟩
    obtain ⟨heq, hne⟩ := hkeys.resolve_left (by simp) _ rfl
    rw [heq, hw, hnull] at hne
    cases hne
  | false =>
    have hmem : ∀ r, columnValue table r relationKey = some w ↔
        (Conjunct.correlation relationKey protectedKey).AsRead protectedTable table principal
          row r := by
      intro r
      rw [columnValue_eq_some_iff hnull, Conjunct.AsRead, hw]
      exact ⟨fun h => ⟨h, h ▸ hnull⟩, And.left⟩
    simp only [containsKey, any_cons, any_nil, hnull, Bool.or_false,
      Bool.false_eq_true, if_false, Bool.not_false, Bool.true_and, contains_iff_mem,
      mem_filter, mem_filterMap, and_true, RelationParts.HoldUnless, Option.some.injEq,
      forall_eq', hmem, and_assoc]
    refine exists_congr fun r => and_congr_right fun _ => ?_
    rw [relationRowApplies, Bool.and_eq_true, any_columnValue _ _ _ rfl, all_eq_true]
    simp only [staticPredicateMatches_eq, Conjunct.AsRead]
    tauto

/-! ### What the compilers collect -/

/-- Conjuncts with what they are read as. -/
def readClauses (read : SqlExpr → Except String Conjunct) (es : List SqlExpr) :
    List (Clause × Conjunct) :=
  es.filterMap fun e => (read e).toOption.map (Clause.predicate e, ·)

section Collect

variable {protectedTable table : CatalogTable} {qualifier : String}
  {read : SqlExpr → Except String Conjunct} {es : List SqlExpr} {parts parts' : RelationParts}
  {conjunct : Conjunct}

theorem readClauses_cons_of_ok (h : read e = .ok conjunct) :
    readClauses read (e :: es) = (.predicate e, conjunct) :: readClauses read es := by
  simp [readClauses, h, Except.toOption]

theorem exists_of_mem_readClauses {c : Clause × Conjunct} (h : c ∈ readClauses read es) :
    ∃ e, c.1 = .predicate e ∧ read e = .ok c.2 := by
  obtain ⟨e, -, hc⟩ := mem_filterMap.mp h
  obtain ⟨conjunct, hconjunct, rfl⟩ := Option.map_eq_some_iff.mp hc
  refine ⟨e, rfl, ?_⟩
  cases hread : read e with
  | error msg => simp [hread, Except.toOption] at hconjunct
  | ok conjunct' =>
    rw [hread] at hconjunct
    exact congrArg Except.ok (Option.some.inj hconjunct)

/-- When every conjunct was read, none is missing from the clauses. -/
theorem forall_readClauses_written_iff (hread : ∀ e ∈ es, ∃ conjunct, read e = .ok conjunct) :
    (∀ c ∈ readClauses read es, c.1.Written protectedTable table qualifier principal row r) ↔
      ∀ e ∈ es, e.truth (innerScope protectedTable table qualifier principal row r) =
        some .true := by
  induction es with
  | nil => simp [readClauses]
  | cons e rest ih =>
    obtain ⟨⟨conjunct, hconjunct⟩, hrest⟩ := forall_mem_cons.mp hread
    rw [readClauses_cons_of_ok hconjunct, forall_mem_cons, forall_mem_cons, ih hrest]
    rfl

/-- Every conjunct is read, and entered into the parts. -/
def Collects (read : SqlExpr → Except String Conjunct) (es : List SqlExpr)
    (parts parts' : RelationParts) : Prop :=
  (∀ e ∈ es, ∃ conjunct, read e = .ok conjunct) ∧
    parts' = ((readClauses read es).map Prod.snd).foldl RelationParts.add parts

theorem Collects.cons (hconjunct : read e = .ok conjunct)
    (h : Collects read es (parts.add conjunct) parts') : Collects read (e :: es) parts parts' := by
  refine ⟨forall_mem_cons.mpr ⟨⟨conjunct, hconjunct⟩, h.1⟩, ?_⟩
  rw [readClauses_cons_of_ok hconjunct, map_cons, foldl_cons, h.2]

/-- **The loop of the `EXISTS` compiler** reads every conjunct and enters it. -/
theorem compileExistsPredicates_ok
    (h : compileExistsPredicates table qualifier protectedTable parts es = .ok parts') :
    Collects (existsConjunct table qualifier protectedTable) es parts parts' := by
  induction es generalizing parts with
  | nil => exact ⟨by simp, (Except.ok.inj h).symm⟩
  | cons e rest ih =>
    rw [compileExistsPredicates] at h
    split at h
    · cases h
    · next hconjunct => exact (ih h).cons hconjunct

/-- **The loop of the `IN` compiler** does so too, unless it rejects the policy. -/
theorem compileRelationPredicates_ok
    (h : compileRelationPredicates table qualifier parts es = .ok parts') :
    Collects (inConjunct table qualifier) es parts parts' := by
  induction es generalizing parts with
  | nil => exact ⟨by simp, (Except.ok.inj h).symm⟩
  | cons e rest ih =>
    rw [compileRelationPredicates] at h
    split_ifs at h
    split at h
    · cases h
    · next hconjunct => exact (ih h).cons hconjunct

end Collect

/-- A predicate is a conjunction of its parts. -/
theorem truth_eq_true_iff (scope : Scope) (e : SqlExpr) :
    e.truth scope = some .true ↔ ∀ e' ∈ flattenAnd e, e'.truth scope = some .true := by
  induction e using flattenAnd.induct with
  | case1 e ih => exact ih
  | case2 l r ihl ihr =>
    rw [flattenAnd, forall_mem_append, ← ihl, ← ihr, SqlExpr.truth]
    cases l.truth scope with
    | none => simp
    | some a =>
      cases r.truth scope with
      | none => simp
      | some b => cases a <;> cases b <;> simp [SqlTruth.and]
  | case3 e h₁ h₂ =>
    have hsingle : flattenAnd e = [e] := by
      rw [flattenAnd]
      · exact h₁
      · exact h₂
    simp [hsingle]

/-! ### Policies and their clauses -/

section Policies

variable (compiler : PolicyCompiler) (protectedTable : CatalogTable) {policyId : PolicyId}
  {message : String} {t : TableId} {generation : ℕ} {program : PolicyProgram}
  {shape : BoundExprShape}

/-- The relation table of a policy, its qualifier and the policy's clauses. -/
def PolicyExpr.clauses : PolicyExpr → Option (CatalogTable × String × List (Clause × Conjunct))
  | .expr _ => none
  | .exists query _ => do
    let select ← query.plainSelect
    let (table, qualifier) ← select.source compiler protectedTable
    let selection ← select.selection
    return (table, qualifier,
      readClauses (existsConjunct table qualifier protectedTable) (flattenAnd selection))
  | .inSubquery e query _ => do
    let select ← query.plainSelect
    let (table, qualifier) ← select.source compiler protectedTable
    let selection ← select.selection
    let [.unnamedExpr projection] := select.projection | none
    let protectedKey ← (columnName e).bind fun c =>
      (resolveColumnId protectedTable c.2).toOption
    let relationKey ← (columnName projection).bind fun c =>
      (resolveColumnId table c.2).toOption
    return (table, qualifier, (.member e projection, .correlation relationKey protectedKey) ::
      readClauses (inConjunct table qualifier) (flattenAnd selection))

/-- An `EXISTS` over an aggregate, which has a row whatever the relation holds. -/
def PolicyExpr.aggregates : PolicyExpr → Bool
  | .exists query _ => query.body.any Select.aggregates
  | _ => false

/-- The condition of a row-local policy. -/
def rowLocalReading (e : SqlExpr) (shape : BoundExprShape) : Reading where
  written principal row _ := e.truth (outerScope protectedTable principal row) = some .true
  asRead principal row _ := evaluateRowLocal protectedTable row principal shape = .true
  misread :=
    match shape with
    | .columnEqualsPrincipal _ _ => e.comparesQuotedCurrentUser = true
    | .columnEqualsScalar columnId value =>
      ∃ type, protectedTable.typeOf columnId = some type ∧ Misfit type .eq value
    | _ => False

/-- **A policy that is read as it is written.** -/
def PolicyExpr.ReadAsWritten : PolicyExpr → Prop
  | .expr e => ∀ shape, compileRowLocal protectedTable e = .ok shape →
    NeverDecide [rowLocalReading protectedTable e shape] protectedTable.TypedRow fun _ => True
  | policy => ∀ table qualifier clauses,
    policy.clauses compiler protectedTable = some (table, qualifier, clauses) →
    policy.aggregates = false ∧
      NeverDecide (readings protectedTable table qualifier clauses) protectedTable.TypedRow
        table.TypedRow

/-- **No condition of the policy is misread**, as its text and the types of its columns decide. -/
def PolicyExpr.NothingMisread : PolicyExpr → Prop
  | .expr e => ∀ shape, compileRowLocal protectedTable e = .ok shape →
    ¬ (rowLocalReading protectedTable e shape).misread
  | policy => ∀ table qualifier clauses,
    policy.clauses compiler protectedTable = some (table, qualifier, clauses) →
    policy.aggregates = false ∧ ∀ rd ∈ readings protectedTable table qualifier clauses, ¬ rd.misread

theorem PolicyExpr.NothingMisread.readAsWritten {policy : PolicyExpr}
    (h : policy.NothingMisread compiler protectedTable) :
    policy.ReadAsWritten compiler protectedTable := by
  cases policy with
  | expr e =>
    intro shape hshape
    exact NeverDecide.of_forall_not (List.forall_mem_singleton.mpr (h shape hshape))
  | _ =>
    intro table qualifier clauses hclauses
    exact (h table qualifier clauses hclauses).imp_right NeverDecide.of_forall_not

/-- The compared columns are of integer, boolean or text type. -/
def PolicyExpr.ComparesPlainColumns : PolicyExpr → Prop
  | .expr e => ∀ shape, compileRowLocal protectedTable e = .ok shape →
    match shape with
    | .columnEqualsPrincipal columnId _ | .columnEqualsScalar columnId _ =>
      protectedTable.PlainColumn columnId
    | _ => True
  | policy => ∀ table qualifier clauses,
    policy.clauses compiler protectedTable = some (table, qualifier, clauses) →
    ∀ c ∈ clauses, c.2.Plain protectedTable table

/-- The authorization sets of a policy that is bound on its own. -/
def BoundPolicy.authorizationSets (policy : BoundPolicy) (principal : String) (db : Database) :
    AList fun _ : PolicyId => AuthorizationSet :=
  match policy.program with
  | .rowLocal _ => ∅
  | .authorizationRelation relation =>
    match compiler.resolveTable relation.relationTable with
    | .error _ => ∅
    | .ok table => AList.insert policy.policyId
        (.fromRelationRows relation table principal (db relation.relationTable)) ∅

/-- **Is a row authorized** by a policy, for a principal and the contents of all tables? -/
def BoundPolicy.authorizes (policy : BoundPolicy) (principal : String) (row : Row)
    (db : Database) : Bool :=
  (BoundTablePolicies.mk principal false [policy]).authorizesRowWithSets protectedTable row
    (policy.authorizationSets compiler principal db)

/-- The rows of every table have the types of its columns. -/
def Database.Typed (db : Database) : Prop :=
  ∀ t table, compiler.resolveTable t = .ok table → ∀ r ∈ db t, table.TypedRow r

variable {compiler protectedTable}

/-- A policy with a compiled relation authorizes by the collected parts. -/
theorem authorizes_relationProgram_iff {parts : RelationParts} {db : Database}
    (hprogram : PolicyCompiler.relationProgram protectedTable t parts message = .ok program)
    (htable : compiler.resolveTable t = .ok table) :
    (BoundPolicy.mk policyId generation program).authorizes compiler protectedTable principal
        row db = true ↔
      ∃ r ∈ db t, parts.HoldUnless protectedTable table false false principal row r := by
  revert hprogram
  fun_cases PolicyCompiler.relationProgram protectedTable t parts message <;> rintro ⟨⟩
  next principalColumn hprincipal relationKey protectedKey hkeys =>
  have hparts : parts = ⟨some principalColumn, some (relationKey, protectedKey),
      parts.staticPredicates⟩ := by rw [← hprincipal, ← hkeys]
  rw [hparts]
  simp only [BoundPolicy.authorizes, BoundPolicy.authorizationSets, htable,
    BoundTablePolicies.authorizesRowWithSets, BoundTablePolicies.policyAuthorizes,
    Bool.false_or, any_cons, any_nil, Bool.or_false, AList.lookup_insert,
    Option.any_some]
  exact containsProtectedRow_fromRelationRows_iff rfl rfl

/-- The database with one row in one table. -/
def singleRow (t : TableId) (r : Row) : Database := fun t' => if t' = t then [r] else []

theorem typed_singleRow (htable : compiler.resolveTable t = .ok table)
    (hr : table.TypedRow r) : Database.Typed compiler (singleRow t r) := by
  intro t' table' htable' r' hr'
  rw [singleRow] at hr'
  split_ifs at hr' with heq
  · subst heq
    rw [mem_singleton.mp hr']
    obtain rfl := Except.ok.inj (htable.symm.trans htable')
    exact hr
  · cases hr'

/-! ### Row-local policies -/

theorem compareColumn_eq_true {t : CatalogTable} {equals : ScalarValue → Bool} :
    compareColumn t row columnId equals = .true ↔
      isNull (cellOf t row columnId) = false ∧ equals (cellOf t row columnId) = true := by
  unfold compareColumn cellOf
  cases columnValue t row columnId with
  | none => simp [isNull]
  | some v =>
    simp only [Option.getD_some]
    split_ifs with hnull hequals
    · simp [hnull]
    · simp [hnull, hequals]
    · simp [hequals]

/-- The column and the operand of an equality, as the compiler takes them. -/
def IsRowEquality (t : CatalogTable) (shape : BoundExprShape) (column operand : SqlExpr) : Prop :=
  ∃ owner name columnId, columnName column = some (owner, name) ∧
    owner.all (eqIgnoreAsciiCase · t.tableName) = true ∧
    resolveColumnId t name = .ok columnId ∧
    (isCurrentUser operand = true ∧ shape = .columnEqualsPrincipal columnId .currentUser ∨
      ∃ value, policyScalar operand = some value ∧ shape = .columnEqualsScalar columnId value)

theorem isRowEquality_of_side {t : CatalogTable} {column operand : SqlExpr}
    (h : rowEqualitySide t column operand = .ok (some shape)) :
    IsRowEquality t shape column operand := by
  revert h
  fun_cases rowEqualitySide t column operand <;> intro h
  case case3 owner name hname howner columnId hid huser =>
    cases h
    exact ⟨owner, name, columnId, hname, howner, hid, .inl ⟨huser, rfl⟩⟩
  case case4 owner name hname howner columnId hid huser =>
    obtain ⟨value, hvalue, hshape⟩ := Option.map_eq_some_iff.mp (Except.ok.inj h)
    exact ⟨owner, name, columnId, hname, howner, hid, .inr ⟨value, hvalue, hshape.symm⟩⟩
  all_goals cases h

/-- What an equality of a row-local policy is taken for. -/
theorem compileRowEquality_ok {t : CatalogTable} {l r : SqlExpr}
    (h : compileRowEquality t l r = .ok shape) :
    ∃ column operand, (l = column ∧ r = operand ∨ l = operand ∧ r = column) ∧
      IsRowEquality t shape column operand := by
  revert h
  fun_cases compileRowEquality t l r <;> rintro ⟨⟩
  · next hl => exact ⟨l, r, .inl ⟨rfl, rfl⟩, isRowEquality_of_side hl⟩
  · next hr => exact ⟨r, l, .inr ⟨rfl, rfl⟩, isRowEquality_of_side hr⟩

/-- **A row-local policy that is not misread** is evaluated as it is written. -/
theorem rowLocal_written_iff (hshape : compileRowLocal protectedTable e = .ok shape)
    (hplain : (PolicyExpr.expr e).ComparesPlainColumns compiler protectedTable)
    (hnot : ¬ (rowLocalReading protectedTable e shape).misread)
    (hrow : protectedTable.TypedRow row) :
    e.truth (outerScope protectedTable principal row) = some .true ↔
      evaluateRowLocal protectedTable row principal shape = .true := by
  have hcolumns := hplain shape hshape
  clear hplain
  induction e using compileRowLocal.induct with
  | case1 e ih => exact ih hshape hnot
  | case2 v =>
    cases hshape
    cases v <;> simp [SqlExpr.truth, SqlExpr.eval, Value.toSql, evaluateRowLocal]
  | case7 l r =>
    obtain ⟨column, operand, hsides, owner, name, columnId, hname, howner, hid, hoperand⟩ :=
      compileRowEquality_ok hshape
    obtain ⟨type, htype⟩ := resolveColumnId_ok hid
    have hop : predicateOperator .eq = .ok .eq := rfl
    rw [truth_binaryOp hop hsides, eval_of_columnName hname,
      outerScope_column howner htype.visible, htype.cell]
    rcases hoperand with ⟨huser, rfl⟩ | ⟨value, hvalue, rfl⟩
    · have hquoted : operand.isQuotedCurrentUser = false := by
        simp only [rowLocalReading, SqlExpr.comparesQuotedCurrentUser, Bool.not_eq_true,
          Bool.or_eq_false_iff] at hnot
        rcases hsides with ⟨rfl, rfl⟩ | ⟨rfl, rfl⟩
        · exact hnot.2
        · exact hnot.1
      rw [eval_of_isCurrentUser huser hquoted, evaluateRowLocal, compareColumn_eq_true]
      refine (eq_text_iff_scalarEqualsPrincipal (hcolumns type htype.typeOf)
        (htype.admits row hrow)).trans (iff_and_self.mpr fun h => ?_)
      cases hcell : cellOf protectedTable row columnId <;>
        simp [hcell, scalarEqualsPrincipal] at h <;> rfl
    · have hfit : ¬ Misfit type .eq value := fun h => hnot ⟨type, htype.typeOf, h⟩
      have hiff := apply_toSql_iff_matchesLiteral (hcolumns type htype.typeOf)
        (htype.admits row hrow) hfit
      rw [eval_of_policyScalar hvalue]
      refine hiff.trans ?_
      rw [evaluateRowLocal, matchesLiteral]
      split_ifs with hvalue
      · simp [hvalue]
      · rw [compareColumn_eq_true]
        simp [hvalue]
  | case3 v h => simp_all [compileRowLocal]
  | case4 | case5 | case6 => cases hshape
  | case8 e => simp_all [compileRowLocal]

end Policies

end KalamDB.Rls
