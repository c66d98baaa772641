import KalamDB.Lib.Fallible
import KalamDB.Rls.PolicyMeaning

/-!
# Row-level security: a compiled policy means its SQL

**When a compiled policy authorizes exactly the rows for which its SQL expression is true**,
for every principal, every row of the protected table and every content of the relation
table: when its misread conditions never decide, and an `EXISTS` does not aggregate
(`authorizes_iff_isTrue_iff`). A policy without misread conditions is of this kind.

An `EXISTS` with two `CURRENT_USER` predicates is not: the first is lost, and the policy
authorizes rows by memberships that its SQL excludes.
-/

namespace KalamDB.Rls

open Fallible List PolicyExpr

section Compile

variable {compiler : PolicyCompiler} {protectedTable : CatalogTable} {query : Query}
  {qualifier : String} {select : Select} {program : PolicyProgram} {e : SqlExpr}
  {table : CatalogTable} {policy : PolicyExpr} {clauses : List (Clause × Conjunct)}

/-- The subquery of an accepted policy is plain and reads one table. -/
theorem authorizationSelect_ok {t : TableId}
    (h : compiler.authorizationSelect protectedTable query = .ok (select, t, qualifier)) :
    query.plainSelect = some select ∧ ∀ table, compiler.resolveTable t = .ok table →
      select.source compiler protectedTable = some (table, qualifier) := by
  revert h
  fun_cases compiler.authorizationSelect protectedTable query <;> intro h
  case case4 hclauses _ hbody hselect _ _ hfrom =>
    obtain ⟨_, hid, h⟩ := bind_eq_ok_iff.mp h
    split_ifs at h
    cases pure_eq_ok_iff.mp h
    refine ⟨?_, fun table htable => ?_⟩
    · rw [Query.plainSelect, if_neg hclauses, hbody]
      simpa using hselect
    · have hname : table.tableName = t.2 :=
        congrArg Prod.snd (compiler.tableId_of_resolveTable htable)
      simp [Select.source, hfrom, hid, htable, Except.toOption, hname]
  all_goals cases h

theorem body_of_plainSelect (h : query.plainSelect = some select) : query.body = some select := by
  unfold Query.plainSelect at h
  split_ifs at h
  exact (Option.filter_eq_some_iff.mp h).1

theorem typed_emptyDatabase : Database.Typed compiler fun _ => [] := by
  intro t table _ r hr
  cases hr

/-- The condition of a subquery is the conjunction of its clauses. -/
theorem admits_iff_forall_written {selection : SqlExpr} {principal : String} {row r : Row}
    {read : SqlExpr → Except String Conjunct} (hselection : select.selection = some selection)
    (hread : ∀ e ∈ flattenAnd selection, ∃ conjunct, read e = .ok conjunct) :
    select.admits (innerScope protectedTable table qualifier principal row r) ↔
      ∀ c ∈ readClauses read (flattenAnd selection),
        c.1.Written protectedTable table qualifier principal row r := by
  rw [forall_readClauses_written_iff hread, ← truth_eq_true_iff, Select.admits, hselection]
  simp

theorem readAsWritten_iff
    (h : policy.clauses compiler protectedTable = some (table, qualifier, clauses)) :
    policy.ReadAsWritten compiler protectedTable ↔ policy.aggregates = false ∧
      NeverDecide (readings protectedTable table qualifier clauses) protectedTable.TypedRow
        table.TypedRow := by
  cases policy with
  | expr e => simp [PolicyExpr.clauses] at h
  | _ =>
    rw [ReadAsWritten, h]
    · simp
    · rintro _ ⟨⟩

variable (compiler protectedTable) in
/-- The bound policy authorizes exactly the rows for which the expression is true. -/
def Means (bound : BoundPolicy) (policy : PolicyExpr) : Prop :=
  ∀ principal row db, protectedTable.TypedRow row → Database.Typed compiler db →
    (bound.authorizes compiler protectedTable principal row db = true ↔
      policy.IsTrue compiler protectedTable principal row db)

variable (compiler protectedTable) in
/-- What an accepted policy with a subquery consists of: clauses over one relation, each read as one
conjunct of the program. -/
structure Accepted (policy : PolicyExpr) (program : PolicyProgram) (table : CatalogTable)
    (qualifier : String) (clauses : List (Clause × Conjunct)) : Prop where
  clauses_eq : policy.clauses compiler protectedTable = some (table, qualifier, clauses)
  resolves : compiler.resolveTable table.tableId = .ok table
  readAs : ∀ c ∈ clauses, c.1.ReadAs protectedTable table qualifier c.2
  compiles : ∃ message, PolicyCompiler.relationProgram protectedTable table.tableId
    ((clauses.map Prod.snd).foldl RelationParts.add .empty) message = .ok program
  isTrue_iff : ∀ principal row db, policy.IsTrue compiler protectedTable principal row db ↔
    policy.aggregates = true ∨ ∃ r ∈ db table.tableId, ∀ c ∈ clauses,
      c.1.Written protectedTable table qualifier principal row r

/-- **`EXISTS` policies.** -/
theorem compileExists_ok (h : compiler.compileExists protectedTable query = .ok program) :
    ∃ table qualifier clauses, Accepted compiler protectedTable (.exists query false) program
      table qualifier clauses := by
  obtain ⟨⟨select, t, qualifier⟩, hselect, h⟩ := bind_eq_ok_iff.mp h
  dsimp only at h
  split at h
  · obtain ⟨table, htable, h⟩ := bind_eq_ok_iff.mp h
    obtain ⟨-, -, h⟩ := bind_eq_ok_iff.mp h
    split at h
    · next selection hselection =>
      obtain ⟨parts, hparts, h⟩ := bind_eq_ok_iff.mp h
      obtain ⟨hread, rfl⟩ := compileExistsPredicates_ok hparts
      obtain ⟨hplain, hsource⟩ := authorizationSelect_ok hselect
      obtain rfl := compiler.tableId_of_resolveTable htable
      have hsource := hsource table htable
      refine ⟨table, qualifier, _, ?_, htable, fun c hc => ?_, ⟨_, h⟩, fun principal row db => ?_⟩
      · simp [clauses, hplain, hsource, hselection]
      · obtain ⟨e, he, hconjunct⟩ := exists_of_mem_readClauses hc
        rw [he]
        exact .inl hconjunct
      · simp [PolicyExpr.IsTrue, aggregates, body_of_plainSelect hplain, hplain, hsource,
          admits_iff_forall_written hselection hread]
    · cases h
  · cases h

/-- **`IN` policies.** -/
theorem compileInSubquery_ok (h : compiler.compileInSubquery protectedTable e query = .ok program) :
    ∃ table qualifier clauses, Accepted compiler protectedTable (.inSubquery e query false) program
      table qualifier clauses := by
  unfold PolicyCompiler.compileInSubquery at h
  split at h
  · next owner protectedColumn hcolumn =>
    obtain ⟨protectedKey, hprotected, h⟩ := bind_eq_ok_iff.mp h
    obtain ⟨⟨select, t, qualifier⟩, hselect, h⟩ := bind_eq_ok_iff.mp h
    dsimp only at h
    split at h
    · next projection hprojection =>
      split at h
      · next owner' projected hprojected =>
        obtain ⟨_, howner, h⟩ := bind_eq_ok_iff.mp h
        obtain ⟨table, htable, h⟩ := bind_eq_ok_iff.mp h
        obtain ⟨-, -, h⟩ := bind_eq_ok_iff.mp h
        obtain ⟨relationKey, hrelation, h⟩ := bind_eq_ok_iff.mp h
        split at h
        · next selection hselection =>
          obtain ⟨parts, hparts, h⟩ := bind_eq_ok_iff.mp h
          obtain ⟨hread, rfl⟩ := compileRelationPredicates_ok hparts
          obtain ⟨hplain, hsource⟩ := authorizationSelect_ok hselect
          obtain rfl := compiler.tableId_of_resolveTable htable
          have hsource := hsource table htable
          have howner' : owner'.all (eqIgnoreAsciiCase · qualifier) = true := by
            unfold ensureRelationColumn at howner
            split_ifs at howner with hall
            exact hall
          refine ⟨table, qualifier, (.member e projection, .correlation relationKey protectedKey) ::
            readClauses (inConjunct table qualifier) (flattenAnd selection), ?_, htable,
            forall_mem_cons.mpr ⟨⟨⟨owner, protectedColumn, hcolumn, hprotected⟩, owner',
              projected, hprojected, howner', hrelation⟩, fun c hc => ?_⟩, ⟨_, h⟩,
            fun principal row db => ?_⟩
          · simp [clauses, hplain, hsource, hselection, hprojection, hcolumn,
              hprotected, hprojected, hrelation, Except.toOption]
          · obtain ⟨e, he, hconjunct⟩ := exists_of_mem_readClauses hc
            rw [he]
            exact .inr hconjunct
          · simp [PolicyExpr.IsTrue, aggregates, hplain, hsource, hprojection, Clause.Written,
              and_comm, admits_iff_forall_written hselection hread]
        · cases h
      · cases h
    · cases h
  · cases h

variable (policyId : PolicyId) (generation : ℕ)

/-- **Policies with a subquery.** -/
theorem Accepted.means_iff
    (h : Accepted compiler protectedTable policy program table qualifier clauses)
    (hplain : ∀ c ∈ clauses, c.2.Plain protectedTable table) :
    Means compiler protectedTable ⟨policyId, generation, program⟩ policy ↔
      policy.ReadAsWritten compiler protectedTable := by
  obtain ⟨message, hprogram⟩ := h.compiles
  rw [readAsWritten_iff h.clauses_eq]
  cases hagg : policy.aggregates with
  | false =>
    rw [and_iff_right rfl, neverDecide_iff (readings_written_iff h.readAs hplain)]
    have hparts : ∀ principal row r, RelationParts.HoldUnless protectedTable table false false
        principal row r ((clauses.map Prod.snd).foldl RelationParts.add .empty) ↔
        ∀ rd ∈ readings protectedTable table qualifier clauses, rd.asRead principal row r := by
      intro principal row r
      rw [holdUnless_foldl_add qualifier]
      refine and_iff_right ⟨.inr ?_, .inr ?_, ?_⟩ <;> simp [RelationParts.empty]
    simp only [Means, h.isTrue_iff, hagg, Bool.false_eq_true, false_or, hparts,
      authorizes_relationProgram_iff hprogram h.resolves, ← forall_readings_written_iff]
    constructor
    · intro hmeans principal row r hrow hr
      have hone := hmeans principal row (singleRow table.tableId r) hrow
        (typed_singleRow h.resolves hr)
      simpa [singleRow] using hone
    · intro hall principal row db hrow hdb
      refine exists_congr fun r => and_congr_right fun hr => ?_
      exact hall principal row r hrow (hdb table.tableId table h.resolves r hr)
  | true =>
    -- over an empty relation the aggregate still has a row
    simp only [Bool.true_eq_false, false_and, iff_false]
    intro hall
    have hempty := hall "" ⟨[]⟩ (fun _ => []) (fun _ _ _ hv => by cases hv) typed_emptyDatabase
    rw [h.isTrue_iff, authorizes_relationProgram_iff hprogram h.resolves] at hempty
    simp [hagg] at hempty

/-- **Row-local policies.** -/
theorem rowLocal_means_iff {shape : BoundExprShape}
    (h : compileRowLocal protectedTable e = .ok shape)
    (hplain : (expr e).ComparesPlainColumns compiler protectedTable) :
    Means compiler protectedTable ⟨policyId, generation, .rowLocal shape⟩ (.expr e) ↔
      (expr e).ReadAsWritten compiler protectedTable := by
  have hreading : ∀ rd ∈ [rowLocalReading protectedTable e shape], ¬ rd.misread →
      ∀ principal row r, protectedTable.TypedRow row → True →
        (rd.written principal row r ↔ rd.asRead principal row r) := by
    intro rd hrd hnot principal row r hrow _
    obtain rfl := mem_singleton.mp hrd
    exact rowLocal_written_iff h hplain hnot hrow
  have hauth : ∀ principal row db, (BoundPolicy.mk policyId generation
      (.rowLocal shape)).authorizes compiler protectedTable principal row db = true ↔
      evaluateRowLocal protectedTable row principal shape = .true := by
    simp [BoundPolicy.authorizes, BoundTablePolicies.authorizesRowWithSets,
      BoundTablePolicies.policyAuthorizes]
  have hwritten : (expr e).ReadAsWritten compiler protectedTable ↔
      NeverDecide [rowLocalReading protectedTable e shape] protectedTable.TypedRow
        fun _ => True := by
    refine ⟨fun hall => hall shape h, fun hnever shape' h' => ?_⟩
    obtain rfl := Except.ok.inj (h.symm.trans h')
    exact hnever
  rw [hwritten, neverDecide_iff hreading]
  simp only [Means, forall_mem_singleton, hauth]
  constructor
  · intro hall principal row r hrow _
    exact hall principal row (fun _ => []) hrow typed_emptyDatabase
  · intro hall principal row db hrow _
    exact hall principal row ⟨[]⟩ hrow trivial

/-- **A compiled policy means its SQL** exactly when it is read as it is written. -/
theorem authorizes_iff_isTrue_iff (compiler : PolicyCompiler) (protectedTable : CatalogTable)
    (policy : PolicyExpr) (program : PolicyProgram) (policyId : PolicyId) (generation : ℕ)
    (hcompile : compiler.compile protectedTable policy = .ok program)
    (hplain : policy.ComparesPlainColumns compiler protectedTable) :
    (∀ principal row db, protectedTable.TypedRow row → Database.Typed compiler db →
      ((BoundPolicy.mk policyId generation program).authorizes compiler protectedTable
          principal row db = true ↔
        policy.IsTrue compiler protectedTable principal row db)) ↔
      policy.ReadAsWritten compiler protectedTable := by
  unfold PolicyCompiler.compile at hcompile
  split at hcompile
  · obtain ⟨table, qualifier, clauses, h⟩ := compileInSubquery_ok hcompile
    exact h.means_iff policyId generation (hplain table qualifier clauses h.clauses_eq)
  · obtain ⟨table, qualifier, clauses, h⟩ := compileExists_ok hcompile
    exact h.means_iff policyId generation (hplain table qualifier clauses h.clauses_eq)
  · cases hcompile
  · cases hcompile
  · rename_i e
    cases hshape : compileRowLocal protectedTable e with
    | error message => simp [hshape, Except.map] at hcompile
    | ok shape =>
      simp only [hshape, Except.map, Except.ok.injEq] at hcompile
      subst hcompile
      exact rowLocal_means_iff policyId generation hshape hplain

end Compile

/-! ### A lost predicate and a narrow column -/

/-- `CREATE SHARED TABLE tasks (id BIGINT PRIMARY KEY, project BIGINT, level SMALLINT)`. -/
def tasksTable : CatalogTable where
  namespaceId := "app"
  tableName := "tasks"
  isShared := true
  definition :=
    { columns := [⟨1, "id", .bigInt, true⟩, ⟨2, "project", .bigInt, false⟩,
        ⟨3, "level", .smallInt, false⟩]
      nextColumnId := 4
      scalarIndexes := []
      names_nodup := by decide
      exists_primaryKey := by decide }
  ids_nodup := by decide

/-- `CREATE SHARED TABLE assignments (id BIGINT PRIMARY KEY, assignee TEXT, reviewer TEXT,
project BIGINT)`. -/
def assignmentsTable : CatalogTable where
  namespaceId := "app"
  tableName := "assignments"
  isShared := true
  definition :=
    { columns := [⟨1, "id", .bigInt, true⟩, ⟨2, "assignee", .text, false⟩,
        ⟨3, "reviewer", .text, false⟩, ⟨4, "project", .bigInt, false⟩]
      nextColumnId := 5
      scalarIndexes := []
      names_nodup := by decide
      exists_primaryKey := by decide }
  ids_nodup := by decide

def tasksCatalog : PolicyCompiler where
  parseNamespace := .ok
  parseTableName := .ok
  resolveTable t := if t = assignmentsTable.tableId then .ok assignmentsTable
    else .error "table does not exist"
  tableId_of_resolveTable := by
    intro t table h
    split_ifs at h with ht
    cases h
    exact ht.symm

/-- `EXISTS (SELECT 1 FROM assignments WHERE ..)`. -/
def assignmentExists (selection : SqlExpr) : PolicyExpr :=
  .exists
    { ctes := false, orderBy := false, limitClause := false, fetch := false, locks := false
      forClause := false
      body := some
        { distinct := false
          projection := [.unnamedExpr (.value (.number ⟨1, none⟩))]
          aggregates := false
          fromTables := [⟨.table [some "assignments"] none false, false⟩]
          groupBy := false, having := false, namedWindow := false, qualify := false
          selection := some selection } } false

/-- `assignments.project = tasks.project`. -/
def sameProject : SqlExpr :=
  .binaryOp (.compoundIdentifier ["assignments", "project"]) .eq
    (.compoundIdentifier ["tasks", "project"])

/-- `column = CURRENT_USER`. -/
def isUser (column : String) : SqlExpr :=
  .binaryOp (.identifier column) .eq (.function "CURRENT_USER" 0)

/-- Tasks of projects that the user is both assigned to and reviews. -/
def assignedAndReviewed : PolicyExpr :=
  assignmentExists (.binaryOp (.binaryOp sameProject .and (isUser "assignee")) .and
    (isUser "reviewer"))

/-- The tasks of level 5. -/
def levelFive : PolicyExpr :=
  .expr (.binaryOp (.identifier "level") .eq (.value (.number ⟨5, none⟩)))

def task (id project : Int64) (level : Int16) : Row :=
  ⟨[("id", .int64 id), ("project", .int64 project), ("level", .int16 level)]⟩

/-- Bob is assigned to project 7, Alice reviews it. -/
def reviewDatabase : Database := fun t =>
  if t = assignmentsTable.tableId then
    [⟨[("id", .int64 1), ("assignee", .utf8 "bob"), ("reviewer", .utf8 "alice"),
      ("project", .int64 7)]⟩]
  else []

/-- What the two policies are compiled to: the test of the assignee is gone. -/
def reviewedRelation : PolicyProgram := .authorizationRelation
  { protectedTable := tasksTable.tableId
    protectedKeys := [2]
    relationTable := assignmentsTable.tableId
    relationKeys := [4]
    principalColumn := 3
    principal := .currentUser
    staticPredicates := [] }

/-- **A lost predicate and a narrow column.** Alice reviews project 7 and is not assigned to it;
the policy that asks for both authorizes its tasks. The policy `level = 5` authorizes no task
of level 5, because the column is a `SMALLINT`. -/
theorem authorizes_ne_isTrue :
    (tasksCatalog.compile tasksTable assignedAndReviewed = .ok reviewedRelation ∧
      (BoundPolicy.mk (tasksTable.tableId, "both") 1 reviewedRelation).authorizes tasksCatalog
        tasksTable "alice" (task 1 7 5) reviewDatabase = true ∧
      ¬ assignedAndReviewed.IsTrue tasksCatalog tasksTable "alice" (task 1 7 5) reviewDatabase) ∧
    (tasksCatalog.compile tasksTable levelFive =
        .ok (.rowLocal (.columnEqualsScalar 3 (.int64 5))) ∧
      (BoundPolicy.mk (tasksTable.tableId, "level") 1
        (.rowLocal (.columnEqualsScalar 3 (.int64 5)))).authorizes tasksCatalog tasksTable
        "alice" (task 1 7 5) reviewDatabase = false ∧
      levelFive.IsTrue tasksCatalog tasksTable "alice" (task 1 7 5) reviewDatabase) := by
  refine ⟨⟨by rfl, by rfl, ?_⟩, by rfl, by rfl, ?_⟩
  · rintro ⟨select, table, qualifier, hselect, hsource, hrow⟩
    cases hselect
    cases hsource
    rcases hrow.mpr rfl with haggregates | ⟨r, hr, hadmits⟩
    · cases haggregates
    · obtain rfl := mem_singleton.mp hr
      exact absurd (hadmits _ rfl) (by decide)
  · have hcell : (SqlExpr.identifier "level").eval
        (outerScope tasksTable "alice" (task 1 7 5)) = some (.number (5 : Int16).toInt) := rfl
    have hfive : (⟨5, none⟩ : NumberLiteral).value = 5 := by simp [NumberLiteral.value]
    simp only [levelFive, PolicyExpr.IsTrue, SqlExpr.truth, hcell]
    simp [SqlExpr.eval, Value.toSql, hfive, SqlValue.eq]

/-- Tasks of projects that the user is assigned to and that Carol does not review. -/
def assignedNotCarol : PolicyExpr :=
  assignmentExists (.binaryOp (.binaryOp sameProject .and (isUser "assignee")) .and
    (.binaryOp (.identifier "reviewer") .notEq (.value (.singleQuotedString "carol"))))

def assignedNotCarolClauses : List (Clause × Conjunct) :=
  [(.predicate sameProject, .correlation 4 2), (.predicate (isUser "assignee"), .principal 2),
    (.predicate (.binaryOp (.identifier "reviewer") .notEq
      (.value (.singleQuotedString "carol"))), .static ⟨3, .notEq, .string "carol"⟩)]

def assignedNotCarolRelation : PolicyProgram := .authorizationRelation
  { protectedTable := tasksTable.tableId
    protectedKeys := [2]
    relationTable := assignmentsTable.tableId
    relationKeys := [4]
    principalColumn := 2
    principal := .currentUser
    staticPredicates := [⟨3, .notEq, .string "carol"⟩] }

/-- No condition of this policy is misread. -/
theorem authorizes_iff_isTrue_assigned :
    tasksCatalog.compile tasksTable assignedNotCarol = .ok assignedNotCarolRelation ∧
      ∀ principal row db, tasksTable.TypedRow row → Database.Typed tasksCatalog db →
        ((BoundPolicy.mk (tasksTable.tableId, "assigned") 1 assignedNotCarolRelation).authorizes
            tasksCatalog tasksTable principal row db = true ↔
          assignedNotCarol.IsTrue tasksCatalog tasksTable principal row db) := by
  have hcompile : tasksCatalog.compile tasksTable assignedNotCarol =
      .ok assignedNotCarolRelation := by rfl
  have hclauses : assignedNotCarol.clauses tasksCatalog tasksTable =
      some (assignmentsTable, "assignments", assignedNotCarolClauses) := by rfl
  have hplain : assignedNotCarol.ComparesPlainColumns tasksCatalog tasksTable := by
    intro table qualifier clauses h
    obtain ⟨rfl, rfl, rfl⟩ : assignmentsTable = table ∧ "assignments" = qualifier ∧
        assignedNotCarolClauses = clauses := by simpa using hclauses.symm.trans h
    simp [assignedNotCarolClauses, Conjunct.Plain, CatalogTable.PlainColumn, CatalogTable.typeOf,
      assignmentsTable, tasksTable, isPlainType, isIntegerType]
  have hread : assignedNotCarol.ReadAsWritten tasksCatalog tasksTable := by
    refine NothingMisread.readAsWritten _ _ fun table qualifier clauses h => ⟨rfl, ?_⟩
    obtain ⟨rfl, rfl, rfl⟩ : assignmentsTable = table ∧ "assignments" = qualifier ∧
        assignedNotCarolClauses = clauses := by simpa using hclauses.symm.trans h
    have hcaptured : eqIgnoreAsciiCase "assignments" "tasks" = false := by decide
    have hquoted : eqIgnoreAsciiCase "assignee" "CURRENT_USER" = false := by decide
    simp [assignedNotCarolClauses, readings, Clause.Misread, MixedKeys, MixedIntegers, Misfit,
      Conjunct.isPrincipal, Conjunct.isCorrelation, SqlExpr.comparesQuotedCurrentUser,
      SqlExpr.isQuotedCurrentUser, CatalogTable.typeOf, assignmentsTable, tasksTable, isUser,
      hcaptured, hquoted]
  exact ⟨hcompile, (authorizes_iff_isTrue_iff tasksCatalog tasksTable assignedNotCarol _ _ 1
    hcompile hplain).mpr hread⟩

end KalamDB.Rls
