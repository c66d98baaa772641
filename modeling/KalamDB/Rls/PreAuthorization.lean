import KalamDB.Sql.Expr
import KalamDB.Rls.Comparisons
import KalamDB.Rls.Revocation

/-!
# Row-level security: scans that are refused before they start

When the only policy of a table is a membership over one protected column, and the filter of a
scan pins that column to literals, `preAuthorizeScan` asks the membership for the literals and
refuses the scan if none of them is a key. The literals are those of **one** conjunct of the
filter.

A refused scan and a scan that is run and filtered agree while the membership does not change, if
no other column has the name of the protected one up to case and the column has no UUIDs
(`hidesNothing_iff_distinct`). The constraint is read off the filter with `eq_ignore_ascii_case`,
rows and filters use names as they are. `CREATE TABLE` and `ADD COLUMN` keep such names apart,
`RENAME COLUMN` compares exactly and does not. UUIDs of hot rows are **plain bytes** for a
membership, and the literal of a filter is a UUID.
-/

namespace KalamDB.Rls

open Resumption List Reader AuthorizationSet BoundTablePolicies

/-! ### The constraint of a filter -/

def columnLiteral (columnExpression valueExpression : Expr) (protectedColumn : String) :
    Option ScalarValue :=
  match columnExpression, valueExpression with
  | .column name, .literal value =>
    if eqIgnoreAsciiCase name protectedColumn then some value else none
  | _, _ => none

/-- The literals of the first conjunct that compares the column with literals. -/
def extractValues (protectedColumn : String) : Expr → Option (List ScalarValue)
  | .binaryExpr l .eq r =>
    ((columnLiteral l r protectedColumn).or (columnLiteral r l protectedColumn)).map fun v => [v]
  | .binaryExpr l .and r => (extractValues protectedColumn l).or (extractValues protectedColumn r)
  | .inList (.column name) false items _ =>
    if eqIgnoreAsciiCase name protectedColumn then items.mapM id else none
  | _ => none

def extractAuthorizationConstraint (filter : Option Expr) (protectedColumn : String) :
    Option (List ScalarValue) :=
  (filter.bind (extractValues protectedColumn)).filter fun values => !values.isEmpty

/-- The column a single membership policy protects. -/
def protectedColumn (host : CatalogTable) (policies : BoundTablePolicies) :
    Option ColumnDefinition :=
  (singleMembershipPolicy policies).bind fun (_, relation) =>
    relation.protectedKeys.head?.bind fun key =>
      host.definition.columns.find? fun c => c.columnId == key

/-- The early test of a scan with a filter. -/
def preAuthorizeFilter (tables : TableId → Option CatalogTable) (host : CatalogTable)
    (policies : BoundTablePolicies) (snapshot : Option VersionId) (filter : Option Expr) :
    Reader (Except String Bool) :=
  preAuthorizeScan tables host policies snapshot
    ((protectedColumn host policies).bind fun column =>
      extractAuthorizationConstraint filter column.columnName)

/-! ### Rows that satisfy a filter -/

section Filter

variable (host : CatalogTable) (other : Expr → Row → Bool)

/-- A cell as the engine sees it in a column of the type: the plain bytes of a UUID are a UUID. -/
def readCell (type : KalamDataType) : ScalarValue → ScalarValue
  | .binary bytes =>
    if h : type = .uuid ∧ bytes.length = 16 then .fixedSizeBinary16 ⟨bytes, h.2⟩ else .binary bytes
  | value => value

/-- The cell of a column of the table is the literal, and not null. -/
def cellEquals (row : Row) (name : String) (value : ScalarValue) : Bool :=
  !isNull value && host.definition.columns.any fun c =>
    c.columnName == name && (row.get name).map (readCell c.dataType) == some value

/-- A row satisfies a filter. What the engine makes of expressions other than conjunctions and
comparisons of a column with literals is given by `other`. -/
def satisfies : Expr → Row → Bool
  | .binaryExpr l .and r, row => satisfies l row && satisfies r row
  | .binaryExpr (.column name) .eq (.literal value), row => cellEquals host row name value
  | .binaryExpr (.literal value) .eq (.column name), row => cellEquals host row name value
  | .inList (.column name) false items columns, row =>
    match items.mapM id with
    | some values => values.any (cellEquals host row name)
    | none => other (.inList (.column name) false items columns) row
  | e, row => other e row

/-- No other column has the name of the column up to case. -/
def NameDistinct (column : ColumnDefinition) : Prop :=
  ∀ c ∈ host.definition.columns,
    eqIgnoreAsciiCase c.columnName column.columnName = true → c.columnName = column.columnName

variable {host other} {row : Row} {name : String} {value : ScalarValue} {column : ColumnDefinition}

theorem readCell_of_ne_uuid {type : KalamDataType} (h : type ≠ .uuid) (value : ScalarValue) :
    readCell type value = value := by
  cases value <;> simp [readCell, h]

section

variable (hdistinct : NameDistinct host column) (hcolumn : column ∈ host.definition.columns)
  (huuid : column.dataType ≠ .uuid)
include hdistinct hcolumn huuid

theorem get_of_cellEquals (hname : eqIgnoreAsciiCase name column.columnName = true)
    (h : cellEquals host row name value = true) : row.get column.columnName = some value := by
  simp only [cellEquals, Bool.and_eq_true, any_eq_true, beq_iff_eq] at h
  obtain ⟨-, c, hc, rfl, hget⟩ := h
  have heq := hdistinct c hc hname
  obtain rfl : c = column := inj_on_of_nodup_map host.definition.names_nodup hc hcolumn heq
  obtain ⟨cell, hcell, rfl⟩ := Option.map_eq_some_iff.mp hget
  rw [hcell, readCell_of_ne_uuid huuid]

/-- **The constraint is a consequence of the filter.** -/
theorem mem_of_extractValues {e : Expr} {values : List ScalarValue}
    (hvalues : extractValues column.columnName e = some values)
    (hrow : satisfies host other e row = true) :
    ∃ v ∈ values, row.get column.columnName = some v := by
  fun_induction extractValues column.columnName e generalizing values with
  | case1 l r =>
    obtain ⟨v, hv, rfl⟩ := Option.map_eq_some_iff.mp hvalues
    refine ⟨v, mem_singleton_self v, ?_⟩
    rcases Option.or_eq_some_iff.mp hv with h | ⟨-, h⟩
    all_goals
      unfold columnLiteral at h
      split at h
      · split_ifs at h with hname
        cases h
        exact get_of_cellEquals hdistinct hcolumn huuid hname hrow
      · cases h
  | case2 l r ihl ihr =>
    simp only [satisfies, Bool.and_eq_true] at hrow
    rcases Option.or_eq_some_iff.mp hvalues with h | ⟨-, h⟩
    · exact ihl h hrow.1
    · exact ihr h hrow.2
  | case3 name items columns hname =>
    simp only [satisfies, hvalues, any_eq_true] at hrow
    obtain ⟨v, hv, hcell⟩ := hrow
    exact ⟨v, hv, get_of_cellEquals hdistinct hcolumn huuid hname hcell⟩
  | case4 | case5 => cases hvalues

end

end Filter

/-! ### Readers that run alone -/

section Alone

variable {table host : CatalogTable} {policy : BoundPolicy} {relation : AuthorizationRelation}
  {principal : String} {snapshot : Option VersionId} {s : Shared} {t : TableId}
  {tables : TableId → Option CatalogTable} {policies : BoundTablePolicies} {rows : List Row}

theorem runAlone_findWinners (seen : List ScalarValue) (rows : List Row) :
    ((findWinners table t seen rows).runAlone execute s).2 = s := by
  fun_induction findWinners table t seen rows with
  | case1 => rfl
  | case2 _ _ _ _ ih | case3 _ _ _ _ _ _ ih => exact ih
  | case4 _ _ _ _ _ _ ih =>
    rw [Prog.runAlone_bind, Prog.runAlone_bind]
    exact ih

/-- A load reads only, and gives a set for the relation it is asked for. -/
theorem runAlone_load (table : CatalogTable) (relation : AuthorizationRelation)
    (principal : String) (snapshot : Option VersionId) (s : Shared) :
    ∃ set, (loadMembershipAuthorizationSet table relation principal snapshot).runAlone execute s =
      (set, s) ∧ set.relation = relation := by
  unfold loadMembershipAuthorizationSet
  split_ifs
  · rw [Prog.runAlone_bind, Prog.runAlone_bind, runAlone_findWinners]
    exact ⟨_, rfl, fromRelationRows_relation _⟩
  · exact ⟨_, rfl, fromRelationRows_relation _⟩

theorem runAlone_isUnchanged (hquiet : (s.relations t).activeMutations = 0) :
    (isUnchanged t (s.relations t).generation).runAlone execute s = (true, s) := by
  simp [isUnchanged, generation, hasActiveMutations, execute, hquiet, -bind_pure_comp]

theorem runAlone_isCurrent (hquiet : (s.relations t).activeMutations = 0) :
    (isCurrent t (s.relations t).generation).runAlone execute s = (true, s) := by
  simp [isCurrent, generation, hasActiveMutations, execute, hquiet, -bind_pure_comp]

/-- No mutation of the membership is active, and a set that is cached for it was made for the
columns that its program protects. The key of the cache does not tell the programs of a policy
apart. -/
structure Steady (policy : BoundPolicy) (relation : AuthorizationRelation) (principal : String)
    (snapshot : Option VersionId) (s : Shared) : Prop where
  quiet : (s.relations relation.relationTable).activeMutations = 0
  cached : ∀ set, s.cache.sets.lookup (authorizationCacheKey policy principal
    relation.relationTable (s.relations relation.relationTable).generation snapshot) =
      some set → set.relation.protectedKeys = relation.protectedKeys

/-- **A steady membership** is one set over the protected columns, for the early test and for the
scan. -/
theorem Steady.exists_set (h : Steady policy relation principal snapshot s) (table : CatalogTable) :
    ∃ set, set.relation.protectedKeys = relation.protectedKeys ∧
      (∃ cache, (bindRelation table policy relation principal snapshot
        (s.relations relation.relationTable).generation).runAlone execute s =
          (.ok set, { s with cache := cache })) ∧
      ∀ values, ((preAuthorizeKeys table policy relation principal snapshot values).runAlone
        execute s).1 = .ok false → ∀ value ∈ values, set.containsKey [value] = false := by
  cases hcached : s.cache.sets.lookup (authorizationCacheKey policy principal
      relation.relationTable (s.relations relation.relationTable).generation snapshot) with
  | some set =>
    refine ⟨set, h.cached set hcached, ⟨s.cache, ?_⟩, fun values => ?_⟩
    · simp [bindRelation, runAlone_isCurrent h.quiet, cacheGet, execute, hcached,
        runAlone_isUnchanged h.quiet]
    · simp [preAuthorizeKeys, generation, hasActiveMutations, cacheGet,
        execute, h.quiet, hcached, runAlone_isUnchanged h.quiet]
  | none =>
    obtain ⟨set, hload, hset⟩ := runAlone_load table relation principal snapshot s
    obtain ⟨cache, hcache⟩ : ∃ cache, (loadAndCache table policy relation principal snapshot
        (s.relations relation.relationTable).generation).runAlone execute s =
          (some set, { s with cache := cache }) := by
      simp only [loadAndCache, Prog.runAlone_bind, hload, runAlone_isUnchanged h.quiet]
      exact ⟨_, rfl⟩
    refine ⟨set, by rw [hset], ⟨cache, ?_⟩, fun values => ?_⟩
    · simp [bindRelation, runAlone_isCurrent h.quiet, cacheGet, execute, hcached, hcache]
    · simp [preAuthorizeKeys, generation, hasActiveMutations, cacheGet, execute, h.quiet, hcached]
      split_ifs <;> simp [hcache]

/-- **A scan under one membership** keeps the rows of the set that is bound. -/
theorem runAlone_authorizeResolvedRows {set : AuthorizationSet} {cache : AuthorizationCache}
    (hsingle : singleMembershipPolicy policies = some (policy, relation))
    (hbypass : policies.bypass = false)
    (htable : resolveRelationProvider tables relation.relationTable = .ok table)
    (hquiet : (s.relations relation.relationTable).activeMutations = 0)
    (hbind : (bindRelation table policy relation policies.principal snapshot
      (s.relations relation.relationTable).generation).runAlone execute s =
        (.ok set, { s with cache := cache })) :
    ((authorizeResolvedRows tables host policies snapshot rows).runAlone execute s).1 =
      .ok (rows.filter (set.containsProtectedRow host)) := by
  obtain ⟨hpolicies, hprogram⟩ := singleMembershipPolicy_eq_some hsingle
  have hcurrent : (isCurrent relation.relationTable
      (s.relations relation.relationTable).generation).runAlone execute
        { s with cache := cache } = (true, { s with cache := cache }) := runAlone_isCurrent hquiet
  simp [authorizeResolvedRows, isDefaultDeny, hbypass, hpolicies,
    bindAuthorization, bindPolicies, hprogram, htable, captureDependency, generation,
    execute, hbind, allCurrent, hcurrent, BoundAuthorization.filterAuthorized,
    authorizesRowWithSets, policyAuthorizes,
    -AList.insert_empty]

end Alone

/-! ### Refusing a scan -/

section Main

variable (host : CatalogTable) (column : ColumnDefinition)

/-- **Refusing a scan hides nothing.** For all policies that protect the column and all filters,
when the early test refuses a scan under a steady membership, running the scan gives no row that
satisfies the filter; it fails only when the relation table is unavailable. -/
def HidesNothing : Prop :=
  ∀ (tables : TableId → Option CatalogTable) (other : Expr → Row → Bool)
    (policies : BoundTablePolicies) (snapshot : Option VersionId) (filter : Option Expr)
    (rows : List Row) (s : Shared),
    (∀ c, protectedColumn host policies = some c → c = column) →
    (∀ policy relation, singleMembershipPolicy policies = some (policy, relation) →
      Steady policy relation policies.principal snapshot s) →
    ((preAuthorizeFilter tables host policies snapshot filter).runAlone execute s).1 = .ok false →
    match ((authorizeResolvedRows tables host policies snapshot rows).runAlone execute s).1 with
    | .ok kept => ∀ row ∈ kept, ∃ e ∈ filter, satisfies host other e row = false
    | .error error => ∃ policy relation,
        singleMembershipPolicy policies = some (policy, relation) ∧
        resolveRelationProvider tables relation.relationTable = .error error

variable {host column}

theorem hidesNothing_of_distinct (hdistinct : NameDistinct host column)
    (huuid : column.dataType ≠ .uuid) : HidesNothing host column := by
  intro tables other policies snapshot filter rows s hprotected hsteady hrefused
  unfold preAuthorizeFilter preAuthorizeScan at hrefused
  split_ifs at hrefused with hbypass hdeny
  · cases hrefused
  · simp [authorizeResolvedRows, hbypass, hdeny]
  split at hrefused
  · cases hrefused
  rename_i policy relation hsingle
  have hbypass : policies.bypass = false := by simpa using hbypass
  cases htable : resolveRelationProvider tables relation.relationTable with
  | error error =>
    obtain ⟨hpolicies, hprogram⟩ := singleMembershipPolicy_eq_some hsingle
    simp [authorizeResolvedRows, hbypass, hdeny, bindAuthorization, bindPolicies, hpolicies,
      hprogram, htable, hsingle]
  | ok table =>
    have h := hsteady policy relation hsingle
    obtain ⟨set, hset, ⟨cache, hbind⟩, hnone⟩ := h.exists_set table
    rw [runAlone_authorizeResolvedRows hsingle hbypass htable h.quiet hbind]
    intro row hrow
    split at hrefused
    · rename_i key hkeys
      have hcontains := (mem_filter.mp hrow).2
      simp only [containsProtectedRow, hset, hkeys, Option.any_eq_true, Bool.and_eq_true]
        at hcontains
      obtain ⟨value, hget, -, hcontains⟩ := hcontains
      unfold columnValue at hget
      split at hget
      swap
      · cases hget
      rename_i c hfind
      obtain rfl : c = column := hprotected c (by
        simp [protectedColumn, hsingle, hkeys, hfind])
      simp only [hfind, Option.isNone_some, Bool.false_eq_true, if_false, protectedColumn, hsingle,
        hkeys, Option.bind_some, head?_cons] at hrefused
      split at hrefused
      · cases hrefused
      rename_i values hconstraint
      rw [htable] at hrefused
      simp only [extractAuthorizationConstraint, Option.filter_eq_some_iff,
        Option.bind_eq_some_iff] at hconstraint
      obtain ⟨⟨e, hfilter, hvalues⟩, -⟩ := hconstraint
      refine ⟨e, hfilter, Bool.eq_false_iff.mpr fun hrow => ?_⟩
      obtain ⟨v, hv, hv'⟩ := mem_of_extractValues hdistinct (mem_of_find?_eq_some hfind) huuid
        hvalues hrow
      obtain rfl : value = v := Option.some.inj (hget.symm.trans hv')
      exact Bool.noConfusion (hcontains.symm.trans (hnone values hrefused value hv))
    · cases hrefused

/-- A scan that is refused and hides a row: the membership over the column holds the row's cell and
not the literal that the filter seems to ask for. -/
theorem not_hidesNothing (cell literal : ScalarValue) (filter : Expr) (row : Row)
    (hcolumn : column ∈ host.definition.columns)
    (hcell : row.get column.columnName = some cell) (hnull : isNull cell = false)
    (hne : literal ≠ cell) (hextract : extractValues column.columnName filter = some [literal])
    (hsat : satisfies host (fun _ _ => false) filter row = true) : ¬ HidesNothing host column := by
  intro h
  let relation := { teamMembership with protectedKeys := [column.columnId] }
  let policy : BoundPolicy :=
    ⟨(documentsTable.tableId, "by_team"), 1, .authorizationRelation relation⟩
  let policies : BoundTablePolicies := ⟨"alice", false, [policy]⟩
  let set : AuthorizationSet := ⟨relation, .single [cell]⟩
  let key := authorizationCacheKey policy "alice" relation.relationTable 0 none
  let s : Shared := ⟨fun _ => ⟨0, 0, [], []⟩, AuthorizationCache.empty.insert key set, []⟩
  have hfind := host.find?_columnId hcolumn
  have hprotected : protectedColumn host policies = some column := by
    simp [protectedColumn, policies, singleMembershipPolicy, policy, relation, hfind]
  have hsteady : Steady policy relation "alice" none s := ⟨rfl, fun set' h' => by cases h'; rfl⟩
  have hbind : (bindRelation teamMembersTable policy relation "alice" none 0).runAlone execute s =
      (.ok set, s) := rfl
  have hrefused : ((preAuthorizeFilter teamCatalog host policies none (some filter)).runAlone
      execute s).1 = .ok false := by
    have hnot : set.containsKey [literal] = false := by simp [set, containsKey, hne]
    simp [preAuthorizeFilter, preAuthorizeScan, policies, singleMembershipPolicy, policy, relation,
      hfind, protectedColumn, extractAuthorizationConstraint, hextract]
    change Except.ok (set.containsKey [literal] || false) = _
    rw [hnot, Bool.or_false]
  have hres := h teamCatalog (fun _ _ => false) policies none (some filter) [row] s
    (fun c hc => Option.some.inj (hc.symm.trans hprotected))
    (fun _ _ hsingle => by cases hsingle; exact hsteady) hrefused
  rw [runAlone_authorizeResolvedRows rfl rfl rfl rfl hbind] at hres
  obtain ⟨e, ⟨⟩, hunsat⟩ := hres row (by
    simp [set, relation, containsProtectedRow, columnValue, hfind, hcell, hnull, containsKey])
  rw [hsat] at hunsat
  cases hunsat

/-- **Refusing a scan hides nothing exactly when the name of the protected column differs from the
others by more than case and the column has no UUIDs.** -/
theorem hidesNothing_iff_distinct (hcolumn : column ∈ host.definition.columns) :
    HidesNothing host column ↔ NameDistinct host column ∧ column.dataType ≠ .uuid := by
  refine ⟨fun h => ⟨fun c hc hname => ?_, fun huuid => ?_⟩,
    fun h => hidesNothing_of_distinct h.1 h.2⟩
  · -- the membership holds the row's value, the filter asks for the value of the other column
    by_contra hne
    let row : Row := ⟨[(column.columnName, .utf8 "red"), (c.columnName, .utf8 "blue")]⟩
    have hred : row.get column.columnName = some (.utf8 "red") := lookup_cons_self
    have hblue : row.get c.columnName = some (.utf8 "blue") := by
      simp [row, Row.get, lookup_cons, beq_eq_false_iff_ne.mpr hne]
    refine not_hidesNothing (.utf8 "red") (.utf8 "blue")
      (.binaryExpr (.column c.columnName) .eq (.literal (.utf8 "blue"))) row hcolumn hred rfl
      (by decide) (by simp [extractValues, columnLiteral, hname]) ?_ h
    simp only [satisfies, cellEquals, Bool.and_eq_true, any_eq_true]
    exact ⟨rfl, c, hc, by simp [hblue, readCell]⟩
  · -- the membership holds plain bytes, the filter asks for the UUID
    let bytes : UuidBytes := ⟨List.replicate 16 0, rfl⟩
    let row : Row := ⟨[(column.columnName, .binary bytes.val)]⟩
    have hcell : row.get column.columnName = some (.binary bytes.val) := lookup_cons_self
    refine not_hidesNothing (.binary bytes.val) (.fixedSizeBinary16 bytes)
      (.binaryExpr (.column column.columnName) .eq (.literal (.fixedSizeBinary16 bytes))) row
      hcolumn hcell rfl (by simp) (by simp [extractValues, columnLiteral, eqIgnoreAsciiCase]) ?_ h
    simp only [satisfies, cellEquals, Bool.and_eq_true, any_eq_true]
    exact ⟨rfl, column, hcolumn, by simp [hcell, readCell, huuid, bytes]⟩

end Main

/-- The documents after `RENAME COLUMN note TO "TEAM"`. -/
def renamedDocuments : CatalogTable where
  namespaceId := "app"
  tableName := "documents"
  isShared := true
  definition :=
    { columns := [⟨1, "id", .bigInt, true⟩, ⟨2, "team", .text, false⟩, ⟨3, "TEAM", .text, false⟩]
      nextColumnId := 4
      scalarIndexes := []
      names_nodup := by decide
      exists_primaryKey := by decide }
  ids_nodup := by decide

/-- `alice` is in the red team; a scan with `"TEAM" = 'blue'` is refused, although the document
with `team = 'red'` and `"TEAM" = 'blue'` satisfies the filter and is authorized. -/
theorem renamedDocuments_hidden : ¬ HidesNothing renamedDocuments ⟨2, "team", .text, false⟩ :=
  not_hidesNothing (.utf8 "red") (.utf8 "blue")
    (.binaryExpr (.column "TEAM") .eq (.literal (.utf8 "blue")))
    ⟨[("team", .utf8 "red"), ("TEAM", .utf8 "blue")]⟩
    (by decide) (by decide) rfl (by decide) (by decide) (by decide)

/-- Refused scans of the documents hide nothing. -/
theorem documents_not_hidden : HidesNothing documentsTable ⟨2, "team", .text, false⟩ :=
  (hidesNothing_iff_distinct (by decide)).mpr ⟨by unfold NameDistinct; decide, by decide⟩

end KalamDB.Rls
