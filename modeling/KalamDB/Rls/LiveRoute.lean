import KalamDB.Rls.Membership
import KalamDB.SharedTable.KeyText

/-!
# Routes of live authorizations

A live subscription is entered in an index of subscribers under the **route** of its authorization:
the values of single columns by which its policies let rows through. The route never grants access,
it only selects the subscriptions that a change is offered to. So it must not miss a row that the
authorization lets through. The policies compare floating-point numbers with `==`, the route is a
set of cells: a row with `-0.0` that passes a policy `column = 0.0` is not under the key `0.0`.
`liveRoute_reaches` says that nothing else is missed, for rows whose cells have the types of their
columns.
-/

namespace KalamDB.Rls

open PkIndex SharedTable BoundTablePolicies AuthorizationSet Option

/-! ### Typed cells -/

variable {value : ScalarValue} {columnId : ℕ} {principal : String}

/-- The key type whose cells a column of the type stores. -/
def keyType : KalamDataType → Option PkType
  | .boolean => some .boolean
  | .int => some .int32
  | .bigInt => some .int64
  | .smallInt => some .int16
  | .text | .json | .file => some .text
  | .uuid => some .uuid
  | .double | .float | .timestamp | .date | .dateTime | .time | .bytes | .embedding _
  | .decimal _ _ => none

def isCellOf : PkType → ScalarValue → Bool
  | .int8, .int8 _ | .int16, .int16 _ | .int32, .int32 _ | .int64, .int64 _ => true
  | .uint8, .uint8 _ | .uint16, .uint16 _ | .uint32, .uint32 _ | .uint64, .uint64 _ => true
  | .boolean, .boolean _ | .text, .utf8 _ | .uuid, .fixedSizeBinary16 _ => true
  | _, _ => false

theorem exists_cell_eq {keyType : PkType} (h : isCellOf keyType value = true) :
    ∃ key, value = keyType.cell key := by
  cases keyType <;> cases value <;> simp only [isCellOf, Bool.false_eq_true] at h
  all_goals exact ⟨_, rfl⟩

def isBinary : ScalarValue → Bool
  | .binary _ => true
  | _ => false

/-- A cell that is stored in a column of the type. The hot store gives a UUID back as bytes. -/
def storesCell (type : KalamDataType) (value : ScalarValue) : Bool :=
  match keyType type with
  | some keyType => isCellOf keyType value || keyType == .uuid && isBinary value
  | none =>
    match value with
    | .binary _ | .temporal _ _ | .other _ => true
    | _ => false

/-- Every cell of the row is null or has the type of its column. -/
def HasColumnTypes (table : CatalogTable) (row : Row) : Prop :=
  ∀ column ∈ table.definition.columns, ∀ value ∈ row.get column.columnName,
    value = .null ∨ storesCell column.dataType value = true

instance (table : CatalogTable) (row : Row) : Decidable (HasColumnTypes table row) :=
  inferInstanceAs (Decidable (∀ column ∈ table.definition.columns, _))

/-! ### The route -/

/-- The cell of `0.0`. -/
def positiveZero : ScalarValue := .other "0"

/-- The cell of `-0.0`: the same number, another cell. -/
def negativeZero : ScalarValue := .other "-0"

/-- Texts and parsers of the standard library: floating-point numbers, and why a text is not a value
of a type. -/
structure TextFormats where
  floatText : NumberLiteral → String
  parseFloat : String → Option ScalarValue
  parseFailure : KalamDataType → String → String
  parseFloat_zero : parseFloat (floatText ⟨0, some (-1)⟩) = some positiveZero

inductive LiveAuthorizationRoute where
  | broadcast
  | deny
  | keyed (keys : List (ℕ × ScalarValue))
  deriving DecidableEq

variable (formats : TextFormats)

def policyScalarText : PolicyScalar → Option String
  | .null => none
  | .boolean v => some (ScalarValue.boolean v).display
  | .int64 v => some (ScalarValue.int64 v).display
  | .uint64 v => some (ScalarValue.uint64 v).display
  | .float64 v => some (formats.floatText v)
  | .string v => some v

/-- A text as a value of a column. Types without a parser take the text itself. -/
def parseAsColumn (text : String) (type : KalamDataType) : Except String ScalarValue :=
  match keyType type with
  | some keyType =>
    match parseStringAsScalar keyType text with
    | some key => .ok (keyType.cell key)
    | none => .error (formats.parseFailure type text)
  | none =>
    match type with
    | .double | .float =>
      match formats.parseFloat text with
      | some value => .ok value
      | none => .error (formats.parseFailure type text)
    | _ => .ok (.utf8 text)

def routeKey (table : CatalogTable) (columnId : ℕ) (text : String) :
    Except String (ℕ × ScalarValue) :=
  match table.definition.columns.find? fun c => c.columnId == columnId with
  | none => .error ("live RLS route column " ++ toString columnId ++ " does not exist")
  | some column => (parseAsColumn formats text column.dataType).map fun value => (columnId, value)

def displayPolicy (id : PolicyId) : String := id.1.1 ++ "." ++ id.1.2 ++ ":" ++ id.2

def AuthorizationSet.singleKeys (set : AuthorizationSet) : Option (List ScalarValue) :=
  match set.keys with
  | .single keys => some keys
  | .composite _ => none

/-- Is the cell the number of the literal? -/
def isFloat (value : ScalarValue) (literal : NumberLiteral) : Bool :=
  !isNull value && formats.parseFloat (formats.floatText literal) == some value

/-- `==` of a cell and a literal: the cell is its number, or both are zeros. Literals have no
sign. -/
def equalsFloat (value : ScalarValue) (literal : NumberLiteral) : Bool :=
  isFloat formats value literal || isFloat formats positiveZero literal && value == negativeZero

namespace BoundAuthorization

variable (table : CatalogTable) (b : BoundAuthorization)

/-- `policyAuthorizes` with a comparison for columns of floating-point numbers. -/
def policyAuthorizesFloats (equals : ScalarValue → NumberLiteral → Bool) (row : Row)
    (policy : BoundPolicy) : Bool :=
  match policy.program with
  | .rowLocal (.columnEqualsScalar columnId (.float64 literal)) =>
    (table.definition.columns.find? fun c => c.columnId == columnId).any fun column =>
      column.dataType == .double && (row.get column.columnName).any (equals · literal)
  | _ => b.policies.policyAuthorizes table row b.sets policy

def authorizesRow (row : Row) : Bool :=
  b.policies.bypass ||
    b.policies.policies.any (b.policyAuthorizesFloats table (equalsFloat formats) row)

/-- The loop over the policies. One that lets all rows through ends it. -/
def routePolicies (b : BoundAuthorization) (keys : List (ℕ × ScalarValue)) :
    List BoundPolicy → Except String LiveAuthorizationRoute
  | [] => .ok (if keys.isEmpty then .deny else .keyed keys)
  | policy :: rest =>
    match policy.program with
    | .authorizationRelation relation =>
      match relation.protectedKeys with
      | [columnId] =>
        match b.sets.lookup policy.policyId with
        | none => .error ("live RLS authorization set is missing for " ++
            displayPolicy policy.policyId)
        | some set =>
          match set.singleKeys with
          | none => .error "live RLS membership routing does not support composite keys"
          | some values => routePolicies b (keys ++ values.map fun value => (columnId, value)) rest
      | _ => .error "live RLS membership routing requires one protected key"
    | .rowLocal (.columnEqualsPrincipal columnId .currentUser) =>
      match routeKey formats table columnId b.policies.principal with
      | .error e => .error e
      | .ok key => routePolicies b (keys ++ [key]) rest
    | .rowLocal (.columnEqualsScalar columnId value) =>
      match policyScalarText formats value with
      | none => routePolicies b keys rest
      | some text =>
        match routeKey formats table columnId text with
        | .error e => .error e
        | .ok key => routePolicies b (keys ++ [key]) rest
    | .rowLocal (.literal true) => .ok .broadcast
    | .rowLocal (.literal false) => routePolicies b keys rest
    | .rowLocal _ => .error "live RLS policy is not keyed by a bounded equality"

def liveRoute : Except String LiveAuthorizationRoute :=
  if b.policies.bypass then .ok .broadcast
  else if b.policies.isDefaultDeny then .ok .deny
  else b.routePolicies formats table [] b.policies.policies

end BoundAuthorization

/-- Is a row under the route? -/
def LiveAuthorizationRoute.reaches (table : CatalogTable) (row : Row) :
    LiveAuthorizationRoute → Bool
  | .broadcast => true
  | .deny => false
  | .keyed keys => keys.any fun key =>
      !isNull key.2 && columnValue table row key.1 == some key.2

/-- A column in which the rows have a negative zero and no positive one. -/
def losesZero (table : CatalogTable) (rows : List Row) : Bool :=
  table.definition.columns.any fun column => column.dataType == .double &&
    rows.any (·.get column.columnName == some negativeZero) &&
      rows.all (·.get column.columnName != some positiveZero)

/-! ### The route misses no row -/

variable {formats} {table : CatalogTable} {row : Row}

theorem columnValue_eq_some (h : columnValue table row columnId = some value) :
    ∃ column ∈ table.definition.columns,
      (table.definition.columns.find? fun c => c.columnId == columnId) = some column ∧
        row.get column.columnName = some value := by
  unfold columnValue at h
  split at h
  · next column hcolumn => exact ⟨column, List.mem_of_find?_eq_some hcolumn, hcolumn, h⟩
  · cases h

/-- No column stores a long text. -/
theorem columnValue_ne_largeUtf8 {text : String} (hrow : HasColumnTypes table row) :
    columnValue table row columnId ≠ some (.largeUtf8 text) := by
  intro h
  obtain ⟨column, hmem, -, hcell⟩ := columnValue_eq_some h
  have hstored := (hrow column hmem _ hcell).resolve_left nofun
  unfold storesCell at hstored
  split at hstored
  · next keyType _ => cases keyType <;> cases hstored
  · cases hstored

/-- **The display text of a cell is parsed to that cell**, UUIDs apart. -/
theorem parseAsColumn_display {type : KalamDataType} {keyType : PkType} {key : keyType.Key}
    (hkey : keyType ≠ .uuid) (hcell : storesCell type (keyType.cell key) = true) :
    parseAsColumn formats (keyType.cell key).display type = .ok (keyType.cell key) := by
  unfold storesCell at hcell
  unfold parseAsColumn
  split at hcell
  · next stored hstored =>
    have hbinary : isBinary (keyType.cell key) = false := by cases keyType <;> rfl
    rw [hbinary, Bool.and_false, Bool.or_false] at hcell
    obtain ⟨storedKey, heq⟩ := exists_cell_eq hcell
    have huuid : stored ≠ .uuid := by
      rintro rfl
      cases keyType
      case uuid => exact hkey rfl
      all_goals cases heq
    rw [heq, parseStringAsScalar_display huuid]
  · cases keyType <;> cases hcell

open LiveAuthorizationRoute

theorem reaches_singleton (hnull : isNull value = false)
    (hvalue : columnValue table row columnId = some value) :
    (keyed [(columnId, value)]).reaches table row = true := by
  simp [reaches, hnull, hvalue]

/-- A key of the route, made of a text that is the display of the cell, reaches the row. -/
theorem reaches_routeKey {keyType : PkType} {cell : keyType.Key} {key : ℕ × ScalarValue}
    (hrow : HasColumnTypes table row) (hkeyType : keyType ≠ .uuid)
    (hvalue : columnValue table row columnId = some (keyType.cell cell))
    (hkey : routeKey formats table columnId (keyType.cell cell).display = .ok key) :
    (keyed [key]).reaches table row = true := by
  obtain ⟨column, hmem, hfind, hcell⟩ := columnValue_eq_some hvalue
  have hnull : keyType.cell cell ≠ .null := by cases keyType <;> nofun
  have hstored := (hrow column hmem _ hcell).resolve_left hnull
  rw [routeKey, hfind] at hkey
  simp only [parseAsColumn_display hkeyType hstored] at hkey
  cases hkey
  exact reaches_singleton (by cases keyType <;> rfl) hvalue

/-- A column that equals the principal is a text with its name. -/
theorem columnValue_of_principal (hrow : HasColumnTypes table row)
    (h : evaluateRowLocal table row principal (.columnEqualsPrincipal columnId .currentUser) =
      .true) : columnValue table row columnId = some (.utf8 principal) := by
  rw [evaluateRowLocal, compareColumn] at h
  split at h
  · cases h
  rename_i value hvalue
  cases value
  case utf8 text =>
    have htext : text = principal := by simpa [isNull, scalarEqualsPrincipal] using h
    rw [hvalue, htext]
  case largeUtf8 text => exact absurd hvalue (columnValue_ne_largeUtf8 hrow)
  all_goals simp [isNull, scalarEqualsPrincipal] at h

variable (formats) in
/-- A column that equals a literal is the cell whose display is the text of the literal. -/
theorem columnValue_of_scalar {literal : PolicyScalar} (hrow : HasColumnTypes table row)
    (h : evaluateRowLocal table row principal (.columnEqualsScalar columnId literal) = .true) :
    ∃ (keyType : PkType) (cell : keyType.Key), keyType ≠ .uuid ∧
      columnValue table row columnId = some (keyType.cell cell) ∧
        policyScalarText formats literal = some (keyType.cell cell).display := by
  rw [evaluateRowLocal] at h
  split at h
  · cases h
  rename_i hliteral
  rw [compareColumn] at h
  split at h
  · cases h
  rename_i value hvalue
  have hequal : isNull value = false ∧ scalarEqualsPolicy value literal = true := by
    cases hnull : isNull value <;> simp_all
  obtain ⟨hnull, hequal⟩ := hequal
  cases literal <;> cases value <;> simp [scalarEqualsPolicy, hnull] at hequal
  case string.largeUtf8 => exact absurd hvalue (columnValue_ne_largeUtf8 hrow)
  all_goals subst hequal
  case boolean.boolean v => exact ⟨.boolean, v, by decide, hvalue, rfl⟩
  case int64.int64 v => exact ⟨.int64, v, by decide, hvalue, rfl⟩
  case uint64.uint64 v => exact ⟨.uint64, v, by decide, hvalue, rfl⟩
  case string.utf8 v => exact ⟨.text, v, by decide, hvalue, rfl⟩

namespace BoundAuthorization

variable {b : BoundAuthorization} {route : LiveAuthorizationRoute} {rows : List Row}

/-- The set of a policy was made for the columns that its program protects. The cache may hand out
the set of the other program of the policy. -/
def SetMatches (b : BoundAuthorization) (policy : BoundPolicy) : Prop :=
  ∀ relation set, policy.program = .authorizationRelation relation →
    b.sets.lookup policy.policyId = some set →
      set.relation.protectedKeys = relation.protectedKeys

def SetsMatch (b : BoundAuthorization) : Prop := ∀ policy ∈ b.policies.policies, b.SetMatches policy

/-- A row in an authorization set is under the keys of the set. -/
theorem reaches_of_containsProtectedRow {set : AuthorizationSet} {values : List ScalarValue}
    (hrelation : set.relation.protectedKeys = [columnId]) (hvalues : set.singleKeys = some values)
    (h : set.containsProtectedRow table row = true) :
    (keyed (values.map fun value => (columnId, value))).reaches table row = true := by
  rw [containsProtectedRow, hrelation] at h
  obtain ⟨value, hvalue, hcontains⟩ := (any_eq_true _ _).mp h
  simp only [Bool.and_eq_true] at hcontains
  obtain ⟨hnull, hcontains⟩ := hcontains
  have hmem : value ∈ values := by
    unfold singleKeys at hvalues
    split at hvalues
    · next keys hkeys =>
      cases hvalues
      simpa [containsKey, hnull, hkeys] using hcontains
    · cases hvalues
  simp only [reaches, List.any_map, List.any_eq_true]
  exact ⟨value, hmem, by simp [hnull, hvalue]⟩

/-- **The loop**: the route reaches what the keys collected so far reach, and what one of the other
policies authorizes. -/
theorem routePolicies_reaches (hrow : HasColumnTypes table row) {policies : List BoundPolicy}
    (hmatch : ∀ policy ∈ policies, b.SetMatches policy)
    {keys : List (ℕ × ScalarValue)} (h : b.routePolicies formats table keys policies = .ok route)
    (hreach : (keyed keys).reaches table row = true ∨
      ∃ policy ∈ policies, b.policyAuthorizesFloats table (isFloat formats) row policy = true) :
    route.reaches table row = true := by
  induction policies generalizing keys with
  | nil =>
    have hkeys := hreach.resolve_right (by simp)
    have hne : keys.isEmpty = false := by
      cases keys with
      | nil => cases hkeys
      | cons key rest => rfl
    rw [routePolicies, hne] at h
    cases h
    exact hkeys
  | cons policy rest ih =>
    obtain ⟨hpolicy, hrest⟩ := List.forall_mem_cons.mp hmatch
    -- the policy contributes keys that reach whatever it authorizes
    have hadd : ∀ added, b.routePolicies formats table (keys ++ added) rest = .ok route →
        (b.policyAuthorizesFloats table (isFloat formats) row policy = true →
          (keyed added).reaches table row = true) →
        route.reaches table row = true := by
      intro added hroute hadded
      refine ih hrest hroute ?_
      rw [reaches, List.any_append, Bool.or_eq_true]
      rcases hreach with hkeys | ⟨p, hp, hauthorizes⟩
      · exact .inl (.inl hkeys)
      rcases List.mem_cons.mp hp with rfl | hp
      · exact .inl (.inr (hadded hauthorizes))
      · exact .inr ⟨p, hp, hauthorizes⟩
    unfold routePolicies at h
    unfold policyAuthorizesFloats at hadd
    split at h
    · next relation hprogram =>
      split at h
      · next columnId hcolumns =>
        split at h
        · cases h
        rename_i set hset
        split at h
        · cases h
        rename_i values hvalues
        have hrelation := hpolicy relation set hprogram hset
        refine hadd _ h fun hauthorizes => ?_
        simp only [policyAuthorizes, hprogram, hset] at hauthorizes
        exact reaches_of_containsProtectedRow (by rw [hrelation, hcolumns]) hvalues hauthorizes
      · cases h
    · next columnId hprogram =>
      split at h
      · cases h
      rename_i key hkey
      refine hadd _ h fun hauthorizes => ?_
      simp only [policyAuthorizes, hprogram, beq_iff_eq] at hauthorizes
      have hcell : columnValue table row columnId =
          some (PkType.cell .text b.policies.principal) := columnValue_of_principal hrow hauthorizes
      have htype : PkType.text ≠ .uuid := nofun
      exact reaches_routeKey hrow htype hcell hkey
    · next columnId literal hprogram =>
      split at h
      · next htext =>
        refine hadd [] (by rwa [List.append_nil]) fun hauthorizes => ?_
        cases literal <;> simp [policyScalarText] at htext
        simp [policyAuthorizes, hprogram, evaluateRowLocal] at hauthorizes
      · next text htext =>
        split at h
        · cases h
        rename_i key hkey
        refine hadd _ h fun hauthorizes => ?_
        split at hauthorizes
        · next hfloat =>
          rw [hprogram] at hfloat
          cases hfloat
          cases htext
          obtain ⟨column, hfind, hcolumn⟩ := (any_eq_true _ _).mp hauthorizes
          rw [Bool.and_eq_true, beq_iff_eq] at hcolumn
          obtain ⟨value, hvalue, hequal⟩ := (any_eq_true _ _).mp hcolumn.2
          simp only [isFloat, Bool.and_eq_true, Bool.not_eq_true', beq_iff_eq] at hequal
          simp only [routeKey, hfind, parseAsColumn, hcolumn.1, hequal.2] at hkey
          cases hkey
          exact reaches_singleton hequal.1 (by simpa [columnValue, hfind] using hvalue)
        simp only [policyAuthorizes, hprogram, beq_iff_eq] at hauthorizes
        obtain ⟨keyType, cell, huuid, hvalue, hdisplay⟩ :=
          columnValue_of_scalar formats hrow hauthorizes
        obtain rfl : text = (keyType.cell cell).display := some.inj (htext.symm.trans hdisplay)
        exact reaches_routeKey hrow huuid hvalue hkey
    · cases h
      rfl
    · next hprogram =>
      refine hadd [] (by rwa [List.append_nil]) fun hauthorizes => ?_
      simp [policyAuthorizes, hprogram, evaluateRowLocal] at hauthorizes
    · cases h

/-- A policy that lets a row through has the cell of one of the rows, if no zero is lost. -/
theorem exists_isFloat {policy : BoundPolicy}
    (hzero : losesZero table rows = false) (hmem : row ∈ rows)
    (h : b.policyAuthorizesFloats table (equalsFloat formats) row policy = true) :
    ∃ row ∈ rows, b.policyAuthorizesFloats table (isFloat formats) row policy = true := by
  unfold policyAuthorizesFloats at h ⊢
  split at h
  · obtain ⟨column, hfind, hcolumn⟩ := (any_eq_true _ _).mp h
    obtain ⟨hdouble, hvalue⟩ := Bool.and_eq_true_iff.mp hcolumn
    obtain ⟨value, hvalue, hequal⟩ := (any_eq_true _ _).mp hvalue
    simp only [hfind, any_some, hdouble]
    rcases Bool.or_eq_true_iff.mp hequal with hequal | hequal
    · exact ⟨row, hmem, by rwa [hvalue]⟩
    · obtain ⟨hpositive, hnegative⟩ := Bool.and_eq_true_iff.mp hequal
      have hkept := List.any_eq_false.mp hzero column (List.mem_of_find?_eq_some hfind)
      simp only [hdouble, Bool.true_and, Bool.and_eq_true, List.any_eq_true, List.all_eq_true,
        not_and, not_forall, bne_iff_ne, not_not] at hkept
      obtain ⟨other, hother, hcell⟩ := hkept ⟨row, hmem, by rwa [hvalue]⟩
      exact ⟨other, hother, by rwa [hcell]⟩
  · exact ⟨row, hmem, h⟩

/-- **The route misses no row** that the authorization lets through, if no zero is lost. -/
theorem liveRoute_reaches (hmatch : b.SetsMatch)
    (h : b.liveRoute formats table = .ok route) (hrows : ∀ row ∈ rows, HasColumnTypes table row)
    (hzero : losesZero table rows = false)
    (hauthorizes : ∃ row ∈ rows, b.authorizesRow formats table row = true) :
    ∃ row ∈ rows, route.reaches table row = true := by
  obtain ⟨row, hmem, hauthorizes⟩ := hauthorizes
  rw [authorizesRow, Bool.or_eq_true, List.any_eq_true] at hauthorizes
  unfold liveRoute at h
  split at h
  · cases h
    exact ⟨row, hmem, rfl⟩
  rename_i hbypass
  obtain ⟨policy, hpolicy, hauthorizes⟩ := hauthorizes.resolve_left hbypass
  split at h
  · next hdeny =>
    have hempty : b.policies.policies = [] := by
      simpa [isDefaultDeny, hbypass] using hdeny
    rw [hempty] at hpolicy
    cases hpolicy
  · obtain ⟨row, hmem, hauthorizes⟩ := exists_isFloat hzero hmem hauthorizes
    have hreach := routePolicies_reaches (hrows row hmem) hmatch h
      (.inr ⟨policy, hpolicy, hauthorizes⟩)
    exact ⟨row, hmem, hreach⟩

end BoundAuthorization

end KalamDB.Rls
