import Mathlib.Data.List.AList
import KalamDB.Rls.Policy

/-!
# Row-level security: evaluation of compiled policies

What a compiled policy does with a row. A **row-local** shape is evaluated on the row in
three-valued logic. An **authorization relation** is first turned, for one principal and the
rows of the relation table, into an `AuthorizationSet` of key values; a protected row is
authorized when its own key is in the set.

Cells are compared with literals by `scalarEqualsPolicy`, which pairs a scalar type with one
literal type: `Int64` with signed, `UInt64` with unsigned integers. There is no case for the
narrower integer columns.

`BoundTablePolicies` are the policies of a table that apply to a role and a command. A row is
authorized when **some** of them authorizes it; without any, no row is, and administrators
bypass them all.
-/

namespace KalamDB.Rls

open List

/-! ### Row access -/

def isNull : ScalarValue → Bool
  | .null => true
  | _ => false

def columnValue (table : CatalogTable) (row : Row) (columnId : ℕ) : Option ScalarValue :=
  match table.definition.columns.find? fun c => c.columnId == columnId with
  | some column => row.get column.columnName
  | none => none

def scalarEqualsPrincipal (value : ScalarValue) (principal : String) : Bool :=
  match value with
  | .utf8 v | .largeUtf8 v => v == principal
  | _ => false

/-- Floating-point columns are not modelled, so no cell equals a floating-point literal. -/
def scalarEqualsPolicy (value : ScalarValue) (expected : PolicyScalar) : Bool :=
  match value, expected with
  | value, .null => isNull value
  | .boolean v, .boolean w => v == w
  | .int64 v, .int64 w => v == w
  | .uint64 v, .uint64 w => v == w
  | .utf8 v, .string w | .largeUtf8 v, .string w => v == w
  | _, _ => false

/-! ### Authorization sets -/

inductive AuthorizationKeys where
  | single (keys : List ScalarValue)
  | composite (keys : List (List ScalarValue))
  deriving DecidableEq

structure AuthorizationSet where
  relation : AuthorizationRelation
  keys : AuthorizationKeys
  deriving DecidableEq

/-- Nulls never match a predicate, whatever its operator. -/
def staticPredicateMatches (table : CatalogTable) (row : Row) (predicate : ScalarPredicate) :
    Bool :=
  match columnValue table row predicate.columnId with
  | none => false
  | some value =>
    if isNull value || predicate.value == .null then false
    else
      match predicate.operator with
      | .eq => scalarEqualsPolicy value predicate.value
      | .notEq => !scalarEqualsPolicy value predicate.value

def relationRowApplies (relation : AuthorizationRelation) (table : CatalogTable) (row : Row)
    (principal : String) : Bool :=
  (columnValue table row relation.principalColumn).any (scalarEqualsPrincipal · principal) &&
    relation.staticPredicates.all (staticPredicateMatches table row)

namespace AuthorizationSet

variable {key : List ScalarValue} {rows' rows : List Row}

def fromKeys (relation : AuthorizationRelation) (keys : List (List ScalarValue)) :
    AuthorizationSet where
  relation := relation
  keys :=
    if relation.relationKeys.length = 1 then
      .single (keys.filterMap fun key =>
        match key with
        | [value] => if isNull value then none else some value
        | _ => none)
    else .composite (keys.filter fun key => !key.any isNull)

/-- The keys of the relation rows that apply to a principal. -/
def fromRelationRows (relation : AuthorizationRelation) (table : CatalogTable)
    (principal : String) (rows : List Row) : AuthorizationSet :=
  let applying := rows.filter (relationRowApplies relation table · principal)
  match relation.relationKeys with
  | [columnId] =>
    { relation := relation
      keys := .single
        ((applying.filterMap (columnValue table · columnId)).filter (!isNull ·)) }
  | columnIds =>
    fromKeys relation
      (applying.filterMap fun row => columnIds.mapM (columnValue table row))

def containsKey (set : AuthorizationSet) (key : List ScalarValue) : Bool :=
  if key.any isNull then false
  else
    match set.keys, key with
    | .single keys, [value] => keys.contains value
    | .single _, _ => false
    | .composite keys, key => keys.contains key

def containsProtectedRow (set : AuthorizationSet) (table : CatalogTable) (row : Row) : Bool :=
  match set.relation.protectedKeys with
  | [columnId] =>
    (columnValue table row columnId).any fun value => !isNull value && set.containsKey [value]
  | columnIds => (columnIds.mapM (columnValue table row)).any set.containsKey

variable {relation : AuthorizationRelation} {table : CatalogTable} {principal : String}

theorem containsKey_fromKeys_mono {keys keys' : List (List ScalarValue)} (h : keys ⊆ keys')
    (hkey : (fromKeys relation keys).containsKey key = true) :
    (fromKeys relation keys').containsKey key = true := by
  simp only [fromKeys, containsKey] at hkey ⊢
  split_ifs at hkey ⊢ with hnull hlen
  · match key, hkey with
    | [value], hkey =>
      simp only [contains_iff_mem, mem_filterMap] at hkey ⊢
      obtain ⟨k, hk, hv⟩ := hkey
      exact ⟨k, h hk, hv⟩
    | [], hkey | _ :: _ :: _, hkey => exact hkey
  · simp only [contains_iff_mem, mem_filter] at hkey ⊢
    exact ⟨h hkey.1, hkey.2⟩

/-- More rows, more keys. -/
theorem containsKey_fromRelationRows_mono (h : rows ⊆ rows')
    (hkey : (fromRelationRows relation table principal rows).containsKey key = true) :
    (fromRelationRows relation table principal rows').containsKey key = true := by
  unfold fromRelationRows at hkey ⊢
  have happly : rows.filter (relationRowApplies relation table · principal) ⊆
      rows'.filter (relationRowApplies relation table · principal) := by
    intro r hr
    rw [mem_filter] at hr ⊢
    exact ⟨h hr.1, hr.2⟩
  split at hkey
  · simp only [containsKey] at hkey ⊢
    split_ifs at hkey ⊢ with hnull
    match key, hkey with
    | [value], hkey =>
      simp only [contains_iff_mem, mem_filter, mem_filterMap] at hkey ⊢
      obtain ⟨⟨r, hr, hv⟩, hn⟩ := hkey
      exact ⟨⟨r, ⟨h hr.1, hr.2⟩, hv⟩, hn⟩
    | [], hkey | _ :: _ :: _, hkey => exact hkey
  · exact containsKey_fromKeys_mono (filterMap_subset _ happly) hkey

@[simp]
theorem fromRelationRows_relation (rows : List Row) :
    (fromRelationRows relation table principal rows).relation = relation := by
  unfold fromRelationRows
  split <;> rfl

/-- More rows, more protected rows. -/
theorem containsProtectedRow_mono (h : rows ⊆ rows') {host : CatalogTable} {row : Row}
    (hrow : (fromRelationRows relation table principal rows).containsProtectedRow host row = true) :
    (fromRelationRows relation table principal rows').containsProtectedRow host row = true := by
  unfold containsProtectedRow at hrow ⊢
  rw [fromRelationRows_relation] at hrow ⊢
  split at hrow
  · rw [Option.any_eq_true] at hrow ⊢
    obtain ⟨value, hvalue, hkey⟩ := hrow
    rw [Bool.and_eq_true] at hkey
    exact ⟨value, hvalue, by rw [hkey.1, containsKey_fromRelationRows_mono h hkey.2]; rfl⟩
  · rw [Option.any_eq_true] at hrow ⊢
    obtain ⟨key, hids, hkey⟩ := hrow
    exact ⟨key, hids, containsKey_fromRelationRows_mono h hkey⟩

end AuthorizationSet

/-! ### Row-local shapes -/

inductive SqlTruth where
  | true
  | false
  | unknown
  deriving DecidableEq

def SqlTruth.not : SqlTruth → SqlTruth
  | .true => .false
  | .false => .true
  | .unknown => .unknown

section RowLocal

variable (table : CatalogTable) (row : Row) (principal : String)

/-- A column compared with the principal or with a literal: unknown on null. -/
def compareColumn (columnId : ℕ) (equals : ScalarValue → Bool) : SqlTruth :=
  match columnValue table row columnId with
  | none => .unknown
  | some value => if isNull value then .unknown else if equals value then .true else .false

mutual

def evaluateRowLocal : BoundExprShape → SqlTruth
  | .literal v => if v then .true else .false
  | .columnEqualsPrincipal columnId .currentUser =>
    compareColumn table row columnId (scalarEqualsPrincipal · principal)
  | .columnEqualsScalar columnId value =>
    if value = .null then .unknown
    else compareColumn table row columnId (scalarEqualsPolicy · value)
  | .and shapes => evaluateAnd .true shapes
  | .or shapes => evaluateOr .false shapes
  | .not shape => (evaluateRowLocal shape).not

/-- The loop over a conjunction, which stops at the first false shape. -/
def evaluateAnd (result : SqlTruth) : List BoundExprShape → SqlTruth
  | [] => result
  | shape :: rest =>
    match evaluateRowLocal shape with
    | .false => .false
    | .unknown => evaluateAnd .unknown rest
    | .true => evaluateAnd result rest

/-- The loop over a disjunction, which stops at the first true shape. -/
def evaluateOr (result : SqlTruth) : List BoundExprShape → SqlTruth
  | [] => result
  | shape :: rest =>
    match evaluateRowLocal shape with
    | .true => .true
    | .unknown => evaluateOr .unknown rest
    | .false => evaluateOr result rest

end

end RowLocal

/-! ### Policies of a table -/

inductive PolicyCommand where
  | all
  | select
  | insert
  | update
  | delete
  deriving DecidableEq

def PolicyCommand.appliesTo (c command : PolicyCommand) : Bool := c == .all || c == command

inductive PolicyTarget where
  | everyone
  | role (r : Role)
  deriving DecidableEq

def PolicyTarget.applies (target : PolicyTarget) (role : Role) : Bool :=
  target == .everyone || target == .role role

/-- A policy belongs to a table and has a name there. -/
abbrev PolicyId : Type := TableId × String

structure TablePolicy where
  policyId : PolicyId
  command : PolicyCommand
  targets : List PolicyTarget
  usingProgram : Option PolicyProgram
  checkProgram : Option PolicyProgram
  policyGeneration : ℕ

/-- `USING` guards the rows a command reads. -/
def TablePolicy.usingProgramFor (p : TablePolicy) (command : PolicyCommand) :
    Option PolicyProgram :=
  if p.command.appliesTo command && command ∈ [.select, .update, .delete] then p.usingProgram
  else none

/-- `WITH CHECK` guards the rows a command writes. -/
def TablePolicy.checkProgramFor (p : TablePolicy) (command : PolicyCommand) :
    Option PolicyProgram :=
  if p.command.appliesTo command && command ∈ [.insert, .update] then p.checkProgram else none

structure BoundPolicy where
  policyId : PolicyId
  policyGeneration : ℕ
  program : PolicyProgram

structure BoundTablePolicies where
  principal : String
  bypass : Bool
  policies : List BoundPolicy

namespace BoundTablePolicies

def adminBypass (principal : String) : BoundTablePolicies := ⟨principal, true, []⟩

/-- The policies that apply, with the program of the clause in question. -/
def bindWithProgram (policies : List TablePolicy) (principal : String) (role : Role)
    (command : PolicyCommand) (check : Bool) : BoundTablePolicies :=
  if role == .system || role == .dba then adminBypass principal
  else
    { principal := principal
      bypass := false
      policies := (policies.filter fun p => p.targets.any (·.applies role)).filterMap fun p =>
        (if check then p.checkProgramFor command else p.usingProgramFor command).map
          (⟨p.policyId, p.policyGeneration, ·⟩) }

variable (b : BoundTablePolicies)

def isDefaultDeny : Bool := !b.bypass && b.policies.isEmpty

/-- Does one policy authorize a row, given the authorization sets of the policies? -/
def policyAuthorizes (table : CatalogTable) (row : Row)
    (sets : AList fun _ : PolicyId => AuthorizationSet) (policy : BoundPolicy) : Bool :=
  match policy.program with
  | .rowLocal expr => evaluateRowLocal table row b.principal expr == .true
  | .authorizationRelation _ =>
    (sets.lookup policy.policyId).any (·.containsProtectedRow table row)

def authorizesRowWithSets (table : CatalogTable) (row : Row)
    (sets : AList fun _ : PolicyId => AuthorizationSet) : Bool :=
  b.bypass || b.policies.any (b.policyAuthorizes table row sets)

end BoundTablePolicies

end KalamDB.Rls
