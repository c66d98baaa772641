import KalamDB.Commons.Table
import KalamDB.Lib.RelPlan

/-!
# Planning a statement for a session

A `SELECT` is planned for the session that sends it. Three things of the session end up in
the plan: the **namespace** that resolves unqualified tables, the **star mode** (a PostgreSQL
session leaves storage columns out of `*`, the Kalam API shows them), and, because the
optimizer folds stable functions, the **values of the session functions** the statement
calls: the user, the role, the schema, the database and the clock.

Scans and volatile functions are left to the session that executes the plan.
-/

namespace KalamDB

open RelPlan List

inductive Role where
  | user
  | service
  | dba
  | system
  | anonymous
  deriving DecidableEq

/-- What a request brings along. The clock is the start of the statement. -/
structure Session where
  userId : String
  role : Role
  defaultNamespace : String
  searchPath : String
  postgresStar : Bool
  clock : ℕ
  transactionId : Option String
  deriving DecidableEq

/-! ### Session functions -/

/-- The functions of the dialect: the session identity functions, the clock functions under
their names, and all others. -/
inductive SqlFunction where
  | currentUser
  | currentRole
  | currentSchema
  | currentDatabase
  | clock (name : String)
  | other (name : String)
  deriving DecidableEq

/-- The functions other than the session functions. Unless they are volatile, the session
does not enter their values. -/
structure FunctionRegistry where
  volatility : String → Volatility
  apply : String → Session → List ScalarValue → ScalarValue
  apply_eq : ∀ name, volatility name ≠ .volatile →
    ∀ s s' args, apply name s args = apply name s' args
  clockValue : String → ℕ → ScalarValue

def LOGICAL_DATABASE_NAME : String := "kalam"

def roleText : Role → String
  | .user => "user"
  | .service => "service"
  | .dba => "dba"
  | .system => "system"
  | .anonymous => "anonymous"

/-- Session and clock functions are **stable**: fixed for one statement of one session. -/
def sessionInterp (registry : FunctionRegistry) : Interp SqlFunction ScalarValue Session where
  volatility
    | .currentUser | .currentRole | .currentSchema | .currentDatabase | .clock _ => .stable
    | .other name => registry.volatility name
  apply
    | .currentUser, s, _ => .utf8 s.userId
    | .currentRole, s, _ => .utf8 (roleText s.role)
    | .currentSchema, s, _ =>
      .utf8 (if s.defaultNamespace = "" then "default" else s.defaultNamespace)
    | .currentDatabase, _, _ => .utf8 LOGICAL_DATABASE_NAME
    | .clock name, s, _ => registry.clockValue name s.clock
    | .other name, s, args => registry.apply name s args
  apply_immutable f hf s s' args := by
    cases f with
    | other name => exact registry.apply_eq name (by simp_all) s s' args
    | _ => cases hf

/-! ### Statements -/

/-- A table name as written. -/
structure TableReference where
  schema : Option String
  table : String
  deriving DecidableEq

abbrev SqlTerm : Type := Term SqlFunction ScalarValue

/-- An item of a select list: a term, or the star of a single base table. -/
inductive SelectItem where
  | term (t : SqlTerm)
  | star (table : TableReference)

/-- A parsed query: base tables under relational operators. -/
inductive Statement where
  | table (name : TableReference)
  | node (op : String) (items : List SelectItem) (inputs : List Statement)

abbrev LogicalPlan : Type := Plan TableId String SqlFunction ScalarValue

def TableReference.resolve (r : TableReference) (s : Session) : TableId :=
  (r.schema.getD s.defaultNamespace, r.table)

/-- The columns of a star. Both modes leave out `_row_id`, a PostgreSQL session all system
columns; if nothing would be left, the star shows everything. -/
def starColumns (postgresStar : Bool) (columns : List String) : List String :=
  let visible := columns.filter fun name =>
    if postgresStar then !SystemColumnNames.isSystemColumn name
    else name != SystemColumnNames.ROW_ID
  if visible.isEmpty then columns else visible

def SelectItem.expand (columns : TableId → List String) (s : Session) :
    SelectItem → List SqlTerm
  | term t => [t]
  | star table => (starColumns s.postgresStar (columns (table.resolve s))).map Term.column

namespace Statement

mutual

/-- The plan of a statement: tables resolved, stars expanded. -/
def plan (columns : TableId → List String) (s : Session) : Statement → LogicalPlan
  | table name => .scan (name.resolve s)
  | node op items inputs =>
    .node op (items.flatMap (SelectItem.expand columns s)) (planInputs columns s inputs)

def planInputs (columns : TableId → List String) (s : Session) :
    List Statement → List LogicalPlan
  | [] => []
  | st :: sts => plan columns s st :: planInputs columns s sts

end

mutual

/-- Does the statement have the star of a base table? -/
def hasStar : Statement → Bool
  | table _ => false
  | node _ items inputs =>
    (items.any fun | .star _ => true | .term _ => false) || hasStarInputs inputs

def hasStarInputs : List Statement → Bool
  | [] => false
  | st :: sts => hasStar st || hasStarInputs sts

end

/-- The functions of a select item. -/
def itemFunctions : SelectItem → List SqlFunction
  | .term t => t.functions
  | .star _ => []

mutual

/-- The functions a statement calls. -/
def functions : Statement → List SqlFunction
  | table _ => []
  | node _ items inputs => items.flatMap itemFunctions ++ functionsOfInputs inputs

def functionsOfInputs : List Statement → List SqlFunction
  | [] => []
  | st :: sts => functions st ++ functionsOfInputs sts

end

/-! ### What a plan depends on -/

section Dependence

variable {columns : TableId → List String} {s s' : Session}

section

variable (hns : s.defaultNamespace = s'.defaultNamespace)
include hns

theorem resolve_congr (r : TableReference) : r.resolve s = r.resolve s' := by
  rw [TableReference.resolve, TableReference.resolve, hns]

end

mutual

/-- **A plan depends on the namespace, and on the star mode if there is a star.** -/
theorem plan_congr (hns : s.defaultNamespace = s'.defaultNamespace) :
    ∀ st : Statement, (st.hasStar = true → s.postgresStar = s'.postgresStar) →
      st.plan columns s = st.plan columns s'
  | table name, _ => by rw [plan, plan, resolve_congr hns]
  | node op items inputs, h => by
    have hitems : ∀ item ∈ items, item.expand columns s = item.expand columns s' := by
      intro item hitem
      cases item with
      | term t => rfl
      | star table =>
        have hstar : s.postgresStar = s'.postgresStar := h <| by
          rw [hasStar, Bool.or_eq_true]
          exact .inl (any_eq_true.mpr ⟨_, hitem, rfl⟩)
        rw [SelectItem.expand, SelectItem.expand, resolve_congr hns, hstar]
    rw [plan, plan, flatMap_congr hitems,
      planInputs_congr hns inputs fun hin => h (by rw [hasStar, hin, Bool.or_true])]

theorem planInputs_congr (hns : s.defaultNamespace = s'.defaultNamespace) :
    ∀ sts : List Statement, (hasStarInputs sts = true → s.postgresStar = s'.postgresStar) →
      planInputs columns s sts = planInputs columns s' sts
  | [], _ => rfl
  | st :: sts, h => by
    rw [planInputs, planInputs,
      plan_congr hns st fun hst => h (by rw [hasStarInputs, hst, Bool.true_or]),
      planInputs_congr hns sts fun hsts => h (by rw [hasStarInputs, hsts, Bool.or_true])]

end

mutual

/-- The functions of a plan come from the statement. -/
theorem functions_plan : ∀ (st : Statement) {f : SqlFunction},
    f ∈ (st.plan columns s).functions → f ∈ st.functions
  | table name, f, h => by
    cases h
  | node op items inputs, f, h => by
    rcases mem_append.mp h with hterm | hinput
    · obtain ⟨t, ht, hf⟩ := mem_flatMap.mp hterm
      obtain ⟨item, hitem, hexpand⟩ := mem_flatMap.mp ht
      refine mem_append_left _ (mem_flatMap.mpr ⟨item, hitem, ?_⟩)
      cases item with
      | term t' => exact mem_singleton.mp hexpand ▸ hf
      | star table =>
        obtain ⟨name, -, rfl⟩ := mem_map.mp hexpand
        cases hf
    · exact mem_append_right _ (functions_planInputs inputs hinput)

theorem functions_planInputs : ∀ (sts : List Statement) {f : SqlFunction},
    f ∈ Plan.functionsOfInputs (planInputs columns s sts) → f ∈ functionsOfInputs sts
  | [], f, h => by
    cases h
  | st :: sts, f, h => by
    rcases mem_append.mp h with hst | hsts
    · exact mem_append_left _ (functions_plan st hst)
    · exact mem_append_right _ (functions_planInputs sts hsts)

end

end Dependence

end Statement

end KalamDB
