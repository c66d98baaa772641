import Mathlib.Data.String.Basic
import KalamDB.Lib.Fallible
import KalamDB.RowFilter.Predicate
import KalamDB.Rls.SqlMeaning

/-!
# Row filters: agreement with SQL

A subscriber sees a change when its filter matches the row, and the snapshot of the same
subscription is computed by SQL, where a row is kept when the `WHERE` clause is **true**. The
filter has only two values: what SQL calls unknown is false to it. That is harmless until
something negates it, and then the filter matches a row that the snapshot does not have.

`WhereExpr.truth` is the meaning of a clause in SQL, stated from the clause and not from its
compiled form. `WhereExpr.misjudged` follows a wrong verdict through the clause: a negation of an
unknown makes one, and a conjunction or a disjunction passes it on unless its other side
decides. `filter_agrees_iff` says that these are **exactly** the rows on which filter and SQL
differ.
-/

namespace KalamDB.RowFilter

open Fallible WhereExpr ValueExpr ComparisonOp Predicate Except
open Rls (SqlTruth)

variable {F : Type} (f : FloatOps F)

/-! ### Numbers -/

variable {v : Scalar F} {b negated : Bool} {op : ComparisonOp} {row : Row} {e : WhereExpr}
  {depth : ℕ}

inductive Number (F : Type) where
  | int (v : ℤ)
  | float (v : F)

variable {x : Number F}

def Number.toFloat : Number F → F
  | .int v => f.ofInt v
  | .float v => v

def Scalar.number : Scalar F → Option (Number F)
  | .float64 v => some (.float v)
  | .cell (.int8 v) => some (.int v.toInt)
  | .cell (.int16 v) => some (.int v.toInt)
  | .cell (.int32 v) => some (.int v.toInt)
  | .cell (.int64 v) => some (.int v.toInt)
  | .cell (.uint8 v) => some (.int v.toNat)
  | .cell (.uint16 v) => some (.int v.toNat)
  | .cell (.uint32 v) => some (.int v.toNat)
  | .cell (.uint64 v) => some (.int v.toNat)
  | _ => none

open Number

theorem Scalar.asF64_eq (v : Scalar F) : v.asF64 f = v.number.map (toFloat f) := by
  obtain (_ | _) | _ := v <;> rfl

theorem Scalar.asStr_of_number (h : v.number = some x) : v.asStr = none := by
  obtain (_ | _) | _ := v <;> first | rfl | cases h

theorem Scalar.number_of_isNull (h : v.isNull = true) : v.number = none := by
  obtain (_ | _) | _ := v <;> first | rfl | cases h

variable [LinearOrder F] {right left value : Scalar F} {y : Number F}
  {mk : ValueExpr F → Predicate F} {p : Predicate F}

/-- Integers are compared as integers. A float makes it a comparison of floats. -/
def Number.compare (op : ComparisonOp) : Number F → Number F → Bool
  | .int v, .int w => op.holds v w
  | x, y => op.holds (x.toFloat f) (y.toFloat f)

/-- The comparison the filter makes: of the floats, where near ones are equal. -/
def Number.compareRounded (op : ComparisonOp) (x y : Number F) : Bool :=
  match op with
  | .eq => f.near (x.toFloat f) (y.toFloat f)
  | .notEq => !f.near (x.toFloat f) (y.toFloat f)
  | op => op.holds (x.toFloat f) (y.toFloat f)

/-! ### Comparisons in SQL -/

/-- The comparison of texts and of booleans. Across kinds nothing is ordered or equal. -/
def compareOthers (left : Scalar F) (op : ComparisonOp) (right : Scalar F) : Bool :=
  match left.asStr, right.asStr with
  | some s, some t => op.holds s t
  | _, _ =>
    match left, right, op with
    | .cell (.boolean v), .cell (.boolean w), op => op.holds v w
    | left, right, .eq => decide (left = right)
    | left, right, .notEq => decide (left ≠ right)
    | _, _, _ => false

def compareExact (left : Scalar F) (op : ComparisonOp) (right : Scalar F) : Bool :=
  match left.number, right.number with
  | some x, some y => x.compare f op y
  | _, _ => compareOthers left op right

/-- A comparison with a null is unknown. -/
def compareSql (left : Scalar F) (op : ComparisonOp) (right : Scalar F) : SqlTruth :=
  if left.isNull || right.isNull then .unknown else .ofBool (compareExact f left op right)

def anyEqualSql (value : Scalar F) : List (Scalar F) → SqlTruth
  | [] => .false
  | item :: rest => (compareSql f value .eq item).or (anyEqualSql value rest)

omit [LinearOrder F] in
/-- The truth of a boolean value. -/
def Scalar.truth : Scalar F → SqlTruth
  | .cell (.boolean v) => .ofBool v
  | _ => .unknown

def negateIf (negated : Bool) (t : SqlTruth) : SqlTruth := if negated then t.not else t

/-! ### The meaning of a clause -/

namespace WhereExpr

omit [LinearOrder F] in
/-- The value of a column or of a literal. No other expression is used as a value. -/
def scalar (row : Row) : WhereExpr → Scalar F
  | .nested e => e.scalar row
  | .identifier name => .cell (((ColumnRef.new name).lookup row).getD .null)
  | .compoundIdentifier names =>
    .cell ((names.getLast?.bind fun name => (ColumnRef.new name).lookup row).getD .null)
  | .value v => (scalarFromValue f v).toOption.getD (.cell .null)
  | _ => .cell .null

/-- **SQL's verdict** on a row. Clauses that the compiler refuses have none and are unknown. -/
def truth (row : Row) : WhereExpr → SqlTruth
  | .nested e => e.truth row
  | .unaryOp .not e => (e.truth row).not
  | .binaryOp left .and right => (left.truth row).and (right.truth row)
  | .binaryOp left .or right => (left.truth row).or (right.truth row)
  | .binaryOp left op right =>
    match ComparisonOp.fromBinaryOperator op with
    | .ok op => compareSql f (left.scalar f row) op (right.scalar f row)
    | .error _ => .unknown
  | .between e negated low high =>
    negateIf negated ((compareSql f (e.scalar f row) .gtEq (low.scalar f row)).and
      (compareSql f (e.scalar f row) .ltEq (high.scalar f row)))
  | .inList e list negated =>
    negateIf negated (anyEqualSql f (e.scalar f row) (list.map (scalar f row)))
  | .isNull e => .ofBool (e.scalar f row).isNull
  | .isNotNull e => .ofBool !(e.scalar f row).isNull
  | .isTrue e => .ofBool (decide (e.scalar f row = .cell (.boolean true)))
  | .isNotTrue e => .ofBool !(decide (e.scalar f row = .cell (.boolean true)))
  | .isFalse e => .ofBool (decide (e.scalar f row = .cell (.boolean false)))
  | .isNotFalse e => .ofBool !(decide (e.scalar f row = .cell (.boolean false)))
  | e => (e.scalar f row).truth

end WhereExpr

/-! ### Wrong verdicts -/

variable (t : SqlTruth) (m : Bool) (t₁ t₂ : SqlTruth) (m₁ m₂ : Bool)

/-- What the filter answers: true on SQL's true, unless the clause is misjudged. -/
def reading (misjudged : Bool) : Bool := xor (decide (t = .true)) misjudged

/-- Two numbers that the filter's rounding compares otherwise than SQL. -/
def misread (left : Scalar F) (op : ComparisonOp) (right : Scalar F) : Bool :=
  match left.number, right.number with
  | some x, some y =>
    decide (left ≠ right) && (x.compareRounded f op y != x.compare f op y)
  | _, _ => false

/-- A negation turns the false that stands for unknown into true. -/
def misjudgedNot (m : Bool) : Bool := xor m (decide (t = .unknown))

/-- A conjunction passes on the wrong verdict of a side when the other side is true. -/
def misjudgedAnd (t₁ : SqlTruth) (m₁ : Bool) (t₂ : SqlTruth) (m₂ : Bool) : Bool :=
  match m₁, m₂ with
  | false, false => false
  | true, false => decide (t₂ = .true)
  | false, true => decide (t₁ = .true)
  | true, true => decide (t₁ = .true ↔ t₂ = .true)

/-- A disjunction passes it on when the other side is not true. -/
def misjudgedOr (t₁ : SqlTruth) (m₁ : Bool) (t₂ : SqlTruth) (m₂ : Bool) : Bool :=
  match m₁, m₂ with
  | false, false => false
  | true, false => decide (t₂ ≠ .true)
  | false, true => decide (t₁ ≠ .true)
  | true, true => decide (t₁ = .true ↔ t₂ = .true)

def misjudgedIf (negated : Bool) (t : SqlTruth) (m : Bool) : Bool :=
  if negated then misjudgedNot t m else m

def misjudgedAny (value : Scalar F) : List (Scalar F) → Bool
  | [] => false
  | item :: rest =>
    misjudgedOr (compareSql f value .eq item) (misread f value .eq item)
      (anyEqualSql f value rest) (misjudgedAny value rest)

/-- **The filter's verdict on the row is wrong.** It starts at a negation of an unknown (`NOT`,
`NOT BETWEEN`, `NOT IN` with a null item) or at misread numbers, and goes up through the clause. -/
def WhereExpr.misjudged (row : Row) : WhereExpr → Bool
  | .nested e => e.misjudged row
  | .unaryOp .not e => misjudgedNot (e.truth f row) (e.misjudged row)
  | .binaryOp left .and right =>
    misjudgedAnd (left.truth f row) (left.misjudged row) (right.truth f row) (right.misjudged row)
  | .binaryOp left .or right =>
    misjudgedOr (left.truth f row) (left.misjudged row) (right.truth f row) (right.misjudged row)
  | .binaryOp left op right =>
    match ComparisonOp.fromBinaryOperator op with
    | .ok op => misread f (left.scalar f row) op (right.scalar f row)
    | .error _ => false
  | .between e negated low high =>
    let above := compareSql f (e.scalar f row) .gtEq (low.scalar f row)
    let below := compareSql f (e.scalar f row) .ltEq (high.scalar f row)
    misjudgedIf negated (above.and below)
      (misjudgedAnd above (misread f (e.scalar f row) .gtEq (low.scalar f row))
        below (misread f (e.scalar f row) .ltEq (high.scalar f row)))
  | .inList e list negated =>
    -- a null value is outside every list to the filter, also outside the empty one
    if (e.scalar f row).isNull then negated && list.isEmpty
    else
      misjudgedIf negated (anyEqualSql f (e.scalar f row) (list.map (scalar f row)))
        (misjudgedAny f (e.scalar f row) (list.map (scalar f row)))
  | _ => false

/-! ### How verdicts are combined -/

section Readings

omit [LinearOrder F]

@[simp]
theorem reading_ofBool (b : Bool) : reading (.ofBool b) false = b := by
  cases b <;> rfl

theorem reading_not : reading t.not (misjudgedNot t m) = !reading t m := by
  cases t <;> cases m <;> rfl

theorem reading_and :
    reading (t₁.and t₂) (misjudgedAnd t₁ m₁ t₂ m₂) = (reading t₁ m₁ && reading t₂ m₂) := by
  cases t₁ <;> cases t₂ <;> cases m₁ <;> cases m₂ <;> rfl

theorem reading_or :
    reading (t₁.or t₂) (misjudgedOr t₁ m₁ t₂ m₂) = (reading t₁ m₁ || reading t₂ m₂) := by
  cases t₁ <;> cases t₂ <;> cases m₁ <;> cases m₂ <;> rfl

theorem reading_negateIf (negated : Bool) (m : Bool) :
    reading (negateIf negated t) (misjudgedIf negated t m) =
      if negated then !reading t m else reading t m := by
  cases negated
  · rfl
  · exact reading_not t m

end Readings

/-! ### Comparisons -/

section

variable (op : ComparisonOp)

theorem misread_of_isNull (h : (left.isNull || right.isNull) = true) :
    misread f left op right = false := by
  rw [Bool.or_eq_true] at h
  obtain h | h := h
  · simp only [misread, Scalar.number_of_isNull h]
  · rw [misread, Scalar.number_of_isNull h]
    cases left.number <;> rfl

theorem Number.compare_self (x : Number F) :
    x.compare f op x = op.holds (x.toFloat f) (x.toFloat f) := by
  cases x <;> cases op <;> simp [compare, holds]

end

theorem Number.compare_notEq (x y : Number F) : x.compare f .notEq y = !x.compare f .eq y := by
  cases x <;> cases y <;> simp [compare, holds]

theorem compareExact_notEq (left right : Scalar F) :
    compareExact f left .notEq right = !compareExact f left .eq right := by
  unfold compareExact
  split
  · exact compare_notEq f _ _
  · unfold compareOthers
    split
    · simp [holds]
    · split <;> simp_all [holds]

theorem misread_notEq (left right : Scalar F) :
    misread f left .notEq right = misread f left .eq right := by
  unfold misread
  split
  · rw [compare_notEq]
    simp [compareRounded]
  · rfl

/-- On numbers the verdict is that of the rounded comparison. One value is never misread. -/
theorem reading_of_numbers (op : ComparisonOp) (hleft : left.number = some x)
    (hright : right.number = some y) :
    reading (.ofBool (compareExact f left op right)) (misread f left op right) =
      if left = right then op.holds (x.toFloat f) (x.toFloat f)
      else x.compareRounded f op y := by
  simp only [compareExact, misread, hleft, hright]
  by_cases heq : left = right
  · have hxy : x = y := Option.some.inj (hleft.symm.trans (heq ▸ hright))
    simp [heq, ← hxy, compare_self]
  · cases x.compareRounded f op y <;> cases x.compare f op y <;>
      simp [heq, reading, SqlTruth.ofBool]

theorem compareOthers_eq (left right : Scalar F) :
    compareOthers left .eq right = (decide (left = right) ||
      match left.asStr, right.asStr with
      | some lhs, some rhs => decide (lhs = rhs)
      | _, _ => false) := by
  unfold compareOthers
  split
  · next s t hs ht =>
    by_cases heq : left = right
    · simp [holds, Option.some.inj (hs.symm.trans (heq ▸ ht))]
    · simp [holds, heq]
  · split <;> simp_all [holds]

theorem scalarsEqual_eq (left right : Scalar F) :
    scalarsEqual f left right = (compareOthers left .eq right ||
      match left.number, right.number with
      | some x, some y => f.near (x.toFloat f) (y.toFloat f)
      | _, _ => false) := by
  rw [compareOthers_eq, scalarsEqual, Scalar.asF64_eq, Scalar.asF64_eq]
  by_cases heq : left = right
  · simp [heq]
  cases hleft : left.number with
  | none => cases left.asStr <;> cases right.asStr <;> simp
  | some x =>
    rw [Scalar.asStr_of_number hleft]
    cases right.number <;> simp

theorem scalarsEqual_eq_reading (left right : Scalar F) :
    scalarsEqual f left right =
      reading (.ofBool (compareExact f left .eq right)) (misread f left .eq right) := by
  rw [scalarsEqual_eq]
  cases hleft : left.number with
  | none => simp [compareExact, misread, hleft]
  | some x =>
    cases hright : right.number with
    | none => simp [compareExact, misread, hright]
    | some y =>
      rw [reading_of_numbers f .eq hleft hright, compareOthers_eq, Scalar.asStr_of_number hleft]
      by_cases heq : left = right <;> simp [holds, compareRounded]

theorem compareNumeric_eq_reading (hop : op ≠ .eq ∧ op ≠ .notEq)
    (h : compareNumeric f left right op.holds = .ok b) :
    b = reading (.ofBool (compareExact f left op right)) (misread f left op right) := by
  rw [compareNumeric, Scalar.asF64_eq, Scalar.asF64_eq] at h
  cases hleft : left.number with
  | none => simp [hleft] at h
  | some x =>
    cases hright : right.number with
    | none => simp [hleft, hright] at h
    | some y =>
      have hb : op.holds (x.toFloat f) (y.toFloat f) = b := by simpa [hleft, hright] using h
      rw [reading_of_numbers f op hleft hright, ← hb]
      split
      · next heq => rw [Option.some.inj (hleft.symm.trans (heq ▸ hright))]
      · cases op <;> first | rfl | simp at hop

/-- **One comparison**: the filter answers what SQL says, null or misread numbers apart. -/
theorem compareScalars_eq_reading (h : compareScalars f left op right = .ok b) :
    b = reading (compareSql f left op right) (misread f left op right) := by
  unfold compareScalars at h
  rw [compareSql]
  split at h
  · next hnull =>
    rw [if_pos hnull, misread_of_isNull f op hnull, ← ok.inj h]
    rfl
  rename_i hnull
  rw [if_neg hnull]
  split at h
  · rw [← ok.inj h, scalarsEqual_eq_reading]
  · rw [← ok.inj h, scalarsEqual_eq_reading, compareExact_notEq, misread_notEq]
    cases compareExact f left .eq right <;> cases misread f left .eq right <;> rfl
  · next heq hnotEq => exact compareNumeric_eq_reading f ⟨heq, hnotEq⟩ h

/-! ### Clauses -/

omit [LinearOrder F] in
theorem ValueExpr.scalar_of_compile (row : Row) :
    ∀ (e : WhereExpr) (v : ValueExpr F), ValueExpr.compile f e = .ok v →
      e.scalar f row = v.evaluate row
  | .nested e, v, h => scalar_of_compile row e v h
  | .identifier _, v, h => by
    rw [← ok.inj h]
    rfl
  | .compoundIdentifier names, v, h => by
    unfold compile at h
    split at h
    · cases h
    rename_i name hname
    rw [← ok.inj h, scalar, hname]
    rfl
  | .value v, _, h => by
    obtain ⟨s, hs, rfl⟩ := map_eq_ok_iff.mp h
    rw [scalar, hs]
    rfl

/-- A null value is unknown in a list, and false in the empty one. -/
theorem anyEqualSql_of_isNull (h : value.isNull = true) :
    ∀ list : List (Scalar F),
      anyEqualSql f value list = if list.isEmpty then .false else .unknown
  | [] => rfl
  | item :: rest => by
    rw [anyEqualSql, compareSql, h, anyEqualSql_of_isNull h rest]
    cases rest <;> rfl

theorem matchesAny_eq_reading (row : Row) :
    ∀ {list : List (ValueExpr F)} {b : Bool}, matchesAny f row value list = .ok b →
      b = reading (anyEqualSql f value (list.map (ValueExpr.evaluate row)))
        (misjudgedAny f value (list.map (ValueExpr.evaluate row)))
  | [], b, h => (ok.inj h).symm
  | item :: rest, b, h => by
    rw [matchesAny, bind_eq_ok_iff] at h
    obtain ⟨equal, hequal, h⟩ := h
    rw [List.map_cons, anyEqualSql, misjudgedAny, reading_or, ← compareScalars_eq_reading f hequal]
    cases equal
    · exact matchesAny_eq_reading row h
    · exact (pure_eq_ok_iff.mp h).symm

theorem isBetween_eq_reading {low high : Scalar F} (h : isBetween f value low high = .ok b) :
    b = reading ((compareSql f value .gtEq low).and (compareSql f value .ltEq high))
      (misjudgedAnd (compareSql f value .gtEq low) (misread f value .gtEq low)
        (compareSql f value .ltEq high) (misread f value .ltEq high)) := by
  rw [isBetween, bind_eq_ok_iff] at h
  obtain ⟨above, habove, h⟩ := h
  rw [reading_and, ← compareScalars_eq_reading f habove]
  cases above
  · exact (pure_eq_ok_iff.mp h).symm
  · exact compareScalars_eq_reading f h

/-- A predicate over one value answers by the value of its expression. -/
theorem answer_of_value (answer : Scalar F → Except RowFilterError Bool)
    (hmk : ∀ v, (mk v).evaluate f row = answer (v.evaluate row))
    (hc : (do return mk (← ValueExpr.compile f e)) = .ok p) (hb : p.evaluate f row = .ok b) :
    answer (e.scalar f row) = .ok b := by
  obtain ⟨v, hv, hp⟩ := bind_eq_ok_iff.mp hc
  rw [← pure_eq_ok_iff.mp hp, hmk] at hb
  rw [scalar_of_compile f row e v hv]
  exact hb

theorem test_eq_reading (test : Scalar F → Bool)
    (hmk : ∀ v, (mk v).evaluate f row = .ok (test (v.evaluate row)))
    (hc : (do return mk (← ValueExpr.compile f e)) = .ok p) (hb : p.evaluate f row = .ok b) :
    b = reading (.ofBool (test (e.scalar f row))) false := by
  rw [reading_ofBool]
  exact (ok.inj (answer_of_value f (fun v => .ok (test v)) hmk hc hb)).symm

theorem bool_eq_reading (hc : (do return bool (← ValueExpr.compile f e)) = .ok p)
    (hb : p.evaluate f row = .ok b) : b = reading (e.scalar f row).truth false := by
  have hcoerce := answer_of_value f (coerceToBool f) (fun _ => rfl) hc hb
  unfold coerceToBool at hcoerce
  split at hcoerce
  · next h => rw [h, ← ok.inj hcoerce]; rfl
  · next v h => rw [h, Scalar.truth, reading_ofBool, ok.inj hcoerce]
  · cases hcoerce

theorem comparison_eq_reading {left right : WhereExpr} {o : BinaryOperator}
    (ho : fromBinaryOperator o = .ok op) (hc : compile f (.binaryOp left o right) depth = .ok p)
    (hb : p.evaluate f row = .ok b) :
    b = reading ((WhereExpr.binaryOp left o right).truth f row)
      ((WhereExpr.binaryOp left o right).misjudged f row) := by
  have hparts : (do
      let left ← compile f left
      return comparison left op (← compile f right)) = .ok p := by
    cases o <;> cases ho <;> exact eq_ok_of_check hc
  have htruth : (binaryOp left o right).truth f row =
      compareSql f (left.scalar f row) op (right.scalar f row) := by
    cases o <;> cases ho <;> rfl
  have hmisjudged : (binaryOp left o right).misjudged f row =
      misread f (left.scalar f row) op (right.scalar f row) := by
    cases o <;> cases ho <;> rfl
  obtain ⟨l, hl, hparts⟩ := bind_eq_ok_iff.mp hparts
  obtain ⟨r, hr, hp⟩ := bind_eq_ok_iff.mp hparts
  rw [← pure_eq_ok_iff.mp hp] at hb
  rw [htruth, hmisjudged, scalar_of_compile f row left l hl, scalar_of_compile f row right r hr]
  exact compareScalars_eq_reading f hb

theorem between_eq_reading {low high : WhereExpr}
    (hc : compile f (.between e negated low high) depth = .ok p) (hb : p.evaluate f row = .ok b) :
    b = reading ((WhereExpr.between e negated low high).truth f row)
      ((WhereExpr.between e negated low high).misjudged f row) := by
  obtain ⟨value, hvalue, hc⟩ := bind_eq_ok_iff.mp (eq_ok_of_check hc)
  obtain ⟨l, hl, hc⟩ := bind_eq_ok_iff.mp hc
  obtain ⟨h, hh, hc⟩ := bind_eq_ok_iff.mp hc
  rw [← pure_eq_ok_iff.mp hc] at hb
  obtain ⟨matched, hmatched, hb⟩ := bind_eq_ok_iff.mp hb
  rw [truth, misjudged, scalar_of_compile f row e value hvalue,
    scalar_of_compile f row low l hl, scalar_of_compile f row high h hh,
    reading_negateIf, ← isBetween_eq_reading f hmatched]
  exact (pure_eq_ok_iff.mp hb).symm

theorem inList_eq_reading {list : List WhereExpr}
    (hc : Predicate.compile f (.inList e list negated) depth = .ok p)
    (hb : p.evaluate f row = .ok b) :
    b = reading ((WhereExpr.inList e list negated).truth f row)
      ((WhereExpr.inList e list negated).misjudged f row) := by
  obtain ⟨value, hvalue, hc⟩ := bind_eq_ok_iff.mp (eq_ok_of_check (eq_ok_of_check hc))
  obtain ⟨items, hitems, hc⟩ := bind_eq_ok_iff.mp hc
  rw [← pure_eq_ok_iff.mp hc, Predicate.evaluate] at hb
  have hmap : list.map (scalar f row) = items.map (evaluate row) :=
    mapM_eq_ok (fun e v h => scalar_of_compile f row e v h) hitems
  have hempty : list.isEmpty = (items.map (evaluate row)).isEmpty := by
    rw [← hmap, List.isEmpty_map]
  rw [truth, misjudged, scalar_of_compile f row e value hvalue, hmap, hempty]
  by_cases hnull : (value.evaluate row).isNull = true
  · rw [if_pos hnull] at hb ⊢
    rw [anyEqualSql_of_isNull f hnull, ← ok.inj hb]
    cases negated <;> cases (items.map (evaluate row)).isEmpty <;> rfl
  rw [if_neg hnull] at hb ⊢
  obtain ⟨matched, hmatched, hb⟩ := bind_eq_ok_iff.mp hb
  rw [reading_negateIf, ← matchesAny_eq_reading f row hmatched]
  exact (pure_eq_ok_iff.mp hb).symm

/-- A compiled clause answers SQL's verdict unless the row is misjudged. The right side of a
conjunction or a disjunction need not be evaluated, so nothing is asked of it. -/
theorem evaluate_eq_reading (row : Row) :
    ∀ (e : WhereExpr) {depth : ℕ} {p : Predicate F} {b : Bool},
      compile f e depth = .ok p → p.evaluate f row = .ok b →
        b = reading (e.truth f row) (e.misjudged f row)
  | .nested e, depth, p, b, hc, hb => by
    exact evaluate_eq_reading row e (eq_ok_of_check hc) hb
  | .unaryOp .not e, depth, p, b, hc, hb => by
    obtain ⟨inner, hinner, hc⟩ := bind_eq_ok_iff.mp (eq_ok_of_check hc)
    rw [← pure_eq_ok_iff.mp hc] at hb
    obtain ⟨b', hb', hb⟩ := bind_eq_ok_iff.mp hb
    rw [truth, misjudged, reading_not, ← evaluate_eq_reading row e hinner hb']
    exact (pure_eq_ok_iff.mp hb).symm
  | .binaryOp left .and right, depth, p, b, hc, hb => by
    obtain ⟨l, hl, hc⟩ := bind_eq_ok_iff.mp (eq_ok_of_check hc)
    obtain ⟨r, hr, hc⟩ := bind_eq_ok_iff.mp hc
    rw [← pure_eq_ok_iff.mp hc] at hb
    obtain ⟨b', hb', hb⟩ := bind_eq_ok_iff.mp hb
    rw [truth, misjudged, reading_and, ← evaluate_eq_reading row left hl hb']
    cases b'
    · exact (pure_eq_ok_iff.mp hb).symm
    · exact evaluate_eq_reading row right hr hb
  | .binaryOp left .or right, depth, p, b, hc, hb => by
    obtain ⟨l, hl, hc⟩ := bind_eq_ok_iff.mp (eq_ok_of_check hc)
    obtain ⟨r, hr, hc⟩ := bind_eq_ok_iff.mp hc
    rw [← pure_eq_ok_iff.mp hc] at hb
    obtain ⟨b', hb', hb⟩ := bind_eq_ok_iff.mp hb
    rw [truth, misjudged, reading_or, ← evaluate_eq_reading row left hl hb']
    cases b'
    · exact evaluate_eq_reading row right hr hb
    · exact (pure_eq_ok_iff.mp hb).symm
  | .binaryOp _ .eq _, _, _, _, hc, hb
  | .binaryOp _ .notEq _, _, _, _, hc, hb
  | .binaryOp _ .lt _, _, _, _, hc, hb
  | .binaryOp _ .gt _, _, _, _, hc, hb
  | .binaryOp _ .ltEq _, _, _, _, hc, hb
  | .binaryOp _ .gtEq _, _, _, _, hc, hb => comparison_eq_reading f rfl hc hb
  | .binaryOp _ .other _, _, _, _, hc, _ => by
    obtain ⟨_, _, hc⟩ := bind_eq_ok_iff.mp (eq_ok_of_check hc)
    cases hc
  | .between _ _ _ _, _, _, _, hc, hb => between_eq_reading f hc hb
  | .inList _ _ _, _, _, _, hc, hb => inList_eq_reading f hc hb
  | .isNull _, _, _, _, hc, hb =>
    test_eq_reading f Scalar.isNull (fun _ => rfl) (eq_ok_of_check hc) hb
  | .isNotNull _, _, _, _, hc, hb =>
    test_eq_reading f (fun v => !v.isNull) (fun _ => rfl) (eq_ok_of_check hc) hb
  | .isTrue _, _, _, _, hc, hb =>
    test_eq_reading f (fun v => decide (v = .cell (.boolean true))) (fun _ => rfl)
      (eq_ok_of_check hc) hb
  | .isNotTrue _, _, _, _, hc, hb =>
    test_eq_reading f (fun v => !decide (v = .cell (.boolean true))) (fun _ => rfl)
      (eq_ok_of_check hc) hb
  | .isFalse _, _, _, _, hc, hb =>
    test_eq_reading f (fun v => decide (v = .cell (.boolean false))) (fun _ => rfl)
      (eq_ok_of_check hc) hb
  | .isNotFalse _, _, _, _, hc, hb =>
    test_eq_reading f (fun v => !decide (v = .cell (.boolean false))) (fun _ => rfl)
      (eq_ok_of_check hc) hb
  | .identifier _, _, _, _, hc, hb
  | .compoundIdentifier _, _, _, _, hc, hb
  | .value _, _, _, _, hc, hb =>
    bool_eq_reading f (eq_ok_of_check hc) hb
  | .unaryOp .other _, _, _, _, hc, _
  | .subquery, _, _, _, hc, _
  | .other, _, _, _, hc, _ => by cases eq_ok_of_check hc

/-! ### Agreement -/

/-- **The filter agrees with SQL on a row exactly when the row is not misjudged.** -/
theorem filter_agrees_iff {row : Row} {e : WhereExpr} {p : Predicate F} {b : Bool}
    (hcompile : Predicate.compile f e 0 = .ok p) (heval : p.evaluate f row = .ok b) :
    (b = true ↔ e.truth f row = .true) ↔ e.misjudged f row = false := by
  rw [evaluate_eq_reading f row e hcompile heval]
  cases e.truth f row <;> cases e.misjudged f row <;> decide

/-- Numbers without rounding; the machine epsilon is `2⁻⁵²`. -/
def exactFloats : FloatOps ℚ where
  ofInt v := v
  parse n := n.mantissa * 10 ^ n.exponent.getD 0
  near x y := decide (|x - y| < 1 / 2 ^ 52)
  debug _ := ""

/-- `x = 1` -/
def equalsOne : WhereExpr := .binaryOp (.identifier "x") .eq (.value (.number ⟨1, none⟩))

/-- `x NOT BETWEEN 1 AND NULL` -/
def notBetweenNull : WhereExpr :=
  .between (.identifier "x") true (.value (.number ⟨1, none⟩)) (.value .null)

/-- `x NOT IN (1, NULL)` -/
def notInNull : WhereExpr :=
  .inList (.identifier "x") [.value (.number ⟨1, none⟩), .value .null] true

/-- `NOT (x = 1) OR x = 1` agrees with SQL on a row with `x = 2`. -/
theorem negation_of_known_agrees :
    ∃ p, Predicate.compile exactFloats
        (.binaryOp (.unaryOp .not equalsOne) .or equalsOne) 0 = .ok p ∧
      p.evaluate exactFloats ⟨[("x", .int32 2)]⟩ = .ok true ∧
      WhereExpr.truth exactFloats ⟨[("x", .int32 2)]⟩
        (.binaryOp (.unaryOp .not equalsOne) .or equalsOne) = .true := by
  refine ⟨_, rfl, by decide +kernel, ?_⟩
  exact ((filter_agrees_iff exactFloats rfl (by decide +kernel)).mpr
    (by decide +kernel)).mp rfl

/-- The filter matches rows whose clause is unknown: a negated comparison with a null, a value
that may lie inside an open range, and one that may equal a null item. -/
theorem filter_matches_unknown :
    (∃ p, Predicate.compile exactFloats (.unaryOp .not equalsOne) 0 = .ok p ∧
      p.evaluate exactFloats ⟨[("x", .null)]⟩ = .ok true ∧
      WhereExpr.truth exactFloats ⟨[("x", .null)]⟩ (.unaryOp .not equalsOne) = .unknown) ∧
    (∃ p, Predicate.compile exactFloats notBetweenNull 0 = .ok p ∧
      p.evaluate exactFloats ⟨[("x", .int32 2)]⟩ = .ok true ∧
      WhereExpr.truth exactFloats ⟨[("x", .int32 2)]⟩ notBetweenNull = .unknown) ∧
    (∃ p, Predicate.compile exactFloats notInNull 0 = .ok p ∧
      p.evaluate exactFloats ⟨[("x", .int32 2)]⟩ = .ok true ∧
      WhereExpr.truth exactFloats ⟨[("x", .int32 2)]⟩ notInNull = .unknown) := by
  refine ⟨⟨_, rfl, ?_, ?_⟩, ⟨_, rfl, ?_, ?_⟩, ⟨_, rfl, ?_, ?_⟩⟩ <;> decide +kernel

end KalamDB.RowFilter
