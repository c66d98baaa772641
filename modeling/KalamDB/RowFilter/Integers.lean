import Mathlib.Tactic.Linarith
import KalamDB.RowFilter.Agreement
import KalamDB.Storage.IndexBytes

/-!
# Row filters: comparisons of integers

A filter compares integers as 64-bit floats, and a float has 53 bits for them. Rounding to the
nearest float keeps the order, so it is never reversed. But two integers may become **one** float,
and then they are equal to the filter. `integer_comparisons_exact_iff` says that nothing else can
go wrong.
-/

namespace KalamDB.RowFilter

open Fallible WhereExpr ValueExpr ComparisonOp Scalar Number Except

/-! ### Rounding -/

/-- The integers with a significand of 53 bits. -/
def IsDouble (x : ℤ) : Prop := ∃ (m : ℤ) (e : ℕ), m.natAbs < 2 ^ 53 ∧ x = m * 2 ^ e

/-- **The floats of integers**: a nearest integer with a significand of 53 bits. -/
structure RoundsToNearest (f : FloatOps ℚ) (round : ℤ → ℤ) : Prop where
  ofInt : ∀ v, f.ofInt v = round v
  parse : ∀ n, f.parse ⟨n, none⟩ = round n
  near : ∀ x y, f.near x y = decide (|x - y| < 1 / 2 ^ 52)
  isDouble : ∀ v, IsDouble (round v)
  nearest : ∀ v x, IsDouble x → (v - round v).natAbs ≤ (v - x).natAbs

/-- The operand is an integer: a column of the row holds it, or it is written. -/
inductive IsInteger (f : FloatOps ℚ) (row : Row) (e : WhereExpr) : ℤ → Prop where
  | column {ref v a} (he : ValueExpr.compile f e = .ok (.column ref))
    (hv : ref.lookup row = some v) (ha : scalarIndexInteger v = some a) : IsInteger f row e a
  | literal (n : ℕ) (hn : n < 2 ^ 64)
    (he : ValueExpr.compile f e = ValueExpr.compile f (.value (.number ⟨n, none⟩))) :
    IsInteger f row e n

/-- What the filter answers to a comparison. -/
def answer (f : FloatOps ℚ) (row : Row) (left : WhereExpr) (op : BinaryOperator)
    (right : WhereExpr) : Except RowFilterError Bool := do
  (← Predicate.compile f (.binaryOp left op right) 0).evaluate f row

variable {f : FloatOps ℚ} {round : ℤ → ℤ} {row : Row} {left right : WhereExpr} {a b : ℤ}

theorem number_cell (v : ScalarValue) :
    (cell v : Scalar ℚ).number = (scalarIndexInteger v).map .int := by
  cases v <;> rfl

namespace RoundsToNearest

variable (hf : RoundsToNearest f round)
include hf

theorem monotone (hab : a ≤ b) : round a ≤ round b := by
  have ha := hf.nearest a (round b) (hf.isDouble b)
  have hb := hf.nearest b (round a) (hf.isDouble a)
  by_contra hlt
  obtain rfl : a = b := by omega
  exact hlt le_rfl

/-- Floats of integers are near each other only if they are equal. -/
theorem near_iff (x y : ℤ) : f.near x y = decide (x = y) := by
  rw [hf.near, decide_eq_decide]
  refine ⟨fun hnear => by_contra fun hne => ?_, fun heq => by simp [heq]⟩
  have hone : (1 : ℚ) ≤ |(x : ℚ) - y| := by
    exact_mod_cast Int.one_le_abs (sub_ne_zero.mpr hne)
  linarith

/-- The float of an operand is the rounded integer. -/
theorem exists_compile {e : WhereExpr} (h : IsInteger f row e a) :
    ∃ v x, ValueExpr.compile f e = .ok v ∧ (v.evaluate row).number = some x ∧
      x.toFloat f = round a := by
  cases h with
  | column he hv ha =>
    refine ⟨_, .int a, he, ?_, hf.ofInt a⟩
    rw [evaluate, hv, Option.getD_some, number_cell, ha, Option.map_some]
  | literal n _ he =>
    rw [he]
    by_cases hsmall : n < 2 ^ 63
    · refine ⟨.literal (.cell (.int64 (.ofNat n))), .int n, ?_, ?_, hf.ofInt n⟩
      · rw [compile, scalarFromValue, if_pos ⟨rfl, hsmall⟩, Except.map]
      · rw [evaluate, number, Int64.toInt_ofNat_of_lt hsmall]
    · refine ⟨.literal (.float64 (f.parse ⟨n, none⟩)), .float _, ?_, rfl, hf.parse n⟩
      rw [compile, scalarFromValue, if_neg fun h => hsmall h.2, Except.map]

/-- **The filter compares the rounded integers.** -/
theorem answer_eq (ha : IsInteger f row left a) (hb : IsInteger f row right b)
    {op : BinaryOperator} {cmp : ComparisonOp} (hop : fromBinaryOperator op = .ok cmp) :
    answer f row left op right = .ok (cmp.holds (round a) (round b)) := by
  obtain ⟨v, x, hv, hx, hxa⟩ := hf.exists_compile ha
  obtain ⟨w, y, hw, hy, hyb⟩ := hf.exists_compile hb
  have hanswer : answer f row left op right =
      compareScalars f (v.evaluate row) cmp (w.evaluate row) := by
    cases op <;> cases hop <;>
      simp [answer, Predicate.compile, Predicate.evaluate, MAX_FILTER_DEPTH, hv, hw,
        fromBinaryOperator, bind, Except.bind, pure, Except.pure]
  have hnull : ¬((v.evaluate row).isNull || (w.evaluate row).isNull) = true := by
    rw [Bool.or_eq_true]
    rintro (hnull | hnull) <;> simp_all [number_of_isNull hnull]
  have hequal : scalarsEqual f (v.evaluate row) (w.evaluate row) =
      decide (round a = round b) := by
    unfold scalarsEqual
    split
    · next heq =>
      obtain rfl := Option.some.inj (hx.symm.trans (heq ▸ hy))
      rw [hxa] at hyb
      simp [Int.cast_inj.mp hyb]
    · rw [asStr_of_number hx, asF64_eq, asF64_eq, hx, hy]
      simp only [Option.map_some, hxa, hyb, hf.near_iff]
  rw [hanswer]
  cases cmp <;> rw [compareScalars, if_neg hnull] <;>
    simp [hequal, holds, compareNumeric, asF64_eq, hx, hy, hxa, hyb, Int.cast_lt, Int.cast_le]

/-- Integers that stay apart are compared as they are. -/
theorem holds_round (hapart : round a = round b → a = b) (cmp : ComparisonOp) :
    cmp.holds (round a) (round b) = cmp.holds a b := by
  have hle := hf.monotone (a := a) (b := b)
  have hge := hf.monotone (a := b) (b := a)
  cases cmp <;> simp only [holds, decide_eq_decide] <;> grind

end RoundsToNearest

/-- **When integers are compared exactly**: if they are equal or have different floats. -/
theorem integer_comparisons_exact_iff (hf : RoundsToNearest f round)
    (ha : IsInteger f row left a) (hb : IsInteger f row right b) :
    (∀ op cmp, fromBinaryOperator op = .ok cmp →
        answer f row left op right = .ok (cmp.holds a b)) ↔
      (round a = round b → a = b) := by
  constructor
  · intro hexact hround
    have heq := (hf.answer_eq ha hb rfl).symm.trans (hexact .eq .eq rfl)
    simpa [holds, hround] using heq
  · intro hapart op cmp hop
    rw [hf.answer_eq ha hb hop, hf.holds_round hapart]

/-! ### Identifiers of 55 bits -/

theorem exists_nearest (v : ℤ) :
    ∃ r, IsDouble r ∧ ∀ x, IsDouble x → (v - r).natAbs ≤ (v - x).natAbs := by
  obtain ⟨r, hr, hmin⟩ := (measure fun x => (v - x).natAbs).wf.has_min {x | IsDouble x}
    ⟨0, 0, 0, by decide, rfl⟩
  exact ⟨r, hr, fun x hx => not_lt.mp (hmin x hx)⟩

theorem exists_roundsToNearest : ∃ f round, RoundsToNearest f round := by
  choose round hdouble hnearest using exists_nearest
  exact ⟨{ exactFloats with ofInt := fun v => round v, parse := fun n => round n.mantissa }, round,
    fun _ => rfl, fun _ => rfl, fun _ _ => rfl, hdouble, hnearest⟩

/-- `id = 18014398509481984` holds for the row with the next id. -/
theorem neighbours_are_equal :
    ∃ f round, RoundsToNearest f round ∧
      answer f ⟨[("id", .int64 (2 ^ 54 + 1))]⟩ (.identifier "id") .eq
        (.value (.number ⟨2 ^ 54, none⟩)) = .ok true := by
  obtain ⟨f, round, hf⟩ := exists_roundsToNearest
  refine ⟨f, round, hf, (hf.answer_eq (a := 2 ^ 54 + 1) (.column rfl rfl rfl)
    (.literal (2 ^ 54) (by decide) rfl) rfl).trans ?_⟩
  have hpower : IsDouble (2 ^ 54) := ⟨1, 54, by decide, by norm_num⟩
  have hself := hf.nearest (2 ^ 54) _ hpower
  have hnext := hf.nearest (2 ^ 54 + 1) _ hpower
  obtain ⟨m, e, hm, heq⟩ := hf.isDouble (2 ^ 54 + 1)
  have hround : round (2 ^ 54 + 1) = round (2 ^ 54) := by
    -- the next two integers need a significand of 54 bits
    match e with
    | 0 | 1 => omega
    | e + 2 =>
      rw [pow_add, ← mul_assoc] at heq
      omega
  rw [hround, Nat.cast_pow, Nat.cast_ofNat, holds, decide_eq_true rfl]

/-- Small integers are floats. -/
theorem small_integers_compared_exactly :
    ∃ f round, RoundsToNearest f round ∧ ∀ op cmp, fromBinaryOperator op = .ok cmp →
      answer f ⟨[("id", .int64 3)]⟩ (.identifier "id") op (.value (.number ⟨5, none⟩)) =
        .ok (cmp.holds (3 : ℤ) 5) := by
  obtain ⟨f, round, hf⟩ := exists_roundsToNearest
  have hthree := hf.nearest 3 3 ⟨3, 0, by decide, by norm_num⟩
  have hfive := hf.nearest 5 5 ⟨5, 0, by decide, by norm_num⟩
  refine ⟨f, round, hf, (integer_comparisons_exact_iff hf (.column rfl rfl rfl)
    (.literal 5 (by decide) rfl)).mpr fun hround => ?_⟩
  rw [Nat.cast_ofNat] at hround
  omega

end KalamDB.RowFilter
