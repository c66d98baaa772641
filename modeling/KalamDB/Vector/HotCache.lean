import KalamDB.Lib.Smallest
import Mathlib.Algebra.Order.Group.Int
import Mathlib.Data.List.AList

/-!
# The cache of staged vector operations

Writes to a vector column stage operations, in the order of their sequence numbers, until a flush
builds them into a snapshot. A search reads them through a cache that is kept between searches: an
index over the staged vectors, **brought up to date by scanning the operations after the last one it
has seen**. The index is modelled by its entries under their row ids, without the numeric keys in
between.

`Reflects ops s` says that the cache holds what applying `ops` leaves: the rows they touched and the
vector of each. Applying the next operations keeps it (`Reflects.applyStaged`).
-/

namespace KalamDB.Vector

open List

inductive VectorMetric where
  | cosine
  | l2
  | dot
  deriving DecidableEq

inductive VectorHotOpType where
  | upsert
  | delete
  deriving DecidableEq

structure VectorHotOp (F : Type) where
  pk : String
  opType : VectorHotOpType
  vector : Option (List F)

/-- An operation with its sequence number, the key it is staged under. -/
abbrev StagedOp (F : Type) : Type := ℤ × VectorHotOp F

/-- `HOT_INCREMENTAL_SCAN_LIMIT` -/
def hotIncrementalScanLimit : ℕ := 100000

structure HotCacheState (F : Type) where
  baseLastAppliedSeq : ℤ
  lastScannedSeq : ℤ
  dimensions : ℕ
  metric : VectorMetric
  index : AList fun _ : String => List F
  latestSeqByPk : AList fun _ : String => ℤ

namespace HotCacheState

variable {F : Type}

def new (dimensions : ℕ) (metric : VectorMetric) (baseLastAppliedSeq : ℤ) : HotCacheState F where
  baseLastAppliedSeq := baseLastAppliedSeq
  lastScannedSeq := baseLastAppliedSeq
  dimensions := dimensions
  metric := metric
  index := ∅
  latestSeqByPk := ∅

variable (s : HotCacheState F)

/-- The row counts as touched before its vector is checked. -/
def touch (seq : ℤ) (pk : String) : HotCacheState F :=
  { s with
    latestSeqByPk := s.latestSeqByPk.insert pk seq
    lastScannedSeq := max s.lastScannedSeq seq }

/-- The entry of a row after an operation that leaves it this vector. -/
def settle (pk : String) : Option (List F) → HotCacheState F
  | none => { s with index := s.index.erase pk }
  | some vector => { s with index := s.index.insert pk vector }

def applyHotOp (seq : ℤ) (op : VectorHotOp F) :
    Except String Unit × HotCacheState F :=
  if (s.latestSeqByPk.lookup op.pk).any (seq ≤ ·) then (.ok (), s)
  else
    let s := s.touch seq op.pk
    match op.opType, op.vector with
    | .delete, _ => (.ok (), s.settle op.pk none)
    | .upsert, none => (.ok (), s.settle op.pk none)
    | .upsert, some vector =>
      if vector.length ≠ s.dimensions then
        (.error ("Hot vector dimension mismatch for pk '" ++ op.pk ++ "': expected " ++
          toString s.dimensions ++ ", found " ++ toString vector.length), s)
      else (.ok (), s.settle op.pk (some vector))

/-- The loop over the scanned operations. A failed operation ends it, and the state keeps what was
done. -/
def applyStaged (lastAppliedSeq : ℤ) :
    List (StagedOp F) → HotCacheState F → Except String Unit × HotCacheState F
  | [], s => (.ok (), s)
  | (seq, op) :: rest, s =>
    if seq ≤ lastAppliedSeq ∨ seq ≤ s.lastScannedSeq then applyStaged lastAppliedSeq rest s
    else
      match s.applyHotOp seq op with
      | (.ok (), s) => applyStaged lastAppliedSeq rest s
      | (.error e, s) => (.error ("Failed to apply hot shared op: " ++ e), s)

/-- The operations a search scans. -/
def scanStaged (staged : List (StagedOp F)) : List (StagedOp F) :=
  (staged.filter fun e => s.lastScannedSeq + 1 ≤ e.1).take hotIncrementalScanLimit

end HotCacheState

/-! ### What the cache holds -/

/-- The vector a row has after the operation. -/
def VectorHotOp.result {F : Type} (op : VectorHotOp F) : Option (List F) :=
  match op.opType with
  | .upsert => op.vector
  | .delete => none

/-- The vector that the last operation on a row leaves. -/
def latestVector {F : Type} (ops : List (StagedOp F)) (pk : String) : Option (List F) :=
  ((ops.filter fun e => e.2.pk == pk).getLast?).bind (·.2.result)

variable {F : Type}

theorem latestVector_append_singleton (ops : List (StagedOp F)) (e : StagedOp F) (pk : String) :
    latestVector (ops ++ [e]) pk = if pk = e.2.pk then e.2.result else latestVector ops pk := by
  rcases eq_or_ne pk e.2.pk with rfl | hne
  · simp [latestVector]
  · simp [latestVector, hne, hne.symm]

namespace HotCacheState

variable {op : VectorHotOp F}

/-- The cache of a search with this dimension, metric and snapshot that has applied `ops`. -/
structure Reflects (dimensions : ℕ) (metric : VectorMetric) (base : ℤ) (ops : List (StagedOp F))
    (s : HotCacheState F) : Prop where
  dimensions_eq : s.dimensions = dimensions
  metric_eq : s.metric = metric
  base_eq : s.baseLastAppliedSeq = base
  scanned : s.lastScannedSeq = (ops.getLast?.map Prod.fst).getD base
  latest : ∀ pk seq, s.latestSeqByPk.lookup pk = some seq → seq ≤ s.lastScannedSeq
  touched : ∀ pk, pk ∈ s.latestSeqByPk ↔ ∃ e ∈ ops, e.2.pk = pk
  vector : ∀ pk, s.index.lookup pk = latestVector ops pk

variable {dimensions : ℕ} {metric : VectorMetric} {base : ℤ} {ops : List (StagedOp F)}
  {s : HotCacheState F}

theorem reflects_new (dimensions : ℕ) (metric : VectorMetric) (base : ℤ) :
    Reflects dimensions metric base [] (new dimensions metric base : HotCacheState F) where
  dimensions_eq := rfl
  metric_eq := rfl
  base_eq := rfl
  scanned := rfl
  latest := by simp [new]
  touched := by simp [new]
  vector := by simp [new, latestVector]

theorem lookup_settle (s : HotCacheState F) (pk : String) (v : Option (List F)) (pk' : String) :
    (s.settle pk v).index.lookup pk' = if pk' = pk then v else s.index.lookup pk' := by
  cases v <;> rcases eq_or_ne pk' pk with rfl | hne <;> simp [settle, *]

/-- An operation that is newer than what the cache knows of the row and whose vector has the
dimension of the cache. -/
theorem applyHotOp_eq {seq : ℤ}
    (hnew : ∀ latest, s.latestSeqByPk.lookup op.pk = some latest → latest < seq)
    (hdims : ∀ v, op.vector = some v → v.length = s.dimensions) :
    s.applyHotOp seq op = (.ok (), (s.touch seq op.pk).settle op.pk op.result) := by
  have hguard : (s.latestSeqByPk.lookup op.pk).any (fun latest => decide (seq ≤ latest)) =
      false := by
    cases h : s.latestSeqByPk.lookup op.pk with
    | none => rfl
    | some latest => simpa using hnew latest h
  obtain ⟨pk, opType, vector⟩ := op
  simp only [applyHotOp, hguard]
  cases opType with
  | delete => rfl
  | upsert =>
    cases vector with
    | none => rfl
    | some v =>
      have hlen : ¬ v.length ≠ (s.touch seq pk).dimensions := not_not.mpr (hdims v rfl)
      exact if_neg hlen

section

variable (hs : Reflects dimensions metric base ops s)
include hs

theorem Reflects.settle {e : StagedOp F} (hnew : s.lastScannedSeq < e.1) :
    Reflects dimensions metric base (ops ++ [e])
      ((s.touch e.1 e.2.pk).settle e.2.pk e.2.result) := by
  have hframe : ∀ (t : HotCacheState F) (v : Option (List F)),
      (t.settle e.2.pk v).latestSeqByPk = t.latestSeqByPk ∧
        (t.settle e.2.pk v).lastScannedSeq = t.lastScannedSeq ∧
        (t.settle e.2.pk v).dimensions = t.dimensions ∧ (t.settle e.2.pk v).metric = t.metric ∧
        (t.settle e.2.pk v).baseLastAppliedSeq = t.baseLastAppliedSeq := by
    intro t v
    cases v <;> exact ⟨rfl, rfl, rfl, rfl, rfl⟩
  obtain ⟨hlatest, hscanned, hdim, hmetric, hbase⟩ := hframe (s.touch e.1 e.2.pk) e.2.result
  have hmax : (s.touch e.1 e.2.pk).lastScannedSeq = e.1 := max_eq_right hnew.le
  refine ⟨hdim.trans hs.dimensions_eq, hmetric.trans hs.metric_eq, hbase.trans hs.base_eq, ?_,
    fun pk seq h => ?_, fun pk => ?_, fun pk => ?_⟩
  · simp [hscanned, hmax]
  · rw [hlatest] at h
    rw [hscanned, hmax]
    change (s.latestSeqByPk.insert e.2.pk e.1).lookup pk = some seq at h
    rcases eq_or_ne pk e.2.pk with rfl | hne
    · rw [AList.lookup_insert] at h
      exact (Option.some.inj h).ge
    · rw [AList.lookup_insert_ne hne] at h
      exact (hs.latest pk seq h).trans hnew.le
  · rw [hlatest]
    change pk ∈ s.latestSeqByPk.insert e.2.pk e.1 ↔ _
    rw [AList.mem_insert, hs.touched]
    simp only [mem_append, mem_singleton, or_and_right, exists_or, exists_eq_left]
    rw [or_comm, eq_comm]
  · rw [lookup_settle, latestVector_append_singleton]
    exact if_congr Iff.rfl rfl (hs.vector pk)

/-- **Catching up**: operations after the last one seen, in order, are all applied. -/
theorem Reflects.applyStaged
    (rest : List (StagedOp F)) (hsorted : rest.Pairwise fun a b => a.1 < b.1)
    (hnew : ∀ e ∈ rest, s.lastScannedSeq < e.1) (hbase : ∀ e ∈ rest, base < e.1)
    (hdims : ∀ e ∈ rest, ∀ v, e.2.vector = some v → v.length = dimensions) :
    ∃ s', s.applyStaged base rest = (.ok (), s') ∧
      Reflects dimensions metric base (ops ++ rest) s' := by
  induction rest generalizing ops s with
  | nil => exact ⟨s, rfl, by simpa using hs⟩
  | cons e rest ih =>
    obtain ⟨hnewe, -⟩ := forall_mem_cons.mp hnew
    obtain ⟨hbasee, hbase⟩ := forall_mem_cons.mp hbase
    obtain ⟨hdimse, hdims⟩ := forall_mem_cons.mp hdims
    obtain ⟨hlt, hrest⟩ := pairwise_cons.mp hsorted
    have hnext := hs.settle hnewe
    have hscanned : ((s.touch e.1 e.2.pk).settle e.2.pk e.2.result).lastScannedSeq = e.1 := by
      simp [hnext.scanned]
    obtain ⟨s', hs', hreflects⟩ :=
      ih hnext hrest (fun e' he' => hscanned.trans_lt (hlt e' he')) hbase hdims
    refine ⟨s', ?_, by simpa using hreflects⟩
    rw [applyStaged, if_neg (by omega),
      applyHotOp_eq (fun latest h => (hs.latest e.2.pk latest h).trans_lt hnewe)
        (hs.dimensions_eq ▸ hdimse)]
    exact hs'

end

/-! ### Vectors of another dimension -/

/-- An operation of another dimension than the cache's leaves no vector, though it counts as
applied. -/
theorem index_applyHotOp (hs : s.index = ∅) (seq : ℤ)
    (hdims : ∀ v, op.vector = some v → v.length ≠ s.dimensions) :
    (s.applyHotOp seq op).2.index = ∅ ∧ (s.applyHotOp seq op).2.dimensions = s.dimensions := by
  have herase : ∀ pk, ((s.touch seq pk).settle pk none).index = ∅ := by
    intro pk
    change s.index.erase pk = ∅
    rw [hs]
    rfl
  obtain ⟨pk, opType, vector⟩ := op
  unfold applyHotOp
  split
  · exact ⟨hs, rfl⟩
  cases opType with
  | delete => exact ⟨herase pk, rfl⟩
  | upsert =>
    cases vector with
    | none => exact ⟨herase pk, rfl⟩
    | some v =>
      have hlen : v.length ≠ (s.touch seq pk).dimensions := hdims v rfl
      dsimp only
      rw [if_pos hlen]
      exact ⟨hs, rfl⟩

theorem index_applyStaged (hs : s.index = ∅) (lastAppliedSeq : ℤ) (rest : List (StagedOp F))
    (hdims : ∀ e ∈ rest, ∀ v, e.2.vector = some v → v.length ≠ s.dimensions) :
    (s.applyStaged lastAppliedSeq rest).2.index = ∅ ∧
      (s.applyStaged lastAppliedSeq rest).2.dimensions = s.dimensions := by
  induction rest generalizing s with
  | nil => exact ⟨hs, rfl⟩
  | cons e rest ih =>
    obtain ⟨hfirst, htail⟩ := forall_mem_cons.mp hdims
    rw [applyStaged]
    split
    · exact ih hs htail
    have hop := index_applyHotOp hs e.1 hfirst
    generalize s.applyHotOp e.1 e.2 = r at hop ⊢
    obtain ⟨r, s'⟩ := r
    obtain ⟨hempty, hsame⟩ := hop
    cases r with
    | error err => exact ⟨hempty, hsame⟩
    | ok u =>
      obtain ⟨h₁, h₂⟩ := ih hempty (hsame ▸ htail)
      exact ⟨h₁, h₂.trans hsame⟩

end HotCacheState

end KalamDB.Vector
