import KalamDB.Rls.Evaluate
import KalamDB.Vector.Exact

/-!
# What a vector search discloses

A search should show a principal the rows that the policies of the table let it read, and nothing
else: what it returns should not change with the vectors of other rows. The search **asks no
policy**, so it conceals the other rows only by their distance: two contents that agree on the
readable rows give the same answers, for every filter and limit and **whatever order a hash map
gives to rows at one distance**, if and only if in both of them every other row has as many strictly
closer rows as the search asks for (`conceals_iff`). Where more operations are pending than a search
scans, it also matters which of the readable rows are seen.
-/

namespace KalamDB.Vector

open Rls List

/-- A table with its policies and rows, and a principal with the authorization sets it has. -/
structure ProtectedTable where
  table : CatalogTable
  policies : List TablePolicy
  rows : String → Option Row
  principal : String
  role : Role
  sets : AList fun _ : PolicyId => AuthorizationSet

/-- Rows are read under the policies that apply to `SELECT`. -/
def ProtectedTable.mayRead (t : ProtectedTable) (pk : String) : Bool :=
  let bound := BoundTablePolicies.bindWithProgram t.policies t.principal t.role .select false
  (t.rows pk).any (bound.authorizesRowWithSets t.table · t.sets)

namespace VectorContent

variable {F D S : Type} (order : String → ℕ) [LinearOrder D]
  (distance : VectorMetric → List F → List F → D) (score : VectorMetric → D → S)
  {col : VectorColumn} {t : ProtectedTable} {c c₁ c₂ : VectorContent F col}
  {cache : Option (HotCacheState F)} {args : VectorSearchArgs F}

/-- The rows that a search returns; a failed one returns none. -/
def returned (c : VectorContent F col) (cache : Option (HotCacheState F))
    (args : VectorSearchArgs F) (physicalFilter : Option (String × S → Bool)) (limit : Option ℕ) :
    List (String × S) :=
  match (c.vectorSearch order distance score cache args physicalFilter limit).1 with
  | .ok rows => rows
  | .error _ => []

variable (t)

/-- The contents give the readable rows the same vectors. -/
def AgreeOn (c₁ c₂ : VectorContent F col) : Prop :=
  ∀ pk, t.mayRead pk = true → c₁.vectorOf pk = c₂.vectorOf pk

/-- **The search does not tell the contents apart**, and returns readable rows only. -/
def Conceals (c₁ c₂ : VectorContent F col) (cache₁ cache₂ : Option (HotCacheState F))
    (args : VectorSearchArgs F) : Prop :=
  ∀ order physicalFilter limit,
    c₁.returned order distance score cache₁ args physicalFilter limit =
      c₂.returned order distance score cache₂ args physicalFilter limit ∧
    ∀ r ∈ c₁.returned order distance score cache₁ args physicalFilter limit, t.mayRead r.1 = true

/-- Every row that must not be read has as many closer rows as are asked for. -/
def OutOfReach (c : VectorContent F col) (args : VectorSearchArgs F) : Prop :=
  ∀ e ∈ c.current, t.mayRead e.1 = false →
    args.topK ≤ c.current.countP fun a => decide (distance col.metric args.queryVector a.2 <
      distance col.metric args.queryVector e.2)

/-- The nearest of some rows with their scores. -/
def scored (col : VectorColumn) (topK : ℕ) (measured : List (Candidate D)) : List (String × S) :=
  (smallest topK measured).map fun e => (pkOf e, score col.metric (ofLex e).1)

/-- The rows of a content that may be read. -/
def readable (c : VectorContent F col) (queryVector : List F) :
    List (Candidate D) :=
  (c.measured order distance queryVector).filter fun x => t.mayRead (pkOf x)

variable {t}

/-! ### The readable rows -/

omit [LinearOrder D] in
theorem mem_measured {queryVector : List F} {x : Candidate D} :
    x ∈ c.measured order distance queryVector ↔ ∃ v, c.vectorOf (pkOf x) = some v ∧
      x = measure order distance col.metric queryVector (pkOf x, v) := by
  rw [measured, mem_map]
  constructor
  · rintro ⟨⟨pk, v⟩, hv, rfl⟩
    exact ⟨v, mem_current.mp hv, rfl⟩
  · rintro ⟨v, hv, hx⟩
    exact ⟨_, mem_current.mpr hv, hx.symm⟩

omit [LinearOrder D] in
theorem measured_nodup (c : VectorContent F col) (queryVector : List F) :
    (c.measured order distance queryVector).Nodup := by
  refine List.Nodup.of_map pkOf ?_
  rw [measured, map_map]
  exact c.current_ids_nodup

omit [LinearOrder D] in
theorem readable_perm (hagree : AgreeOn t c₁ c₂) (queryVector : List F) :
    (readable order distance t c₁ queryVector).Perm (readable order distance t c₂ queryVector) := by
  refine (perm_ext_iff_of_nodup ((c₁.measured_nodup order distance _).filter _)
    ((c₂.measured_nodup order distance _).filter _)).mpr fun x => ?_
  rw [mem_filter, mem_filter, mem_measured, mem_measured]
  exact and_congr_left fun hread => by rw [hagree _ hread]

/-- A row that is out of reach is so in every order. -/
theorem OutOfReach.le_countP (h : OutOfReach distance t c args) {x : Candidate D}
    (hx : x ∈ c.measured order distance args.queryVector) (hnot : t.mayRead (pkOf x) = false) :
    args.topK ≤ (c.measured order distance args.queryVector).countP fun a => decide (a < x) := by
  obtain ⟨e, he, rfl⟩ := mem_map.mp hx
  refine (h e he hnot).trans ?_
  rw [measured, countP_map]
  refine countP_mono_left fun a _ hcloser => ?_
  exact decide_eq_true (Prod.Lex.toLex_lt_toLex.mpr (.inl (of_decide_eq_true hcloser)))

/-- Without the rows out of reach, the ranking starts the same. -/
theorem scored_readable (h : OutOfReach distance t c args) :
    scored score col args.topK (readable order distance t c args.queryVector) =
      scored score col args.topK (c.measured order distance args.queryVector) := by
  rw [scored, scored, readable, smallest_filter_eq (c.measured_nodup order distance _)
    fun x hx hnot => h.le_countP order distance hx hnot]

/-! ### What is returned -/

theorem mem_of_mem_finalize {R : Type} {batch : List R} {physicalFilter : Option (R → Bool)}
    {limit : Option ℕ} {r : R} (h : r ∈ finalizeDeferredBatch batch physicalFilter limit) :
    r ∈ batch := by
  cases physicalFilter <;> cases limit
  · exact h
  · exact take_subset _ _ h
  · exact (mem_filter.mp h).1
  · exact (mem_filter.mp (take_subset _ _ h)).1

section

variable (hcache : ∀ s ∈ cache, Coherent c s)
include hcache

/-- All searches of one query return parts of one ranking. -/
theorem returned_eq (henabled : col.enabled = true)
    (hlen : args.queryVector.length = col.dimensions)
    (physicalFilter : Option (String × S → Bool)) (limit : Option ℕ) :
    c.returned order distance score cache args physicalFilter limit = finalizeDeferredBatch
      ((scored score col args.topK ((c.seen cache).measured order distance args.queryVector)).take
        (vectorScanLimits physicalFilter.isSome args.topK limit).1)
      physicalFilter (vectorScanLimits physicalFilter.isSome args.topK limit).2 := by
  have hle : (vectorScanLimits physicalFilter.isSome args.topK limit).1 ≤ args.topK := by
    cases physicalFilter <;> cases limit <;> simp [vectorScanLimits]
  rw [returned, vectorSearch_eq hcache henabled hlen, scored, ← map_take, take_smallest hle]

theorem returned_eq_nil (h : col.enabled = true → args.queryVector.length ≠ col.dimensions)
    (physicalFilter : Option (String × S → Bool)) (limit : Option ℕ) :
    c.returned order distance score cache args physicalFilter limit = [] := by
  rw [returned]
  split
  · next hrows => exact rows_eq_nil hcache h hrows
  · rfl

/-- A search without filter and limit shows the whole ranking. -/
theorem returned_none (henabled : col.enabled = true)
    (hlen : args.queryVector.length = col.dimensions) :
    c.returned order distance score cache args none none =
      scored score col args.topK ((c.seen cache).measured order distance args.queryVector) := by
  rw [returned_eq order distance score hcache henabled hlen]
  refine take_of_length_le ?_
  simp [scored, smallest, vectorScanLimits]

end

/-- A row that is not out of reach is returned in some order: it may come first at its distance. -/
theorem outOfReach_of_scored (h : ∀ order, ∀ r ∈ scored score col args.topK
      (c.measured order distance args.queryVector), t.mayRead r.1 = true) :
    OutOfReach distance t c args := by
  intro e he hnot
  by_contra hk
  let first : String → ℕ := fun pk => if pk = e.1 then 0 else 1
  let x := measure first distance col.metric args.queryVector e
  have hbefore : ((c.measured first distance args.queryVector).countP fun a => decide (a < x)) ≤
      c.current.countP fun a => decide (distance col.metric args.queryVector a.2 <
        distance col.metric args.queryVector e.2) := by
    rw [measured, countP_map]
    refine countP_mono_left fun a _ hlt => decide_eq_true ?_
    rcases Prod.Lex.toLex_lt_toLex.mp (of_decide_eq_true hlt) with hcloser | ⟨-, hplace⟩
    · exact hcloser
    · rcases Prod.Lex.toLex_lt_toLex.mp hplace with hplace | ⟨hsame, hpk⟩
      · simp [first] at hplace
      · have heq : a.1 = e.1 := by simpa [first] using hsame
        exact absurd hpk (by simp [heq])
  have hmem : x ∈ smallest args.topK (c.measured first distance args.queryVector) :=
    (mem_smallest_iff (c.measured_nodup first distance _)).mpr
      ⟨mem_map_of_mem he, hbefore.trans_lt (not_le.mp hk)⟩
  have hread : t.mayRead e.1 = true := h first _ (mem_map_of_mem hmem)
  rw [hnot] at hread
  cases hread

/-- **A search conceals the rows that must not be read if and only if they are out of its reach**,
and if beyond the scan limit it sees the same nearest readable rows. -/
theorem conceals_iff (t : ProtectedTable) (c₁ c₂ : VectorContent F col)
    (hagree : AgreeOn t c₁ c₂) (args : VectorSearchArgs F)
    (cache₁ cache₂ : Option (HotCacheState F)) (hcache₁ : ∀ s ∈ cache₁, Coherent c₁ s)
    (hcache₂ : ∀ s ∈ cache₂, Coherent c₂ s) :
    Conceals distance score t c₁ c₂ cache₁ cache₂ args ↔
      (col.enabled = true → args.queryVector.length = col.dimensions →
        OutOfReach distance t (c₁.seen cache₁) args ∧
        OutOfReach distance t (c₂.seen cache₂) args ∧
        (hotIncrementalScanLimit < max c₁.pending.length c₂.pending.length → ∀ order,
          scored score col args.topK (readable order distance t (c₁.seen cache₁) args.queryVector) =
            scored score col args.topK
              (readable order distance t (c₂.seen cache₂) args.queryVector))) := by
  constructor
  · intro h henabled hlen
    have hsame : ∀ order, scored score col args.topK ((c₁.seen cache₁).measured order distance
        args.queryVector) = scored score col args.topK ((c₂.seen cache₂).measured order distance
          args.queryVector) := fun order => by
      rw [← returned_none order distance score hcache₁ henabled hlen,
        ← returned_none order distance score hcache₂ henabled hlen]
      exact (h order none none).1
    have hread : ∀ order, ∀ r ∈ scored score col args.topK ((c₁.seen cache₁).measured order
        distance args.queryVector), t.mayRead r.1 = true := fun order => by
      rw [← returned_none order distance score hcache₁ henabled hlen]
      exact (h order none none).2
    have h₁ := outOfReach_of_scored distance score hread
    have h₂ := outOfReach_of_scored distance score fun order => hsame order ▸ hread order
    refine ⟨h₁, h₂, fun _ order => ?_⟩
    rw [scored_readable order distance score h₁, scored_readable order distance score h₂, hsame]
  · intro h order physicalFilter limit
    by_cases hsearch : col.enabled = true ∧ args.queryVector.length = col.dimensions
    · obtain ⟨henabled, hlen⟩ := hsearch
      obtain ⟨h₁, h₂, hbeyond⟩ := h henabled hlen
      have hsame : scored score col args.topK
          (readable order distance t (c₁.seen cache₁) args.queryVector) = scored score col args.topK
              (readable order distance t (c₂.seen cache₂) args.queryVector) := by
        by_cases hfits : hotIncrementalScanLimit < max c₁.pending.length c₂.pending.length
        · exact hbeyond hfits order
        -- both scans see everything, and there the contents agree
        obtain ⟨hfits₁, hfits₂⟩ := max_le_iff.mp (not_lt.mp hfits)
        have hseen : AgreeOn t (c₁.seen cache₁) (c₂.seen cache₂) := fun pk hread => by
          rw [vectorOf_seen hfits₁, vectorOf_seen hfits₂, hagree pk hread]
        rw [scored, scored, smallest_congr (readable_perm order distance hseen _)]
      rw [returned_eq order distance score hcache₁ henabled hlen,
        returned_eq order distance score hcache₂ henabled hlen,
        ← scored_readable order distance score h₁, ← scored_readable order distance score h₂, hsame]
      refine ⟨rfl, fun r hr => ?_⟩
      obtain ⟨x, hx, rfl⟩ := mem_map.mp (take_subset _ _ (mem_of_mem_finalize hr))
      exact (mem_filter.mp (mem_of_mem_smallest hx)).2
    · have hnone : col.enabled = true → args.queryVector.length ≠ col.dimensions :=
        fun henabled hlen => hsearch ⟨henabled, hlen⟩
      rw [returned_eq_nil order distance score hcache₁ hnone,
        returned_eq_nil order distance score hcache₂ hnone]
      exact ⟨rfl, fun r hr => absurd hr not_mem_nil⟩

/-! ### Notes of two users -/

/-- `CREATE SHARED TABLE notes (id TEXT PRIMARY KEY, owner TEXT)` with the policy
`USING (owner = CURRENT_USER)`, read by Bob, who owns one of the two notes. -/
def notes : ProtectedTable where
  table :=
    { namespaceId := "app"
      tableName := "notes"
      isShared := true
      definition :=
        { columns := [⟨1, "id", .text, true⟩, ⟨2, "owner", .text, false⟩]
          nextColumnId := 3
          scalarIndexes := []
          names_nodup := by decide
          exists_primaryKey := by decide }
      ids_nodup := by decide }
  policies := [⟨(("app", "notes"), "own"), .select, [.everyone],
    some (.rowLocal (.columnEqualsPrincipal 2 .currentUser)), none, 1⟩]
  rows pk :=
    if pk = "mine" then some ⟨[("id", .utf8 "mine"), ("owner", .utf8 "bob")]⟩
    else if pk = "theirs" then some ⟨[("id", .utf8 "theirs"), ("owner", .utf8 "alice")]⟩
    else none
  principal := "bob"
  role := .user
  sets := ∅

def noteVector : VectorColumn := ⟨1, .l2, true⟩

/-- The staged vectors of the notes, on a line. -/
def noteVectors (staged : List (StagedOp ℤ)) (hsorted : staged.Pairwise fun a b => a.1 < b.1)
    (hdims : ∀ e ∈ staged, ∀ v, e.2.vector = some v → v.length = 1) :
    VectorContent ℤ noteVector :=
  ⟨staged, hsorted, hdims, 0, none, fun _ => none, by simp [readSnapshot]⟩

def bobsNote : VectorContent ℤ noteVector :=
  noteVectors [(1, ⟨"mine", .upsert, some [0]⟩)] (by simp) (by simp)

def bothNotes : VectorContent ℤ noteVector :=
  noteVectors [(1, ⟨"mine", .upsert, some [0]⟩), (2, ⟨"theirs", .upsert, some [9]⟩)] (by simp)
    (by simp)

def lineDistance (_ : VectorMetric) (v w : List ℤ) : ℕ := (v.headD 0 - w.headD 0).natAbs

def nearestTo (x : ℤ) : VectorSearchArgs ℤ := ⟨[x], 1, by simp, by simp⟩

theorem agreeOn_notes : AgreeOn notes bothNotes bobsNote := by
  intro pk hread
  by_cases hmine : pk = "mine"
  · subst hmine
    decide
  have hnot : notes.mayRead pk = false := by
    by_cases htheirs : pk = "theirs"
    · subst htheirs
      decide
    · simp [ProtectedTable.mayRead, notes, hmine, htheirs]
  rw [hnot] at hread
  cases hread

/-- Near his own note Bob sees nothing of the other one. -/
theorem conceals_near_own_note :
    Conceals lineDistance (fun _ d => d) notes bothNotes bobsNote none none (nearestTo 0) := by
  refine (conceals_iff lineDistance _ notes bothNotes bobsNote agreeOn_notes (nearestTo 0) none none
    (by simp) (by simp)).mpr fun _ _ => ⟨?_, ?_, fun hbeyond => ?_⟩
  · unfold OutOfReach
    decide
  · unfold OutOfReach
    decide
  · exact absurd hbeyond (by decide)

/-- **A search near the other note returns it**, with its score; without it the search returns Bob's
own. -/
theorem not_conceals_near_other_note :
    AgreeOn notes bothNotes bobsNote ∧ notes.mayRead "theirs" = false ∧
      bothNotes.returned (fun _ => 0) lineDistance (fun _ d => d) none (nearestTo 9) none none =
        [("theirs", 0)] ∧
      bobsNote.returned (fun _ => 0) lineDistance (fun _ d => d) none (nearestTo 9) none none =
        [("mine", 9)] ∧
      ¬ Conceals lineDistance (fun _ d => d) notes bothNotes bobsNote none none (nearestTo 9) := by
  refine ⟨agreeOn_notes, by decide, by decide, by decide, fun h => ?_⟩
  have hread := (h (fun _ => 0) none none).2
  exact absurd (hread ("theirs", 0) (by decide)) (by decide)

end VectorContent

end KalamDB.Vector
