import KalamDB.Rls.Membership

/-!
# Row-level security: what stays true while a generation lasts

A relation table is **quiet** when no worker is inside its mutation, and **settled** when in
addition no buffered write of it waits to be persisted. While the generation does not change,
a quiet table stays quiet and a settled table keeps its contents (`Shared.Evolves`). Every
worker step respects this (`Shared.workerStep_spec`), except a write without a guard.

A set that was loaded from a settled table is therefore exact for as long as the generation is
the one it was loaded under (`FreshAt`), wherever the set goes: into the cache, into a bound
authorization, through a later lookup.
-/

namespace KalamDB.Rls

open Resumption MutationGuard List Worker RelationState

/-! ### Quiet and settled tables -/

variable {w w' : Worker} {e : WorkerEvent}

/-- The table a guard is held on. -/
def MutationGuard.table? : MutationGuard → Option TableId
  | .idle => none
  | .announced t | .mutating t | .leaving t => some t

def MutationGuard.holds (g : MutationGuard) (t : TableId) : Bool := decide (g.table? = some t)

namespace Shared

variable (s s' : Shared) (t : TableId) {i : ℕ}

def generation : ℕ := (s.relations t).generation

def contents : List (List SharedTableRow) := (s.relations t).contents

/-- No worker is between the two generation changes of a mutation, or just behind them. -/
def Quiet : Prop := ∀ w ∈ s.workers, w.guard ≠ .mutating t ∧ w.guard ≠ .leaving t

/-- No buffered write waits to be persisted. -/
def Drained : Prop := ∀ w ∈ s.workers, w.pending t = []

def Settled : Prop := s.Quiet t ∧ s.Drained t

/-- The counter of active mutations counts the guards. -/
def Counted : Prop :=
  ∀ t, (s.relations t).activeMutations = s.workers.countP fun w => w.guard.holds t

/-- What later states know of a table. -/
structure Evolves : Prop where
  generation_le : s.generation t ≤ s'.generation t
  contents_suffix : s.contents t <:+ s'.contents t
  quiet : s'.generation t = s.generation t → s.Quiet t → s'.Quiet t
  settled : s'.generation t = s.generation t → s.Settled t →
    s'.Settled t ∧ s'.contents t = s.contents t

variable {s s' t}

theorem Evolves.refl (s : Shared) (t : TableId) : Evolves s s t :=
  ⟨le_rfl, suffix_rfl, fun _ h => h, fun _ h => ⟨h, rfl⟩⟩

theorem Evolves.trans {s'' : Shared} (h : Evolves s s' t) (h' : Evolves s' s'' t) :
    Evolves s s'' t := by
  -- equal generations at both ends are equal in the middle
  have hmid : s''.generation t = s.generation t →
      s'.generation t = s.generation t ∧ s''.generation t = s'.generation t := by
    have h₁ := h.generation_le
    have h₂ := h'.generation_le
    omega
  refine ⟨h.generation_le.trans h'.generation_le, h.contents_suffix.trans h'.contents_suffix,
    fun hg hq => ?_, fun hg hs => ?_⟩
  · obtain ⟨hg₁, hg₂⟩ := hmid hg
    exact h'.quiet hg₂ (h.quiet hg₁ hq)
  · obtain ⟨hg₁, hg₂⟩ := hmid hg
    obtain ⟨hs', hc⟩ := h.settled hg₁ hs
    obtain ⟨hs'', hc'⟩ := h'.settled hg₂ hs'
    exact ⟨hs'', hc'.trans hc⟩

/-- A step that touches the counters and the cache at most. -/
theorem Evolves.of_eq (hgen : s'.generation t = s.generation t)
    (hcontents : s'.contents t = s.contents t) (hworkers : s'.workers = s.workers) :
    Evolves s s' t := by
  refine ⟨hgen.ge, hcontents ▸ suffix_rfl, fun _ hq => ?_, fun _ hs => ⟨⟨?_, ?_⟩, hcontents⟩⟩
  · exact fun w hw => hq w (hworkers ▸ hw)
  · exact fun w hw => hs.1 w (hworkers ▸ hw)
  · exact fun w hw => hs.2 w (hworkers ▸ hw)

/-- A step in which one worker changes. What the table is said to keep only matters when the
generation stays the same. -/
theorem Evolves.of_set (hworkers : s'.workers = s.workers.set i w)
    (hgen : s.generation t ≤ s'.generation t) (hsuffix : s.contents t <:+ s'.contents t)
    (hquiet : s'.generation t = s.generation t → s.Quiet t →
      w.guard ≠ .mutating t ∧ w.guard ≠ .leaving t)
    (hsettled : s'.generation t = s.generation t → s.Settled t →
      w.pending t = [] ∧ s'.contents t = s.contents t) : Evolves s s' t := by
  have hmem : ∀ w' ∈ s'.workers, w' ∈ s.workers ∨ w' = w := by
    intro w' hw'
    rw [hworkers] at hw'
    exact mem_or_eq_of_mem_set hw'
  have hq : s'.generation t = s.generation t → s.Quiet t → s'.Quiet t := by
    intro hg hq w' hw'
    rcases hmem w' hw' with hold | rfl
    · exact hq w' hold
    · exact hquiet hg hq
  refine ⟨hgen, hsuffix, hq, fun hg hs => ⟨⟨hq hg hs.1, fun w' hw' => ?_⟩, (hsettled hg hs).2⟩⟩
  rcases hmem w' hw' with hold | rfl
  · exact hs.2 w' hold
  · exact (hsettled hg hs).1

/-- Replacing one worker moves the counter by what its guard counts. -/
theorem countP_holds_set (hi : s.workers[i]? = some w) (w' : Worker) (t : TableId) :
    (s.workers.set i w').countP (fun w => w.guard.holds t) + (w.guard.holds t).toNat =
      s.workers.countP (fun w => w.guard.holds t) + (w'.guard.holds t).toNat := by
  obtain ⟨hlt, hw⟩ := List.getElem?_eq_some_iff.mp hi
  have hpos : (w.guard.holds t).toNat ≤ s.workers.countP fun w => w.guard.holds t := by
    cases hb : w.guard.holds t with
    | false => simp
    | true =>
      have hmem : w ∈ s.workers := List.mem_of_getElem? hi
      exact List.countP_pos_iff.mpr ⟨w, hmem, hb⟩
  rw [List.countP_set hlt, hw]
  generalize s.workers.countP (fun w => w.guard.holds t) = n at hpos ⊢
  generalize w.guard.holds t = b at hpos ⊢
  cases b <;> cases w'.guard.holds t <;> simp at hpos ⊢ <;> omega

/-- A worker step keeps the counters right when it moves the counter of each table by what the
worker's guard counts. -/
theorem Counted.set (h : s.Counted) (hi : s.workers[i]? = some w)
    (hworkers : s'.workers = s.workers.set i w')
    (hactive : ∀ t, (s'.relations t).activeMutations + (w.guard.holds t).toNat =
      (s.relations t).activeMutations + (w'.guard.holds t).toNat) : s'.Counted := by
  intro t
  have hset := countP_holds_set hi w' t
  have ht := hactive t
  rw [hworkers]
  rw [h t] at ht
  omega

/-- With no mutation counted, the table is quiet. -/
theorem Counted.quiet (h : s.Counted) (h0 : (s.relations t).activeMutations = 0) : s.Quiet t := by
  rw [h t, countP_eq_zero] at h0
  intro w hw
  have hnot := h0 w hw
  constructor <;> exact fun hg => hnot (by simp [holds, table?, hg])

end Shared

section

variable (r : RelationState) (rows : List SharedTableRow)

theorem RelationState.contents_suffix_append : r.contents <:+ (r.append rows).contents := by
  unfold append
  split_ifs with hrows
  · exact suffix_rfl
  · exact suffix_cons _ _

@[simp]
theorem RelationState.append_generation : (r.append rows).generation = r.generation := by
  unfold append
  split_ifs <;> rfl

@[simp]
theorem RelationState.append_activeMutations :
    (r.append rows).activeMutations = r.activeMutations := by
  unfold append
  split_ifs <;> rfl

@[simp]
theorem RelationState.append_nil : r.append [] = r := rfl

end

/-- What a worker step does to one table, from the table's point of view. -/
structure WorkerStepOn (w w' : Worker) (t : TableId) (r r' : RelationState) : Prop where
  active : (w.guard.holds t).toNat ≤ r.activeMutations →
    r'.activeMutations + (w.guard.holds t).toNat = r.activeMutations + (w'.guard.holds t).toNat
  generation_le : r.generation ≤ r'.generation
  contents_suffix : r.contents <:+ r'.contents
  quiet : r'.generation = r.generation → w.guard ≠ .mutating t → w.guard ≠ .leaving t →
    w'.guard ≠ .mutating t ∧ w'.guard ≠ .leaving t
  settled : r'.generation = r.generation → w.guard ≠ .mutating t → w.pending t = [] →
    w'.pending t = [] ∧ r'.contents = r.contents

/-- A step of a worker that has to do with another table. -/
theorem WorkerStepOn.of_other {t : TableId} {r : RelationState} (hw : w.guard.table? ≠ some t)
    (hw' : w'.guard.table? ≠ some t) (hpending : w.pending t = [] → w'.pending t = []) :
    WorkerStepOn w w' t r r where
  active _ := by simp [holds, hw, hw']
  generation_le := le_rfl
  contents_suffix := suffix_rfl
  quiet _ _ _ := ⟨fun h => hw' (by rw [h]; rfl), fun h => hw' (by rw [h]; rfl)⟩
  settled _ _ h := ⟨hpending h, rfl⟩

@[simp]
theorem Worker.pending_mk (g : MutationGuard) (batch : List (TableId × SharedTableRow))
    (t : TableId) :
    pending ⟨g, batch⟩ t = (batch.filter fun entry => entry.1 = t).map Prod.snd := rfl

/-- Elsewhere than on its own table a step does nothing, except to persist a batch. -/
theorem Worker.next_elsewhere (hguarded : e.isGuarded = true) (h : w.next e = some w') {t : TableId}
    (hw : w.guard.table? ≠ some t) (hw' : w'.guard.table? ≠ some t) (r : RelationState) :
    WorkerStepOn w w' t r (w.effect e t r) := by
  obtain ⟨g, batch⟩ := w
  cases g <;> cases e <;> simp only [next, reduceCtorEq, Option.some.injEq] at h <;>
    subst h
  case idle.bufferUnguarded | idle.writeUnguarded => cases hguarded
  case idle.persistBatch =>
    refine ⟨fun _ => ?_, ?_, r.contents_suffix_append _, ?_, fun _ _ hp => ⟨rfl, ?_⟩⟩
    · simp [effect, idle]
    · simp [effect]
    · simp [idle]
    · simp only [effect, hp, RelationState.append_nil]
  all_goals
    simp only [table?, ne_eq, Option.some.injEq] at hw hw'
    rw [show effect _ _ t r = r by simp [effect, Ne.symm hw, Ne.symm hw']]
    refine WorkerStepOn.of_other ?_ ?_ ?_ <;> simp [table?, idle, hw, hw']

/-- **Every worker step** but the writes without a guard, on every table. -/
theorem Worker.next_spec (hguarded : e.isGuarded = true) (h : w.next e = some w') (t : TableId)
    (r : RelationState) : WorkerStepOn w w' t r (w.effect e t r) := by
  by_cases hown : w.guard.table? = some t ∨ w'.guard.table? = some t
  · obtain ⟨g, batch⟩ := w
    cases g <;> cases e <;> simp only [next, reduceCtorEq, Option.some.injEq] at h <;>
      subst h <;> simp only [table?, idle, Option.some.injEq, or_self,
        reduceCtorEq, or_false, false_or] at hown <;> subst hown
    case leaving.lowerActive =>
      refine ⟨fun hle => ?_, ?_, ?_, ?_, ?_⟩
      · simp only [holds, table?, decide_true, Bool.toNat_true] at hle
        simp [effect, holds, table?]
        omega
      all_goals simp [effect, contents]
    case mutating.writeThrough rows =>
      refine ⟨fun _ => ?_, ?_, ?_, ?_, ?_⟩ <;> simp [effect, r.contents_suffix_append]
    all_goals
      refine ⟨fun _ => ?_, ?_, ?_, ?_, ?_⟩ <;>
        simp [effect, holds, table?, contents]
  · rw [not_or] at hown
    exact w.next_elsewhere hguarded h hown.1 hown.2 r

namespace Shared

variable {s s' : Shared}

/-- **A guarded worker step** keeps the counters right, and no table forgets what it must keep. -/
theorem workerStep_spec {i : ℕ} (hguarded : e.isGuarded = true) (hc : s.Counted)
    (hstep : s.workerStep i e = some s') :
    s'.Counted ∧ (∀ t, Evolves s s' t) ∧ s'.cache = s.cache := by
  obtain ⟨w, hi, hmap⟩ := Option.bind_eq_some_iff.mp hstep
  obtain ⟨w', hnext, rfl⟩ := Option.map_eq_some_iff.mp hmap
  have hw : w ∈ s.workers := mem_of_getElem? hi
  have hspec : ∀ t, WorkerStepOn w w' t (s.relations t) (w.effect e t (s.relations t)) :=
    fun t => w.next_spec hguarded hnext t _
  have hheld : ∀ t, (w.guard.holds t).toNat ≤ (s.relations t).activeMutations := by
    intro t
    rw [hc t]
    have hset := countP_holds_set hi .idle t
    have hidle : (Worker.idle.guard.holds t).toNat = 0 := by
      simp [Worker.idle, holds, table?]
    omega
  refine ⟨hc.set hi rfl fun t => (hspec t).active (hheld t), fun t => ?_, rfl⟩
  refine Evolves.of_set rfl (hspec t).generation_le (hspec t).contents_suffix ?_ ?_
  · exact fun hg hq => (hspec t).quiet hg (hq w hw).1 (hq w hw).2
  · exact fun hg hs => (hspec t).settled hg (hs.1 w hw).1 (hs.2 w hw)

end Shared

/-! ### Sets that are exact at their generation -/

/-- The membership of a principal in given contents of the relation table. A load through the
index ignores the snapshot. -/
def memberSet (table : CatalogTable) (relation : AuthorizationRelation) (principal : String)
    (snapshot : Option VersionId) (versions : List SharedTableRow) : AuthorizationSet :=
  .fromRelationRows relation table principal
    (resolveRows table (if hasPrincipalIndex table relation then none else snapshot) versions)

/-- As long as the generation is `g`, the table is settled and its contents satisfy `P`. -/
def FreshAt (s : Shared) (t : TableId) (g : ℕ) (P : List SharedTableRow → Prop) : Prop :=
  g ≤ s.generation t ∧
    (s.generation t = g → s.Settled t ∧ P (s.relations t).current)

/-- The table is quiet as long as the generation is `g`. -/
def QuietAt (s : Shared) (t : TableId) (g : ℕ) : Prop :=
  g ≤ s.generation t ∧ (s.generation t = g → s.Quiet t)

section Fresh

variable {s s' : Shared} {t : TableId} {g : ℕ} {P P' : List SharedTableRow → Prop}

theorem FreshAt.evolves (h : FreshAt s t g P) (he : Shared.Evolves s s' t) : FreshAt s' t g P := by
  refine ⟨h.1.trans he.generation_le, fun hg => ?_⟩
  have hsame : s.generation t = g := le_antisymm (hg ▸ he.generation_le) h.1
  obtain ⟨hs, hP⟩ := h.2 hsame
  obtain ⟨hs', hc⟩ := he.settled (hg.trans hsame.symm) hs
  exact ⟨hs', (cons.inj hc).1 ▸ hP⟩

theorem QuietAt.evolves (h : QuietAt s t g) (he : Shared.Evolves s s' t) : QuietAt s' t g := by
  refine ⟨h.1.trans he.generation_le, fun hg => ?_⟩
  have hsame : s.generation t = g := le_antisymm (hg ▸ he.generation_le) h.1
  exact he.quiet (hg.trans hsame.symm) (h.2 hsame)

theorem FreshAt.imp (h : FreshAt s t g P) (hP : ∀ c, P c → P' c) : FreshAt s t g P' :=
  ⟨h.1, fun hg => ⟨(h.2 hg).1, hP _ (h.2 hg).2⟩⟩

theorem FreshAt.and (h : FreshAt s t g P) (h' : FreshAt s t g P') :
    FreshAt s t g fun c => P c ∧ P' c :=
  ⟨h.1, fun hg => ⟨(h.2 hg).1, (h.2 hg).2, (h'.2 hg).2⟩⟩

/-- What is read from a quiet and drained table is exact. -/
theorem QuietAt.fresh (h : QuietAt s t g) (hd : s.Drained t)
    (hP : P (s.relations t).current) : FreshAt s t g P :=
  ⟨h.1, fun hg => ⟨⟨h.2 hg, hd⟩, hP⟩⟩

/-- The present contents satisfy `P` once the table is known to be settled. -/
theorem FreshAt.now (h : FreshAt s t g P) (hP : P' (s.relations t).current) : FreshAt s t g P' :=
  ⟨h.1, fun hg => ⟨(h.2 hg).1, hP⟩⟩

end Fresh

section Invariant

variable (tables : TableId → Option CatalogTable) (host : CatalogTable)
  (programs : PolicyId → ℕ → PolicyProgram)

/-- Every protected row that a set admits is admitted by the membership. -/
def Within (set : AuthorizationSet) (table : CatalogTable) (relation : AuthorizationRelation)
    (principal : String) (snapshot : Option VersionId) (versions : List SharedTableRow) : Prop :=
  ∀ row, set.containsProtectedRow host row = true →
    (memberSet table relation principal snapshot versions).containsProtectedRow host row = true

/-- Every cached set is exact at the generation in its key. -/
def CacheSound (s : Shared) : Prop :=
  ∀ key set, s.cache.sets.lookup key = some set → ∀ relation table,
    programs key.policyId key.policyGeneration = .authorizationRelation relation →
    relation.relationTable = key.relationTable → tables key.relationTable = some table →
    FreshAt s key.relationTable key.relationGeneration
      (Within host set table relation key.principalId key.snapshotCommitSeq)

def SharedInv (s : Shared) : Prop := s.Counted ∧ CacheSound tables host programs s

/-- **What every step guarantees.** -/
def Follows (s s' : Shared) : Prop :=
  SharedInv tables host programs s →
    SharedInv tables host programs s' ∧ ∀ t, Shared.Evolves s s' t

variable {tables host programs} in
theorem Follows.refl (s : Shared) : Follows tables host programs s s :=
  fun h => ⟨h, fun t => .refl s t⟩

variable {tables host programs} in
theorem Follows.trans {s₁ s₂ s₃ : Shared} (h : Follows tables host programs s₁ s₂)
    (h' : Follows tables host programs s₂ s₃) : Follows tables host programs s₁ s₃ :=
  fun hinv => ⟨(h' (h hinv).1).1, fun t => ((h hinv).2 t).trans ((h' (h hinv).1).2 t)⟩

/-- A membership is read when no write of the table is waiting to be persisted. -/
def Access.Undisturbed (a : Access) (s : Shared) : Prop :=
  match a with
  | .scanRelation _ t _ _ => s.Drained t
  | _ => True

/-- The rules of the system, for runs in which every membership read is undisturbed. -/
def rules : Interference Access Answer Shared where
  exec := execute
  allowed := Access.Undisturbed
  rely := Follows tables host programs
  rely_refl := Follows.refl
  rely_trans := Follows.trans

end Invariant

end KalamDB.Rls
