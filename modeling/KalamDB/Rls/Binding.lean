import KalamDB.Rls.Freshness

/-!
# Row-level security: the seqlock argument for readers

Specifications of the reader programs, one for each, in the order in which they are built from
each other. `bindAuthorization` captures generations and collects sets that are **exact at the
captured generations**. A check that finds all captured generations still current knows that
each set was exact at the moment of the comparison, so that whatever it authorizes is
authorized by a membership of that time (`holds_authorizes`, `holds_scanAuthorized`).

The comparisons after a cache lookup and after a load are not needed for this; the one before,
with its look at the active mutations, and the one at the end of a check are.
-/

namespace KalamDB.Rls

open Resumption List AList BoundTablePolicies

section Readers

/-! ### Specifications of the reader programs -/

variable {tables : TableId → Option CatalogTable} {host : CatalogTable}
  {programs : PolicyId → ℕ → PolicyProgram} {s s' : Shared} {t : TableId} {g : ℕ} {α β : Type}
  {p : Reader α} {P Q : α → Shared → Prop} {table : CatalogTable} {snapshot : Option VersionId}
  {key : AuthorizationCacheKey} {rows : List Row} {relation : AuthorizationRelation}
  {principal : String} {set : AuthorizationSet} {policy : BoundPolicy} {dependencies : Dependencies}
  {policies : BoundTablePolicies} {sets : AuthorizationSets} {s₁ s₁' s₂ s₂' : Shared} {row : Row}
  {b : BoundAuthorization} {constraint : Option (List ScalarValue)}

theorem Follows.inv (h : Follows tables host programs s s')
    (hs : SharedInv tables host programs s) : SharedInv tables host programs s' := (h hs).1

/-- All tables have evolved. -/
def Later (s s' : Shared) : Prop := ∀ t, Shared.Evolves s s' t

theorem Later.refl (s : Shared) : Later s s := fun t => .refl s t

theorem Later.trans (h₁ : Later s s₁) (h₂ : Later s₁ s₂) : Later s s₂ :=
  fun t => (h₁ t).trans (h₂ t)

variable (tables host programs) in
/-- Started in a sound state, the program returns in a later one, with a result that `P`
permits. -/
def Ends (p : Reader α) (s : Shared) (P : α → Shared → Prop) : Prop :=
  SharedInv tables host programs s → p.Returns (rules tables host programs) P s

namespace Ends

theorem pure {a : α} (h : P a s) : Ends tables host programs (pure a) s P := fun _ => .pure h

theorem bind {f : α → Reader β} {P' : β → Shared → Prop} (hp : Ends tables host programs p s P)
    (hf : ∀ a s', Later s s' → P a s' → Ends tables host programs (f a) s' P') :
    Ends tables host programs (p >>= f) s P' :=
  fun hs => (hp hs).bind fun a s' h hP => hf a s' (h hs).2 hP (h hs).1

theorem imp (h : Ends tables host programs p s P) (hQ : ∀ a s', Later s s' → P a s' → Q a s') :
    Ends tables host programs p s Q :=
  fun hs _ _ _ hk => h hs _ _ _ fun a s' hs' hP => hk a s' hs' (hQ a s' (hs' hs).2 hP)

theorem holds (h : Ends tables host programs p s P) (hs : SharedInv tables host programs s)
    (hQ : ∀ a s' s'', Later s s' → P a s' → Later s' s'' → Q a s'') :
    p.Holds (rules tables host programs) Q s :=
  (h hs).holds fun a s' s'' h₁ hP h₂ => hQ a s' s'' (h₁ hs).2 hP (h₂ (h₁ hs).1).2

/-- An access that changes nothing is answered from a sound state. -/
theorem access {o : Access} (hread : ∀ s, (execute o s).2 = s) :
    Ends tables host programs (Prog.perform o) s fun a s' =>
      a = (execute o s').1 ∧ SharedInv tables host programs s' ∧ o.Undisturbed s' := by
  intro hs β k Q hk s' hs' ho
  change Follows tables host programs s' (execute o s').2 ∧
    (k (execute o s').1).Holds (rules tables host programs) Q (execute o s').2
  rw [hread]
  exact ⟨.refl s', hk _ s' hs' ⟨rfl, hs'.inv hs, ho⟩⟩

end Ends

theorem ends_generation (t : TableId) :
    Ends tables host programs (Reader.generation t) s fun g s' => g = s'.generation t :=
  (Ends.access fun _ => rfl).imp fun _ _ _ h => h.1

theorem ends_hasActiveMutations (t : TableId) :
    Ends tables host programs (Reader.hasActiveMutations t) s fun b s' =>
      b = false → s'.Quiet t := by
  refine (Ends.access fun _ => rfl).imp fun b s' _ h hb => h.2.1.1.quiet ?_
  rw [h.1] at hb
  exact not_not.mp (of_decide_eq_false hb)

/-- A test that passes saw a quiet table at the captured generation. -/
theorem ends_isCurrent (hg : g ≤ s.generation t) :
    Ends tables host programs (isCurrent t g) s fun b s' =>
      b = true → s'.generation t = g ∧ s'.Quiet t := by
  refine (ends_hasActiveMutations t).bind fun b s₁ h₁ hquiet => ?_
  cases b with
  | true => exact .pure (by simp)
  | false =>
    refine (ends_generation t).bind fun g₂ s₂ h₂ hg₂ => .pure fun hb => ?_
    have hg₂ : s₂.generation t = g := hg₂.symm.trans (eq_of_beq hb)
    have hg₁ : s₁.generation t = s₂.generation t :=
      le_antisymm (h₂ t).generation_le (hg₂ ▸ hg.trans (h₁ t).generation_le)
    exact ⟨hg₂, (h₂ t).quiet hg₁.symm (hquiet rfl)⟩

/-- The later tests only have to let the program go on. -/
theorem ends_isUnchanged (t : TableId) (g : ℕ) :
    Ends tables host programs (isUnchanged t g) s fun _ _ => True := by
  refine (ends_generation t).bind fun g' s₁ _ _ => ?_
  split
  · exact .pure trivial
  · exact (ends_hasActiveMutations t).bind fun _ _ _ _ => .pure trivial

/-- The rows that the second lookup of an indexed load returns are live rows. -/
theorem ends_findWinners {seen : List ScalarValue} (hfresh : FreshAt s t g fun _ => True) :
    Ends tables host programs (findWinners table t seen rows) s fun found s' =>
      FreshAt s' t g fun c => found ⊆ resolveRows table none c := by
  induction rows generalizing s seen with
  | nil => exact .pure (hfresh.imp fun _ _ => by simp)
  | cons row rest ih =>
    rw [findWinners]
    split
    · exact ih hfresh
    split_ifs with hseen
    · exact ih hfresh
    refine (Ends.access fun _ => rfl).bind fun found s₁ h₁ hfound => ?_
    have hfresh₁ := hfresh.evolves (h₁ t)
    refine (ih hfresh₁).bind fun others s₂ h₂ hothers => .pure ?_
    -- the row found for `pk` is live, and stays so as long as the generation does
    have hlive : FreshAt s₁ t g fun c => found.toList ⊆ resolveRows table none c := by
      refine hfresh₁.now fun row hrow => ?_
      rw [hfound.1] at hrow
      exact mem_of_find?_eq_some (Option.mem_toList.mp hrow)
    exact ((hlive.evolves (h₂ t)).and hothers).imp fun c hc => append_subset.mpr hc

/-- **A membership load** from a quiet table yields a set that is exact at the generation: the
rules let it happen only when no write of the table is waiting. -/
theorem ends_load (hquiet : QuietAt s relation.relationTable g) :
    Ends tables host programs (loadMembershipAuthorizationSet table relation principal snapshot) s
      fun set s' => FreshAt s' relation.relationTable g
        (Within host set table relation principal snapshot) := by
  rw [loadMembershipAuthorizationSet]
  split_ifs with hindex
  · refine (Ends.access fun _ => rfl).bind fun found s₁ h₁ hfound => ?_
    have hquiet₁ := hquiet.evolves (h₁ _)
    refine (ends_findWinners (hquiet₁.fresh hfound.2.2 trivial)).bind
      fun winners s₂ h₂ hwinners => .pure (hwinners.imp fun c hc row hrow => ?_)
    rw [memberSet, if_pos hindex]
    exact AuthorizationSet.containsProtectedRow_mono hc hrow
  · refine (Ends.access fun _ => rfl).bind fun found s₁ h₁ hfound => .pure ?_
    refine (hquiet.evolves (h₁ _)).fresh hfound.2.2 fun row hrow => ?_
    rw [hfound.1] at hrow
    rw [memberSet, if_neg hindex]
    exact hrow

theorem AuthorizationCache.lookup_insert_cases {cache : AuthorizationCache}
    {key' : AuthorizationCacheKey} {set' : AuthorizationSet}
    (h : (cache.insert key set).sets.lookup key' = some set') :
    key' = key ∧ set' = set ∨ cache.sets.lookup key' = some set' := by
  by_cases hkey : key' = key
  · subst hkey
    rw [insert, lookup_insert] at h
    exact .inl ⟨rfl, (Option.some.inj h).symm⟩
  right
  rw [insert, lookup_insert_ne hkey] at h
  split at h
  · split_ifs at h with hstale
    · exact h
    rename_i stale _
    by_cases hne : key' = stale
    · rw [hne, lookup_erase] at h
      cases h
    · rwa [lookup_erase_ne hne] at h
  · exact h

section Relation

variable
    (hprogram : programs policy.policyId policy.policyGeneration =
      .authorizationRelation relation) (htable : tables relation.relationTable = some table)
include hprogram htable

/-- Caching a set that is exact at the generation of its key. -/
theorem ends_cacheInsert (hfresh : FreshAt s relation.relationTable g
      (Within host set table relation principal snapshot)) :
    Ends tables host programs (Reader.cacheInsert (authorizationCacheKey policy principal
      relation.relationTable g snapshot) set) s fun _ _ => True := by
  intro hs β k Q hk s₁ h₁ _
  have hs₁ := h₁.inv hs
  have hfresh₁ := hfresh.evolves ((h₁ hs).2 _)
  have hfollows : Follows tables host programs s₁ (execute (.cacheInsert
      (authorizationCacheKey policy principal relation.relationTable g snapshot) set) s₁).2 := by
    refine fun _ => ⟨⟨hs₁.1, ?_⟩, fun t => .of_eq rfl rfl rfl⟩
    intro key' set' hlookup relation' table' hprogram' ht' htable'
    rcases AuthorizationCache.lookup_insert_cases hlookup with ⟨rfl, rfl⟩ | hold
    · obtain rfl := PolicyProgram.authorizationRelation.inj (hprogram.symm.trans hprogram')
      obtain rfl := Option.some.inj (htable.symm.trans htable')
      exact hfresh₁
    · exact hs₁.2 key' set' hold relation' table' hprogram' ht' htable'
  exact ⟨hfollows, hk _ _ (h₁.trans hfollows) trivial⟩

theorem ends_loadAndCache (hquiet : QuietAt s relation.relationTable g) :
    Ends tables host programs (loadAndCache table policy relation principal snapshot g) s
      fun r s' => ∀ set, r = some set → FreshAt s' relation.relationTable g
        (Within host set table relation principal snapshot) := by
  refine (ends_load hquiet).bind fun set s₁ h₁ hfresh => ?_
  refine (ends_isUnchanged _ _).bind fun b s₂ h₂ _ => ?_
  have hfresh₂ := hfresh.evolves (h₂ _)
  cases b with
  | false => exact .pure (by simp)
  | true =>
    refine (ends_cacheInsert hprogram htable hfresh₂).bind fun _ s₃ h₃ _ => .pure ?_
    rintro _ ⟨⟩
    exact hfresh₂.evolves (h₃ _)

/-- **The set of one policy** is exact at the captured generation, whether it was loaded or
came from the cache. -/
theorem ends_bindRelation (hg : g ≤ s.generation relation.relationTable) :
    Ends tables host programs (bindRelation table policy relation principal snapshot g) s
      fun r s' => ∀ set, r = .ok set → FreshAt s' relation.relationTable g
        (Within host set table relation principal snapshot) := by
  refine (ends_isCurrent hg).bind fun b s₁ h₁ hcurrent => ?_
  cases b with
  | false => exact .pure (by simp)
  | true =>
    have hquiet : QuietAt s₁ relation.relationTable g :=
      ⟨(hcurrent rfl).1.ge, fun _ => (hcurrent rfl).2⟩
    refine (Ends.access fun _ => rfl).bind fun cached s₂ h₂ hcached => ?_
    -- a miss, or a hit that a change has overtaken, loads the membership
    have hload : ∀ {finish : Option AuthorizationSet → Reader (Except String AuthorizationSet)} s₃,
        Later s₂ s₃ → (∀ set, finish (some set) = pure (.ok set)) →
        (∃ e, finish none = pure (.error e)) → Ends tables host programs
        (loadAndCache table policy relation principal snapshot g >>= finish) s₃
        fun r s' => ∀ set, r = .ok set → FreshAt s' relation.relationTable g
          (Within host set table relation principal snapshot) := by
      intro finish s₃ h₃ hsome hnone
      refine (ends_loadAndCache hprogram htable ((hquiet.evolves (h₂ _)).evolves (h₃ _))).bind
        fun r s₄ h₄ hfresh => ?_
      cases r with
      | none =>
        obtain ⟨e, he⟩ := hnone
        exact he ▸ .pure (by simp)
      | some set =>
        rw [hsome]
        refine .pure ?_
        rintro _ ⟨⟩
        exact hfresh set rfl
    cases cached with
    | none => exact hload s₂ (.refl s₂) (fun _ => rfl) ⟨_, rfl⟩
    | some set =>
      refine (ends_isUnchanged _ _).bind fun b s₃ h₃ _ => ?_
      cases b with
      | false => exact hload s₃ h₃ (fun _ => rfl) ⟨_, rfl⟩
      | true =>
        refine .pure ?_
        rintro _ ⟨⟩
        exact (hcached.2.1.2 _ _ hcached.1.symm relation table hprogram rfl htable).evolves (h₃ _)

theorem ends_preAuthorizeKeys {values : List ScalarValue} :
    Ends tables host programs
      (preAuthorizeKeys table policy relation principal snapshot values) s fun _ _ => True := by
  refine (ends_generation _).bind fun g s₁ h₁ hg => ?_
  refine (ends_hasActiveMutations _).bind fun b s₂ h₂ hquiet => ?_
  cases b with
  | true => exact .pure trivial
  | false =>
    have hquiet₂ : QuietAt s₂ relation.relationTable g :=
      ⟨hg.le.trans (h₂ _).generation_le, fun _ => hquiet rfl⟩
    refine (Ends.access fun _ => rfl).bind fun cached s₃ h₃ _ => ?_
    cases cached with
    | some set =>
      refine (ends_isUnchanged _ _).bind fun b s₄ _ _ => ?_
      split_ifs <;> exact .pure trivial
    | none =>
      split_ifs
      · exact .pure trivial
      refine (ends_loadAndCache hprogram htable (hquiet₂.evolves (h₃ _))).bind fun r s₄ _ _ => ?_
      split <;> exact .pure trivial

end Relation

/-! ### Bound authorizations -/

/-- Captured generations are not ahead of the tables. -/
def DependenciesOk (dependencies : Dependencies) (s : Shared) : Prop :=
  ∀ d ∈ dependencies, d.2 ≤ s.generation d.1

variable (tables host) in
/-- The set of every policy is exact at the generation captured for its relation table. -/
def SetsOk (policies : BoundTablePolicies) (snapshot : Option VersionId)
    (sets : AuthorizationSets) (dependencies : Dependencies) (s : Shared) : Prop :=
  ∀ p ∈ policies.policies, ∀ relation set, p.program = .authorizationRelation relation →
    sets.lookup p.policyId = some set → ∃ table g, tables relation.relationTable = some table ∧
      (relation.relationTable, g) ∈ dependencies ∧
      FreshAt s relation.relationTable g
        (Within host set table relation policies.principal snapshot)

variable (programs) in
/-- The policies of a binding have distinct ids, and the program that belongs to their id and
generation. -/
def Consistent (policies : BoundTablePolicies) : Prop :=
  (policies.policies.map BoundPolicy.policyId).Nodup ∧
    ∀ p ∈ policies.policies, p.program = programs p.policyId p.policyGeneration

theorem DependenciesOk.later (h : DependenciesOk dependencies s) (hs : Later s s') :
    DependenciesOk dependencies s' :=
  fun d hd => (h d hd).trans (hs d.1).generation_le

theorem SetsOk.later (h : SetsOk tables host policies snapshot sets dependencies s)
    (hs : Later s s') : SetsOk tables host policies snapshot sets dependencies s' := by
  intro p hp relation set hprogram hset
  obtain ⟨table, g, htable, hmem, hfresh⟩ := h p hp relation set hprogram hset
  exact ⟨table, g, htable, hmem, hfresh.evolves (hs _)⟩

/-- Entering the set of one policy. -/
theorem SetsOk.insert {dependencies' : Dependencies} (hcons : Consistent programs policies)
    (h : SetsOk tables host policies snapshot sets dependencies s)
    (hsub : dependencies ⊆ dependencies') (hpolicy : policy ∈ policies.policies)
    (hprogram : policy.program = .authorizationRelation relation)
    (htable : tables relation.relationTable = some table)
    (hmem : (relation.relationTable, g) ∈ dependencies')
    (hfresh : FreshAt s relation.relationTable g
      (Within host set table relation policies.principal snapshot)) :
    SetsOk tables host policies snapshot (sets.insert policy.policyId set) dependencies' s := by
  intro p hp relation' set' hprogram' hlookup
  by_cases hid : p.policyId = policy.policyId
  · obtain rfl : p = policy := inj_on_of_nodup_map hcons.1 hp hpolicy hid
    obtain rfl := PolicyProgram.authorizationRelation.inj (hprogram.symm.trans hprogram')
    rw [lookup_insert] at hlookup
    cases hlookup
    exact ⟨table, g, htable, hmem, hfresh⟩
  · rw [lookup_insert_ne hid] at hlookup
    obtain ⟨table', g', htable', hmem', hfresh'⟩ := h p hp relation' set' hprogram' hlookup
    exact ⟨table', g', htable', hsub hmem', hfresh'⟩

theorem resolveRelationProvider_ok (h : resolveRelationProvider tables t = .ok table) :
    tables t = some table := by
  revert h
  fun_cases resolveRelationProvider tables t <;> rintro ⟨⟩
  assumption

theorem ends_captureDependency (hdeps : DependenciesOk dependencies s) :
    Ends tables host programs (captureDependency dependencies t) s fun r s' =>
      DependenciesOk r.2 s' ∧ dependencies ⊆ r.2 ∧ (t, r.1) ∈ r.2 := by
  rw [captureDependency]
  split
  · next g hg =>
    have hmem : (t, g) ∈ dependencies := by
      obtain ⟨before, after, rfl, -⟩ := lookup_eq_some_iff.mp hg
      simp
    exact .pure ⟨hdeps, List.Subset.refl _, hmem⟩
  · refine (ends_generation t).bind fun g s₁ h₁ hg =>
      .pure ⟨forall_mem_append.mpr ⟨hdeps.later h₁, forall_mem_singleton.mpr hg.le⟩,
        subset_append_left _ _, by simp⟩

/-- **The loop over the policies** collects sets that are exact at the captured generations. -/
theorem ends_bindPolicies (hcons : Consistent programs policies) {rest : List BoundPolicy}
    (hsub : rest ⊆ policies.policies) (hdeps : DependenciesOk dependencies s)
    (hsets : SetsOk tables host policies snapshot sets dependencies s) :
    Ends tables host programs
      (bindPolicies tables policies.principal snapshot rest sets dependencies) s
      fun r s' => ∀ sets' dependencies', r = .ok (sets', dependencies') →
        DependenciesOk dependencies' s' ∧
          SetsOk tables host policies snapshot sets' dependencies' s' := by
  induction rest generalizing s sets dependencies with
  | nil =>
    refine .pure ?_
    rintro _ _ ⟨⟩
    exact ⟨hdeps, hsets⟩
  | cons policy rest ih =>
    obtain ⟨hpolicy, hrest⟩ := cons_subset.mp hsub
    rw [bindPolicies]
    split
    · exact ih hrest hdeps hsets
    rename_i relation hprogram
    split
    · exact .pure (by simp)
    rename_i table hresolve
    have htable := resolveRelationProvider_ok hresolve
    have hprogram' := (hcons.2 policy hpolicy).symm.trans hprogram
    refine (ends_captureDependency hdeps).bind fun ⟨g, deps₁⟩ s₁ h₁ ⟨hdeps₁, hsub₁, hmem⟩ => ?_
    refine (ends_bindRelation hprogram' htable (hdeps₁ _ hmem)).bind fun r s₂ h₂ hfresh => ?_
    cases r with
    | error e => exact .pure (by simp)
    | ok set =>
      exact ih hrest (hdeps₁.later h₂) (SetsOk.insert hcons (hsets.later (h₁.trans h₂)) hsub₁
        hpolicy hprogram htable hmem (hfresh set rfl))

/-- Each captured generation was met at some moment between two states. -/
def Met (dependencies : Dependencies) (s s' : Shared) : Prop :=
  ∀ d ∈ dependencies, ∃ s₀, Later s s₀ ∧ Later s₀ s' ∧ s₀.generation d.1 = d.2

theorem ends_allCurrent (hdeps : DependenciesOk dependencies s) :
    Ends tables host programs (allCurrent dependencies) s fun b s' =>
      b = true → Met dependencies s s' := by
  induction dependencies generalizing s with
  | nil => exact .pure fun _ d hd => absurd hd not_mem_nil
  | cons d rest ih =>
    obtain ⟨t, g⟩ := d
    refine (ends_isCurrent (hdeps (t, g) mem_cons_self)).bind fun b s₁ h₁ hcurrent => ?_
    cases b with
    | false => exact .pure (by simp)
    | true =>
      have hrest : DependenciesOk rest s₁ := fun d hd =>
        hdeps.later h₁ d (mem_cons_of_mem _ hd)
      refine (ih hrest).imp fun b s₂ h₂ hmet hb d hd => ?_
      rcases mem_cons.mp hd with rfl | hd
      · exact ⟨s₁, h₁, h₂, (hcurrent rfl).1⟩
      · obtain ⟨s₀, hbefore, hafter, hgen⟩ := hmet hb d hd
        exact ⟨s₀, h₁.trans hbefore, hafter, hgen⟩

variable (tables host) in
/-- A bound authorization as the checks may rely on it. -/
def BoundOk (snapshot : Option VersionId) (b : BoundAuthorization) (s : Shared) : Prop :=
  DependenciesOk b.dependencies s ∧
    SetsOk tables host b.policies snapshot b.sets b.dependencies s

theorem BoundOk.later (h : BoundOk tables host snapshot b s) (hs : Later s s') :
    BoundOk tables host snapshot b s' :=
  ⟨h.1.later hs, h.2.later hs⟩

/-- **Binding.** -/
theorem ends_bindAuthorization (hcons : Consistent programs policies) :
    Ends tables host programs (bindAuthorization tables policies snapshot) s fun r s' =>
      ∀ b, r = .ok b → b.policies = policies ∧ BoundOk tables host snapshot b s' := by
  refine (ends_bindPolicies hcons (List.Subset.refl _) (by simp [DependenciesOk])
    (by intro p _ relation set _ h; simp at h)).bind fun r s₁ h₁ hr => ?_
  cases r with
  | error e => exact .pure (by simp)
  | ok pair =>
    obtain ⟨sets, dependencies⟩ := pair
    obtain ⟨hdeps, hsets⟩ := hr sets dependencies rfl
    refine (ends_allCurrent hdeps).bind fun b s₂ h₂ _ => ?_
    cases b with
    | false => exact .pure (by simp)
    | true =>
      refine .pure ?_
      rintro _ ⟨⟩
      exact ⟨rfl, hdeps.later h₂, hsets.later h₂⟩

/-! ### Checks and scans -/

/-- Contents that were present at some moment between two states. -/
def PresentSince (s s' : Shared) (t : TableId) (versions : List SharedTableRow) : Prop :=
  ∃ older, versions :: older <:+ s'.contents t ∧ s.contents t <:+ versions :: older

variable (tables host) in
/-- **What authorizes a row** between two states: no policies are enforced, a row-local policy
is true, or the row's key is in the membership that some relation table had after `s`. -/
def Authorized (policies : BoundTablePolicies) (snapshot : Option VersionId) (row : Row)
    (s s' : Shared) : Prop :=
  policies.bypass = true ∨
  (∃ p ∈ policies.policies, ∃ expr, p.program = .rowLocal expr ∧
    evaluateRowLocal host row policies.principal expr = .true) ∨
  ∃ p ∈ policies.policies, ∃ relation table versions,
    p.program = .authorizationRelation relation ∧
    tables relation.relationTable = some table ∧
    PresentSince s s' relation.relationTable versions ∧
    (memberSet table relation policies.principal snapshot versions).containsProtectedRow
      host row = true

theorem PresentSince.mono {versions : List SharedTableRow} (h : PresentSince s₁ s₂ t versions)
    (h₁ : s₁'.contents t <:+ s₁.contents t) (h₂ : s₂.contents t <:+ s₂'.contents t) :
    PresentSince s₁' s₂' t versions := by
  obtain ⟨older, hafter, hbefore⟩ := h
  exact ⟨older, hafter.trans h₂, h₁.trans hbefore⟩

theorem Authorized.mono (h : Authorized tables host policies snapshot row s₁ s₂)
    (h₁ : Later s₁' s₁) (h₂ : Later s₂ s₂') :
    Authorized tables host policies snapshot row s₁' s₂' := by
  refine h.imp_right (Or.imp_right ?_)
  rintro ⟨p, hp, relation, table, versions, hprogram, htable, hpresent, hrow⟩
  refine ⟨p, hp, relation, table, versions, hprogram, htable, ?_, hrow⟩
  exact hpresent.mono (h₁ _).contents_suffix (h₂ _).contents_suffix

section

variable (hb : BoundOk tables host snapshot b s)
include hb

/-- The sets of a bound authorization admit what a membership of the meantime admits, if its
captured generations were met in the meantime. -/
theorem BoundOk.authorized (hmet : Met b.dependencies s s')
    (hrow : b.policies.authorizesRowWithSets host row b.sets = true) :
    Authorized tables host b.policies snapshot row s s' := by
  rw [authorizesRowWithSets, Bool.or_eq_true, any_eq_true] at hrow
  rcases hrow with hbypass | ⟨p, hp, hauth⟩
  · exact .inl hbypass
  rw [policyAuthorizes] at hauth
  split at hauth
  · rename_i expr hprogram
    exact .inr (.inl ⟨p, hp, expr, hprogram, eq_of_beq hauth⟩)
  rename_i relation hprogram
  rw [Option.any_eq_true] at hauth
  obtain ⟨set, hset, hcontains⟩ := hauth
  obtain ⟨table, g, htable, hmem, hfresh⟩ := hb.2 p hp relation set hprogram hset
  obtain ⟨s₀, hbefore, hafter, hgen⟩ := hmet _ hmem
  -- at the moment of the comparison the set is exact
  obtain ⟨-, hwithin⟩ := (hfresh.evolves (hbefore _)).2 hgen
  refine .inr (.inr ⟨p, hp, relation, table, _, hprogram, htable, ?_, hwithin row hcontains⟩)
  exact ⟨_, (hafter _).contents_suffix, (hbefore _).contents_suffix⟩

/-- **A live delivery** authorizes a row by a membership of the time of the check. -/
theorem holds_authorizes (hs : SharedInv tables host programs s) :
    (b.authorizes host row).Holds (rules tables host programs)
      (fun r s' => r = true → Authorized tables host b.policies snapshot row s s') s := by
  have hends : Ends tables host programs (b.authorizes host row) s fun r s' =>
      r = true → Authorized tables host b.policies snapshot row s s' := by
    refine (ends_allCurrent hb.1).bind fun b₁ s₁ h₁ _ => ?_
    cases b₁ with
    | false => exact .pure (by simp)
    | true =>
      simp only [Bool.not_true, Bool.false_eq_true, if_false]
      split_ifs with hrow
      · exact .pure (by simp)
      have hb₁ := hb.later h₁
      refine (ends_allCurrent hb₁.1).imp fun b₂ s₂ h₂ hmet hr => ?_
      exact (hb₁.authorized (hmet hr) (by simpa using hrow)).mono h₁ (.refl s₂)
  exact hends.holds hs fun r s' s'' _ hauth h hr => (hauth hr).mono (.refl s) h

/-- **The filter of a scan** keeps rows by a membership of the time of the check. -/
theorem ends_filterAuthorized :
    Ends tables host programs (b.filterAuthorized host rows) s fun r s' =>
      ∀ rows', r = some rows' →
        ∀ row ∈ rows', Authorized tables host b.policies snapshot row s s' := by
  refine (ends_allCurrent hb.1).bind fun b₁ s₁ h₁ _ => ?_
  cases b₁ with
  | false => exact .pure (by simp)
  | true =>
    have hb₁ := hb.later h₁
    refine (ends_allCurrent hb₁.1).bind fun b₂ s₂ h₂ hmet => ?_
    cases b₂ with
    | false => exact .pure (by simp)
    | true =>
      refine .pure ?_
      rintro _ ⟨⟩ row hrow
      exact (hb₁.authorized (hmet rfl) (mem_filter.mp hrow).2).mono h₁ (.refl s₂)

end

theorem singleMembershipPolicy_eq_some
    (h : singleMembershipPolicy policies = some (policy, relation)) :
    policies.policies = [policy] ∧ policy.program = .authorizationRelation relation := by
  revert h
  fun_cases singleMembershipPolicy policies <;> rintro ⟨⟩
  next hpolicies hprogram => exact ⟨hpolicies, hprogram⟩

/-- The early test of a scan is harmless: it may only cache an exact set. -/
theorem ends_preAuthorizeScan (hcons : Consistent programs policies) :
    Ends tables host programs (preAuthorizeScan tables host policies snapshot constraint) s
      fun _ _ => True := by
  rw [preAuthorizeScan]
  split_ifs
  · exact .pure trivial
  · exact .pure trivial
  split
  · exact .pure trivial
  rename_i policy relation hsingle
  obtain ⟨hpolicies, hrelation⟩ := singleMembershipPolicy_eq_some hsingle
  have hprogram := hcons.2 policy (by rw [hpolicies]; exact mem_singleton_self _)
  split
  · split_ifs
    · exact .pure trivial
    split
    · exact .pure trivial
    split
    · exact .pure trivial
    · next table hresolve =>
      exact ends_preAuthorizeKeys (hprogram.symm.trans hrelation)
        (resolveRelationProvider_ok hresolve)
  · exact .pure trivial

/-- **A scan** returns rows by memberships that held after it started. -/
theorem holds_scanAuthorized (hcons : Consistent programs policies)
    (hs : SharedInv tables host programs s) :
    (scanAuthorized tables host policies snapshot constraint rows).Holds
      (rules tables host programs)
      (fun r s' => ∀ rows', r = .ok rows' →
        ∀ row ∈ rows', Authorized tables host policies snapshot row s s') s := by
  have hends : Ends tables host programs
      (scanAuthorized tables host policies snapshot constraint rows) s fun r s' =>
        ∀ rows', r = .ok rows' →
          ∀ row ∈ rows', Authorized tables host policies snapshot row s s' := by
    refine (ends_preAuthorizeScan hcons).bind fun r s₁ h₁ _ => ?_
    split
    · exact .pure (by simp)
    · exact .pure (by simp)
    rw [authorizeResolvedRows]
    split_ifs with hbypass hdeny
    · exact .pure fun _ _ _ _ => .inl hbypass
    · exact .pure (by simp)
    refine (ends_bindAuthorization hcons).bind fun r s₂ h₂ hbound => ?_
    cases r with
    | error e => exact .pure (by simp)
    | ok b =>
      obtain ⟨rfl, hb⟩ := hbound b rfl
      refine (ends_filterAuthorized hb).bind fun r s₃ h₃ hrows => ?_
      cases r with
      | none => exact .pure (by simp)
      | some authorized =>
        refine .pure ?_
        rintro _ ⟨⟩ row hrow
        exact (hrows authorized rfl row hrow).mono (h₁.trans h₂) (.refl s₃)
  exact hends.holds hs fun r s' s'' _ hauth h rows' hr row hrow =>
    (hauth rows' hr row hrow).mono (.refl s) h

end Readers

end KalamDB.Rls
