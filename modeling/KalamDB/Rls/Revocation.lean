import KalamDB.Rls.Binding

/-!
# Row-level security: a revoked membership is not used again

All interleavings of scans, live subscriptions and their deliveries with the workers that
change the relation tables. Whatever a scan returns, or a delivery lets through, is authorized
by a membership that held **after the scan or the delivery had started**
(`authorized_by_present_membership`), so never through a key that an earlier change had
removed.

This needs three things of a run. No membership is read while a buffered write of the relation
table waits to be persisted: the guard of a coalesced apply is dropped, and the generation
final, **before** the batch is persisted, so a set loaded in between keeps the old membership
under the new generation. No relation table is written **without a guard**, as batched updates and
deletes are: their generation is not raised at all. The runs at the end show both. And all bindings
must use one program for a policy id and generation, since the cache does not tell the `USING`
program of a policy from its `WITH CHECK` program.
-/

namespace KalamDB.Rls

open Resumption Runs Option List World

variable {i : ℕ} {w : World}

section System

variable (tables : TableId → Option CatalogTable) (host : CatalogTable)
  (programs : PolicyId → ℕ → PolicyProgram) {s s' : Shared} {α : Type} {Q : α → Shared → Prop}
  {l : List (Reader α)} {p : Reader α} {e : Event} {w' : World}

/-- The next access of a reader, if it has one, is undisturbed. -/
def Undisturbed {α : Type} (p : Reader α) (s : Shared) : Prop :=
  ∀ a, p.next = some a → a.Undisturbed s

/-- The condition on the steps of a run. -/
def Permitted (w : World) : Event → Prop
  | .scan policies _ _ _ | .subscribe policies => Consistent programs policies
  | .resumeScan i => ∀ p, w.scans[i]? = some p → Undisturbed p w.shared
  | .resumeSubscription i => ∀ p, w.subscriptions[i]? = some p → Undisturbed p w.shared
  | .resumeDelivery i => ∀ p, w.deliveries[i]? = some p → Undisturbed p w.shared
  | .worker _ e => e.isGuarded = true
  | .deliver _ _ => True

/-- Every reader is on its way to keep its specification. -/
structure WorldInv (w : World) : Prop where
  shared : SharedInv tables host programs w.shared
  scans : ∀ p ∈ w.scans, p.Holds (rules tables host programs) (fun _ _ => True) w.shared
  subscriptions : ∀ p ∈ w.subscriptions, p.Holds (rules tables host programs)
    (fun r s => ∀ b, r = .ok b → BoundOk tables host none b s) w.shared
  deliveries : ∀ p ∈ w.deliveries,
    p.Holds (rules tables host programs) (fun _ _ => True) w.shared

variable {tables host programs} (contents : TableId → List SharedTableRow) (workers : ℕ)

theorem SharedInv.initial :
    SharedInv tables host programs (World.initial contents workers).shared := by
  refine ⟨fun t => ?_, fun key set h => ?_⟩
  · simp [World.initial, countP_replicate, Worker.idle, MutationGuard.holds, MutationGuard.table?]
  · simp [World.initial, AuthorizationCache.empty] at h

theorem WorldInv.initial :
    WorldInv tables host programs (World.initial contents workers) where
  shared := .initial contents workers
  scans := by simp [World.initial]
  subscriptions := by simp [World.initial]
  deliveries := by simp [World.initial]

/-- Guarded worker steps keep the cache sound. -/
theorem Follows.of_workerStep {e : WorkerEvent} (hguarded : e.isGuarded = true)
    (h : s.workerStep i e = some s') : Follows tables host programs s s' := by
  intro hs
  obtain ⟨hcounted, hevolves, hcache⟩ := Shared.workerStep_spec hguarded hs.1 h
  refine ⟨⟨hcounted, ?_⟩, hevolves⟩
  intro key set hlookup relation table hprogram ht htable
  rw [hcache] at hlookup
  exact (hs.2 key set hlookup relation table hprogram ht htable).evolves (hevolves _)

section

variable (h : ∀ p ∈ l, p.Holds (rules tables host programs) Q s)
include h

/-- Specifications of a list of readers survive a change of the shared state. -/
theorem forall_holds_stable
    (hs : Follows tables host programs s s') : ∀ p ∈ l, p.Holds (rules tables host programs) Q s' :=
  fun p hp => (h p hp).stable hs

/-- Resuming one reader of a list. -/
theorem forall_holds_resume (hi : l[i]? = some p) (hok : Undisturbed p s) :
    Follows tables host programs s (p.resume execute s).2 ∧
      ∀ q ∈ l.set i (p.resume execute s).1,
        q.Holds (rules tables host programs) Q (p.resume execute s).2 := by
  obtain ⟨hfollows, hp⟩ := (h p (mem_of_getElem? hi)).resume hok
  refine ⟨hfollows, fun q hq => ?_⟩
  rcases mem_or_eq_of_mem_set hq with hq | rfl
  · exact (h q hq).stable hfollows
  · exact hp

end

/-- **Every permitted step** keeps the invariant and follows the rules. -/
theorem WorldInv.step (h : WorldInv tables host programs w) (hok : Permitted programs w e)
    (hstep : w.step tables host e = some w') :
    WorldInv tables host programs w' ∧ Follows tables host programs w.shared w'.shared := by
  cases e with
  | worker i e =>
    obtain ⟨s', hs', rfl⟩ := map_eq_some_iff.mp hstep
    have hf : Follows tables host programs w.shared s' := .of_workerStep hok hs'
    exact ⟨⟨hf.inv h.shared, forall_holds_stable h.scans hf,
      forall_holds_stable h.subscriptions hf, forall_holds_stable h.deliveries hf⟩, hf⟩
  | scan policies snapshot constraint rows =>
    cases hstep
    refine ⟨{ h with scans :=
      forall_mem_append.mpr ⟨h.scans, forall_mem_singleton.mpr ?_⟩ }, .refl _⟩
    exact (holds_scanAuthorized hok h.shared).imp fun _ _ _ => trivial
  | subscribe policies =>
    cases hstep
    refine ⟨{ h with subscriptions :=
      forall_mem_append.mpr ⟨h.subscriptions, forall_mem_singleton.mpr ?_⟩ }, .refl _⟩
    exact (ends_bindAuthorization hok).holds h.shared fun r s₁ s' _ hr h' b hb =>
      (hr b hb).2.later h'
  | deliver i row =>
    simp only [step] at hstep
    split at hstep
    · rename_i b hb
      cases hstep
      have hbound := (h.subscriptions _ (mem_of_getElem? hb)).result b rfl
      refine ⟨{ h with deliveries :=
        forall_mem_append.mpr ⟨h.deliveries, forall_mem_singleton.mpr ?_⟩ }, .refl _⟩
      exact (holds_authorizes hbound h.shared).imp fun _ _ _ => trivial
    · cases hstep
  | resumeScan i =>
    obtain ⟨p, hp, rfl⟩ := map_eq_some_iff.mp hstep
    obtain ⟨hf, hscans⟩ := forall_holds_resume h.scans hp (hok p hp)
    exact ⟨⟨hf.inv h.shared, hscans, forall_holds_stable h.subscriptions hf,
      forall_holds_stable h.deliveries hf⟩, hf⟩
  | resumeSubscription i =>
    obtain ⟨p, hp, rfl⟩ := map_eq_some_iff.mp hstep
    obtain ⟨hf, hsubs⟩ := forall_holds_resume h.subscriptions hp (hok p hp)
    exact ⟨⟨hf.inv h.shared, forall_holds_stable h.scans hf, hsubs,
      forall_holds_stable h.deliveries hf⟩, hf⟩
  | resumeDelivery i =>
    obtain ⟨p, hp, rfl⟩ := map_eq_some_iff.mp hstep
    obtain ⟨hf, hdels⟩ := forall_holds_resume h.deliveries hp (hok p hp)
    exact ⟨⟨hf.inv h.shared, forall_holds_stable h.scans hf,
      forall_holds_stable h.subscriptions hf, hdels⟩, hf⟩

/-! ### One reader over a whole run -/

/-- From one state to the next, every reader of the list stays as it is or performs its next
access. -/
def Advances {α : Type} (s s' : Shared) (l l' : List (Reader α)) : Prop :=
  ∀ (i : ℕ) (p : Reader α), l[i]? = some p → l'[i]? = some p ∨
    (l'[i]? = some (p.resume execute s).1 ∧ s' = (p.resume execute s).2 ∧ Undisturbed p s)

theorem Advances.same (s s' : Shared) (l : List (Reader α)) : Advances s s' l l :=
  fun _ _ h => .inl h

theorem Advances.append (s s' : Shared) (l : List (Reader α)) (p : Reader α) :
    Advances s s' l (l ++ [p]) := by
  intro i q hi
  obtain ⟨hlt, -⟩ := List.getElem?_eq_some_iff.mp hi
  rw [List.getElem?_append_left hlt]
  exact .inl hi

theorem Advances.set (hi : l[i]? = some p) (hok : Undisturbed p s) :
    Advances s (p.resume execute s).2 l (l.set i (p.resume execute s).1) := by
  intro j q hj
  obtain ⟨hlt, -⟩ := List.getElem?_eq_some_iff.mp hj
  by_cases hij : i = j
  · subst hij
    obtain rfl : p = q := some.inj (hi.symm.trans hj)
    exact .inr ⟨getElem?_set_self hlt, rfl, hok⟩
  · rw [getElem?_set_ne hij]
    exact .inl hj

theorem advances_of_step (hok : Permitted programs w e) (hstep : w.step tables host e = some w') :
    Advances w.shared w'.shared w.scans w'.scans ∧
      Advances w.shared w'.shared w.deliveries w'.deliveries := by
  cases e with
  | worker i e =>
    obtain ⟨s', -, rfl⟩ := map_eq_some_iff.mp hstep
    exact ⟨.same _ _ _, .same _ _ _⟩
  | scan policies snapshot constraint rows =>
    cases hstep
    exact ⟨.append _ _ _ _, .same _ _ _⟩
  | subscribe policies =>
    cases hstep
    exact ⟨.same _ _ _, .same _ _ _⟩
  | deliver i row =>
    simp only [step] at hstep
    split at hstep
    · cases hstep
      exact ⟨.same _ _ _, .append _ _ _ _⟩
    · cases hstep
  | resumeScan i =>
    obtain ⟨p, hp, rfl⟩ := map_eq_some_iff.mp hstep
    exact ⟨.set hp (hok p hp), .same _ _ _⟩
  | resumeSubscription i =>
    obtain ⟨p, hp, rfl⟩ := map_eq_some_iff.mp hstep
    exact ⟨.same _ _ _, .same _ _ _⟩
  | resumeDelivery i =>
    obtain ⟨p, hp, rfl⟩ := map_eq_some_iff.mp hstep
    exact ⟨.same _ _ _, .set hp (hok p hp)⟩

/-- A reader on its way to `Q`, named by its position. -/
def OnTheWay (tables : TableId → Option CatalogTable) (host : CatalogTable)
    (programs : PolicyId → ℕ → PolicyProgram) {α : Type} (Q : α → Shared → Prop)
    (l : List (Reader α)) (i : ℕ) (s : Shared) : Prop :=
  ∃ p, l[i]? = some p ∧ p.Holds (rules tables host programs) Q s

theorem OnTheWay.advances {l' : List (Reader α)} (h : OnTheWay tables host programs Q l i s)
    (hf : Follows tables host programs s s') (hl : Advances s s' l l') :
    OnTheWay tables host programs Q l' i s' := by
  obtain ⟨p, hi, hp⟩ := h
  rcases hl i p hi with hsame | ⟨hnext, rfl, hok⟩
  · exact ⟨p, hsame, hp.stable hf⟩
  · exact ⟨_, hnext, (hp.resume hok).2⟩

/-- The invariant, with every reader of an earlier state on its way as before. -/
def Lasts (tables : TableId → Option CatalogTable) (host : CatalogTable)
    (programs : PolicyId → ℕ → PolicyProgram) (w w' : World) : Prop :=
  WorldInv tables host programs w' ∧
    (∀ Q i, OnTheWay tables host programs Q w.scans i w.shared →
      OnTheWay tables host programs Q w'.scans i w'.shared) ∧
    ∀ Q i, OnTheWay tables host programs Q w.deliveries i w.shared →
      OnTheWay tables host programs Q w'.deliveries i w'.shared

/-- **A whole run**: the invariant lasts, and so does every reader's way to its result. -/
theorem WorldInv.run {events : List Event} (h : WorldInv tables host programs w)
    (hok : Meets (World.step tables host) (Permitted programs) w events)
    (hrun : Runs.run (World.step tables host) w events = some w') :
    Lasts tables host programs w w' := by
  refine run_invariant (Lasts tables host programs w) ?_
    ⟨h, fun _ _ hq => hq, fun _ _ hq => hq⟩ hok hrun
  rintro w₁ e w₂ hok₁ ⟨h₁, hscans, hdeliveries⟩ hstep
  obtain ⟨h₂, hf⟩ := h₁.step hok₁ hstep
  obtain ⟨hadvS, hadvD⟩ := advances_of_step hok₁ hstep
  exact ⟨h₂, fun Q i hq => (hscans Q i hq).advances hf hadvS,
    fun Q i hq => (hdeliveries Q i hq).advances hf hadvD⟩

end System

/-! ### What readers answer -/

/-- The rows a finished scan returned. -/
def World.scanResult (w : World) (i : ℕ) : Option (List Row) :=
  match w.scans[i]? with
  | some (.pure (.ok rows)) => some rows
  | _ => none

/-- The answer of a finished delivery check. -/
def World.deliveryResult (w : World) (i : ℕ) : Option Bool :=
  match w.deliveries[i]? with
  | some (.pure b) => some b
  | _ => none

theorem World.scanResult_eq_some {rows : List Row} (h : w.scanResult i = some rows) :
    w.scans[i]? = some (.pure (.ok rows)) := by
  revert h
  fun_cases w.scanResult i <;> rintro ⟨⟩
  assumption

theorem World.deliveryResult_eq_some {b : Bool} (h : w.deliveryResult i = some b) :
    w.deliveries[i]? = some (.pure b) := by
  revert h
  fun_cases w.deliveryResult i <;> rintro ⟨⟩
  assumption

section Main

variable {tables : TableId → Option CatalogTable} {host : CatalogTable}
  {programs : PolicyId → ℕ → PolicyProgram}

theorem OnTheWay.result {α : Type} {Q : α → Shared → Prop} {l : List (Reader α)} {s : Shared}
    {a : α} (h : OnTheWay tables host programs Q l i s) (hi : l[i]? = some (.pure a)) : Q a s := by
  obtain ⟨p, hp, hQ⟩ := h
  obtain rfl : p = .pure a := some.inj (hp.symm.trans hi)
  exact hQ.result

/-- **Row-level security does not outlive its membership.** In every run whose steps are
permitted, the rows of a scan and the rows that a delivery check lets through are authorized
by memberships that held after the scan or the check had started. -/
theorem authorized_by_present_membership (tables : TableId → Option CatalogTable)
    (host : CatalogTable) (programs : PolicyId → ℕ → PolicyProgram)
    (contents : TableId → List SharedTableRow) (workers : ℕ) (before after : List Event)
    (e : Event) (w₁ w₂ : World) (hok : Meets (World.step tables host) (Permitted programs)
      (World.initial contents workers) (before ++ e :: after))
    (hbefore : run (World.step tables host) (World.initial contents workers) before = some w₁)
    (hafter : run (World.step tables host) w₁ (e :: after) = some w₂) :
    (∀ policies snapshot constraint rows rows',
      e = .scan policies snapshot constraint rows →
      w₂.scanResult w₁.scans.length = some rows' →
      ∀ row ∈ rows', Authorized tables host policies snapshot row w₁.shared w₂.shared) ∧
    ∀ i row b, e = .deliver i row → w₁.subscriptions[i]? = some (.pure (.ok b)) →
      w₂.deliveryResult w₁.deliveries.length = some true →
      Authorized tables host b.policies none row w₁.shared w₂.shared := by
  obtain ⟨hok₁, hok₂⟩ := hok.append hbefore
  have hinv₁ : WorldInv tables host programs w₁ :=
    ((WorldInv.initial contents workers).run hok₁ hbefore).1
  obtain ⟨w, hstep, hrun⟩ := run_cons_eq_some.mp hafter
  obtain ⟨hokE, hokAfter⟩ := hok₂.cons hstep
  obtain ⟨-, hscans, hdeliveries⟩ := (hinv₁.step hokE hstep).1.run hokAfter hrun
  constructor
  · rintro policies snapshot constraint rows rows' rfl hresult
    cases hstep
    have hway := hscans _ w₁.scans.length
      ⟨scanAuthorized tables host policies snapshot constraint rows,
        by rw [getElem?_concat_length], holds_scanAuthorized hokE hinv₁.shared⟩
    exact hway.result (World.scanResult_eq_some hresult) rows' rfl
  · rintro i row b rfl hb hresult
    simp only [World.step, hb] at hstep
    cases hstep
    have hbound := (hinv₁.subscriptions _ (mem_of_getElem? hb)).result b rfl
    have hway := hdeliveries _ w₁.deliveries.length
      ⟨b.authorizes host row, by rw [getElem?_concat_length], holds_authorizes hbound hinv₁.shared⟩
    exact hway.result (World.deliveryResult_eq_some hresult) rfl

end Main

/-! ### Runs of a small system -/

-- The condition on the steps can be tested, given a test of consistency.
instance (s : Shared) (t : TableId) : Decidable (s.Drained t) :=
  inferInstanceAs (Decidable (∀ w ∈ s.workers, w.pending t = []))

instance (a : Access) (s : Shared) : Decidable (a.Undisturbed s) :=
  match a with
  | .scanRelation _ t _ _ => inferInstanceAs (Decidable (s.Drained t))
  | .generation _ | .hasActiveMutations _ | .cacheGet _ | .cacheInsert _ _ | .findByPk _ _ _ =>
    .isTrue trivial

instance {α : Type} (p : Reader α) (s : Shared) : Decidable (Undisturbed p s) :=
  inferInstanceAs (Decidable (∀ a ∈ p.next, a.Undisturbed s))

instance {programs : PolicyId → ℕ → PolicyProgram} [DecidablePred (Consistent programs)]
    (w : World) (e : Event) : Decidable (Permitted programs w e) :=
  match e with
  | .scan policies _ _ _ | .subscribe policies =>
    inferInstanceAs (Decidable (Consistent programs policies))
  | .resumeScan i => inferInstanceAs (Decidable (∀ p ∈ w.scans[i]?, Undisturbed p w.shared))
  | .resumeSubscription i =>
    inferInstanceAs (Decidable (∀ p ∈ w.subscriptions[i]?, Undisturbed p w.shared))
  | .resumeDelivery i =>
    inferInstanceAs (Decidable (∀ p ∈ w.deliveries[i]?, Undisturbed p w.shared))
  | .worker _ e => inferInstanceAs (Decidable (e.isGuarded = true))
  | .deliver _ _ => .isTrue trivial

instance (program : PolicyProgram) (relation : AuthorizationRelation) :
    Decidable (program = .authorizationRelation relation) :=
  match program with
  | .rowLocal _ => .isFalse nofun
  | .authorizationRelation r => decidable_of_iff (r = relation) (by simp)

/-- Documents that belong to teams. -/
def documentsTable : CatalogTable where
  namespaceId := "app"
  tableName := "documents"
  isShared := true
  definition :=
    { columns := [⟨1, "id", .bigInt, true⟩, ⟨2, "team", .text, false⟩]
      nextColumnId := 3
      scalarIndexes := []
      names_nodup := by decide
      exists_primaryKey := by decide }
  ids_nodup := by decide

/-- The members of the teams. -/
def teamMembersTable : CatalogTable where
  namespaceId := "app"
  tableName := "team_members"
  isShared := true
  definition :=
    { columns := [⟨1, "id", .bigInt, true⟩, ⟨2, "member", .text, false⟩,
        ⟨3, "team", .text, false⟩]
      nextColumnId := 4
      scalarIndexes := []
      names_nodup := by decide
      exists_primaryKey := by decide }
  ids_nodup := by decide

/-- `USING (team IN (SELECT team FROM app.team_members WHERE member = CURRENT_USER))`. -/
def teamMembership : AuthorizationRelation where
  protectedTable := documentsTable.tableId
  protectedKeys := [2]
  relationTable := teamMembersTable.tableId
  relationKeys := [3]
  principalColumn := 2
  principal := .currentUser
  staticPredicates := []

def teamPrograms : PolicyId → ℕ → PolicyProgram :=
  fun _ _ => .authorizationRelation teamMembership

instance : DecidablePred (Consistent teamPrograms) := fun policies =>
  inferInstanceAs (Decidable ((policies.policies.map BoundPolicy.policyId).Nodup ∧
    ∀ p ∈ policies.policies, p.program = .authorizationRelation teamMembership))

def teamCatalog (t : TableId) : Option CatalogTable :=
  if t = teamMembersTable.tableId then some teamMembersTable else none

/-- The policy of the documents, bound to the user `alice`. -/
def alicePolicies : BoundTablePolicies where
  principal := "alice"
  bypass := false
  policies := [⟨(documentsTable.tableId, "by_team"), 1, .authorizationRelation teamMembership⟩]

def document (id : Int64) (team : String) : Row := ⟨[("id", .int64 id), ("team", .utf8 team)]⟩

def teamMember (version : VersionId) (deleted : Bool) (id : Int64) (member team : String) :
    SharedTableRow :=
  ⟨version, deleted, ⟨[("id", .int64 id), ("member", .utf8 member), ("team", .utf8 team)]⟩⟩

/-- One worker; `alice` is a member of the red and the blue team. -/
def teamWorld : World :=
  .initial (fun t => if t = teamMembersTable.tableId then
    [teamMember (.ofNat 1) false 1 "alice" "red",
      teamMember (.ofNat 2) false 2 "alice" "blue"] else []) 1

/-- A coalesced apply that removes `alice` from the red team, up to the end of its guard. -/
def leaveRed : List Event :=
  [.worker 0 (.raiseActive teamMembersTable.tableId), .worker 0 .raiseGeneration,
    .worker 0 (.bufferWrite [teamMember (.ofNat 3) true 1 "alice" "red"]),
    .worker 0 .raiseGenerationAgain, .worker 0 .lowerActive]

/-- A subscription that loads its membership between the end of the guard and the batch. -/
def staleSubscription : List Event :=
  leaveRed ++ .subscribe alicePolicies :: List.replicate 10 (.resumeSubscription 0) ++
    [.worker 0 .persistBatch]

/-- A scan of a red and a blue document, from its start to its result. -/
def scanDocuments : List Event :=
  .scan alicePolicies none none [document 1 "red", document 2 "blue"] ::
    List.replicate 14 (.resumeScan 0)

/-- What the membership table has held once the change is persisted. -/
def revokedContents : List (List SharedTableRow) :=
  [[teamMember (.ofNat 1) false 1 "alice" "red",
      teamMember (.ofNat 2) false 2 "alice" "blue",
      teamMember (.ofNat 3) true 1 "alice" "red"],
    [teamMember (.ofNat 1) false 1 "alice" "red",
      teamMember (.ofNat 2) false 2 "alice" "blue"]]

/-- A delete in a batch: the row is removed without a guard, after a subscription has cached the
membership. -/
def unguardedDelete : List Event :=
  .subscribe alicePolicies :: List.replicate 10 (.resumeSubscription 0) ++
    [.worker 0 (.writeUnguarded teamMembersTable.tableId
      [teamMember (.ofNat 3) true 1 "alice" "red"])]

/-- Once the revocation is all that the table has held, no red document is authorized. -/
theorem not_authorized_red {s s' : Shared}
    (hbefore : s.contents teamMembersTable.tableId = revokedContents)
    (hafter : s'.contents teamMembersTable.tableId = revokedContents) :
    ¬ Authorized teamCatalog documentsTable alicePolicies none (document 1 "red") s s' := by
  rintro (hbypass | ⟨p, hp, expr, hexpr, -⟩ | ⟨p, hp, relation, table, versions, hprogram,
    htable, hpresent, hrow⟩)
  · exact absurd hbypass (by decide)
  · rw [mem_singleton.mp hp] at hexpr
    exact absurd hexpr nofun
  · rw [mem_singleton.mp hp] at hprogram
    obtain rfl := PolicyProgram.authorizationRelation.inj hprogram
    obtain rfl : teamMembersTable = table := some.inj htable
    obtain ⟨older, hlater, hearlier⟩ := hpresent
    have hlater := (hafter.trans hbefore.symm) ▸ hlater
    have heq := hlater.eq_of_length (le_antisymm hlater.length_le hearlier.length_le)
    rw [(cons.inj heq).1.trans (cons.inj hbefore).1] at hrow
    exact absurd hrow (by decide)

/-- A scan after the events returns the red document, which no membership of its time authorizes. -/
def ReturnsRevoked (events : List Event) : Prop :=
  ∃ w₁ w₂, run (World.step teamCatalog documentsTable) teamWorld events = some w₁ ∧
    run (World.step teamCatalog documentsTable) w₁ scanDocuments = some w₂ ∧
    w₂.scanResult w₁.scans.length = some [document 1 "red", document 2 "blue"] ∧
    ¬ Authorized teamCatalog documentsTable alicePolicies none (document 1 "red")
      w₁.shared w₂.shared

theorem returnsRevoked_of_run {events : List Event}
    (h : (run (step teamCatalog documentsTable) teamWorld events).map (fun w₁ =>
        (w₁.scans.length, w₁.shared.contents teamMembersTable.tableId,
          (run (step teamCatalog documentsTable) w₁ scanDocuments).map fun w₂ =>
            (w₂.scanResult 0, w₂.shared.contents teamMembersTable.tableId))) =
      some (0, revokedContents, some (some [document 1 "red", document 2 "blue"],
        revokedContents))) : ReturnsRevoked events := by
  obtain ⟨w₁, hw₁, hfacts⟩ := map_eq_some_iff.mp h
  simp only [Prod.mk.injEq, map_eq_some_iff] at hfacts
  obtain ⟨hlength, hcontents, w₂, hw₂, hresult, hcontents₂⟩ := hfacts
  exact ⟨w₁, w₂, hw₁, hw₂, by rw [hlength, hresult], not_authorized_red hcontents hcontents₂⟩

/-- **A revoked membership that is used again.** The guard of the coalesced apply has ended,
its batch is not yet persisted; a subscription loads the old membership and caches it under
the final generation. The batch is persisted, and a scan that starts afterwards finds the
cached set and returns the red document, although the membership has held no red team since
before the scan started. A delete without a guard leaves the cached set in use as well. -/
theorem scan_authorized_by_revoked_membership :
    ReturnsRevoked staleSubscription ∧ ReturnsRevoked unguardedDelete :=
  ⟨returnsRevoked_of_run (by rfl), returnsRevoked_of_run (by rfl)⟩

/-- The same revocation with its batch persisted before anything is read: the scan returns the
blue document alone. -/
theorem scan_authorized_after_revocation :
    ∃ w₁ w₂,
      run (World.step teamCatalog documentsTable) teamWorld
        (leaveRed ++ [.worker 0 .persistBatch]) = some w₁ ∧
      run (World.step teamCatalog documentsTable) w₁ scanDocuments = some w₂ ∧
      w₂.scanResult w₁.scans.length = some [document 2 "blue"] ∧
      Authorized teamCatalog documentsTable alicePolicies none (document 2 "blue")
        w₁.shared w₂.shared := by
  obtain ⟨w₁, hw₁, hfacts⟩ :
      ∃ w₁, run (step teamCatalog documentsTable) teamWorld
          (leaveRed ++ [.worker 0 .persistBatch]) = some w₁ ∧
        (w₁.scans.length, (run (step teamCatalog documentsTable) w₁ scanDocuments).map
          (scanResult · 0)) = (0, some (some [document 2 "blue"])) :=
    map_eq_some_iff.mp (by rfl)
  simp only [Prod.mk.injEq, map_eq_some_iff] at hfacts
  obtain ⟨hlength, w₂, hw₂, hresult⟩ := hfacts
  have hscan : w₂.scanResult w₁.scans.length = some [document 2 "blue"] := by
    rw [hlength, hresult]
  refine ⟨w₁, w₂, hw₁, hw₂, hscan, ?_⟩
  have hauth := authorized_by_present_membership teamCatalog documentsTable teamPrograms _ 1
    _ _ _ w₁ w₂ (by decide +kernel) hw₁ hw₂
  exact hauth.1 _ _ _ _ _ rfl hscan _ (mem_singleton_self _)

end KalamDB.Rls
