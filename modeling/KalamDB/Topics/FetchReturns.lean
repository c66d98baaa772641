import KalamDB.Topics.GroupDelivery

/-!
# Fetches that do not return

The log of a partition may have gaps: a write that fails has used up its offset, and retention may
delete messages in any order. A fetch reads the *next messages* from the start of its window, but
keeps only those *inside* the window. If the window lies in a gap, nothing is kept, and the fetch
tries again with the same cursor and the same claims: **it spins forever**, with the fetch lock held
that an ack would need (`fetch_spins_in_gap`).

A fetch returns exactly if its window is not in a gap. Then it returns a message whenever one is
stored that was neither acked nor claimed, unless all such messages lie before the start of the
group (`fetch_returns_iff`).
-/

namespace KalamDB.Topics

open Runs

namespace Group

variable {encodedLen : TopicMessage → ℕ} {timeout limit startOffset : ℕ} {g g' : Group} {o : ℕ}

/-- A slot is free for a claim, when stale and acked claims are dropped. -/
def SlotFree (timeout : ℕ) (g : Group) : Prop :=
  ∀ c, g.claims = some c →
    (c.settle g.now timeout g.durableLastAcked).pending.length < maxPendingClaims

/-- A message that was neither acked nor claimed. -/
def Owed (timeout : ℕ) (g : Group) (m : TopicMessage) : Prop :=
  m ∈ g.partition.store.messages.entries ∧ ¬g.Acked m.offset ∧ ¬g.LiveClaim timeout m.offset

/-- The messages that are read from the start of the window on. -/
def reads (timeout : ℕ) (g : Group) (startOffset limit : ℕ) : List TopicMessage :=
  g.partition.loadMessages ((g.settledOn timeout startOffset limit).nextAvailableWindow limit).1
    (g.available limit (g.settledOn timeout startOffset limit))

theorem SlotFree.settledOn (h : g.SlotFree timeout) (startOffset limit : ℕ) :
    (g.settledOn timeout startOffset limit).pending.length < maxPendingClaims := by
  rw [Group.settledOn, pending_catchUp, Group.settledClaims]
  cases hclaims : g.claims with
  | none =>
    have hnil : ((none : Option ClaimState).getD
        (.new (g.groupFetchStart startOffset)) |>.settle g.now timeout
          g.durableLastAcked).pending = [] := by
      cases g.durableLastAcked <;> rfl
    rw [hnil]
    decide
  | some c => exact h c hclaims

/-- What is claimed after settling was in a live claim before. -/
theorem Sound.liveClaim_of_settledOn (h : g.Sound)
    (hclaimed : (g.settledOn timeout startOffset limit).Claimed o) : g.LiveClaim timeout o := by
  obtain ⟨claim', hmem, hcovers⟩ := hclaimed
  rw [settledOn, pending_catchUp] at hmem
  cases hclaims : g.claims with
  | none =>
    rw [hclaims] at hmem
    obtain ⟨claim, hclaim, -⟩ := (ClaimState.sound_new _).mem_settle hmem
    cases hclaim
  | some c =>
    rw [hclaims] at hmem
    obtain ⟨claim, hclaim, hlive, hpart⟩ := (h.claims c hclaims).1.mem_settle hmem
    exact ⟨c, hclaims, claim, hclaim, hlive, hpart o hcovers⟩

/-- A live claim is not before the start of the group. -/
theorem Sound.startOf_le_of_liveClaim (h : g.Sound) (hlive : g.LiveClaim timeout o) :
    g.startOf startOffset ≤ o := by
  obtain ⟨c, hclaims, claim, hmem, -, hcovers⟩ := hlive
  have hstart : g.startOf startOffset = g.startedAt := by
    simp [startOf, hclaims]
  rw [hstart]
  exact ((h.claims c hclaims).2.2.starts_ge claim hmem).trans hcovers.1

/-- **A fetch returns** exactly if its window is not in a gap, and it returns a message whenever one
is owed and a slot is free, exactly if something is read for the window or everything before the
start of the group was acked. -/
theorem fetch_returns_iff {es : List GroupEvent} (hpartition : g.partition.Sound)
    (hnew : g.claims = none) (hrun : run (step encodedLen timeout) g es = some g')
    (hlimit : 0 < limit) :
    ((∃ rounds r, g'.fetchMessagesForGroup timeout startOffset limit rounds = some r) ∧
      ((∃ m, g'.Owed timeout m) → g'.SlotFree timeout → ∀ rounds messages g'',
        g'.fetchMessagesForGroup timeout startOffset limit rounds = some (messages, g'') →
          messages ≠ [])) ↔
    ¬g'.InGap limit (g'.settledOn timeout startOffset limit) ∧
      (g'.SlotFree timeout → g'.reads timeout startOffset limit ≠ [] ∨
        ∀ m ∈ g'.partition.store.messages.entries, m.offset < g'.startOf startOffset →
          g'.Acked m.offset) := by
  have hsound : g'.Sound := by
    refine run_preserves Sound (fun _ _ _ h hstep => h.step hstep) ⟨hpartition, ?_⟩ hrun
    rw [hnew]
    exact nofun
  constructor
  · rintro ⟨⟨rounds, ⟨messages, g''⟩, hfetch⟩, howed⟩
    have hgap : ¬g'.InGap limit (g'.settledOn timeout startOffset limit) := by
      intro hgap
      rw [hsound.fetch_eq_none hlimit hgap] at hfetch
      cases hfetch
    refine ⟨hgap, fun hfree => or_iff_not_imp_left.mpr fun hreads m hm hbefore => ?_⟩
    obtain ⟨claims', houtcome, -⟩ := hsound.fetch_eq hlimit hfetch
    -- Nothing is read, so nothing is returned, and the message cannot be owed.
    by_contra hacked
    have howed' : g'.Owed timeout m := by
      refine ⟨hm, hacked, fun hlive => ?_⟩
      exact not_lt.mpr (hsound.startOf_le_of_liveClaim hlive) hbefore
    have hne := howed ⟨m, howed'⟩ hfree rounds messages g'' hfetch
    cases houtcome with
    | full hfull => exact not_lt.mpr hfull (hfree.settledOn startOffset limit)
    | tail => exact hne rfl
    | hit _ _ hload => exact hreads hload
  · rintro ⟨hgap, hskipped⟩
    obtain ⟨messages, claims', houtcome, hreturns, honly⟩ := hsound.fetch_returns hlimit hgap
    refine ⟨⟨2, _, hreturns 0⟩, ?_⟩
    rintro ⟨m, hm, hacked, hlive⟩ hfree rounds messages' g'' hfetch hnil
    obtain ⟨rfl, rfl⟩ := Prod.mk.inj (honly rounds _ hfetch)
    subst hnil
    cases houtcome with
    | full hfull => exact not_lt.mpr hfull (hfree.settledOn startOffset limit)
    | hit _ _ _ _ hne => exact hne rfl
    | tail hslot _ htail hload =>
      have hbefore := (hskipped hfree).resolve_left fun hreads => hreads hload
      by_cases hstart : m.offset < g'.startOf startOffset
      · exact hacked (hbefore m hm hstart)
      rcases hsound.covered_before_window hlimit hslot htail m hm (not_lt.mp hstart) with
        hdone | hclaimed
      · exact hacked hdone
      · exact hlive (hsound.liveClaim_of_settledOn hclaimed)

/-! ### Two runs -/

/-- A row for a publish. -/
def someRow : PublishRow := ⟨[0], none⟩

/-- Five offsets are used up by a batch that could not be written, and the message before them is
handed out. -/
def gapRun : List GroupEvent :=
  [.publish ⟨1, none, .insert⟩ [someRow] true,
    .publish ⟨2, none, .insert⟩ [someRow, someRow, someRow, someRow, someRow] false,
    .publish ⟨3, none, .insert⟩ [someRow] true,
    .fetch 0 3 2]

/-- The next fetch never returns, although the message after the gap is still to be delivered. -/
theorem fetch_spins_in_gap :
    ∃ g, run (step TopicMessage.payloadLen 10) newGroup gapRun = some g ∧
      (∃ m, m.offset = 6 ∧ g.Owed 10 m) ∧
      ∀ rounds, g.fetchMessagesForGroup 10 0 3 rounds = none := by
  obtain ⟨g, hrun, hgap, m, hoffset, howed⟩ :
      ∃ g, run (step TopicMessage.payloadLen 10) newGroup gapRun = some g ∧
        g.InGap 3 (g.settledOn 10 0 3) ∧ ∃ m, m.offset = 6 ∧ g.Owed 10 m := by
    refine ⟨_, rfl, by decide, ⟨6, [0], none, 3, none, .insert⟩, rfl, by decide, nofun, ?_⟩
    rintro ⟨c, hc, claim, hmem, -, hcovers⟩
    cases hc
    obtain rfl := List.mem_singleton.mp hmem
    exact absurd hcovers.2 (by decide)
  have hsound : g.Sound :=
    run_preserves Sound (fun _ _ _ h hstep => h.step hstep)
      ⟨Partition.sound_restart (.fresh .empty), fun c hc => by cases hc⟩ hrun
  exact ⟨g, hrun, ⟨m, hoffset, howed⟩, hsound.fetch_eq_none (by decide) hgap⟩

/-- The window of a larger request reaches over the gap. -/
theorem fetch_reaches_over_gap :
    ∃ g, run (step TopicMessage.payloadLen 10) newGroup gapRun = some g ∧
      (∃ rounds r, g.fetchMessagesForGroup 10 0 10 rounds = some r) ∧
      ((∃ m, g.Owed 10 m) → g.SlotFree 10 → ∀ rounds messages g'',
        g.fetchMessagesForGroup 10 0 10 rounds = some (messages, g'') → messages ≠ []) := by
  obtain ⟨g, hrun, hgap, hreads⟩ :
      ∃ g, run (step TopicMessage.payloadLen 10) newGroup gapRun = some g ∧
        ¬g.InGap 10 (g.settledOn 10 0 10) ∧ g.reads 10 0 10 ≠ [] :=
    ⟨_, rfl, by decide, by decide⟩
  exact ⟨g, hrun, (fetch_returns_iff (Partition.sound_restart (.fresh .empty)) rfl hrun
    (by decide)).mpr ⟨hgap, fun _ => .inl hreads⟩⟩

end Group

end KalamDB.Topics
