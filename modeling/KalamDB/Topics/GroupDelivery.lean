import KalamDB.Lib.Runs
import KalamDB.Topics.GroupFetch

/-!
# Deliveries to a consumer group

A group neither gets a message twice nor misses one: its claims are disjoint, and what is before the
cursor is acked, claimed, or not in the log. So what a fetch returns is beyond the ack and outside
all live claims, and if it returns nothing with a slot free, everything that is stored from the
group's start on is acked or claimed by somebody. This needs a log without gaps, where a fetch
always returns (`group_delivery`).

The start of a group is where its claims were started: the offset of the first fetch, or the one
after an ack. The claims are dropped when there is nothing to claim, and the next fetch starts them
anew.
-/

namespace KalamDB.Topics

open Runs ClaimState KalamDB.Topics.Partition TopicMessage

inductive GroupEvent where
  | publish (context : PublishContext) (rows : List PublishRow) (writes : Bool)
  | enforceRetention (cutoff maxBytes : Option ℤ) (batchSize : ℕ)
  | fetch (startOffset limit rounds : ℕ)
  | ack (offset : ℕ)
  | advanceClock (elapsed : ℕ)

namespace Group

variable {partition : Partition} {start rounds : ℕ} {messages : List TopicMessage}
  {claims' : Option ClaimState} {e : GroupEvent}

/-- Complete calls, one after the other. A fetch that does not return within its rounds has no next
state. -/
def step (encodedLen : TopicMessage → ℕ) (timeout : ℕ) (g : Group) : GroupEvent → Option Group
  | .publish context rows writes =>
    some { g with partition := (g.partition.publishBatch encodedLen context rows writes).2 }
  | .enforceRetention cutoff maxBytes batchSize =>
    match g.partition.enforceRetention cutoff maxBytes batchSize with
    | .ok (_, partition) => some { g with partition }
    | .error _ => some g
  | .fetch startOffset limit rounds =>
    (g.fetchMessagesForGroup timeout startOffset limit rounds).map Prod.snd
  | .ack offset => some (g.ackOffset offset)
  | .advanceClock elapsed => some { g with now := g.now + elapsed }

/-! ### What the claims have to do with the log -/

/-- The group has acked the offset. -/
def Acked (g : Group) (o : ℕ) : Prop := ∃ acked, g.durableLastAcked = some acked ∧ o ≤ acked

/-- An offset that will not be handed out any more: acked, or given out before without being in the
log. -/
def Done (g : Group) (o : ℕ) : Prop :=
  g.Acked o ∨ o < g.partition.write.nextOffset.getD 0 ∧
    ∀ m ∈ g.partition.store.messages.entries, m.offset ≠ o

/-- The log is sound, and so are the claims, which track the group from where they were started. -/
structure Sound (g : Group) : Prop where
  partition : g.partition.Sound
  claims : ∀ c, g.claims = some c →
    c.Sound ∧ c.AckedDurably g.durableLastAcked ∧ c.Tracks g.startedAt g.Done

variable {encodedLen : TopicMessage → ℕ} {timeout limit startOffset : ℕ} {g g' : Group}
  {c : ClaimState}

theorem Sound.withPartition (h : g.Sound) (hsound : partition.Sound)
    (hdone : ∀ o, g.Done o → Done { g with partition } o) : Sound { g with partition } where
  partition := hsound
  claims c hc := by
    obtain ⟨hclaims, hacked, htracks⟩ := h.claims c hc
    exact ⟨hclaims, hacked, htracks.mono hdone⟩

theorem Sound.publish (h : g.Sound) (context : PublishContext) (rows : List PublishRow)
    (writes : Bool) :
    Sound { g with partition := (g.partition.publishBatch encodedLen context rows writes).2 } := by
  refine h.withPartition (h.partition.publish context rows writes) fun o hdone => ?_
  refine hdone.imp_right ?_
  rintro ⟨hlt, hnone⟩
  -- New messages come after every offset that was given out.
  rcases g.partition.publishBatch_cases encodedLen context rows writes with
    heq | ⟨-, heq⟩ | ⟨-, -, messages, rfl, heq⟩ <;> rw [heq]
  · exact ⟨hlt, hnone⟩
  · exact ⟨hlt.trans_le (Nat.le_add_right _ _), hnone⟩
  refine ⟨?_, fun m hm => ?_⟩
  · rw [(PartitionWriteState.addRetainedBytes_keeps _ _).1]
    exact hlt.trans_le (Nat.le_add_right _ _)
  · rcases OrderedStore.mem_of_mem_putAll hm with hm | hm
    · exact (hlt.trans_le (mem_messagesFrom_offset hm).1).ne'
    · exact hnone m hm

theorem Sound.enforceRetention (h : g.Sound) {cutoff maxBytes : Option ℤ} {batchSize : ℕ}
    {stats : TopicRetentionDeletionStats}
    (hok : g.partition.enforceRetention cutoff maxBytes batchSize = .ok (stats, partition)) :
    Sound { g with partition } := by
  refine h.withPartition (h.partition.enforceRetention hok) fun o hdone => ?_
  refine hdone.imp_right ?_
  rintro ⟨hlt, hnone⟩
  refine ⟨?_, fun m hm => hnone m ?_⟩
  · rw [enforceRetention_nextOffset hok]
    exact hlt
  · obtain ⟨p₁, ⟨hdeletes, -⟩, ⟨-, rfl⟩ | ⟨logStart, -, rfl⟩⟩ := enforceRetention_cases hok
    all_goals exact hdeletes.messages m hm

/-- Claims that a call starts, if there are none, track the group from there. -/
theorem Sound.claims_getD (h : g.Sound) (start : ℕ) :
    (g.claims.getD (.new start)).Sound ∧
      (g.claims.getD (.new start)).AckedDurably g.durableLastAcked ∧
      (g.claims.getD (.new start)).Tracks (if g.claims.isNone then start else g.startedAt)
        g.Done := by
  cases hclaims : g.claims with
  | none => exact ⟨sound_new _, nofun, tracks_new _ _⟩
  | some c => exact h.claims c hclaims

theorem Sound.ackOffset (h : g.Sound) (offset : ℕ) : (g.ackOffset offset).Sound := by
  have hacked : ∀ o ≤ offset, (g.ackOffset offset).Done o := fun o ho =>
    .inl ⟨_, rfl, ho.trans (le_max_right _ _)⟩
  have hdone : ∀ o, g.Done o → (g.ackOffset offset).Done o := by
    rintro o (⟨acked, hdurable, hle⟩ | hgone)
    · refine .inl ⟨_, rfl, hle.trans ?_⟩
      rw [hdurable]
      exact le_max_left _ _
    · exact .inr hgone
  obtain ⟨hsound, hdurably, htracks⟩ := h.claims_getD (offset + 1)
  refine ⟨h.partition, fun c hc => ?_⟩
  cases hc
  exact ⟨hsound.ackUpTo offset, hdurably.ackUpTo offset,
    (htracks.mono hdone).ackUpTo hsound hacked⟩

/-! ### Fetches -/

/-- Where the claims of a fetch were started. -/
def startOf (g : Group) (startOffset : ℕ) : ℕ :=
  if g.claims.isNone then g.groupFetchStart startOffset else g.startedAt

theorem Sound.settledClaims (h : g.Sound) (timeout startOffset : ℕ) :
    Ready timeout g (g.settledClaims timeout startOffset g.claims) ∧
      (g.settledClaims timeout startOffset g.claims).Tracks (g.startOf startOffset) g.Done := by
  have hacked : ∀ acked, g.durableLastAcked = some acked → ∀ o ≤ acked, g.Done o :=
    fun acked hdurable o ho => .inl ⟨acked, hdurable, ho⟩
  obtain ⟨hsound, hdurably, htracks⟩ := h.claims_getD (g.groupFetchStart startOffset)
  exact ⟨⟨hsound.settle, hsound.settled_settle hdurably⟩, htracks.settle hsound hacked⟩

theorem tracks_catchUp (hpartition : g.partition.Sound) (hlimit : 0 < limit)
    (htracks : c.Tracks start g.Done) : (g.catchUp limit c).Tracks start g.Done := by
  have hle := cursor_le_catchUp (g := g) (c := c) hlimit
  unfold catchUp at hle ⊢
  split
  · next h =>
    rw [if_pos h] at hle
    refine htracks.moveCursor hle (fun o _ hto => .inl (.inr ⟨?_, fun m hm heq => ?_⟩)) _
    · exact hto.trans_le (hpartition.earliest_getD_le hpartition.logStart_le)
    · exact (not_le.mpr (heq ▸ hto)) (earliest_le hm)
  · exact htracks

/-- The claims that a round leaves are sound, and track the group. -/
theorem Outcome.claims {c' : ClaimState} (h : Outcome g limit c (.returned messages claims'))
    (hlimit : 0 < limit) (hsound : c.Sound) (htracks : c.Tracks start g.Done)
    (hc' : claims' = some c') : c'.Sound ∧ c'.lastAcked = c.lastAcked ∧ c'.Tracks start g.Done := by
  cases h with
  | full =>
    cases hc'
    exact ⟨hsound, rfl, htracks⟩
  | tail hfree hstart _ _ pinTail n hn =>
    have hwindow := (isWindow_nextAvailableWindow hfree hlimit).1
    unfold pinOrDrop at hc'
    split at hc'
    · cases hc'
      refine ⟨hsound.of_pending _ _ hn, rfl, htracks.moveCursor hwindow.cursor_le ?_ _⟩
      exact fun o hfrom hto => .inr (hwindow.before o hfrom hto)
    split at hc'
    · cases hc'
    cases hc'
    refine ⟨hsound.of_pending _ _ hn, rfl, htracks.moveCursor le_rfl ?_ _⟩
    exact fun o hfrom hto => absurd hto (not_lt.mpr hfrom)
  | hit hfree hstart _ _ _ first last hfirst hlt hlast =>
    have hwindow := (isWindow_nextAvailableWindow hfree hlimit).1
    cases hc'
    refine ⟨hsound.registerDeliveredClaim hwindow hfirst hlt hlast g.now, ?_,
      htracks.registerDeliveredClaim (hwindow.cursor_le.trans hfirst) g.now⟩
    rw [registerDeliveredClaim, advanceCursorForContiguousClaim_eq]

/-- The claims on which a fetch settles. -/
def settledOn (timeout : ℕ) (g : Group) (startOffset limit : ℕ) : ClaimState :=
  g.catchUp limit (g.settledClaims timeout startOffset g.claims)

/-- The group after a fetch that leaves the given claims. -/
def fetched (g : Group) (startOffset : ℕ) (claims : Option ClaimState) : Group :=
  { g with claims, startedAt := g.startOf startOffset }

theorem fetchMessagesForGroup_eq (hlimit : 0 < limit) (rounds : ℕ) :
    g.fetchMessagesForGroup timeout startOffset limit rounds =
      (g.fetchLoop timeout startOffset limit rounds g.claims).map fun r =>
        (r.1, g.fetched startOffset r.2) :=
  if_neg hlimit.ne'

section

variable (h : g.Sound)
include h

/-- **A fetch that is not in a gap returns** what a round from the claims on which it settles
returns. -/
theorem Sound.fetch_returns (hlimit : 0 < limit)
    (hgap : ¬g.InGap limit (g.settledOn timeout startOffset limit)) :
    ∃ messages claims',
      Outcome g limit (g.settledOn timeout startOffset limit) (.returned messages claims') ∧
      (∀ rounds, g.fetchMessagesForGroup timeout startOffset limit (rounds + 2) =
        some (messages, g.fetched startOffset claims')) ∧
      ∀ rounds r, g.fetchMessagesForGroup timeout startOffset limit rounds = some r →
        r = (messages, g.fetched startOffset claims') := by
  have hready := (h.settledClaims timeout startOffset).1
  obtain ⟨messages, claims', houtcome, hloop⟩ :=
    fetchLoop_eq startOffset h.partition hlimit hready hgap
  refine ⟨messages, claims', houtcome, fun rounds => ?_, fun rounds r hr => ?_⟩
  · rw [fetchMessagesForGroup_eq hlimit, fetchLoop_settledClaims hready, (hloop rounds).1]
    rfl
  · rw [fetchMessagesForGroup_eq hlimit, fetchLoop_settledClaims hready] at hr
    obtain ⟨r', hr', rfl⟩ := Option.map_eq_some_iff.mp hr
    obtain rfl := (hloop rounds).2 r' hr'
    rfl

theorem Sound.fetch_eq_none (hlimit : 0 < limit)
    (hgap : g.InGap limit (g.settledOn timeout startOffset limit)) (rounds : ℕ) :
    g.fetchMessagesForGroup timeout startOffset limit rounds = none := by
  have hready := (h.settledClaims timeout startOffset).1
  rw [fetchMessagesForGroup_eq hlimit, fetchLoop_settledClaims hready,
    fetchLoop_eq_none startOffset h.partition hlimit hready hgap]
  rfl

/-- What a fetch has returned came from such a round. -/
theorem Sound.fetch_eq (hlimit : 0 < limit)
    (hfetch : g.fetchMessagesForGroup timeout startOffset limit rounds = some (messages, g')) :
    ∃ claims', Outcome g limit (g.settledOn timeout startOffset limit)
        (.returned messages claims') ∧ g' = g.fetched startOffset claims' := by
  by_cases hgap : g.InGap limit (g.settledOn timeout startOffset limit)
  · rw [h.fetch_eq_none hlimit hgap] at hfetch
    cases hfetch
  obtain ⟨messages', claims', houtcome, -, honly⟩ := h.fetch_returns hlimit hgap
  obtain ⟨rfl, rfl⟩ := Prod.mk.inj (honly rounds _ hfetch)
  exact ⟨claims', houtcome, rfl⟩

theorem Sound.fetch
    (hfetch : g.fetchMessagesForGroup timeout startOffset limit rounds = some (messages, g')) :
    g'.Sound := by
  by_cases hlimit : limit = 0
  · rw [fetchMessagesForGroup, if_pos hlimit] at hfetch
    cases hfetch
    exact h
  have hpos := Nat.pos_of_ne_zero hlimit
  obtain ⟨claims', houtcome, rfl⟩ := h.fetch_eq hpos hfetch
  obtain ⟨hready, htracks⟩ := h.settledClaims timeout startOffset
  refine ⟨h.partition, fun c' hc' => ?_⟩
  obtain ⟨hsound', hacked, htracks'⟩ := houtcome.claims hpos (hready.catchUp hpos).sound
    (tracks_catchUp h.partition hpos htracks) hc'
  refine ⟨hsound', fun a ha => ⟨a, ?_, le_rfl⟩, htracks'⟩
  exact (hready.catchUp hpos).settled.lastAcked.symm.trans (hacked.symm.trans ha)

theorem Sound.step (hstep : g.step encodedLen timeout e = some g') : g'.Sound := by
  cases e with
  | publish context rows writes =>
    cases hstep
    exact h.publish context rows writes
  | enforceRetention cutoff maxBytes batchSize =>
    unfold step at hstep
    dsimp only at hstep
    split at hstep
    · next hok =>
      cases hstep
      exact h.enforceRetention hok
    · cases hstep
      exact h
  | fetch startOffset limit rounds =>
    obtain ⟨⟨messages, g₁⟩, hfetch, rfl⟩ := Option.map_eq_some_iff.mp hstep
    exact h.fetch hfetch
  | ack offset =>
    cases hstep
    exact h.ackOffset offset
  | advanceClock elapsed =>
    cases hstep
    exact ⟨h.partition, h.claims⟩

/-! ### What is delivered -/

/-- A live claim of the group covers the offset. -/
def LiveClaim (timeout : ℕ) (g : Group) (o : ℕ) : Prop :=
  ∃ c, g.claims = some c ∧
    ∃ claim ∈ c.pending, claim.isStale g.now timeout = false ∧ claim.Covers o

/-- **Nothing is delivered twice**: what a fetch returns was not acked and is in no live claim. -/
theorem Sound.not_delivered_twice (hlimit : 0 < limit)
    (houtcome : Outcome g limit (g.settledOn timeout startOffset limit)
      (.returned messages claims')) :
    ∀ m ∈ messages, ¬g.Acked m.offset ∧ ¬g.LiveClaim timeout m.offset := by
  have hready := (h.settledClaims timeout startOffset).1
  have hsettledOn : (g.settledOn timeout startOffset limit).Settled g.now timeout
      g.durableLastAcked := (hready.catchUp hlimit).settled
  have hpending : (g.settledOn timeout startOffset limit).pending =
      (g.settledClaims timeout startOffset g.claims).pending := pending_catchUp
  intro m hm
  cases houtcome with
  | full | tail => cases hm
  | hit hfree _ _ _ _ first last hfirst _ hlast hrange =>
    have hwindow := (isWindow_nextAvailableWindow hfree hlimit).1
    obtain ⟨hfrom, hto⟩ := hrange m hm
    have hstart := hfirst.trans hfrom
    have hbeyond : ∀ acked, g.durableLastAcked = some acked → acked < m.offset := by
      intro acked hacked
      have habove := (hsettledOn.above acked hacked).1
      exact (habove.trans hwindow.cursor_le).trans hstart
    refine ⟨fun ⟨acked, hacked, hle⟩ => not_lt.mpr hle (hbeyond acked hacked), ?_⟩
    rintro ⟨c, hclaims, claim, hmem, hlive, hcovers⟩
    have hclaimed : (g.settledClaims timeout startOffset g.claims).Claimed m.offset := by
      rw [hclaims]
      exact (h.claims c hclaims).1.claimed_settle hmem hlive hcovers hbeyond
    refine hwindow.not_claimed hstart (hto.trans_le hlast) ?_
    obtain ⟨claim, hmem, hcovers⟩ := hclaimed
    exact ⟨claim, hpending ▸ hmem, hcovers⟩

/-- If nothing is stored from the window on, everything from the start of the group is acked or
claimed. -/
theorem Sound.covered_before_window (hlimit : 0 < limit)
    (hslot : (g.settledOn timeout startOffset limit).pending.length < maxPendingClaims)
    (htail : ∀ m ∈ g.partition.store.messages.entries,
      m.offset < ((g.settledOn timeout startOffset limit).nextAvailableWindow limit).1) :
    ∀ m ∈ g.partition.store.messages.entries, g.startOf startOffset ≤ m.offset →
      g.Acked m.offset ∨ (g.settledOn timeout startOffset limit).Claimed m.offset := by
  have htracks := (h.settledClaims timeout startOffset).2
  have hwindow := (isWindow_nextAvailableWindow hslot hlimit).1
  intro m hm hstart
  by_cases hcursor : m.offset < (g.settledOn timeout startOffset limit).cursor
  · have hcovered := (tracks_catchUp h.partition hlimit htracks).covered m.offset hstart hcursor
    rcases hcovered with (hacked | ⟨-, hgone⟩) | hclaimed
    · exact .inl hacked
    · exact absurd rfl (hgone m hm)
    · exact .inr hclaimed
  · exact .inr (hwindow.before m.offset (not_lt.mp hcursor) (htail m hm))

/-- **Nothing is left behind** when nothing is returned although a slot is free: what is stored from
the start of the group on is acked or in a live claim. -/
theorem Sound.nothing_left (hlimit : 0 < limit)
    (houtcome : Outcome g limit (g.settledOn timeout startOffset limit) (.returned [] claims'))
    (hfree : ∀ c, claims' = some c → c.pending.length < maxPendingClaims) :
    ∀ m ∈ g.partition.store.messages.entries, g.startOf startOffset ≤ m.offset →
      g.Acked m.offset ∨ (g.fetched startOffset claims').LiveClaim timeout m.offset := by
  have hlive := ((h.settledClaims timeout startOffset).1.catchUp hlimit).settled.live
  intro m hm hstart
  cases houtcome with
  | full hfull => exact absurd (hfree _ rfl) (not_lt.mpr hfull)
  | hit _ _ _ _ hne => exact absurd rfl hne
  | tail hslot _ htail _ pinTail n _ =>
    refine (h.covered_before_window hlimit hslot htail m hm hstart).imp_right ?_
    rintro ⟨claim, hmem, hcovers⟩
    -- The claims are kept, since one of them covers the message.
    have hkept : ∃ c', pinOrDrop pinTail
        ((g.settledOn timeout startOffset limit).nextAvailableWindow limit).1
          { g.settledOn timeout startOffset limit with nextReservationId := n } = some c' ∧
        c'.pending = (g.settledOn timeout startOffset limit).pending := by
      unfold pinOrDrop
      split
      · exact ⟨_, rfl, rfl⟩
      · rw [if_neg fun hempty => List.ne_nil_of_mem hmem (List.isEmpty_iff.mp hempty)]
        exact ⟨_, rfl, rfl⟩
    obtain ⟨c', hc', hpending⟩ := hkept
    exact ⟨c', hc', claim, hpending ▸ hmem, hlive claim hmem, hcovers⟩

/-- A complete call that makes no gap in the log. -/
def KeepsLog : GroupEvent → Prop
  | .publish _ _ writes => writes = true
  | .enforceRetention _ _ _ => False
  | _ => True

theorem GapFree.step (hgapFree : g.partition.GapFree) (hkeeps : KeepsLog e)
    (hstep : g.step encodedLen timeout e = some g') : g'.partition.GapFree := by
  cases e with
  | publish context rows writes =>
    cases hstep
    obtain rfl : writes = true := hkeeps
    exact hgapFree.publish h.partition context rows
  | enforceRetention => exact hkeeps.elim
  | fetch startOffset limit rounds =>
    obtain ⟨⟨messages, g₁⟩, hfetch, rfl⟩ := Option.map_eq_some_iff.mp hstep
    by_cases hlimit : limit = 0
    · rw [fetchMessagesForGroup, if_pos hlimit] at hfetch
      cases hfetch
      exact hgapFree
    · obtain ⟨claims', -, rfl⟩ := h.fetch_eq (Nat.pos_of_ne_zero hlimit) hfetch
      exact hgapFree
  | ack | advanceClock =>
    cases hstep
    exact hgapFree

end

/-- **Deliveries to a group** whose log has no gaps. The pending claims are disjoint in every state
that is reached. From there, every fetch returns; what it returns was not acked and is in no live
claim; and if it returns nothing although a slot is free, everything that is stored from the start
of the group on is acked or in a live claim. Claims that a fetch on an empty log has dropped are
started anew by the next fetch, at the offset that this one asks for. -/
theorem group_delivery {es : List GroupEvent} (hpartition : g.partition.Sound)
    (hgapFree : g.partition.GapFree) (hnew : g.claims = none)
    (hkeeps : Meets (step encodedLen timeout) (fun _ e => KeepsLog e) g es)
    (hrun : run (step encodedLen timeout) g es = some g') :
    (∀ c, g'.claims = some c → c.pending.Pairwise fun a b =>
      a.endExclusive ≤ b.start ∨ b.endExclusive ≤ a.start) ∧
    ∀ startOffset limit, 0 < limit → ∃ messages g'',
      (∀ rounds, 2 ≤ rounds →
        g'.fetchMessagesForGroup timeout startOffset limit rounds = some (messages, g'')) ∧
      (∀ m ∈ messages, ¬g'.Acked m.offset ∧ ¬g'.LiveClaim timeout m.offset) ∧
      (messages = [] → (∀ c, g''.claims = some c → c.pending.length < maxPendingClaims) →
        ∀ m ∈ g''.partition.store.messages.entries, g''.startedAt ≤ m.offset →
          g''.Acked m.offset ∨ g''.LiveClaim timeout m.offset) := by
  obtain ⟨hsound, hgapFree⟩ : g'.Sound ∧ g'.partition.GapFree := by
    refine run_invariant (fun g => g.Sound ∧ g.partition.GapFree) ?_ ⟨⟨hpartition, ?_⟩, hgapFree⟩
      hkeeps hrun
    · rintro g₁ e g₂ hkeeps ⟨hsound, hgapFree⟩ hstep
      exact ⟨hsound.step hstep, GapFree.step hsound hgapFree hkeeps hstep⟩
    · rw [hnew]
      exact nofun
  refine ⟨fun c hc => (hsound.claims c hc).1.disjoint, fun startOffset limit hlimit => ?_⟩
  have hgap : ¬g'.InGap limit (g'.settledOn timeout startOffset limit) := by
    intro hgap
    have hfree : (g'.settledOn timeout startOffset limit).pending.length < maxPendingClaims :=
      hgap.free
    exact not_inGap hsound.partition hgapFree (earliest_le_catchUp hlimit hfree) hgap
  obtain ⟨messages, claims', houtcome, hreturns, -⟩ := hsound.fetch_returns hlimit hgap
  refine ⟨messages, g'.fetched startOffset claims', fun rounds hrounds => ?_,
    hsound.not_delivered_twice hlimit houtcome, fun hnil hfree => ?_⟩
  · obtain ⟨n, rfl⟩ := Nat.exists_eq_add_of_le' hrounds
    exact hreturns n
  · subst hnil
    exact hsound.nothing_left hlimit houtcome hfree

/-! ### A run -/

/-- A new group on an empty log. -/
def newGroup : Group := ⟨.fresh .empty, none, none, 0, 0⟩

/-- Three messages are published, and a consumer that has got two of them crashes. -/
def crashRun : List GroupEvent :=
  [.publish ⟨1, none, .insert⟩ [⟨[1], none⟩, ⟨[2], none⟩, ⟨[3], none⟩] true, .fetch 0 2 2,
    .advanceClock 100]

/-- After the timeout, the next fetch gets them again. -/
theorem redelivered_after_crashRun :
    ∃ g', run (step TopicMessage.payloadLen 10) newGroup crashRun = some g' ∧
      ∃ messages g'', g'.fetchMessagesForGroup 10 0 5 2 = some (messages, g'') ∧
        messages.map TopicMessage.offset = [0, 1, 2] ∧
        ∀ m ∈ messages, ¬g'.Acked m.offset ∧ ¬g'.LiveClaim 10 m.offset := by
  obtain ⟨g', messages, g'', hrun, hfetch, hoffsets⟩ :
      ∃ g' messages g'', run (step payloadLen 10) newGroup crashRun = some g' ∧
        g'.fetchMessagesForGroup 10 0 5 2 = some (messages, g'') ∧
        messages.map offset = [0, 1, 2] := ⟨_, _, _, rfl, rfl, rfl⟩
  have hkeeps : Meets (step payloadLen 10) (fun _ e => KeepsLog e) newGroup crashRun :=
    ⟨rfl, fun _ _ => ⟨trivial, fun _ _ => ⟨trivial, fun _ _ => trivial⟩⟩⟩
  have hgapFree : newGroup.partition.GapFree := fun o _ hto => absurd hto (Nat.not_lt_zero o)
  obtain ⟨-, hdelivers⟩ := group_delivery (sound_restart (.fresh .empty)) hgapFree rfl hkeeps hrun
  obtain ⟨messages', g₁, hreturns, hnew, -⟩ := hdelivers 0 5 (by decide)
  obtain ⟨rfl, rfl⟩ := Prod.mk.inj (Option.some.inj ((hreturns 2 le_rfl).symm.trans hfetch))
  exact ⟨g', hrun, messages', g₁, hfetch, hoffsets, hnew⟩

end Group

end KalamDB.Topics
