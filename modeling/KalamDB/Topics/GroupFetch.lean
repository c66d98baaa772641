import KalamDB.Topics.ClaimCoverage
import KalamDB.Topics.PartitionLog

/-!
# Group fetches

A fetch of a consumer group settles the claims, reserves the next window up to the **high
watermark** of the log, reads the log from the start of the window, and claims what it has read
*inside* the window. The fetch lock of the group is held all the time, so the claims are those of
this call alone. If there is nothing to claim, the reservation is cancelled and the fetch tries
again.

A round from settled claims has one of five outcomes (`attempt_outcome`). It also tries again when
the cursor is before the log, which moves the cursor to its beginning. This happens at most once, so
a fetch does what a single round does from the claims it settles on (`fetchLoop_eq`).
-/

namespace KalamDB.Topics

open List ClaimState

/-- A consumer group on a partition. -/
structure Group where
  partition : Partition
  /-- The highest offset that the group has acked, in the store. -/
  durableLastAcked : Option ℕ
  /-- The claims of the group, in memory. -/
  claims : Option ClaimState
  /-- The offset at which the claims were started. The code does not keep it. -/
  startedAt : ℕ
  now : ℕ

/-- How a round of the loop ends. -/
inductive Round where
  | returned (messages : List TopicMessage) (claims : Option ClaimState)
  | again (claims : ClaimState)

variable (timeout : ℕ) (g : Group)

namespace Group

variable {messages : List TopicMessage} {lo hi : ℕ}

/-- A durable ack goes before the requested offset. -/
def groupFetchStart (startOffset : ℕ) : ℕ :=
  match g.durableLastAcked with
  | some lastAcked => lastAcked + 1
  | none => startOffset

/-- At the end of the log, the cursor is pinned, or claims without content are dropped. -/
def pinOrDrop (pinTail : Bool) (cursor : ℕ) (c : ClaimState) : Option ClaimState :=
  if pinTail then some { c with cursor } else if c.pending.isEmpty then none else some c

/-- The messages in a range of offsets. -/
def inRange (lo hi : ℕ) (messages : List TopicMessage) : List TopicMessage :=
  messages.filter fun m => decide (lo ≤ m.offset ∧ m.offset < hi)

/-- Messages that were read are claimed, unless they were acked or claimed meanwhile. -/
def claimMessages (reservationId fetchStart : ℕ) (messages : List TopicMessage)
    (state : ClaimState) : Round :=
  let state := state.expireStaleClaims g.now timeout
  let deliverFrom := state.deliverFrom g.durableLastAcked
  let messages := messages.filter fun m =>
    decide (deliverFrom ≤ m.offset) && !state.pending.any fun claim =>
      decide (claim.reservationId ≠ reservationId ∧ claim.Covers m.offset)
  if messages.isEmpty then .again (state.cancelReservation reservationId)
  else
    let claimStart := (messages.map TopicMessage.offset).min?.getD fetchStart
    let endExclusive := (messages.map fun m => m.offset + 1).max?.getD fetchStart
    if state.hasReservation reservationId then
      .returned messages
        (some (state.finalizeReservation reservationId claimStart endExclusive g.now))
    else if state.overlapsPending claimStart endExclusive then .again state
    else .returned messages (some (state.registerDeliveredClaim claimStart endExclusive g.now))

/-- What follows the reservation of a window. -/
def deliver (earliest reservationId fetchStart fetchLimit : ℕ) (state : ClaimState) : Round :=
  let messages := g.partition.loadMessages fetchStart fetchLimit
  if messages.isEmpty then
    let highWatermark := g.partition.logHighWatermark earliest
    let pinTail := decide (highWatermark ≤ fetchStart ∧ earliest < fetchStart)
    .returned [] (pinOrDrop pinTail fetchStart (state.cancelReservation reservationId))
  else
    let reservedEnd := fetchStart + fetchLimit
    let windowStart := max fetchStart (state.deliverFrom g.durableLastAcked)
    let messages := inRange windowStart reservedEnd messages
    if messages.isEmpty then .again (state.cancelReservation reservationId)
    else g.claimMessages timeout reservationId fetchStart messages state

/-- A round from settled claims. -/
def attempt (limit : ℕ) (state : ClaimState) : Round :=
  let earliest := g.partition.earliestAvailableOffset
  let (currentStart, windowLimit) := state.nextAvailableWindow limit
  if windowLimit = 0 then .returned [] (some state)
  else if currentStart < earliest then .again { state with cursor := earliest }
  else
    let highWatermark := g.partition.logHighWatermark earliest
    let availableLimit := min windowLimit (highWatermark - currentStart)
    if availableLimit = 0 then
      .returned [] (pinOrDrop (decide (earliest < currentStart)) currentStart state)
    else
      let (reservationId, state) := state.reserveWindow currentStart availableLimit g.now
      g.deliver timeout earliest reservationId currentStart availableLimit state

/-- The claims with which a round begins. -/
def settledClaims (startOffset : ℕ) (claims : Option ClaimState) :
    ClaimState :=
  (claims.getD (.new (g.groupFetchStart startOffset))).settle g.now timeout g.durableLastAcked

/-- The retry loop. It has no result if it does not return within the given rounds. -/
def fetchLoop (timeout : ℕ) (g : Group) (startOffset limit : ℕ) :
    ℕ → Option ClaimState → Option (List TopicMessage × Option ClaimState)
  | 0, _ => none
  | rounds + 1, claims =>
    match g.attempt timeout limit (g.settledClaims timeout startOffset claims) with
    | .returned messages claims => some (messages, claims)
    | .again claims => fetchLoop timeout g startOffset limit rounds (some claims)

/-- A fetch of a group. The store is read after the window is claimed; when such a read fails, the
fetch returns an error and the claim stays in flight until it expires. Those returns are left
out. -/
def fetchMessagesForGroup (startOffset limit rounds : ℕ) :
    Option (List TopicMessage × Group) :=
  if limit = 0 then some ([], g)
  else
    (g.fetchLoop timeout startOffset limit rounds g.claims).map fun (messages, claims) =>
      (messages,
        { g with
          claims
          startedAt := if g.claims.isNone then g.groupFetchStart startOffset else g.startedAt })

/-- An ack is stored, and applied to the claims. A lower ack than before changes nothing. -/
def ackOffset (offset : ℕ) : Group :=
  { g with
    durableLastAcked := some (max (g.durableLastAcked.getD 0) offset)
    claims := some ((g.claims.getD (.new (offset + 1))).ackUpTo offset)
    startedAt := if g.claims.isNone then offset + 1 else g.startedAt }

/-! ### One round -/

variable {timeout limit start size : ℕ} {g : Group} {c : ClaimState}

theorem mem_inRange {m : TopicMessage} :
    m ∈ inRange lo hi messages ↔ m ∈ messages ∧ lo ≤ m.offset ∧ m.offset < hi := by
  simp [inRange]

variable (timeout g c) in
/-- Claims from which a round begins. -/
structure Ready : Prop where
  sound : c.Sound
  settled : c.Settled g.now timeout g.durableLastAcked

/-- The claim of some messages: from the first of them to the last. -/
def claimOf (fetchStart now : ℕ) (messages : List TopicMessage) (c : ClaimState) : ClaimState :=
  c.registerDeliveredClaim ((messages.map TopicMessage.offset).min?.getD fetchStart)
    ((messages.map fun m => m.offset + 1).max?.getD fetchStart) now

section

variable (hready : Ready timeout g c) (hwindow : c.IsWindow start size)
include hready hwindow

/-- **Messages of the window are claimed**, all of them. -/
theorem claimMessages_eq
    (hne : messages ≠ []) (hrange : ∀ m ∈ messages, start ≤ m.offset ∧ m.offset < start + size) :
    g.claimMessages timeout c.nextReservationId start messages
        (c.reserveWindow start size g.now).2 =
      .returned messages (some (claimOf start g.now messages c)) := by
  have hfrom : c.deliverFrom g.durableLastAcked ≤ start :=
    hready.settled.deliverFrom_le hwindow.cursor_le
  have hexpire : (c.reserveWindow start size g.now).2.expireStaleClaims g.now timeout =
      (c.reserveWindow start size g.now).2 :=
    expireStaleClaims_eq_self
      (forall_mem_append.mpr ⟨hready.settled.live, forall_mem_singleton.mpr rfl⟩)
  have hothers : messages.filter (fun m =>
      decide ((c.reserveWindow start size g.now).2.deliverFrom g.durableLastAcked ≤ m.offset) &&
        !(c.reserveWindow start size g.now).2.pending.any fun claim =>
          decide (claim.reservationId ≠ c.nextReservationId ∧ claim.Covers m.offset)) =
      messages := by
    refine filter_eq_self.mpr fun m hm => ?_
    obtain ⟨hle, hlt⟩ := hrange m hm
    rw [Bool.and_eq_true, decide_eq_true_eq, Bool.not_eq_true', any_eq_false]
    refine ⟨hfrom.trans hle, fun claim hmem hother => ?_⟩
    obtain ⟨hid, hcovers⟩ := of_decide_eq_true hother
    rcases mem_append.mp hmem with hmem | hmem
    · exact hwindow.not_claimed hle hlt ⟨claim, hmem, hcovers⟩
    · exact hid (congrArg PendingClaim.reservationId (mem_singleton.mp hmem))
  unfold claimMessages
  dsimp only
  rw [hexpire, hothers, if_neg fun hempty => hne (isEmpty_iff.mp hempty),
    if_pos (hasReservation_reserve c start size g.now), hready.sound.finalize_reserve]
  rfl

/-- **What is delivered** for a window that is disjoint from the claims: the messages that were read
inside it. -/
theorem deliver_eq (earliest : ℕ) :
    g.deliver timeout earliest c.nextReservationId start size (c.reserveWindow start size g.now).2 =
      if g.partition.loadMessages start size = [] then
        .returned [] (pinOrDrop
          (decide (g.partition.logHighWatermark earliest ≤ start ∧ earliest < start)) start
          { c with nextReservationId := c.nextReservationId + 1 })
      else if inRange start (start + size) (g.partition.loadMessages start size) = [] then
        .again { c with nextReservationId := c.nextReservationId + 1 }
      else
        .returned (inRange start (start + size) (g.partition.loadMessages start size))
          (some (claimOf start g.now
            (inRange start (start + size) (g.partition.loadMessages start size)) c)) := by
  have hfrom : (c.reserveWindow start size g.now).2.deliverFrom g.durableLastAcked ≤ start :=
    hready.settled.deliverFrom_le hwindow.cursor_le
  unfold deliver
  rw [max_eq_left hfrom, hready.sound.cancel_reserve]
  simp only [List.isEmpty_iff]
  split
  · rfl
  split
  · rfl
  · next hne =>
    exact claimMessages_eq hready hwindow hne fun m hm => (mem_inRange.mp hm).2

end

/-- The bounds of a claim. -/
theorem claimOf_eq (hne : messages ≠ []) (hrange : ∀ m ∈ messages, lo ≤ m.offset ∧ m.offset < hi)
    (fetchStart now : ℕ) (c : ClaimState) :
    ∃ first last, lo ≤ first ∧ first < last ∧ last ≤ hi ∧
      (∀ m ∈ messages, first ≤ m.offset ∧ m.offset < last) ∧
      claimOf fetchStart now messages c = c.registerDeliveredClaim first last now := by
  obtain ⟨first, hfirst⟩ := Option.isSome_iff_exists.mp
    (isSome_min?_of_ne_nil (mt (map_eq_nil_iff (f := TopicMessage.offset)).mp hne))
  obtain ⟨last, hlast⟩ := Option.isSome_iff_exists.mp
    (isSome_max?_of_ne_nil (mt (map_eq_nil_iff (f := fun m => m.offset + 1)).mp hne))
  obtain ⟨hfirst_mem, hfirst_le⟩ := min?_eq_some_iff.mp hfirst
  obtain ⟨hlast_mem, hlast_le⟩ := max?_eq_some_iff.mp hlast
  have hbounds : ∀ m ∈ messages, first ≤ m.offset ∧ m.offset < last := fun m hm =>
    ⟨hfirst_le _ (mem_map_of_mem hm), hlast_le _ (mem_map_of_mem hm)⟩
  obtain ⟨m, hm, rfl⟩ := mem_map.mp hfirst_mem
  obtain ⟨m', hm', rfl⟩ := mem_map.mp hlast_mem
  refine ⟨_, _, (hrange m hm).1, (hbounds m hm).2, (hrange m' hm').2, hbounds, ?_⟩
  rw [claimOf, hfirst, hlast]
  rfl

/-- How many offsets of the next window are below the high watermark. -/
def available (g : Group) (limit : ℕ) (c : ClaimState) : ℕ :=
  min (c.nextAvailableWindow limit).2
    (g.partition.logHighWatermark g.partition.earliestAvailableOffset -
      (c.nextAvailableWindow limit).1)

/-- The next window is in a gap of the log: something is read from its start on, but nothing inside
the window. -/
def InGap (g : Group) (limit : ℕ) (c : ClaimState) : Prop :=
  let start := (c.nextAvailableWindow limit).1
  let messages := g.partition.loadMessages start (g.available limit c)
  g.available limit c ≠ 0 ∧ messages ≠ [] ∧
    ∀ m ∈ messages, ¬(start ≤ m.offset ∧ m.offset < start + g.available limit c)

instance (g : Group) (limit : ℕ) (c : ClaimState) : Decidable (g.InGap limit c) :=
  inferInstanceAs (Decidable (_ ∧ _ ∧ _))

/-- Only a window with a free slot is in a gap. -/
theorem InGap.free (h : g.InGap limit c) : c.pending.length < maxPendingClaims := by
  refine not_le.mp fun hfull => h.1 ?_
  rw [available, nextAvailableWindow_full hfull]
  exact Nat.zero_min _

/-- The outcomes of a round from settled claims. -/
inductive Outcome (g : Group) (limit : ℕ) (c : ClaimState) : Round → Prop
  /-- No slot is free. -/
  | full (h : maxPendingClaims ≤ c.pending.length) : Outcome g limit c (.returned [] (some c))
  /-- The cursor is before the log. -/
  | before (hfree : c.pending.length < maxPendingClaims)
      (h : (c.nextAvailableWindow limit).1 < g.partition.earliestAvailableOffset) :
    Outcome g limit c (.again { c with cursor := g.partition.earliestAvailableOffset })
  /-- Nothing is stored from the window on. -/
  | tail (hfree : c.pending.length < maxPendingClaims)
      (hstart : g.partition.earliestAvailableOffset ≤ (c.nextAvailableWindow limit).1)
      (h : ∀ m ∈ g.partition.store.messages.entries, m.offset < (c.nextAvailableWindow limit).1)
      (hload : g.partition.loadMessages (c.nextAvailableWindow limit).1 (g.available limit c) = [])
      (pinTail : Bool) (n : ℕ) (hn : c.nextReservationId ≤ n) :
    Outcome g limit c (.returned []
      (pinOrDrop pinTail (c.nextAvailableWindow limit).1 { c with nextReservationId := n }))
  /-- The window is in a gap. -/
  | gap (hfree : c.pending.length < maxPendingClaims)
      (hstart : g.partition.earliestAvailableOffset ≤ (c.nextAvailableWindow limit).1)
      (h : g.InGap limit c) :
    Outcome g limit c (.again { c with nextReservationId := c.nextReservationId + 1 })
  /-- Messages of the window are claimed. -/
  | hit (hfree : c.pending.length < maxPendingClaims)
      (hstart : g.partition.earliestAvailableOffset ≤ (c.nextAvailableWindow limit).1)
      (hload : g.partition.loadMessages (c.nextAvailableWindow limit).1 (g.available limit c) ≠ [])
      (messages : List TopicMessage) (hne : messages ≠ []) (first last : ℕ)
      (hfirst : (c.nextAvailableWindow limit).1 ≤ first) (hlt : first < last)
      (hlast : last ≤ (c.nextAvailableWindow limit).1 + (c.nextAvailableWindow limit).2)
      (hrange : ∀ m ∈ messages, first ≤ m.offset ∧ m.offset < last) (hgap : ¬g.InGap limit c) :
    Outcome g limit c
      (.returned messages (some (c.registerDeliveredClaim first last g.now)))

/-- **A round from settled claims** has one of five outcomes. -/
theorem attempt_outcome (hpartition : g.partition.Sound) (hready : Ready timeout g c)
    (hlimit : 0 < limit) :
    Outcome g limit c (g.attempt timeout limit c) := by
  unfold attempt
  by_cases hfull : maxPendingClaims ≤ c.pending.length
  · rw [nextAvailableWindow_full hfull]
    exact .full hfull
  have hfree := not_le.mp hfull
  obtain ⟨hwindow, hpos⟩ := isWindow_nextAvailableWindow hfree hlimit
  dsimp only
  rw [if_neg hpos.ne']
  split
  · next hbefore => exact .before hfree hbefore
  rename_i hbefore
  have hstart := not_lt.mp hbefore
  change Outcome g limit c (if g.available limit c = 0 then _ else _)
  split
  · next hzero =>
    refine .tail hfree hstart (fun m hm => ?_) (hzero ▸ Partition.loadMessages_zero _ _) _ _ le_rfl
    have hlt := hpartition.offset_lt_highWatermark hm g.partition.earliestAvailableOffset
    unfold available at hzero
    omega
  · next hsome =>
    have hwindow' : c.IsWindow (c.nextAvailableWindow limit).1 (g.available limit c) :=
      hwindow.mono (min_le_left _ _)
    change Outcome g limit c (g.deliver timeout _ c.nextReservationId _ (g.available limit c)
      (c.reserveWindow _ (g.available limit c) g.now).2)
    rw [deliver_eq hready hwindow']
    split
    · next hnil =>
      refine .tail hfree hstart ?_ hnil _ _ (Nat.le_succ _)
      exact hpartition.offset_lt_of_load_eq_nil (Nat.pos_of_ne_zero hsome) hnil
    rename_i hload
    split
    · next hmiss =>
      refine .gap hfree hstart ⟨hsome, hload, fun m hm hin => ?_⟩
      exact ne_nil_of_mem (mem_inRange.mpr ⟨hm, hin⟩) hmiss
    rename_i hhit
    obtain ⟨first, last, hfirst, hlt, hlast, hrange, heq⟩ :=
      claimOf_eq hhit (fun m hm => (mem_inRange.mp hm).2) (c.nextAvailableWindow limit).1 g.now c
    rw [heq]
    refine .hit hfree hstart hload _ hhit first last hfirst hlt ?_ hrange fun hgap => ?_
    · exact hlast.trans (Nat.add_le_add_left (min_le_left _ _) _)
    · obtain ⟨m, hm⟩ := exists_mem_of_ne_nil _ hhit
      exact hgap.2.2 m (mem_inRange.mp hm).1 (mem_inRange.mp hm).2

/-- A window of a log without gaps is not in a gap. -/
theorem not_inGap (hpartition : g.partition.Sound) (hgapFree : g.partition.GapFree)
    (hstart : g.partition.earliestAvailableOffset ≤ (c.nextAvailableWindow limit).1) :
    ¬g.InGap limit c := by
  rintro ⟨hsome, -, hnone⟩
  have hle := hpartition.highWatermark_le g.partition.earliestAvailableOffset
  have hnext : (c.nextAvailableWindow limit).1 < g.partition.write.nextOffset.getD 0 := by
    unfold available at hsome
    omega
  obtain ⟨m, hm, hoffset⟩ := hgapFree.load hpartition (Nat.pos_of_ne_zero hsome) hstart hnext
  exact hnone m hm ⟨hoffset.ge, by omega⟩

/-! ### The loop -/

/-- The claims on which the loop settles: a cursor before the log is moved to its beginning. -/
def catchUp (g : Group) (limit : ℕ) (c : ClaimState) : ClaimState :=
  if c.pending.length < maxPendingClaims ∧
      (c.nextAvailableWindow limit).1 < g.partition.earliestAvailableOffset then
    { c with cursor := g.partition.earliestAvailableOffset }
  else c

theorem cursor_le_catchUp (hlimit : 0 < limit) : c.cursor ≤ (g.catchUp limit c).cursor := by
  unfold catchUp
  split
  · next h =>
    exact (isWindow_nextAvailableWindow h.1 hlimit).1.cursor_le.trans h.2.le
  · exact le_rfl

theorem pending_catchUp : (g.catchUp limit c).pending = c.pending := by
  unfold catchUp
  split <;> rfl

theorem Ready.catchUp (h : Ready timeout g c) (hlimit : 0 < limit) :
    Ready timeout g (g.catchUp limit c) := by
  have hle := cursor_le_catchUp (g := g) (c := c) hlimit
  unfold Group.catchUp at hle ⊢
  split
  · next hbefore =>
    rw [if_pos hbefore] at hle
    exact ⟨h.sound.of_pending _ _ le_rfl, h.settled.moveCursor hle _⟩
  · exact h

/-- From there on, the window is not before the log. -/
theorem earliest_le_catchUp (hlimit : 0 < limit)
    (hfree : (g.catchUp limit c).pending.length < maxPendingClaims) :
    g.partition.earliestAvailableOffset ≤ ((g.catchUp limit c).nextAvailableWindow limit).1 := by
  have hcursor := (isWindow_nextAvailableWindow hfree hlimit).1.cursor_le
  unfold catchUp at hfree hcursor ⊢
  split
  · next h =>
    rw [if_pos h] at hcursor
    exact hcursor
  rename_i h
  rw [if_neg h] at hfree
  exact not_lt.mp fun hlt => h ⟨hfree, hlt⟩

variable {startOffset : ℕ} {claims : Option ClaimState}

/-- Settled claims are those of the next round. -/
theorem settledClaims_some (hready : Ready timeout g c) :
    g.settledClaims timeout startOffset (some c) = c :=
  hready.settled.settle_eq hready.sound

theorem fetchLoop_settledClaims
    (hready : Ready timeout g (g.settledClaims timeout startOffset claims)) (rounds : ℕ) :
    g.fetchLoop timeout startOffset limit rounds claims =
      g.fetchLoop timeout startOffset limit rounds
        (some (g.settledClaims timeout startOffset claims)) := by
  cases rounds with
  | zero => rfl
  | succ rounds => rw [fetchLoop, fetchLoop, settledClaims_some hready]

section

variable (startOffset) (hpartition : g.partition.Sound) (hlimit : 0 < limit)
  (hready : Ready timeout g c)
include hpartition hlimit hready

/-- A window in a gap is tried forever. -/
theorem fetchLoop_gap
    (hstart : g.partition.earliestAvailableOffset ≤ (c.nextAvailableWindow limit).1)
    (hgap : g.InGap limit c) (rounds : ℕ) :
    g.fetchLoop timeout startOffset limit rounds (some c) = none := by
  induction rounds generalizing c with
  | zero => rfl
  | succ rounds ih =>
    rw [fetchLoop, settledClaims_some hready]
    have houtcome := attempt_outcome hpartition hready hlimit
    generalize g.attempt timeout limit c = round at houtcome ⊢
    cases houtcome with
    | full hfull => exact absurd hgap.free (not_lt.mpr hfull)
    | before _ hbefore => exact absurd hbefore (not_lt.mpr hstart)
    | tail _ _ _ hload => exact absurd hload hgap.2.1
    | hit _ _ _ _ _ _ _ _ _ _ _ hno => exact absurd hgap hno
    | gap =>
      exact ih ⟨hready.sound.of_pending _ _ (Nat.le_succ _), hready.settled.moveCursor le_rfl _⟩
        hstart hgap

/-- Catching up takes one round, if the cursor is before the log, or none. -/
theorem exists_fetchLoop_sub :
    ∃ d ≤ 1, ∀ rounds, g.fetchLoop timeout startOffset limit rounds (some c) =
      g.fetchLoop timeout startOffset limit (rounds - d) (some (g.catchUp limit c)) := by
  unfold catchUp
  split
  · next hbefore =>
    refine ⟨1, le_rfl, fun rounds => ?_⟩
    cases rounds with
    | zero => rfl
    | succ rounds =>
      rw [fetchLoop, settledClaims_some hready]
      have houtcome := attempt_outcome hpartition hready hlimit
      generalize g.attempt timeout limit c = round at houtcome ⊢
      cases houtcome with
      | full hfull => exact absurd hbefore.1 (not_lt.mpr hfull)
      | before => rfl
      | tail _ hstart | gap _ hstart | hit _ hstart => exact absurd hbefore.2 (not_lt.mpr hstart)
  · exact ⟨0, Nat.zero_le 1, fun _ => rfl⟩

/-- A round from caught-up claims that is not in a gap returns. -/
theorem attempt_catchUp (hgap : ¬g.InGap limit (g.catchUp limit c)) :
    ∃ messages claims', g.attempt timeout limit (g.catchUp limit c) = .returned messages claims' ∧
      Outcome g limit (g.catchUp limit c) (.returned messages claims') := by
  have houtcome := attempt_outcome hpartition (hready.catchUp hlimit) hlimit
  generalize g.attempt timeout limit (g.catchUp limit c) = round at houtcome ⊢
  cases round with
  | returned messages claims' => exact ⟨messages, claims', rfl, houtcome⟩
  | again claims' =>
    cases houtcome with
    | before hfree hbefore =>
      exact absurd hbefore (not_lt.mpr (earliest_le_catchUp hlimit hfree))
    | gap _ _ hin => exact absurd hin hgap

/-- **The loop does what one round does** from the claims on which it settles. -/
theorem fetchLoop_eq (hgap : ¬g.InGap limit (g.catchUp limit c)) :
    ∃ messages claims', Outcome g limit (g.catchUp limit c) (.returned messages claims') ∧
      ∀ rounds, g.fetchLoop timeout startOffset limit (rounds + 2) (some c) =
          some (messages, claims') ∧
        ∀ r, g.fetchLoop timeout startOffset limit rounds (some c) = some r →
          r = (messages, claims') := by
  obtain ⟨messages, claims', hattempt, houtcome⟩ := attempt_catchUp hpartition hlimit hready hgap
  have hreturned : ∀ rounds, g.fetchLoop timeout startOffset limit (rounds + 1)
      (some (g.catchUp limit c)) = some (messages, claims') := fun rounds => by
    rw [fetchLoop, settledClaims_some (hready.catchUp hlimit), hattempt]
  obtain ⟨d, hd, hrounds⟩ := exists_fetchLoop_sub startOffset hpartition hlimit hready
  refine ⟨messages, claims', houtcome, fun rounds => ⟨?_, fun r hr => ?_⟩⟩
  · rw [hrounds, show rounds + 2 - d = rounds + 1 - d + 1 by omega, hreturned]
  · rw [hrounds] at hr
    cases hleft : rounds - d with
    | zero =>
      rw [hleft] at hr
      cases hr
    | succ n =>
      rw [hleft, hreturned] at hr
      exact (Option.some.inj hr).symm

/-- **In a gap, the loop never returns.** -/
theorem fetchLoop_eq_none (hgap : g.InGap limit (g.catchUp limit c)) (rounds : ℕ) :
    g.fetchLoop timeout startOffset limit rounds (some c) = none := by
  obtain ⟨d, -, hrounds⟩ := exists_fetchLoop_sub startOffset hpartition hlimit hready
  rw [hrounds]
  exact fetchLoop_gap startOffset hpartition hlimit (hready.catchUp hlimit)
    (earliest_le_catchUp hlimit hgap.free) hgap _

end

end Group

end KalamDB.Topics
