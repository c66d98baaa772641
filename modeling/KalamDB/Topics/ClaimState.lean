import Mathlib.Data.List.Count
import Mathlib.Data.List.MinMax
import Mathlib.Order.MinMax
import Mathlib.Tactic.Common

/-!
# Claims of a consumer group

The consumers of a group share a **cursor** and a list of **pending claims**: ranges of offsets that
were handed out and are not acked yet. A claim that was not acked within the visibility timeout
expires, and the cursor goes back to its start. An ack drops or trims the claims it reaches.

The next window of offsets to hand out begins behind the claims that follow on the cursor
(`covered_of_lt_skip`, `not_covers_skip_of_le`) and ends before the next claim, so that it is
disjoint from all of them (`isWindow_nextAvailableWindow`).
-/

namespace KalamDB.Topics

open List

def maxPendingClaims : ℕ := 32

structure PendingClaim where
  reservationId : ℕ
  start : ℕ
  endExclusive : ℕ
  claimedAt : ℕ
  /-- The log is still being read for the claim. -/
  inFlight : Bool
  deriving DecidableEq

namespace PendingClaim

def Covers (claim : PendingClaim) (o : ℕ) : Prop := claim.start ≤ o ∧ o < claim.endExclusive

instance (claim : PendingClaim) (o : ℕ) : Decidable (claim.Covers o) :=
  inferInstanceAs (Decidable (_ ∧ _))

def isStale (now timeout : ℕ) (claim : PendingClaim) : Bool :=
  !claim.inFlight && decide (timeout < now - claim.claimedAt)

/-- What an ack leaves of a claim, where `next` is the offset after the acked one. -/
def trim (next : ℕ) (claim : PendingClaim) : Option PendingClaim :=
  if claim.inFlight then some claim
  else if claim.endExclusive ≤ next then none
  else if claim.start < next then some { claim with start := next }
  else some claim

end PendingClaim

structure ClaimState where
  cursor : ℕ
  pending : List PendingClaim
  nextReservationId : ℕ
  lastAcked : Option ℕ
  deriving DecidableEq

namespace ClaimState

variable {claim claim' : PendingClaim} {passes start size : ℕ}

def new (cursor : ℕ) : ClaimState := ⟨cursor, [], 1, none⟩

/-- Stale claims are dropped, and the cursor goes back to the first of them. -/
def expireStaleClaims (c : ClaimState) (now timeout : ℕ) : ClaimState :=
  let earliestExpired :=
    ((c.pending.filter (PendingClaim.isStale now timeout)).map PendingClaim.start).min?
  { c with
    pending := c.pending.filter fun claim => !claim.isStale now timeout
    cursor :=
      match earliestExpired with
      | some resetTo => if resetTo < c.cursor then resetTo else c.cursor
      | none => c.cursor }

def ackUpTo (c : ClaimState) (acked : ℕ) : ClaimState :=
  { c with
    lastAcked := some (match c.lastAcked with
      | some previous => max previous acked
      | none => acked)
    pending := c.pending.filterMap (PendingClaim.trim (acked + 1))
    cursor := if c.cursor < acked + 1 then acked + 1 else c.cursor }

def deliverFrom (c : ClaimState) (durableLastAcked : Option ℕ) : ℕ :=
  max ((c.lastAcked.map (· + 1)).getD 0) ((durableLastAcked.map (· + 1)).getD 0)

/-- The claim of a window is in flight at first. -/
def reserveWindow (c : ClaimState) (fetchStart availableLimit claimedAt : ℕ) : ℕ × ClaimState :=
  (c.nextReservationId,
    { c with
      nextReservationId := c.nextReservationId + 1
      pending := c.pending ++
        [⟨c.nextReservationId, fetchStart, fetchStart + availableLimit, claimedAt, true⟩] })

/-- The cursor only follows a claim that begins at it or before. -/
def advanceCursorForContiguousClaim (c : ClaimState) (claimStart endExclusive : ℕ) : ClaimState :=
  if claimStart ≤ c.cursor then { c with cursor := max c.cursor endExclusive } else c

/-- The first claim that passes a test is changed. -/
def modifyFirst (test : PendingClaim → Bool) (f : PendingClaim → PendingClaim) :
    List PendingClaim → List PendingClaim
  | [] => []
  | claim :: claims =>
    if test claim then f claim :: claims else claim :: modifyFirst test f claims

def hasReservation (c : ClaimState) (reservationId : ℕ) : Bool :=
  c.pending.any fun claim => decide (claim.reservationId = reservationId)

def finalizeReservation (c : ClaimState) (reservationId claimStart endExclusive now : ℕ) :
    ClaimState :=
  if c.hasReservation reservationId then
    advanceCursorForContiguousClaim
      { c with
        pending := modifyFirst (fun claim => decide (claim.reservationId = reservationId))
          (fun claim => ⟨claim.reservationId, claimStart, endExclusive, now, false⟩) c.pending }
      claimStart endExclusive
  else c

def registerDeliveredClaim (c : ClaimState) (claimStart endExclusive claimedAt : ℕ) : ClaimState :=
  advanceCursorForContiguousClaim
    { c with
      nextReservationId := c.nextReservationId + 1
      pending := c.pending ++ [⟨c.nextReservationId, claimStart, endExclusive, claimedAt, false⟩] }
    claimStart endExclusive

def overlapsPending (c : ClaimState) (claimStart endExclusive : ℕ) : Bool :=
  c.pending.any fun claim =>
    decide (claim.start < endExclusive ∧ claimStart < claim.endExclusive)

def cancelReservation (c : ClaimState) (reservationId : ℕ) : ClaimState :=
  { c with pending := c.pending.filter fun claim => decide (claim.reservationId ≠ reservationId) }

/-- One pass over the claims, which steps over those that cover the offset. -/
def advance (pending : List PendingClaim) (next : ℕ) : ℕ :=
  pending.foldl (fun next claim => if claim.Covers next then claim.endExclusive else next) next

/-- Passes are repeated until one does not advance. Every other pass leaves a claim behind, so there
are at most as many as claims. -/
def skip (pending : List PendingClaim) : ℕ → ℕ → ℕ
  | 0, next => next
  | passes + 1, next =>
    if advance pending next = next then next else skip pending passes (advance pending next)

/-- The next offset to hand out, and how many from there on. -/
def nextAvailableWindow (c : ClaimState) (requestedLimit : ℕ) : ℕ × ℕ :=
  if maxPendingClaims ≤ c.pending.length then (c.cursor, 0)
  else
    let next := skip c.pending c.pending.length c.cursor
    let nextPendingStart :=
      ((c.pending.filter fun claim => decide (next < claim.start)).map PendingClaim.start).min?
    match nextPendingStart with
    | some claimStart => (next, min requestedLimit (claimStart - next))
    | none => (next, requestedLimit)

/-- An offset that is handed out. -/
def Claimed (c : ClaimState) (o : ℕ) : Prop := ∃ claim ∈ c.pending, claim.Covers o

/-! ### Stepping over claims -/

variable {pending : List PendingClaim} {next o : ℕ}

theorem le_advance (pending : List PendingClaim) (next : ℕ) : next ≤ advance pending next := by
  induction pending generalizing next with
  | nil => exact le_rfl
  | cons claim pending ih =>
    refine le_trans ?_ (ih _)
    dsimp only
    split
    · next h => exact h.2.le
    · exact le_rfl

/-- A pass only steps over claimed offsets. -/
theorem covered_of_lt_advance (hle : next ≤ o) (hlt : o < advance pending next) :
    ∃ claim ∈ pending, claim.Covers o := by
  induction pending generalizing next with
  | nil => exact absurd hlt (not_lt.mpr hle)
  | cons claim pending ih =>
    rw [advance, foldl_cons] at hlt
    split at hlt
    · next hcovers =>
      by_cases hpast : o < claim.endExclusive
      · exact ⟨claim, mem_cons_self, hcovers.1.trans hle, hpast⟩
      · obtain ⟨claim', hmem, hcovers'⟩ := ih (not_lt.mp hpast) hlt
        exact ⟨claim', mem_cons_of_mem claim hmem, hcovers'⟩
    · obtain ⟨claim', hmem, hcovers'⟩ := ih hle hlt
      exact ⟨claim', mem_cons_of_mem claim hmem, hcovers'⟩

/-- A pass steps over every claim that covers the offset. -/
theorem endExclusive_le_advance (hmem : claim ∈ pending) (hcovers : claim.Covers next) :
    claim.endExclusive ≤ advance pending next := by
  induction pending generalizing next with
  | nil => cases hmem
  | cons head pending ih =>
    rw [advance, foldl_cons]
    rcases mem_cons.mp hmem with rfl | hmem
    · rw [if_pos hcovers]
      exact le_advance pending _
    split
    · next hhead =>
      by_cases hpast : claim.Covers head.endExclusive
      · exact ih hmem hpast
      refine le_trans ?_ (le_advance pending _)
      have hle : claim.start ≤ head.endExclusive := hcovers.1.trans hhead.2.le
      exact not_lt.mp fun hlt => hpast ⟨hle, hlt⟩
    · exact ih hmem hcovers

/-- The claims that end after an offset. -/
def ahead (pending : List PendingClaim) (next : ℕ) : ℕ :=
  pending.countP fun claim => decide (next < claim.endExclusive)

/-- A pass that advances leaves a claim behind. -/
theorem ahead_advance_lt (h : advance pending next ≠ next) :
    ahead pending (advance pending next) < ahead pending next := by
  have hlt : next < advance pending next := lt_of_le_of_ne (le_advance pending next) h.symm
  obtain ⟨claim, hmem, hcovers⟩ := covered_of_lt_advance le_rfl hlt
  have hend := endExclusive_le_advance hmem hcovers
  have hfewer : ahead pending (advance pending next) =
      (pending.filter fun claim => decide (next < claim.endExclusive)).countP
        fun claim => decide (advance pending next < claim.endExclusive) := by
    rw [countP_filter]
    refine countP_congr fun claim _ => ?_
    simp only [Bool.and_eq_true, decide_eq_true_eq]
    exact ⟨fun h => ⟨h, hlt.trans h⟩, And.left⟩
  rw [hfewer, ahead, countP_eq_length_filter (l := pending)]
  refine countP_lt_length_iff.mpr ⟨claim, ?_, ?_⟩
  · exact mem_filter.mpr ⟨hmem, decide_eq_true hcovers.2⟩
  · exact decide_eq_false (not_lt.mpr hend)

/-- Behind the claims that follow on the offset, nothing is claimed. -/
theorem not_covers_skip_of_le (h : ahead pending next ≤ passes) :
    ∀ claim ∈ pending, ¬claim.Covers (skip pending passes next) := by
  intro claim hmem hcovers
  fun_induction skip pending passes next with
  | case1 =>
    have hzero := countP_eq_zero.mp (Nat.le_zero.mp h) claim hmem
    exact hzero (decide_eq_true hcovers.2)
  | case2 passes next hstop =>
    have hend := endExclusive_le_advance hmem hcovers
    rw [hstop] at hend
    exact not_lt.mpr hend hcovers.2
  | case3 passes next hadvance ih =>
    exact ih (Nat.le_of_lt_succ ((ahead_advance_lt hadvance).trans_le h)) hcovers

theorem le_skip (pending : List PendingClaim) (passes next : ℕ) :
    next ≤ skip pending passes next := by
  fun_induction skip pending passes next with
  | case1 | case2 => exact le_rfl
  | case3 passes next _ ih => exact (le_advance pending next).trans ih

theorem covered_of_lt_skip (hle : next ≤ o) (hlt : o < skip pending passes next) :
    ∃ claim ∈ pending, claim.Covers o := by
  fun_induction skip pending passes next with
  | case1 | case2 => exact absurd hlt (not_lt.mpr hle)
  | case3 passes next _ ih =>
    by_cases hpast : o < advance pending next
    · exact covered_of_lt_advance hle hpast
    · exact ih (not_lt.mp hpast) hlt

/-! ### The next window -/

variable {c : ClaimState} {limit : ℕ}

theorem nextAvailableWindow_full (h : maxPendingClaims ≤ c.pending.length) :
    c.nextAvailableWindow limit = (c.cursor, 0) :=
  if_pos h

/-- **The window**, when a slot is free: it begins behind the claims that follow on the cursor, and
is disjoint from all claims. -/
structure IsWindow (c : ClaimState) (start size : ℕ) : Prop where
  cursor_le : c.cursor ≤ start
  before : ∀ o, c.cursor ≤ o → o < start → c.Claimed o
  disjoint : ∀ claim ∈ c.pending, claim.endExclusive ≤ start ∨ start + size ≤ claim.start

theorem isWindow_nextAvailableWindow (hfree : c.pending.length < maxPendingClaims)
    (hlimit : 0 < limit) :
    c.IsWindow (c.nextAvailableWindow limit).1 (c.nextAvailableWindow limit).2 ∧
      0 < (c.nextAvailableWindow limit).2 := by
  unfold nextAvailableWindow
  rw [if_neg (not_le.mpr hfree)]
  have hcursor := le_skip c.pending c.pending.length c.cursor
  have hbefore : ∀ o, c.cursor ≤ o → o < skip c.pending c.pending.length c.cursor → c.Claimed o :=
    fun o => covered_of_lt_skip
  have hclear : ∀ claim ∈ c.pending, ¬claim.Covers (skip c.pending c.pending.length c.cursor) :=
    not_covers_skip_of_le countP_le_length
  generalize skip c.pending c.pending.length c.cursor = start at hcursor hbefore hclear ⊢
  dsimp only
  split
  · next claimStart hmin =>
    obtain ⟨hmem, hleast⟩ := min?_eq_some_iff.mp hmin
    obtain ⟨first, hfirst, rfl⟩ := mem_map.mp hmem
    have hfirst_lt : start < first.start := of_decide_eq_true (mem_filter.mp hfirst).2
    refine ⟨⟨hcursor, hbefore, fun claim hclaim => ?_⟩, by omega⟩
    by_cases hahead : start < claim.start
    · have hle := hleast claim.start (mem_map_of_mem
        (mem_filter.mpr ⟨hclaim, decide_eq_true hahead⟩))
      omega
    · left
      exact not_lt.mp fun hlt => hclear claim hclaim ⟨not_lt.mp hahead, hlt⟩
  · next hnone =>
    refine ⟨⟨hcursor, hbefore, fun claim hclaim => ?_⟩, hlimit⟩
    left
    refine not_lt.mp fun hlt => ?_
    by_cases hahead : start < claim.start
    · have hmem : claim ∈ c.pending.filter fun claim => decide (start < claim.start) :=
        mem_filter.mpr ⟨hclaim, decide_eq_true hahead⟩
      rw [map_eq_nil_iff.mp (min?_eq_none_iff.mp hnone)] at hmem
      cases hmem
    · exact hclear claim hclaim ⟨not_lt.mp hahead, hlt⟩

theorem IsWindow.mono {size' : ℕ} (h : c.IsWindow start size) (hle : size' ≤ size) :
    c.IsWindow start size' :=
  ⟨h.cursor_le, h.before, fun claim hmem =>
    (h.disjoint claim hmem).imp_right (Nat.add_le_add_left hle start).trans⟩

theorem IsWindow.not_claimed (h : c.IsWindow start size) (hfrom : start ≤ o)
    (hto : o < start + size) : ¬c.Claimed o := by
  rintro ⟨claim, hmem, hcovers⟩
  rcases h.disjoint claim hmem with hend | hstart
  · exact not_lt.mpr hfrom (hcovers.2.trans_le hend)
  · exact not_lt.mpr hcovers.1 (hto.trans_le hstart)

/-! ### Sound claims -/

/-- Between calls, no claim is in flight, the claims are disjoint ranges, and their ids are used
up. -/
structure Sound (c : ClaimState) : Prop where
  idle : ∀ claim ∈ c.pending, claim.inFlight = false
  nonempty : ∀ claim ∈ c.pending, claim.start < claim.endExclusive
  disjoint : c.pending.Pairwise fun a b => a.endExclusive ≤ b.start ∨ b.endExclusive ≤ a.start
  ids : ∀ claim ∈ c.pending, claim.reservationId < c.nextReservationId

theorem sound_new (cursor : ℕ) : (new cursor).Sound := ⟨nofun, nofun, .nil, nofun⟩

/-- The cursor and the counter of reservations do not matter. -/
theorem Sound.of_pending (h : c.Sound) (cursor : ℕ) (lastAcked : Option ℕ) {n : ℕ}
    (hn : c.nextReservationId ≤ n) : (⟨cursor, c.pending, n, lastAcked⟩ : ClaimState).Sound :=
  ⟨h.idle, h.nonempty, h.disjoint, fun claim hmem => (h.ids claim hmem).trans_le hn⟩

theorem Sound.expireStaleClaims (h : c.Sound) (now timeout : ℕ) :
    (c.expireStaleClaims now timeout).Sound where
  idle claim hmem := h.idle claim (mem_of_mem_filter hmem)
  nonempty claim hmem := h.nonempty claim (mem_of_mem_filter hmem)
  disjoint := h.disjoint.filter _
  ids claim hmem := h.ids claim (mem_of_mem_filter hmem)

/-- What an ack leaves of an idle claim is its part after the ack. -/
theorem trim_eq_some_iff (hidle : claim.inFlight = false) :
    claim.trim next = some claim' ↔
      next < claim.endExclusive ∧ { claim with start := max claim.start next } = claim' := by
  rw [PendingClaim.trim, if_neg (by simp [hidle])]
  by_cases hend : claim.endExclusive ≤ next
  · simp [hend]
  by_cases hlt : claim.start < next
  · simp [hend, hlt, max_eq_right hlt.le, not_le.mp hend]
  · simp [hend, hlt, max_eq_left (not_lt.mp hlt), not_le.mp hend]

theorem Sound.mem_ackUpTo (h : c.Sound) {acked : ℕ} (hmem : claim' ∈ (c.ackUpTo acked).pending) :
    ∃ claim ∈ c.pending, acked + 1 < claim.endExclusive ∧
      { claim with start := max claim.start (acked + 1) } = claim' := by
  obtain ⟨claim, hclaim, htrim⟩ := mem_filterMap.mp hmem
  exact ⟨claim, hclaim, (trim_eq_some_iff (h.idle claim hclaim)).mp htrim⟩

theorem Sound.ackUpTo (h : c.Sound) (acked : ℕ) : (c.ackUpTo acked).Sound where
  idle claim' hmem := by
    obtain ⟨claim, hclaim, -, rfl⟩ := h.mem_ackUpTo hmem
    exact h.idle claim hclaim
  nonempty claim' hmem := by
    obtain ⟨claim, hclaim, hend, rfl⟩ := h.mem_ackUpTo hmem
    exact max_lt (h.nonempty claim hclaim) hend
  disjoint := by
    refine pairwise_filterMap.mpr ((List.Pairwise.and_mem.mp h.disjoint).imp ?_)
    rintro a b ⟨ha, hb, hdisjoint⟩ a' hatrim b' hbtrim
    obtain ⟨-, rfl⟩ := (trim_eq_some_iff (h.idle a ha)).mp hatrim
    obtain ⟨-, rfl⟩ := (trim_eq_some_iff (h.idle b hb)).mp hbtrim
    exact hdisjoint.imp (fun hle => hle.trans (le_max_left _ _))
      fun hle => hle.trans (le_max_left _ _)
  ids claim' hmem := by
    obtain ⟨claim, hclaim, -, rfl⟩ := h.mem_ackUpTo hmem
    exact h.ids claim hclaim

theorem advanceCursorForContiguousClaim_eq (c : ClaimState) (lo hi : ℕ) :
    c.advanceCursorForContiguousClaim lo hi =
      { c with cursor := if lo ≤ c.cursor then max c.cursor hi else c.cursor } := by
  unfold advanceCursorForContiguousClaim
  split <;> rfl

theorem Sound.registerDeliveredClaim (h : c.Sound) {lo hi : ℕ} (hwindow : c.IsWindow start size)
    (hlo : start ≤ lo) (hlt : lo < hi) (hhi : hi ≤ start + size) (claimedAt : ℕ) :
    (c.registerDeliveredClaim lo hi claimedAt).Sound := by
  rw [ClaimState.registerDeliveredClaim, advanceCursorForContiguousClaim_eq]
  refine ⟨forall_mem_append.mpr ⟨h.idle, forall_mem_singleton.mpr rfl⟩,
    forall_mem_append.mpr ⟨h.nonempty, forall_mem_singleton.mpr hlt⟩, ?_,
    forall_mem_append.mpr ⟨fun claim hmem => ?_, forall_mem_singleton.mpr (Nat.lt_succ_self _)⟩⟩
  · refine pairwise_append.mpr ⟨h.disjoint, pairwise_singleton _ _, ?_⟩
    intro claim hmem new hnew
    rw [mem_singleton.mp hnew]
    exact (hwindow.disjoint claim hmem).imp hlo.trans' hhi.trans
  · exact (h.ids claim hmem).trans (Nat.lt_succ_self _)

/-! ### Reservations -/

/-- A reservation that is cancelled only uses up its id. -/
theorem Sound.cancel_reserve (h : c.Sound) (start limit claimedAt : ℕ) :
    (c.reserveWindow start limit claimedAt).2.cancelReservation c.nextReservationId =
      { c with nextReservationId := c.nextReservationId + 1 } := by
  have hkeep : c.pending.filter (fun claim => decide (claim.reservationId ≠ c.nextReservationId)) =
      c.pending :=
    filter_eq_self.mpr fun claim hmem => decide_eq_true (h.ids claim hmem).ne
  simp only [reserveWindow, cancelReservation, filter_append, hkeep]
  simp

theorem hasReservation_reserve (c : ClaimState) (start limit claimedAt : ℕ) :
    (c.reserveWindow start limit claimedAt).2.hasReservation c.nextReservationId = true := by
  simp [hasReservation, reserveWindow]

/-- A reservation that is finalized is a claim of the delivered range. -/
theorem Sound.finalize_reserve (h : c.Sound) (start limit claimedAt lo hi : ℕ) :
    (c.reserveWindow start limit claimedAt).2.finalizeReservation c.nextReservationId lo hi
        claimedAt = c.registerDeliveredClaim lo hi claimedAt := by
  have hmodify : ∀ l : List PendingClaim, (∀ claim ∈ l, claim.reservationId < c.nextReservationId) →
      modifyFirst (fun claim => decide (claim.reservationId = c.nextReservationId))
        (fun claim => ⟨claim.reservationId, lo, hi, claimedAt, false⟩)
        (l ++ [⟨c.nextReservationId, start, start + limit, claimedAt, true⟩]) =
      l ++ [⟨c.nextReservationId, lo, hi, claimedAt, false⟩] := by
    intro l hl
    induction l with
    | nil => simp [modifyFirst]
    | cons claim l ih =>
      have hne := (hl claim mem_cons_self).ne
      rw [cons_append, modifyFirst, if_neg (by simpa using hne),
        ih fun claim' hmem => hl claim' (mem_cons_of_mem claim hmem)]
      rfl
  rw [finalizeReservation, if_pos (hasReservation_reserve c start limit claimedAt)]
  simp only [reserveWindow, hmodify c.pending h.ids]
  rfl

end ClaimState

end KalamDB.Topics
