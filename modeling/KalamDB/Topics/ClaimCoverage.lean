import KalamDB.Topics.ClaimState

/-!
# Coverage of claims

Which offsets a group still has to hand out is told by its cursor and claims alone. A claim state
**tracks** a group from a start offset if every offset from there up to the cursor is done with or
claimed. All operations keep it: a claim that expires takes the cursor back with it, an ack moves
claimed offsets to those that are done, and the cursor only moves over what is done or claimed.

A fetch first **settles** the claims: it expires the stale ones and applies the durable ack.
Settling again changes nothing (`Settled.settle_eq`).
-/

namespace KalamDB.Topics.ClaimState

open List PendingClaim

variable {c : ClaimState} {start : ℕ} {Done Done' : ℕ → Prop} {cursor acked o lo hi : ℕ}
  {claim : PendingClaim}

/-- Every offset from the start to the cursor is done or claimed. -/
structure Tracks (c : ClaimState) (start : ℕ) (Done : ℕ → Prop) : Prop where
  cursor_ge : start ≤ c.cursor
  starts_ge : ∀ claim ∈ c.pending, start ≤ claim.start
  covered : ∀ o, start ≤ o → o < c.cursor → Done o ∨ c.Claimed o

theorem tracks_new (start : ℕ) (Done : ℕ → Prop) : (new start).Tracks start Done :=
  ⟨le_rfl, nofun, fun _ hfrom hto => absurd hto (not_lt.mpr hfrom)⟩

theorem Tracks.mono (h : c.Tracks start Done) (hdone : ∀ o, Done o → Done' o) :
    c.Tracks start Done' :=
  ⟨h.cursor_ge, h.starts_ge, fun o hfrom hto => (h.covered o hfrom hto).imp_left (hdone o)⟩

/-- The cursor may move over what is done or claimed. -/
theorem Tracks.moveCursor (h : c.Tracks start Done) (hle : c.cursor ≤ cursor)
    (hover : ∀ o, c.cursor ≤ o → o < cursor → Done o ∨ c.Claimed o) (n : ℕ) :
    (⟨cursor, c.pending, n, c.lastAcked⟩ : ClaimState).Tracks start Done where
  cursor_ge := h.cursor_ge.trans hle
  starts_ge := h.starts_ge
  covered o hfrom hto := by
    by_cases hold : o < c.cursor
    · exact h.covered o hfrom hold
    · exact hover o (not_lt.mp hold) hto

/-! ### Expiry -/

/-- The cursor goes back to an expired claim or stays. -/
theorem cursor_expireStaleClaims (c : ClaimState) (now timeout : ℕ) :
    (c.expireStaleClaims now timeout).cursor ≤ c.cursor ∧
      ((c.expireStaleClaims now timeout).cursor = c.cursor ∨
        ∃ claim ∈ c.pending, (c.expireStaleClaims now timeout).cursor = claim.start) ∧
      ∀ claim ∈ c.pending, claim.isStale now timeout = true →
        (c.expireStaleClaims now timeout).cursor ≤ claim.start := by
  unfold expireStaleClaims
  dsimp only
  split
  · next resetTo hmin =>
    obtain ⟨hmem, hleast⟩ := min?_eq_some_iff.mp hmin
    obtain ⟨first, hfirst, rfl⟩ := mem_map.mp hmem
    have hle : ∀ claim ∈ c.pending, claim.isStale now timeout = true → first.start ≤ claim.start :=
      fun claim hclaim hstale =>
        hleast _ (mem_map_of_mem (mem_filter.mpr ⟨hclaim, hstale⟩))
    split
    · next hlt => exact ⟨hlt.le, .inr ⟨first, mem_of_mem_filter hfirst, rfl⟩, hle⟩
    rename_i hge
    exact ⟨le_rfl, .inl rfl, fun claim hclaim hstale =>
      (not_lt.mp hge).trans (hle claim hclaim hstale)⟩
  · next hnone =>
    refine ⟨le_rfl, .inl rfl, fun claim hclaim hstale => ?_⟩
    have hmem : claim ∈ c.pending.filter (isStale now timeout) := mem_filter.mpr ⟨hclaim, hstale⟩
    rw [map_eq_nil_iff.mp (min?_eq_none_iff.mp hnone)] at hmem
    cases hmem

theorem mem_expireStaleClaims {now timeout : ℕ} :
    claim ∈ (c.expireStaleClaims now timeout).pending ↔
      claim ∈ c.pending ∧ claim.isStale now timeout = false := by
  simp [expireStaleClaims]

theorem expireStaleClaims_eq_self {now timeout : ℕ}
    (h : ∀ claim ∈ c.pending, claim.isStale now timeout = false) :
    c.expireStaleClaims now timeout = c := by
  have hnone : c.pending.filter (isStale now timeout) = [] :=
    filter_eq_nil_iff.mpr fun claim hmem => by simp [h claim hmem]
  have hall : c.pending.filter (fun claim => !claim.isStale now timeout) = c.pending :=
    filter_eq_self.mpr fun claim hmem => by simp [h claim hmem]
  simp only [expireStaleClaims, hnone, hall]
  rfl

theorem Tracks.expireStaleClaims (h : c.Tracks start Done) (now timeout : ℕ) :
    (c.expireStaleClaims now timeout).Tracks start Done := by
  obtain ⟨hle, hcursor, hstale⟩ := c.cursor_expireStaleClaims now timeout
  refine ⟨?_, fun claim hmem => h.starts_ge claim (mem_expireStaleClaims.mp hmem).1,
    fun o hfrom hto => ?_⟩
  · rcases hcursor with heq | ⟨claim, hmem, heq⟩
    · exact heq ▸ h.cursor_ge
    · exact heq ▸ h.starts_ge claim hmem
  · refine (h.covered o hfrom (hto.trans_le hle)).imp_right ?_
    rintro ⟨claim, hmem, hcovers⟩
    refine ⟨claim, mem_expireStaleClaims.mpr ⟨hmem, ?_⟩, hcovers⟩
    -- The cursor would have gone back before the offset.
    by_contra hexpired
    have hback := hstale claim hmem (Bool.eq_true_of_not_eq_false hexpired)
    exact not_lt.mpr hcovers.1 (hto.trans_le hback)

/-! ### Acks -/

theorem cursor_ackUpTo (c : ClaimState) (acked : ℕ) :
    (c.ackUpTo acked).cursor = max c.cursor (acked + 1) := by
  unfold ackUpTo
  split
  · next h => exact (max_eq_right h.le).symm
  · next h => exact (max_eq_left (not_lt.mp h)).symm

/-- Beyond an ack, the same offsets stay claimed. -/
theorem Sound.claimed_ackUpTo (h : c.Sound) (ho : acked < o) (hclaimed : c.Claimed o) :
    (c.ackUpTo acked).Claimed o := by
  obtain ⟨claim, hmem, hcovers⟩ := hclaimed
  have hend : acked + 1 < claim.endExclusive := lt_of_le_of_lt ho hcovers.2
  have htrim := (trim_eq_some_iff (h.idle claim hmem)).mpr ⟨hend, rfl⟩
  exact ⟨_, mem_filterMap.mpr ⟨claim, hmem, htrim⟩, max_le hcovers.1 ho, hcovers.2⟩

theorem Tracks.ackUpTo (h : c.Tracks start Done) (hsound : c.Sound) (hdone : ∀ o ≤ acked, Done o) :
    (c.ackUpTo acked).Tracks start Done where
  cursor_ge := by
    rw [cursor_ackUpTo]
    exact h.cursor_ge.trans (le_max_left _ _)
  starts_ge claim' hmem := by
    obtain ⟨claim, hclaim, -, rfl⟩ := hsound.mem_ackUpTo hmem
    exact (h.starts_ge claim hclaim).trans (le_max_left _ _)
  covered o hfrom hto := by
    by_cases hacked : o ≤ acked
    · exact .inl (hdone o hacked)
    rw [cursor_ackUpTo] at hto
    have hcursor : o < c.cursor := (lt_max_iff.mp hto).resolve_right (by omega)
    exact (h.covered o hfrom hcursor).imp_right (hsound.claimed_ackUpTo (not_le.mp hacked))

/-! ### Deliveries -/

theorem Tracks.registerDeliveredClaim (h : c.Tracks start Done) (hlo : c.cursor ≤ lo)
    (claimedAt : ℕ) : (c.registerDeliveredClaim lo hi claimedAt).Tracks start Done := by
  have hclaimed : ∀ o, c.Claimed o ∨ lo ≤ o ∧ o < hi →
      (c.registerDeliveredClaim lo hi claimedAt).Claimed o := by
    rw [ClaimState.registerDeliveredClaim, advanceCursorForContiguousClaim_eq]
    simp [Claimed, PendingClaim.Covers, or_and_right, exists_or]
  rw [ClaimState.registerDeliveredClaim, advanceCursorForContiguousClaim_eq] at hclaimed ⊢
  refine ⟨?_, forall_mem_append.mpr ⟨h.starts_ge, forall_mem_singleton.mpr ?_⟩,
    fun o hfrom hto => ?_⟩
  · split
    · exact h.cursor_ge.trans (le_max_left _ _)
    · exact h.cursor_ge
  · exact h.cursor_ge.trans hlo
  · by_cases hold : o < c.cursor
    · exact (h.covered o hfrom hold).imp_right fun hc => hclaimed o (.inl hc)
    -- The cursor has only moved if the claim begins at it.
    split at hto
    · next hcontiguous =>
      refine .inr (hclaimed o (.inr ⟨hcontiguous.trans (not_lt.mp hold), ?_⟩))
      exact (lt_max_iff.mp hto).resolve_left hold
    · exact absurd hto hold

/-! ### Settling -/

/-- What a fetch does first: stale claims expire, and the durable ack is applied. -/
def settle (c : ClaimState) (now timeout : ℕ) (durableLastAcked : Option ℕ) : ClaimState :=
  let c := c.expireStaleClaims now timeout
  match durableLastAcked with
  | some lastAcked => c.ackUpTo lastAcked
  | none => c

/-- Nothing is left to expire or to apply. -/
structure Settled (c : ClaimState) (now timeout : ℕ) (durableLastAcked : Option ℕ) : Prop where
  live : ∀ claim ∈ c.pending, claim.isStale now timeout = false
  above : ∀ acked, durableLastAcked = some acked →
    acked + 1 ≤ c.cursor ∧ ∀ claim ∈ c.pending, acked + 1 ≤ claim.start
  lastAcked : c.lastAcked = durableLastAcked

/-- Acks in memory are durable. -/
def AckedDurably (c : ClaimState) (durableLastAcked : Option ℕ) : Prop :=
  ∀ a, c.lastAcked = some a → ∃ d, durableLastAcked = some d ∧ a ≤ d

variable {now timeout : ℕ} {durable : Option ℕ}

theorem AckedDurably.ackUpTo (h : c.AckedDurably durable) (offset : ℕ) :
    (c.ackUpTo offset).AckedDurably (some (max (durable.getD 0) offset)) := by
  intro a ha
  refine ⟨_, rfl, ?_⟩
  cases ha
  cases hlast : c.lastAcked with
  | none => exact le_max_right _ _
  | some previous =>
    obtain ⟨d, rfl, hle⟩ := h previous hlast
    exact max_le_max_right offset hle

theorem Sound.settle (h : c.Sound) : (c.settle now timeout durable).Sound := by
  cases durable with
  | none => exact h.expireStaleClaims now timeout
  | some acked => exact (h.expireStaleClaims now timeout).ackUpTo acked

theorem Tracks.settle (h : c.Tracks start Done) (hsound : c.Sound)
    (hdone : ∀ acked, durable = some acked → ∀ o ≤ acked, Done o) :
    (c.settle now timeout durable).Tracks start Done := by
  cases durable with
  | none => exact h.expireStaleClaims now timeout
  | some acked =>
    exact (h.expireStaleClaims now timeout).ackUpTo (hsound.expireStaleClaims now timeout)
      (hdone acked rfl)

theorem Sound.settled_settle (h : c.Sound) (hacked : c.AckedDurably durable) :
    (c.settle now timeout durable).Settled now timeout durable := by
  have hexpire := h.expireStaleClaims now timeout
  have hlive : ∀ claim ∈ (c.expireStaleClaims now timeout).pending,
      claim.isStale now timeout = false := fun claim hmem => (mem_expireStaleClaims.mp hmem).2
  unfold ClaimState.settle
  cases durable with
  | none =>
    refine ⟨hlive, nofun, Option.eq_none_iff_forall_ne_some.mpr fun a ha => ?_⟩
    obtain ⟨d, hd, -⟩ := hacked a ha
    cases hd
  | some acked =>
    refine ⟨fun claim' hmem => ?_, fun a ha => ?_, ?_⟩
    · obtain ⟨claim, hclaim, -, rfl⟩ := hexpire.mem_ackUpTo hmem
      exact hlive claim hclaim
    · cases ha
      rw [cursor_ackUpTo]
      refine ⟨le_max_right _ _, fun claim' hmem => ?_⟩
      obtain ⟨claim, -, -, rfl⟩ := hexpire.mem_ackUpTo hmem
      exact le_max_right _ _
    · change some (match c.lastAcked with
        | some previous => max previous acked
        | none => acked) = some acked
      cases hlast : c.lastAcked with
      | none => rfl
      | some previous =>
        obtain ⟨d, hd, hle⟩ := hacked previous hlast
        cases hd
        exact congrArg some (max_eq_right hle)

section

variable (h : c.Settled now timeout durable)
include h

/-- **Settling again changes nothing.** -/
theorem Settled.settle_eq (hsound : c.Sound) : c.settle now timeout durable = c := by
  simp only [settle, expireStaleClaims_eq_self h.live]
  cases hdurable : durable with
  | none => rfl
  | some acked =>
    obtain ⟨hcursor, hstarts⟩ := h.above acked hdurable
    have htrim : c.pending.filterMap (trim (acked + 1)) = c.pending := by
      have hsome : ∀ claim ∈ c.pending, claim.trim (acked + 1) = some claim := by
        intro claim hmem
        have hend := (hstarts claim hmem).trans_lt (hsound.nonempty claim hmem)
        refine (trim_eq_some_iff (hsound.idle claim hmem)).mpr ⟨hend, ?_⟩
        rw [max_eq_left (hstarts claim hmem)]
      exact (filterMap_congr hsome).trans filterMap_some
    have hlast : c.lastAcked = some acked := h.lastAcked.trans hdurable
    simp only [ackUpTo, htrim, hlast, max_self, if_neg (not_lt.mpr hcursor)]
    rw [← hlast]

/-- The cursor may move up in a settled state, and ids may be used up. -/
theorem Settled.moveCursor (hle : c.cursor ≤ cursor) (n : ℕ) :
    (⟨cursor, c.pending, n, c.lastAcked⟩ : ClaimState).Settled now timeout durable :=
  ⟨h.live, fun acked hacked => ⟨(h.above acked hacked).1.trans hle, (h.above acked hacked).2⟩,
    h.lastAcked⟩

/-- Nothing at or below the ack is delivered from a settled state. -/
theorem Settled.deliverFrom_le (ho : c.cursor ≤ o) : c.deliverFrom durable ≤ o := by
  rw [deliverFrom, h.lastAcked, max_self]
  cases hdurable : durable with
  | none => exact Nat.zero_le o
  | some acked => exact (h.above acked hdurable).1.trans ho

end

/-- Settled claims are parts of live ones. -/
theorem Sound.mem_settle (h : c.Sound) {claim' : PendingClaim}
    (hmem : claim' ∈ (c.settle now timeout durable).pending) :
    ∃ claim ∈ c.pending, claim.isStale now timeout = false ∧
      ∀ o, claim'.Covers o → claim.Covers o := by
  cases durable with
  | none =>
    obtain ⟨hclaim, hlive⟩ := mem_expireStaleClaims.mp hmem
    exact ⟨claim', hclaim, hlive, fun _ => id⟩
  | some acked =>
    obtain ⟨claim, hclaim, -, rfl⟩ := (h.expireStaleClaims now timeout).mem_ackUpTo hmem
    obtain ⟨hclaim, hlive⟩ := mem_expireStaleClaims.mp hclaim
    exact ⟨claim, hclaim, hlive, fun o hcovers =>
      ⟨(le_max_left _ _).trans hcovers.1, hcovers.2⟩⟩

/-- A live claim covers the same offsets beyond the ack after settling. -/
theorem Sound.claimed_settle (h : c.Sound) (hmem : claim ∈ c.pending)
    (hlive : claim.isStale now timeout = false) (hcovers : claim.Covers o)
    (hacked : ∀ acked, durable = some acked → acked < o) :
    (c.settle now timeout durable).Claimed o := by
  have hclaimed : (c.expireStaleClaims now timeout).Claimed o :=
    ⟨claim, mem_expireStaleClaims.mpr ⟨hmem, hlive⟩, hcovers⟩
  cases durable with
  | none => exact hclaimed
  | some acked =>
    exact (h.expireStaleClaims now timeout).claimed_ackUpTo (hacked acked rfl) hclaimed

end KalamDB.Topics.ClaimState
