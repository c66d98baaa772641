import Mathlib.Logic.Function.Basic
import KalamDB.Lib.KeyedList
import KalamDB.Lib.Runs
import KalamDB.Transactions.Coordinator

/-!
# Claims on primary keys

A transaction that deletes a row **claims** its key, and others wait until the claim is released. A
call that finds a claim clones its notifier, registers as a waiter, and looks again before it
suspends, so that a release in between is not missed. A notifier wakes those that have registered
before. But the second look only asks whether somebody else holds the key. If the claim that was
found first has been released before the call registered, and a third transaction has claimed the
key since, then the call suspends on a notifier that nobody will use again
(`suspended_on_released_notifier`).

At most one transaction holds a key in every run. If a free key is never claimed while a call of
another owner is between its two looks, no call is suspended on the notifier of a released claim,
and a release wakes all who wait for the key (`claims_exclusive_and_woken`).
-/

namespace KalamDB.Transactions

open Raft Runs List KeyedList Option

structure ClaimKey where
  tableId : TableId
  primaryKey : String
  deriving DecidableEq

/-- A claim with the notifier made for it. -/
structure Claim where
  owner : TransactionId
  notify : ℕ
  deriving DecidableEq

/-! ### The map of claims -/

/-- A hash map: a list with distinct keys, whose order means nothing. -/
structure ClaimMap where
  entries : List (ClaimKey × Claim)
  nodup : (entries.map Prod.fst).Nodup

variable (m : ClaimMap) {claim : Claim}

namespace ClaimMap

def empty : ClaimMap := ⟨[], List.nodup_nil⟩

def get (key : ClaimKey) : Option Claim := m.entries.lookup key

/-- The claims that pass a test. -/
def retain (p : ClaimKey × Claim → Bool) : ClaimMap where
  entries := m.entries.filter p
  nodup := (List.filter_sublist.map Prod.fst).nodup m.nodup

def remove (key : ClaimKey) : ClaimMap := m.retain fun x => decide (x.1 ≠ key)

def insert (key : ClaimKey) (claim : Claim) : ClaimMap where
  entries := (key, claim) :: (m.remove key).entries
  nodup := by
    refine List.nodup_cons.mpr ⟨fun hmem => ?_, (m.remove key).nodup⟩
    obtain ⟨x, hx, hkey⟩ := List.mem_map.mp hmem
    exact of_decide_eq_true (List.mem_filter.mp hx).2 hkey

variable (m : ClaimMap) (key key' : ClaimKey)

theorem mem_entries {x : ClaimKey × Claim} : x ∈ m.entries ↔ m.get x.1 = some x.2 :=
  mem_iff_lookup_eq_some m.nodup

theorem get_retain_eq_some {p : ClaimKey × Claim → Bool} :
    (m.retain p).get key = some claim ↔ m.get key = some claim ∧ p (key, claim) = true := by
  rw [← mem_entries _ (x := (key, claim)), ← mem_entries _ (x := (key, claim))]
  exact mem_filter

theorem get_remove : (m.remove key).get key' = if key' = key then none else m.get key' :=
  lookup_filter_ne m.entries key key'

theorem get_insert (claim : Claim) :
    (m.insert key claim).get key' = if key' = key then some claim else m.get key' := by
  change lookup key' ((key, claim) :: (m.remove key).entries) = _
  rw [lookup_cons_eq]
  by_cases h : key' = key
  · rw [if_pos h, if_pos h]
  · rw [if_neg h, if_neg h]
    exact (m.get_remove key key').trans (if_neg h)

end ClaimMap

/-! ### Calls -/

/-- Where a call of `acquire` is. -/
inductive AcquireCall where
  | idle
  /-- At the top of the loop. -/
  | looking (key : ClaimKey) (owner : TransactionId)
  /-- It has found a claim of another owner and cloned the notifier. -/
  | looked (key : ClaimKey) (owner : TransactionId) (notify : ℕ)
  /-- It is registered at the notifier, and may have been notified since. -/
  | enabled (key : ClaimKey) (owner : TransactionId) (notify : ℕ) (notified : Bool)
  /-- It is suspended. -/
  | waiting (key : ClaimKey) (owner : TransactionId) (notify : ℕ)
  deriving DecidableEq

/-- `notify_waiters`, on some notifiers: it wakes those that are registered. -/
def AcquireCall.wake (notifiers : List ℕ) : AcquireCall → AcquireCall
  | .enabled key owner n notified => .enabled key owner n (notified || decide (n ∈ notifiers))
  | .waiting key owner n => if n ∈ notifiers then .looking key owner else .waiting key owner n
  | call => call

structure PrimaryKeyClaims where
  inner : ClaimMap
  nextNotify : ℕ
  calls : ℕ → AcquireCall
  /-- The keys that were acquired and not released, with their owners. -/
  held : List (ClaimKey × TransactionId)

inductive ClaimEvent where
  | acquire (call : ℕ) (key : ClaimKey) (owner : TransactionId)
  | lookup (call : ℕ)
  | enable (call : ℕ)
  | recheck (call : ℕ)
  | releaseKey (key : ClaimKey) (owner : TransactionId)
  | releaseOwner (owner : TransactionId)

namespace PrimaryKeyClaims

variable {dropped : ClaimKey × Claim → Bool} {key : ClaimKey} {e : ClaimEvent}

def new : PrimaryKeyClaims := ⟨.empty, 0, fun _ => .idle, []⟩

def moveTo (s : PrimaryKeyClaims) (call : ℕ) (next : AcquireCall) : PrimaryKeyClaims :=
  { s with calls := Function.update s.calls call next }

/-- The call returns, and its owner holds the key. -/
def returned (s : PrimaryKeyClaims) (call : ℕ) (key : ClaimKey) (owner : TransactionId) :
    PrimaryKeyClaims :=
  { s.moveTo call .idle with held := (key, owner) :: s.held }

/-- Claims are dropped and their waiters notified, under the lock. -/
def release (s : PrimaryKeyClaims) (dropped : ClaimKey × Claim → Bool) : PrimaryKeyClaims :=
  { s with
    inner := s.inner.retain fun x => !dropped x
    calls := fun call =>
      (s.calls call).wake ((s.inner.entries.filter dropped).map fun x => x.2.notify) }

/-- One atomic step: what is done under the lock, the registration, or what follows the recheck. -/
def step (s : PrimaryKeyClaims) : ClaimEvent → Option PrimaryKeyClaims
  | .acquire call key owner =>
    match s.calls call with
    | .idle => some (s.moveTo call (.looking key owner))
    | _ => none
  | .lookup call =>
    match s.calls call with
    | .looking key owner =>
      match s.inner.get key with
      | some claim =>
        if claim.owner = owner then some (s.returned call key owner)
        else some (s.moveTo call (.looked key owner claim.notify))
      | none => some
        { s.returned call key owner with
          inner := s.inner.insert key ⟨owner, s.nextNotify⟩
          nextNotify := s.nextNotify + 1 }
    | _ => none
  | .enable call =>
    match s.calls call with
    | .looked key owner n => some (s.moveTo call (.enabled key owner n false))
    | _ => none
  | .recheck call =>
    match s.calls call with
    | .enabled key owner n notified =>
      let stillBlocked := (s.inner.get key).any fun claim => decide (claim.owner ≠ owner)
      -- a future that was notified is ready at once
      if stillBlocked && !notified then some (s.moveTo call (.waiting key owner n))
      else some (s.moveTo call (.looking key owner))
    | _ => none
  | .releaseKey key owner => some
    { s.release fun x => decide (x.1 = key ∧ x.2.owner = owner) with
      held := s.held.filter fun x => decide (x ≠ (key, owner)) }
  | .releaseOwner owner => some
    { s.release fun x => decide (x.2.owner = owner) with
      held := s.held.filter fun x => decide (x.2 ≠ owner) }

/-! ### What a release does -/

variable {s s' : PrimaryKeyClaims}

theorem get_release :
    (s.release dropped).inner.get key = some claim ↔
      s.inner.get key = some claim ∧ dropped (key, claim) = false := by
  rw [release, ClaimMap.get_retain_eq_some, Bool.not_eq_true']

/-! ### Holders -/

/-- A key that was acquired is claimed by its owner. -/
def Holds (s : PrimaryKeyClaims) : Prop :=
  ∀ key owner, (key, owner) ∈ s.held → ∃ claim, s.inner.get key = some claim ∧ claim.owner = owner

theorem Holds.release (hs : s.Holds) {keep : ClaimKey × TransactionId → Bool}
    (hkeep : ∀ x, keep x = true → ∀ claim, claim.owner = x.2 → dropped (x.1, claim) = false) :
    ({ s.release dropped with held := s.held.filter keep } : PrimaryKeyClaims).Holds := by
  intro key owner hmem
  obtain ⟨hold, hkept⟩ := mem_filter.mp hmem
  obtain ⟨claim, hget, howner⟩ := hs key owner hold
  exact ⟨claim, get_release.mpr ⟨hget, hkeep _ hkept claim howner⟩, howner⟩

theorem Holds.step (hs : s.Holds) (hstep : step s e = some s') : s'.Holds := by
  revert hstep
  fun_cases PrimaryKeyClaims.step s e <;> rintro ⟨⟩
  -- the lookup of a key that the owner holds, or of a free one
  case case3 call key claim hget _ =>
    intro key' owner' hmem
    obtain hnew | hold := mem_cons.mp hmem
    · obtain ⟨rfl, rfl⟩ := Prod.mk.inj hnew
      exact ⟨claim, hget, rfl⟩
    · exact hs key' owner' hold
  case case5 call key owner _ hfree =>
    intro key' owner' hmem
    obtain hnew | hold := mem_cons.mp hmem
    · obtain ⟨rfl, rfl⟩ := Prod.mk.inj hnew
      exact ⟨_, (s.inner.get_insert key' key' _).trans (if_pos rfl), rfl⟩
    obtain ⟨claim, hget, howner⟩ := hs key' owner' hold
    have hne : key' ≠ key := by
      rintro rfl
      rw [hfree] at hget
      cases hget
    exact ⟨claim, ((s.inner.get_insert key key' _).trans (if_neg hne)).trans hget, howner⟩
  -- the two releases
  case case12 key owner =>
    refine hs.release fun x hne claim howner => decide_eq_false fun hdropped => ?_
    exact of_decide_eq_true hne (Prod.ext hdropped.1 (howner ▸ hdropped.2))
  case case13 owner =>
    refine hs.release fun x hne claim howner => decide_eq_false fun hdropped => ?_
    exact of_decide_eq_true hne (howner ▸ hdropped)
  all_goals exact hs

/-! ### Waiters -/

/-- A call that will suspend at a notifier, or has done so, is blocked by the claim of that
notifier. -/
def Fits : AcquireCall → Prop
  | .looked key owner n | .enabled key owner n false =>
    ∀ claim, m.get key = some claim → claim.owner = owner ∨ claim.notify = n
  | .waiting key _ n => ∃ claim, m.get key = some claim ∧ claim.notify = n
  | .idle | .looking _ _ | .enabled _ _ _ true => True

/-- A release keeps it: it wakes those who wait for the claims that it drops. -/
theorem Fits.wake {m : ClaimMap} {call : AcquireCall} (hcall : Fits m call)
    (dropped : ClaimKey × Claim → Bool) :
    Fits (m.retain fun x => !dropped x)
      (call.wake ((m.entries.filter dropped).map fun x => x.2.notify)) := by
  have hkept : ∀ {key claim}, (m.retain fun x => !dropped x).get key = some claim →
      m.get key = some claim := fun h => (m.get_retain_eq_some _).mp h |>.1
  cases call with
  | idle | looking => trivial
  | looked key owner n => exact fun claim hget => hcall claim (hkept hget)
  | enabled key owner n notified =>
    cases notified with
    | true => trivial
    | false =>
      rw [AcquireCall.wake]
      cases decide (n ∈ (m.entries.filter dropped).map fun x => x.2.notify) with
      | true => trivial
      | false => exact fun claim hget => hcall claim (hkept hget)
  | waiting key owner n =>
    obtain ⟨claim, hget, rfl⟩ := hcall
    rw [AcquireCall.wake]
    split
    · trivial
    rename_i hnot
    refine ⟨claim, (m.get_retain_eq_some key).mpr ⟨hget, ?_⟩, rfl⟩
    rw [Bool.not_eq_true']
    by_contra hdropped
    refine hnot (mem_map.mpr ⟨(key, claim), mem_filter.mpr ⟨?_, ?_⟩, rfl⟩)
    · exact (m.mem_entries).mpr hget
    · exact Bool.eq_true_of_not_eq_false hdropped

def Woken (s : PrimaryKeyClaims) : Prop := ∀ call, Fits s.inner (s.calls call)

theorem Woken.moveTo (hs : s.Woken) (call : ℕ) {next : AcquireCall} (hnext : Fits s.inner next) :
    (s.moveTo call next).Woken := by
  intro other
  by_cases hne : other = call
  · simpa [PrimaryKeyClaims.moveTo, hne] using hnext
  · simpa [PrimaryKeyClaims.moveTo, hne] using hs other

/-- **A free key is not claimed while a call of another owner is between its two looks.** -/
def NobodyBetween (s : PrimaryKeyClaims) : ClaimEvent → Prop
  | .lookup call => ∀ key owner, s.calls call = .looking key owner → s.inner.get key = none →
      ∀ other owner' n, s.calls other = .looked key owner' n ∨
        s.calls other = .enabled key owner' n false → owner' = owner
  | _ => True

/-- A key that was free is claimed. -/
theorem Woken.insert (hs : s.Woken) {owner : TransactionId} (n : ℕ) (hfree : s.inner.get key = none)
    (hnobody : ∀ other owner' n, s.calls other = .looked key owner' n ∨
      s.calls other = .enabled key owner' n false → owner' = owner) :
    ∀ call, Fits (s.inner.insert key ⟨owner, n⟩) (s.calls call) := by
  intro call
  have hcall := hs call
  -- who is between the two looks has the same owner, and nobody was suspended
  have hbetween : ∀ key' owner' n', (∀ claim, s.inner.get key' = some claim →
      claim.owner = owner' ∨ claim.notify = n') → (key' = key → owner' = owner) →
      ∀ claim, (s.inner.insert key ⟨owner, n⟩).get key' = some claim →
        claim.owner = owner' ∨ claim.notify = n' := by
    intro key' owner' n' hfits howner claim hget
    rw [ClaimMap.get_insert] at hget
    split at hget
    · next hsame =>
      cases hget
      exact .inl (howner hsame).symm
    · exact hfits claim hget
  cases hstate : s.calls call with
  | idle | looking => trivial
  | looked key' owner' n' =>
    rw [hstate] at hcall
    refine hbetween key' owner' n' hcall fun hsame => ?_
    exact hnobody call owner' n' (.inl (hsame ▸ hstate))
  | enabled key' owner' n' notified =>
    rw [hstate] at hcall
    cases notified with
    | true => trivial
    | false =>
      refine hbetween key' owner' n' hcall fun hsame => ?_
      exact hnobody call owner' n' (.inr (hsame ▸ hstate))
  | waiting key' owner' n' =>
    rw [hstate] at hcall
    obtain ⟨claim, hget, hnotify⟩ := hcall
    have hne : key' ≠ key := by
      rintro rfl
      rw [hfree] at hget
      cases hget
    exact ⟨claim, ((s.inner.get_insert key key' _).trans (if_neg hne)).trans hget, hnotify⟩

theorem Woken.step (hs : s.Woken) (hnobody : s.NobodyBetween e) (hstep : step s e = some s') :
    s'.Woken := by
  revert hnobody hstep
  fun_cases PrimaryKeyClaims.step s e <;> rintro hnobody ⟨⟩
  · -- acquire
    exact hs.moveTo _ trivial
  · -- lookup: the owner holds the key, another owner does, the key is free
    exact hs.moveTo _ trivial
  · next hget _ =>
    refine hs.moveTo _ fun claim' hget' => .inr ?_
    rw [hget] at hget'
    rw [some.inj hget']
  · next call key owner hcall hfree =>
    have hinsert := hs.insert s.nextNotify hfree (hnobody key owner hcall hfree)
    intro other
    by_cases hne : other = call
    · simp [returned, PrimaryKeyClaims.moveTo, hne, Fits]
    · simpa [returned, PrimaryKeyClaims.moveTo, hne] using hinsert other
  · -- enable
    next call _ _ _ hcall =>
    have hlooked := hs call
    rw [hcall] at hlooked
    exact hs.moveTo call hlooked
  · -- recheck: the key is still taken, or the call looks again
    next call key owner n notified hcall _ hblocked =>
    obtain ⟨hany, hnotified⟩ := Bool.and_eq_true_iff.mp hblocked
    obtain ⟨claim, hget, hother⟩ := (any_eq_true _ _).mp hany
    obtain rfl : notified = false := by simpa using hnotified
    have henabled := hs call
    rw [hcall] at henabled
    refine hs.moveTo call ⟨claim, hget, ?_⟩
    exact (henabled claim hget).resolve_left (of_decide_eq_true hother)
  · exact hs.moveTo _ trivial
  -- the two releases
  all_goals exact fun call => (hs call).wake _

/-- **Claims are exclusive**, in every run. **No wakeup is lost** if no free key is claimed while a
call of another owner is between its two looks: every suspended call waits at the notifier of the
claim that its key has, and when the holder releases the key, by itself or with all its keys, every
call that waits for the key is woken. -/
theorem claims_exclusive_and_woken {events : List ClaimEvent} {s : PrimaryKeyClaims}
    (hrun : run step new events = some s) :
    (∀ key owner owner', (key, owner) ∈ s.held → (key, owner') ∈ s.held → owner = owner') ∧
    (Meets step NobodyBetween new events →
      (∀ call key owner n, s.calls call = .waiting key owner n →
        ∃ claim, s.inner.get key = some claim ∧ claim.notify = n) ∧
      ∀ key claim e s', s.inner.get key = some claim →
        e = .releaseKey key claim.owner ∨ e = .releaseOwner claim.owner → step s e = some s' →
          ∀ call owner n, s'.calls call ≠ .waiting key owner n) := by
  have hholds : s.Holds := run_preserves Holds (fun _ _ _ h hstep => h.step hstep)
    (by simp [Holds, new]) hrun
  refine ⟨fun key owner owner' h h' => ?_, fun hnobody => ?_⟩
  · obtain ⟨claim, hget, rfl⟩ := hholds key owner h
    obtain ⟨claim', hget', rfl⟩ := hholds key owner' h'
    rw [hget] at hget'
    rw [some.inj hget']
  · have hnew : new.Woken := fun _ => trivial
    have hwoken : s.Woken := run_invariant Woken
      (fun _ _ _ hok h hstep => h.step hok hstep) hnew hnobody hrun
    refine ⟨fun call key owner n hwaiting => ?_, ?_⟩
    · have hcall := hwoken call
      rwa [hwaiting] at hcall
    · intro key claim e s' hget he hstep call owner n hwaiting
      have hafter : s'.Woken := by
        obtain rfl | rfl := he
        · exact hwoken.step (e := .releaseKey _ _) trivial hstep
        · exact hwoken.step (e := .releaseOwner _) trivial hstep
      have hcall := hafter call
      rw [hwaiting] at hcall
      obtain ⟨claim', hget', -⟩ := hcall
      -- the claim is gone
      obtain rfl | rfl := he
      all_goals
        cases hstep
        obtain ⟨hbefore, hkept⟩ := get_release.mp hget'
        obtain rfl := some.inj (hget.symm.trans hbefore)
        simp at hkept

/-! ### Three owners -/

def sessionKey : ClaimKey := ⟨("app", "sessions"), "token"⟩

/-- The second call clones the notifier of the first claim. The claim is released and the key
claimed by a third owner before the call registers and looks again. -/
def threeOwnersRun : List ClaimEvent :=
  [.acquire 0 sessionKey "t1", .lookup 0, .acquire 1 sessionKey "t2", .lookup 1,
    .releaseOwner "t1", .acquire 2 sessionKey "t3", .lookup 2, .enable 1, .recheck 1]

/-- **The call is suspended on the notifier of a released claim.** Nothing wakes it when the key
becomes free. -/
theorem suspended_on_released_notifier :
    ∃ s s', run step new threeOwnersRun = some s ∧ s.calls 1 = .waiting sessionKey "t2" 0 ∧
      (s.inner.get sessionKey).map Claim.notify = some 1 ∧
      step s (.releaseOwner "t3") = some s' ∧ s'.inner.get sessionKey = none ∧
      s'.calls 1 = .waiting sessionKey "t2" 0 :=
  ⟨_, _, rfl, rfl, rfl, rfl, rfl, rfl⟩

/-- The second call suspends while the first claim stands. -/
def twoOwnersRun : List ClaimEvent :=
  [.acquire 0 sessionKey "t1", .lookup 0, .acquire 1 sessionKey "t2", .lookup 1, .enable 1,
    .recheck 1]

theorem nobodyBetween_twoOwnersRun : Meets step NobodyBetween new twoOwnersRun := by
  refine ⟨trivial, fun s₁ h₁ => ⟨?_, fun s₂ h₂ => ⟨trivial, fun s₃ h₃ => ⟨?_, fun _ _ => ⟨trivial,
    fun _ _ => ⟨trivial, fun _ _ => trivial⟩⟩⟩⟩⟩⟩
  · -- all other calls are idle
    cases h₁
    intro key owner _ _ other owner' n hother
    by_cases hne : other = 0
    · simp [moveTo, hne] at hother
    · simp [moveTo, new, hne] at hother
  · -- the key is not free
    cases h₁
    cases h₂
    cases h₃
    intro key owner hlooking hfree
    obtain ⟨rfl, -⟩ := AcquireCall.looking.inj hlooking
    cases hfree

/-- The release of the first owner wakes the second one. -/
theorem second_owner_woken :
    ∃ s s', run step new twoOwnersRun = some s ∧ s.calls 1 = .waiting sessionKey "t2" 0 ∧
      step s (.releaseOwner "t1") = some s' ∧ s.held = [(sessionKey, "t1")] ∧
      (∃ claim, s.inner.get sessionKey = some claim ∧ claim.notify = 0) ∧
      ∀ call owner n, s'.calls call ≠ .waiting sessionKey owner n := by
  obtain ⟨s, s', hrun, hwaiting, hstep, hheld, hget⟩ : ∃ s s', run step new twoOwnersRun = some s ∧
      s.calls 1 = .waiting sessionKey "t2" 0 ∧ step s (.releaseOwner "t1") = some s' ∧
      s.held = [(sessionKey, "t1")] ∧ s.inner.get sessionKey = some ⟨"t1", 0⟩ :=
    ⟨_, _, rfl, rfl, rfl, rfl, rfl⟩
  obtain ⟨hsuspended, hreleased⟩ := (claims_exclusive_and_woken hrun).2 nobodyBetween_twoOwnersRun
  exact ⟨s, s', hrun, hwaiting, hstep, hheld, hsuspended 1 sessionKey "t2" 0 hwaiting,
    hreleased sessionKey ⟨"t1", 0⟩ (.releaseOwner "t1") s' hget (.inr rfl) hstep⟩

end PrimaryKeyClaims

end KalamDB.Transactions
