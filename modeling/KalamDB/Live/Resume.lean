import KalamDB.Live.Delivery
import KalamDB.Live.ReplayCoverage
import Mathlib.Data.Set.List

/-!
# Resuming a subscription

A client that reconnects with a covered cursor gets the retained changes after it. They are handed
to the subscription that **the index finds** under the scope and the id that the client has chosen.
Ids are unique within a connection only. When another connection uses the same id on the same
scope, the index may come to that subscription first, and the replay goes there.

`resume_own_replay_iff` says exactly when a resumed subscription gets its own replay and nobody
else gets anything. It is about subscriptions that are indexed: one whose route denies every row is
not, and gets nothing.
-/

namespace KalamDB.Live

open Runs SuffixLog List Option SubscriptionFlowControl SubscriptionHandle

variable {J : Type}

/-! ### The index -/

structure LiveQueryId where
  userId : Raft.UserId
  connectionId : String
  subscriptionId : String
  deriving DecidableEq

/-- A subscription in the index of its scope: the user and the table, or a shared table. -/
structure IndexedSubscriber (J : Type) where
  liveId : LiveQueryId
  scope : ScopeKey
  handle : SubscriptionHandle J

def IndexedSubscriber.withHandle (subscriber : IndexedSubscriber J)
    (handle : SubscriptionHandle J) : IndexedSubscriber J :=
  { subscriber with handle := handle }

/-- Does the search for an id on a scope stop here? -/
def IndexedSubscriber.answers (subscriber : IndexedSubscriber J) (scope : ScopeKey)
    (subscriptionId : String) : Bool :=
  decide (subscriber.scope = scope) && subscriber.handle.subscriptionId == subscriptionId

variable (subscribers : List (IndexedSubscriber J))

/-- The first subscription of the scope with the id, in the order of the index. -/
def handleForSubscription (scope : ScopeKey)
    (subscriptionId : String) : Option (IndexedSubscriber J) :=
  subscribers.find? fun subscriber => subscriber.answers scope subscriptionId

/-- Change the state behind a handle. -/
def updateHandle (liveId : LiveQueryId)
    (f : SubscriptionHandle J → SubscriptionHandle J) : List (IndexedSubscriber J) :=
  subscribers.map fun subscriber =>
    if subscriber.liveId = liveId then subscriber.withHandle (f subscriber.handle)
    else subscriber

def SubscriptionHandle.updateSnapshotBoundaries (handle : SubscriptionHandle J)
    (snapshotEnd : Option VersionId) : SubscriptionHandle J :=
  { handle with flowControl := handle.flowControl.map fun flow =>
      flow.setSnapshotEndSeq snapshotEnd }

/-- **The resume.** The boundary is set on the subscription of the connection, the changes go to
the subscription that the index finds. -/
def resumeFromReplay (scalarValueToJson : ScalarValue → Except String J) (generation : ℕ)
    (replay : ReplayState) (subscribers : List (IndexedSubscriber J))
    (resumed : IndexedSubscriber J) (cursor : VersionId) :
    Except String (List (IndexedSubscriber J)) :=
  if !replay.covers resumed.scope cursor then
    .error "stale resume cursor expired; resubscribe without a resume token"
  else
    let subscribers := updateHandle subscribers resumed.liveId fun handle =>
      handle.updateSnapshotBoundaries (some cursor)
    let events := (replay.changesAfter resumed.scope cursor).getD []
    match handleForSubscription subscribers resumed.scope resumed.handle.subscriptionId with
    | some found => .ok (updateHandle subscribers found.liveId fun handle =>
        handle.deliverResumeEvents scalarValueToJson generation events)
    | none => .ok subscribers

/-! ### What a replay does to a subscription -/

namespace SubscriptionHandle

variable (scalarValueToJson : ScalarValue → Except String J) (generation : ℕ) {cursor : VersionId}
  {pending : List (BufferedNotification J)} {event : ChangeNotification}
  {handle : SubscriptionHandle J} {rest events : List ChangeNotification}
  {seen : VisibleChange × Row × Option Row} {notification : WireNotification J}

/-- The notifications of the changes that the subscription sees. -/
def replayed (handle : SubscriptionHandle J) (events : List ChangeNotification) :
    List (Except LiveError (BufferedNotification J)) :=
  events.filterMap fun event => (handle.sees generation event).map fun seen =>
    (handle.payload scalarValueToJson event seen).map fun payload =>
      ⟨versionOf event, ⟨handle.subscriptionId, payload⟩⟩

/-- A subscription that is loading its snapshot. -/
def loading (handle : SubscriptionHandle J) (cursor : VersionId)
    (pending : List (BufferedNotification J)) : SubscriptionHandle J :=
  { handle with flowControl := some ⟨.catchup, some cursor, pending⟩, isGapped := false }

variable {scalarValueToJson generation} (handle)

@[simp]
theorem sees_loading (cursor : VersionId) (pending : List (BufferedNotification J))
    (event : ChangeNotification) :
    (handle.loading cursor pending).sees generation event = handle.sees generation event := rfl

@[simp]
theorem payload_loading (cursor : VersionId) (pending : List (BufferedNotification J))
    (event : ChangeNotification) (seen : VisibleChange × Row × Option Row) :
    (handle.loading cursor pending).payload scalarValueToJson event seen =
      handle.payload scalarValueToJson event seen := rfl

/-- A new version goes into the buffer while there is room, and lapses the subscription when there
is none. -/
theorem tryDeliver_loading {version : VersionId} (notification : WireNotification J)
    (hafter : cursor < version) (hnew : ∀ item ∈ pending, item.seq ≠ some version) :
    (handle.loading cursor pending).tryDeliver notification (some version) =
      if pending.length < MAX_BUFFERED_NOTIFICATIONS_PER_SUBSCRIPTION then
        (false, handle.loading cursor (pending ++ [⟨some version, notification⟩]))
      else (false, { handle with
        flowControl := some ⟨.failed, some cursor, []⟩, isGapped := true }) := by
  have hisAfter : isAfter (some cursor) (some version) = true := by
    simp [isAfter, hafter]
  have hfresh : (pending.any fun item => item.seq == some version) = false := by
    simpa using hnew
  split
  · next hroom =>
    simp [tryDeliver, loading, accept, queueChange, hisAfter, hfresh, not_le.mpr hroom]
  rename_i hroom
  simp [tryDeliver, loading, accept, signalLapse, queueChange, hisAfter, hfresh, not_lt.mp hroom]

variable {handle}

theorem replayed_cons_of_none (h : handle.sees generation event = none) :
    handle.replayed scalarValueToJson generation (event :: rest) =
      handle.replayed scalarValueToJson generation rest := by
  simp [replayed, h]

theorem replayed_cons_of_some (h : handle.sees generation event = some seen) :
    handle.replayed scalarValueToJson generation (event :: rest) =
      ((handle.payload scalarValueToJson event seen).map fun payload =>
          ⟨versionOf event, ⟨handle.subscriptionId, payload⟩⟩) ::
        handle.replayed scalarValueToJson generation rest := by
  simp [replayed, h]

variable (scalarValueToJson generation) in
/-- One change of a replay: not seen, not convertible, or offered. -/
theorem deliverResumeEvents_cons_cases (handle : SubscriptionHandle J)
    (rest : List ChangeNotification) (hversion : (versionOf event).isSome = true) :
    (handle.sees generation event = none ∧
      handle.deliverResumeEvents scalarValueToJson generation (event :: rest) =
        handle.deliverResumeEvents scalarValueToJson generation rest) ∨
    ∃ seen, handle.sees generation event = some seen ∧
      ((∃ e, handle.payload scalarValueToJson event seen = .error e ∧
        handle.deliverResumeEvents scalarValueToJson generation (event :: rest) =
          handle.signalLapse) ∨
      ∃ payload, handle.payload scalarValueToJson event seen = .ok payload ∧
        handle.deliverResumeEvents scalarValueToJson generation (event :: rest) =
          (handle.tryDeliver ⟨handle.subscriptionId, payload⟩
            (versionOf event)).2.deliverResumeEvents scalarValueToJson generation rest) := by
  obtain ⟨version, hversion⟩ := isSome_iff_exists.mp hversion
  rw [deliverResumeEvents, hversion, if_neg (by simp), dispatchOne]
  cases handle.sees generation event with
  | none => exact .inl ⟨rfl, rfl⟩
  | some seen =>
    refine .inr ⟨seen, rfl, ?_⟩
    cases hpayload : handle.payload scalarValueToJson event seen with
    | error e => exact .inl ⟨e, rfl, by simp only [hpayload]⟩
    | ok payload => exact .inr ⟨payload, rfl, by simp only [hpayload, hversion]⟩

/-- A lapsed subscription takes no notice of anything. -/
theorem deliverResumeEvents_of_isGapped (hversions : ∀ e ∈ events, (versionOf e).isSome = true)
    (h : handle.isGapped = true) :
    handle.deliverResumeEvents scalarValueToJson generation events = handle := by
  have hlapse : handle.signalLapse = handle := by
    rw [signalLapse, ← h]
  induction events with
  | nil => rfl
  | cons event rest ih =>
    have ih := ih fun e he => hversions e (mem_cons_of_mem _ he)
    rcases deliverResumeEvents_cons_cases scalarValueToJson generation handle rest
      (hversions event mem_cons_self) with
      ⟨-, hstep⟩ | ⟨seen, -, ⟨e, -, hstep⟩ | ⟨payload, -, hstep⟩⟩
    · exact hstep.trans ih
    · exact hstep.trans hlapse
    · rw [hstep, tryDeliver, if_pos h]
      exact ih

/-- The retained changes after a cursor: later than the cursor, with different versions. -/
structure IsReplay (cursor : VersionId) (events : List ChangeNotification) : Prop where
  distinct : Distinct events
  isAfter : ∀ event ∈ events, ∃ version, versionOf event = some version ∧ cursor < version

theorem IsReplay.isSome (h : IsReplay cursor events) :
    ∀ e ∈ events, (versionOf e).isSome = true := by
  intro e he
  obtain ⟨version, hversion, -⟩ := h.isAfter e he
  rw [hversion, isSome_some]

section

variable (h : IsReplay cursor (event :: rest))
include h

theorem IsReplay.tail : IsReplay cursor rest where
  distinct := (pairwise_cons.mp h.distinct).2
  isAfter e he := h.isAfter e (mem_cons_of_mem _ he)

/-- One change of a replay, offered to a subscription that is loading. -/
theorem deliverResumeEvents_tryDeliver_loading (handle : SubscriptionHandle J)
    (notification : WireNotification J) (hnew : ∀ item ∈ pending, item.seq ≠ versionOf event) :
    ((handle.loading cursor pending).tryDeliver notification
        (versionOf event)).2.deliverResumeEvents scalarValueToJson generation rest =
      if pending.length < MAX_BUFFERED_NOTIFICATIONS_PER_SUBSCRIPTION then
        (handle.loading cursor (pending ++ [⟨versionOf event, notification⟩])).deliverResumeEvents
          scalarValueToJson generation rest
      else { handle with
        flowControl := some ⟨.failed, some cursor, []⟩, isGapped := true } := by
  obtain ⟨version, hversion, hlt⟩ := h.isAfter event mem_cons_self
  rw [hversion] at hnew ⊢
  rw [tryDeliver_loading handle _ hlt hnew]
  by_cases hroom : pending.length < MAX_BUFFERED_NOTIFICATIONS_PER_SUBSCRIPTION
  · rw [if_pos hroom, if_pos hroom]
  · rw [if_neg hroom, if_neg hroom]
    exact deliverResumeEvents_of_isGapped h.tail.isSome rfl

/-- The versions in the buffer stay apart from those still to come. -/
theorem seq_ne_of_append (hnew : ∀ e ∈ event :: rest, ∀ item ∈ pending, item.seq ≠ versionOf e) :
    ∀ e ∈ rest, ∀ item ∈ pending ++ [⟨versionOf event, notification⟩], item.seq ≠ versionOf e := by
  intro e he item hitem
  rcases mem_append.mp hitem with hitem | hitem
  · exact hnew e (mem_cons_of_mem _ he) item hitem
  obtain rfl := mem_singleton.mp hitem
  intro heq
  obtain ⟨version, hversion, -⟩ := h.isAfter event mem_cons_self
  exact (pairwise_cons.mp h.distinct).1 e he version hversion version (heq ▸ hversion) rfl

end

/-- **A replay fits** and is in the buffer afterwards, change by change, or it lapses the
subscription. -/
theorem deliverResumeEvents_loading_cases (h : IsReplay cursor events)
    (hnew : ∀ e ∈ events, ∀ item ∈ pending, item.seq ≠ versionOf e)
    (hpending : pending.length ≤ MAX_BUFFERED_NOTIFICATIONS_PER_SUBSCRIPTION) :
    (∃ queued : List (BufferedNotification J),
      handle.replayed scalarValueToJson generation events = queued.map .ok ∧
      pending.length + queued.length ≤ MAX_BUFFERED_NOTIFICATIONS_PER_SUBSCRIPTION ∧
      (handle.loading cursor pending).deliverResumeEvents scalarValueToJson generation events =
        handle.loading cursor (pending ++ queued)) ∨
    (((handle.loading cursor pending).deliverResumeEvents scalarValueToJson generation
        events).isGapped = true ∧
      ∀ queued : List (BufferedNotification J),
        handle.replayed scalarValueToJson generation events = queued.map .ok →
          MAX_BUFFERED_NOTIFICATIONS_PER_SUBSCRIPTION < pending.length + queued.length) := by
  induction events generalizing pending with
  | nil => exact .inl ⟨[], rfl, hpending, by rw [append_nil]; rfl⟩
  | cons event rest ih =>
    rcases deliverResumeEvents_cons_cases scalarValueToJson generation
      (handle.loading cursor pending) rest (h.isSome event mem_cons_self) with
      ⟨hsees, hstep⟩ | ⟨seen, hsees, ⟨e, hpayload, hstep⟩ | ⟨payload, hpayload, hstep⟩⟩ <;>
      rw [sees_loading] at hsees <;> rw [hstep]
    · rw [replayed_cons_of_none hsees]
      exact ih h.tail (fun e he => hnew e (mem_cons_of_mem _ he)) hpending
    · rw [replayed_cons_of_some hsees, ← payload_loading, hpayload]
      refine .inr ⟨rfl, fun queued hqueued => ?_⟩
      cases queued <;> cases hqueued
    · rw [replayed_cons_of_some hsees, ← payload_loading, hpayload,
        deliverResumeEvents_tryDeliver_loading h _ _ (hnew event mem_cons_self)]
      by_cases hroom : pending.length < MAX_BUFFERED_NOTIFICATIONS_PER_SUBSCRIPTION
      · rw [if_pos hroom]
        rcases ih h.tail (seq_ne_of_append h hnew) (by simp; omega) with
          ⟨queued, hqueued, hlength, heq⟩ | ⟨hgapped, hlong⟩
        · rw [length_append, length_singleton] at hlength
          rw [hqueued, heq, append_assoc]
          exact .inl ⟨_ :: queued, rfl, by rw [length_cons]; omega, rfl⟩
        · refine .inr ⟨hgapped, fun queued hqueued => ?_⟩
          cases queued with
          | nil => cases hqueued
          | cons item queued =>
            have hlong := hlong queued (cons.inj hqueued).2
            rw [length_append, length_singleton] at hlong
            rw [length_cons]
            omega
      · rw [if_neg hroom]
        refine .inr ⟨rfl, fun queued hqueued => ?_⟩
        cases queued with
        | nil => cases hqueued
        | cons item queued =>
          rw [length_cons]
          omega

/-! ### Subscriptions that a change leaves alone -/

/-- A notification of this version changes nothing: the connection is closed, or the change is in
the snapshot or in the buffer. -/
def isDeafTo (handle : SubscriptionHandle J) (seq : Option VersionId) : Bool :=
  match handle.flowControl with
  | none => handle.notificationTx.isClosed
  | some flow =>
    match flow.phase with
    | .failed => false
    | .live => handle.notificationTx.isClosed
    | .catchup => !SubscriptionFlowControl.isAfter flow.snapshotEnd seq ||
        (seq.isSome && flow.pending.any fun item => item.seq == seq)

variable (scalarValueToJson generation) in
/-- The subscription takes no notice of a change: it has lapsed, does not see the change, or is deaf
to it. -/
def Ignores (handle : SubscriptionHandle J) (change : ChangeNotification) : Prop :=
  handle.isGapped = false → ∀ seen, handle.sees generation change = some seen →
    (∃ payload, handle.payload scalarValueToJson change seen = .ok payload) ∧
      handle.isDeafTo (versionOf change) = true

/-- What a subscription has received and not lost. -/
def received (handle : SubscriptionHandle J) : ℕ :=
  handle.notificationTx.sent.length +
    (handle.flowControl.map fun flow => flow.pending.length).getD 0

/-- The channel is closed, or it is full, or it takes the notification. -/
theorem trySend_cases (tx : Channel J) (notification : WireNotification J) :
    (tx.isClosed = true ∧ tx.trySend notification = .error .closed) ∨
      tx.isClosed = false ∧ (tx.trySend notification = .error .full ∨
        ∃ tx', tx'.isClosed = false ∧ tx'.sent = tx.sent ++ [notification] ∧
          tx.trySend notification = .ok tx') := by
  unfold Channel.trySend
  cases hclosed : tx.isClosed with
  | true => exact .inl ⟨rfl, rfl⟩
  | false =>
    refine .inr ⟨rfl, ?_⟩
    rw [if_neg Bool.false_ne_true]
    split
    · exact .inl rfl
    · exact .inr ⟨_, rfl, rfl, rfl⟩

/-- A subscription without a buffer, or past it, sends a notification right away. -/
theorem tryDeliver_of_live (h : handle.isGapped = false)
    (hlive : ∀ flow ∈ handle.flowControl, flow.phase = .live)
    (notification : WireNotification J) (seq : Option VersionId) :
    (handle.notificationTx.isClosed = true ∧ (handle.tryDeliver notification seq).2 = handle) ∨
      handle.notificationTx.isClosed = false ∧
        ((handle.tryDeliver notification seq).2.isGapped = true ∨
          ∃ tx, tx.sent = handle.notificationTx.sent ++ [notification] ∧
            (handle.tryDeliver notification seq).2 = { handle with notificationTx := tx }) := by
  rcases trySend_cases handle.notificationTx notification with
    ⟨hclosed, hsend⟩ | ⟨hclosed, hsend | ⟨tx, -, hsent, hsend⟩⟩ <;>
    cases hflow : handle.flowControl <;>
    simp_all [tryDeliver, accept, sendLive, signalLapse]
  rw [← hflow, ← h]

/-- A notification to a subscription that has not lapsed: nothing changes, or it lapses, or it has
received one more. -/
theorem tryDeliver_cases (h : handle.isGapped = false) (notification : WireNotification J)
    (seq : Option VersionId) :
    (handle.isDeafTo seq = true ∧ (handle.tryDeliver notification seq).2 = handle) ∨
      (handle.isDeafTo seq = false ∧
        ((handle.tryDeliver notification seq).2.isGapped = true ∨
          ((handle.tryDeliver notification seq).2.isGapped = false ∧
            (handle.tryDeliver notification seq).2.received = handle.received + 1))) := by
  by_cases hlive : ∀ flow ∈ handle.flowControl, flow.phase = .live
  · have hdeaf : handle.isDeafTo seq = handle.notificationTx.isClosed := by
      cases hflow : handle.flowControl <;> simp_all [isDeafTo]
    rw [hdeaf]
    refine (tryDeliver_of_live h hlive notification seq).imp_right (And.imp_right fun hsent => ?_)
    refine hsent.imp_right fun ⟨tx, hsent, hnext⟩ => ?_
    rw [hnext]
    refine ⟨h, ?_⟩
    simp [received, hsent]
    omega
  have hopen : ¬handle.isGapped = true := by simp [h]
  rw [tryDeliver, if_neg hopen, isDeafTo]
  cases hflow : handle.flowControl with
  | none => simp [hflow] at hlive
  | some flow =>
    dsimp only
    rw [accept]
    cases hphase : flow.phase with
    | failed => exact .inr ⟨rfl, .inl rfl⟩
    | live => simp [hflow, hphase] at hlive
    | catchup =>
      rw [queueChange]
      by_cases hafter : isAfter flow.snapshotEnd seq = true
      · by_cases hqueued : (seq.isSome && flow.pending.any fun item => item.seq == seq) = true
        · simp [hafter, hqueued, ← hflow]
        by_cases hfull : MAX_BUFFERED_NOTIFICATIONS_PER_SUBSCRIPTION ≤ flow.pending.length
        · simp [hafter, hqueued, hfull, signalLapse]
        refine .inr ⟨by simp [hafter, hqueued], .inr ⟨?_, ?_⟩⟩
        · simp [hafter, hqueued, hfull, h]
        · simp [hafter, hqueued, hfull, received, hflow]
          omega
      · simp [hafter, ← hflow]

variable (scalarValueToJson generation) in
/-- Nothing that a subscription has received is lost unless it lapses. -/
theorem isGapped_or_received_le (hversions : ∀ e ∈ events, (versionOf e).isSome = true) :
    ∀ handle : SubscriptionHandle J,
      (handle.deliverResumeEvents scalarValueToJson generation events).isGapped = true ∨
        handle.received ≤
          (handle.deliverResumeEvents scalarValueToJson generation events).received := by
  induction events with
  | nil => exact fun handle => .inr le_rfl
  | cons event rest ih =>
    intro handle
    cases hgapped : handle.isGapped with
    | true =>
      rw [deliverResumeEvents_of_isGapped hversions hgapped]
      exact .inl hgapped
    | false =>
      obtain ⟨hsome, hrest⟩ := forall_mem_cons.mp hversions
      rcases deliverResumeEvents_cons_cases scalarValueToJson generation handle rest hsome with
        ⟨-, hstep⟩ | ⟨seen, -, ⟨e, -, hstep⟩ | ⟨payload, -, hstep⟩⟩ <;> rw [hstep]
      · exact ih hrest handle
      · exact .inl rfl
      · rcases tryDeliver_cases hgapped ⟨handle.subscriptionId, payload⟩ (versionOf event) with
          ⟨-, hsame⟩ | ⟨-, hlapsed | ⟨-, hmore⟩⟩
        · rw [hsame]
          exact ih hrest handle
        · rw [deliverResumeEvents_of_isGapped hrest hlapsed]
          exact .inl hlapsed
        · refine (ih hrest _).imp_right fun hle => ?_
          omega

/-- **When a replay leaves a subscription alone**: it takes no notice of any of the changes. -/
theorem deliverResumeEvents_eq_self_iff (hversions : ∀ e ∈ events, (versionOf e).isSome = true) :
    handle.deliverResumeEvents scalarValueToJson generation events = handle ↔
      ∀ e ∈ events, handle.Ignores scalarValueToJson generation e := by
  cases hgapped : handle.isGapped with
  | true =>
    refine ⟨fun _ e _ hopen => ?_, fun _ => deliverResumeEvents_of_isGapped hversions hgapped⟩
    rw [hgapped] at hopen
    cases hopen
  | false =>
    induction events with
    | nil => exact ⟨fun _ => nofun, fun _ => rfl⟩
    | cons event rest ih =>
      obtain ⟨hsome, hrest⟩ := forall_mem_cons.mp hversions
      have ih := ih hrest
      rw [forall_mem_cons]
      rcases deliverResumeEvents_cons_cases scalarValueToJson generation handle rest hsome with
        ⟨hsees, hstep⟩ | ⟨seen, hsees, ⟨e, hpayload, hstep⟩ | ⟨payload, hpayload, hstep⟩⟩
      · have hignores : handle.Ignores scalarValueToJson generation event := by
          intro _ seen hseen
          rw [hsees] at hseen
          cases hseen
        rw [hstep, ih]
        exact ⟨fun h => ⟨hignores, h⟩, And.right⟩
      · rw [hstep]
        constructor
        · intro heq
          rw [← heq] at hgapped
          cases hgapped
        · rintro ⟨hignores, -⟩
          obtain ⟨⟨payload, hok⟩, -⟩ := hignores hgapped seen hsees
          rw [hpayload] at hok
          cases hok
      rw [hstep]
      rcases tryDeliver_cases hgapped ⟨handle.subscriptionId, payload⟩ (versionOf event) with
        ⟨hdeaf, hsame⟩ | ⟨hhears, hchanged⟩
      · rw [hsame, ih]
        refine ⟨fun h => ⟨fun _ seen' hseen' => ?_, h⟩, And.right⟩
        obtain rfl := some.inj (hsees.symm.trans hseen')
        exact ⟨⟨payload, hpayload⟩, hdeaf⟩
      -- it lapses or has received one more, and neither is undone
      constructor
      · intro heq
        rcases hchanged with hlapsed | ⟨-, hmore⟩
        · rw [deliverResumeEvents_of_isGapped hrest hlapsed] at heq
          rw [heq, hgapped] at hlapsed
          cases hlapsed
        rcases isGapped_or_received_le scalarValueToJson generation hrest
          (handle.tryDeliver ⟨handle.subscriptionId, payload⟩ (versionOf event)).2 with
          hlapsed | hle
        · rw [heq, hgapped] at hlapsed
          cases hlapsed
        · rw [heq] at hle
          omega
      · rintro ⟨hignores, -⟩
        obtain ⟨-, hdeaf⟩ := hignores hgapped seen hsees
        rw [hhears] at hdeaf
        cases hdeaf

/-! ### Replays that fit -/

variable (scalarValueToJson generation) in
/-- Every change that the subscription sees can be converted, and all of them fit into its
buffer. -/
def Fits (handle : SubscriptionHandle J) (events : List ChangeNotification) : Prop :=
  (∀ e ∈ events, ∀ seen, handle.sees generation e = some seen →
    ∃ payload, handle.payload scalarValueToJson e seen = .ok payload) ∧
  (events.filter fun e => (handle.sees generation e).isSome).length ≤
    MAX_BUFFERED_NOTIFICATIONS_PER_SUBSCRIPTION

variable (scalarValueToJson generation) in
theorem length_replayed (handle : SubscriptionHandle J) (events : List ChangeNotification) :
    (handle.replayed scalarValueToJson generation events).length =
      (events.filter fun e => (handle.sees generation e).isSome).length := by
  induction events with
  | nil => rfl
  | cons event rest ih =>
    cases hsees : handle.sees generation event with
    | none => simp [replayed_cons_of_none hsees, hsees, ih]
    | some seen => simp [replayed_cons_of_some hsees, hsees, ih]

variable (scalarValueToJson) in
theorem replayed_eq_nil_iff :
    handle.replayed scalarValueToJson generation events = [] ↔
      ∀ e ∈ events, handle.sees generation e = none := by
  simp [replayed]

theorem fits_iff :
    handle.Fits scalarValueToJson generation events ↔
      ∃ queued : List (BufferedNotification J),
        handle.replayed scalarValueToJson generation events = queued.map .ok ∧
          queued.length ≤ MAX_BUFFERED_NOTIFICATIONS_PER_SUBSCRIPTION := by
  rw [Fits, ← length_replayed scalarValueToJson generation]
  constructor
  · rintro ⟨hconverts, hlength⟩
    have hrange : ∀ x ∈ handle.replayed scalarValueToJson generation events,
        ∃ item, Except.ok item = x := by
      intro x hx
      simp only [replayed, mem_filterMap, map_eq_some_iff] at hx
      obtain ⟨e, he, seen, hsees, rfl⟩ := hx
      obtain ⟨payload, hpayload⟩ := hconverts e he seen hsees
      rw [hpayload]
      exact ⟨_, rfl⟩
    obtain ⟨queued, hqueued⟩ : handle.replayed scalarValueToJson generation events ∈
        Set.range (map Except.ok) := by
      rw [Set.range_list_map]
      exact hrange
    refine ⟨queued, hqueued.symm, ?_⟩
    rwa [← hqueued, length_map] at hlength
  · rintro ⟨queued, hqueued, hlength⟩
    refine ⟨fun e he seen hsees => ?_, by rwa [hqueued, length_map]⟩
    cases hpayload : handle.payload scalarValueToJson e seen with
    | ok payload => exact ⟨payload, rfl⟩
    | error err =>
      have hmem : .error err ∈ handle.replayed scalarValueToJson generation events := by
        simp only [replayed, mem_filterMap, map_eq_some_iff]
        exact ⟨e, he, seen, hsees, by rw [hpayload]; rfl⟩
      rw [hqueued] at hmem
      simp at hmem

end SubscriptionHandle

/-! ### Whose replay it is -/

theorem updateHandle_of_notMem {subscribers : List (IndexedSubscriber J)} {liveId : LiveQueryId}
    (h : liveId ∉ subscribers.map IndexedSubscriber.liveId)
    (f : SubscriptionHandle J → SubscriptionHandle J) :
    updateHandle subscribers liveId f = subscribers := by
  refine (map_congr_left fun subscriber hmem => ?_).trans (map_id _)
  refine if_neg fun heq => h ?_
  exact heq ▸ mem_map_of_mem hmem

/-- The update of a subscription in the middle of the index. -/
theorem updateHandle_middle {before behind : List (IndexedSubscriber J)}
    {subscriber : IndexedSubscriber J}
    (h : ((before ++ subscriber :: behind).map IndexedSubscriber.liveId).Nodup)
    (f : SubscriptionHandle J → SubscriptionHandle J) :
    updateHandle (before ++ subscriber :: behind) subscriber.liveId f =
      before ++ subscriber.withHandle (f subscriber.handle) :: behind := by
  rw [map_append, nodup_append] at h
  obtain ⟨-, hbehind, hbefore⟩ := h
  have hnot : subscriber.liveId ∉ before.map IndexedSubscriber.liveId := fun hmem =>
    hbefore _ hmem _ mem_cons_self rfl
  have hleft := updateHandle_of_notMem hnot f
  have hright := updateHandle_of_notMem (nodup_cons.mp hbehind).1 f
  unfold updateHandle at hleft hright ⊢
  rw [map_append, map_cons, hleft, hright, if_pos rfl]

section Resume

variable (scalarValueToJson : ScalarValue → Except String J) (generation : ℕ)
  (replay : ReplayState) (before behind : List (IndexedSubscriber J))
  (own : IndexedSubscriber J) (cursor : VersionId)

/-- The log when it is bound to the table that a subscription has found. -/
def World.boundLog (w : World) (key : ScopeKey) : ReplayState :=
  w.log.bindDomain key (w.scope key).domain

/-- The retained changes after the cursor. -/
def retained : List ChangeNotification := (replay.changesAfter own.scope cursor).getD []

/-- **The resumed subscription gets its own replay**: afterwards its buffer holds all retained
changes that it sees, in order, and every other subscription is as it was. -/
def GetsOwnReplay : Prop :=
  ∃ queued : List (BufferedNotification J),
    own.handle.replayed scalarValueToJson generation (retained replay own cursor) =
        queued.map .ok ∧
      resumeFromReplay scalarValueToJson generation replay (before ++ own :: behind) own cursor =
        .ok (before ++ own.withHandle (own.handle.loading cursor queued) :: behind)

/-- **The condition.** No subscription of the scope that the index visits earlier has the same id,
and the replay fits. If there is one, the first of them must take no notice of the retained changes
and the resumed subscription must not see any of them. -/
def KeepsApart : Prop :=
  match before.find? fun s => s.answers own.scope own.handle.subscriptionId with
  | none => own.handle.Fits scalarValueToJson generation (retained replay own cursor)
  | some twin =>
    (∀ e ∈ retained replay own cursor, own.handle.sees generation e = none) ∧
      ∀ e ∈ retained replay own cursor, twin.handle.Ignores scalarValueToJson generation e

variable {scalarValueToJson generation replay before behind own cursor}

theorem isReplay_retained (hdistinct : Distinct (replay.recorded own.scope)) :
    SubscriptionHandle.IsReplay cursor (retained replay own cursor) := by
  unfold retained ReplayState.changesAfter
  cases hlog : replay.scopes.lookup own.scope with
  | none => exact ⟨List.Pairwise.nil, nofun⟩
  | some log =>
    have hrecorded : replay.recorded own.scope = log.recorded := by
      simp [ReplayState.recorded, hlog]
    rw [hrecorded] at hdistinct
    simp only [bind_eq_bind, bind_some]
    split
    · rw [ScopeLog.changesAfter_eq]
      refine ⟨List.Pairwise.filter _ hdistinct, fun e he => ?_⟩
      obtain ⟨-, version, hversion, hlt⟩ := mem_after.mp he
      exact ⟨version, hversion, hlt⟩
    · exact ⟨List.Pairwise.nil, nofun⟩

section

variable (hcovers : replay.covers own.scope cursor = true)
  (hnodup : ((before ++ own :: behind).map IndexedSubscriber.liveId).Nodup)
  (hflow : own.handle.flowControl = some SubscriptionFlowControl.new)
  (hgapped : own.handle.isGapped = false)
include hcovers hnodup hflow hgapped

open IndexedSubscriber

/-- The replay goes to the first subscription with the id: an earlier one, or the own. -/
theorem resumeFromReplay_eq :
    resumeFromReplay scalarValueToJson generation replay (before ++ own :: behind) own cursor =
      .ok (match before.find? fun s => s.answers own.scope own.handle.subscriptionId with
        | none => before ++ own.withHandle ((own.handle.loading cursor []).deliverResumeEvents
            scalarValueToJson generation (retained replay own cursor)) :: behind
        | some twin => updateHandle
            (before ++ own.withHandle (own.handle.loading cursor []) :: behind) twin.liveId
            fun handle => handle.deliverResumeEvents scalarValueToJson generation
              (retained replay own cursor)) := by
  have hown : updateHandle (before ++ own :: behind) own.liveId
      (fun handle => handle.updateSnapshotBoundaries (some cursor)) =
        before ++ own.withHandle (own.handle.loading cursor []) :: behind := by
    rw [updateHandle_middle hnodup, updateSnapshotBoundaries, loading, hflow, ← hgapped]
    rfl
  have hanswers : (own.withHandle (own.handle.loading cursor [])).answers own.scope
      own.handle.subscriptionId = true := by
    simp [answers, withHandle, loading]
  unfold resumeFromReplay
  rw [hcovers]
  simp only [Bool.not_true, Bool.false_eq_true, if_false, hown]
  rw [handleForSubscription, find?_append]
  cases before.find? fun s => s.answers own.scope own.handle.subscriptionId with
  | some twin => rfl
  | none =>
    rw [find?_cons, hanswers]
    have hnodup' : ((before ++ own.withHandle (own.handle.loading cursor []) :: behind).map
        liveId).Nodup := by
      simpa [withHandle] using hnodup
    exact congrArg _ (updateHandle_middle hnodup' _)

theorem getsOwnReplay_iff_keepsApart (hdistinct : Distinct (replay.recorded own.scope)) :
    GetsOwnReplay scalarValueToJson generation replay before behind own cursor ↔
      KeepsApart scalarValueToJson generation replay before own cursor := by
  have hreplay : SubscriptionHandle.IsReplay cursor (retained replay own cursor) :=
    isReplay_retained hdistinct
  have hnone : ∀ e ∈ retained replay own cursor, ∀ item ∈ ([] : List (BufferedNotification J)),
      item.seq ≠ versionOf e := fun _ _ => nofun
  unfold GetsOwnReplay KeepsApart
  rw [resumeFromReplay_eq hcovers hnodup hflow hgapped]
  cases htwin : before.find? fun s => s.answers own.scope own.handle.subscriptionId with
  | none =>
    rw [fits_iff]
    rcases deliverResumeEvents_loading_cases hreplay hnone (Nat.zero_le _) with
      ⟨queued, hqueued, hlength, heq⟩ | ⟨hlapsed, hlong⟩
    · rw [length_nil, Nat.zero_add] at hlength
      exact iff_of_true ⟨queued, hqueued, by rw [heq, nil_append]⟩ ⟨queued, hqueued, hlength⟩
    · refine iff_of_false ?_ ?_
      · rintro ⟨queued, -, heq⟩
        have hhandle : (own.handle.loading cursor []).deliverResumeEvents scalarValueToJson
            generation (retained replay own cursor) = own.handle.loading cursor queued := by
          simpa [withHandle] using heq
        rw [hhandle] at hlapsed
        cases hlapsed
      · rintro ⟨queued, hqueued, hlength⟩
        have hlong := hlong queued hqueued
        rw [length_nil] at hlong
        omega
  | some twin =>
    dsimp only
    obtain ⟨earlier, later, rfl⟩ := append_of_mem (mem_of_find?_eq_some htwin)
    have hnodup' : ((earlier ++ twin :: (later ++ own.withHandle (own.handle.loading cursor []) ::
        behind)).map liveId).Nodup := by
      simpa [withHandle] using hnodup
    rw [← deliverResumeEvents_eq_self_iff hreplay.isSome, ← replayed_eq_nil_iff scalarValueToJson]
    simp only [append_assoc, cons_append, updateHandle_middle hnodup']
    constructor
    · rintro ⟨queued, hqueued, heq⟩
      obtain ⟨htwin', hrest⟩ := cons.inj (append_cancel_left (Except.ok.inj heq))
      obtain ⟨hown, -⟩ := cons.inj (append_cancel_left hrest)
      have hflows : some (⟨.catchup, some cursor, []⟩ : SubscriptionFlowControl J) =
          some ⟨.catchup, some cursor, queued⟩ :=
        congrArg (fun s => s.handle.flowControl) hown
      have hpending : [] = queued := congrArg pending (some.inj hflows)
      refine ⟨?_, congrArg handle htwin'⟩
      rw [hqueued, ← hpending, map_nil]
    · rintro ⟨hnil, htwin'⟩
      refine ⟨[], hnil, ?_⟩
      rw [htwin']
      rfl

end

/-- **Whose replay it is.** In every reached state of the log, a resumed subscription with a covered
cursor gets its own replay and nobody else gets anything, exactly when the index keeps it apart. -/
theorem resume_own_replay_iff {w w' : World} {events : List Event}
    (hnew : w.log = ReplayState.new) (hrun : run step w events = some w')
    (hcovers : (w'.boundLog own.scope).covers own.scope cursor = true)
    (hnodup : ((before ++ own :: behind).map IndexedSubscriber.liveId).Nodup)
    (hflow : own.handle.flowControl = some SubscriptionFlowControl.new)
    (hgapped : own.handle.isGapped = false) :
    GetsOwnReplay scalarValueToJson generation (w'.boundLog own.scope) before behind own cursor ↔
      KeepsApart scalarValueToJson generation (w'.boundLog own.scope) before own cursor :=
  getsOwnReplay_iff_keepsApart hcovers hnodup hflow hgapped
    (distinct_recorded_of_run hnew hrun own.scope)

end Resume

/-! ### A namesake -/

/-- A subscription to all rows of the table, with an open connection. -/
def subscriber (userId connectionId subscriptionId : String)
    (flow : SubscriptionFlowControl ScalarValue) : IndexedSubscriber ScalarValue where
  liveId := ⟨userId, connectionId, subscriptionId⟩
  scope := itemsKey
  handle := ⟨subscriptionId, none, none, none, ⟨8192, false, []⟩, some flow, false⟩

/-- One user is already live under the id that another one resumes with. -/
def bob : IndexedSubscriber ScalarValue := subscriber "bob" "c1" "items" ⟨.live, none, []⟩

def ann : IndexedSubscriber ScalarValue := subscriber "ann" "c2" "items" .new

/-- How many notifications a subscription has sent and buffered. -/
def counts (s : IndexedSubscriber ScalarValue) : String × ℕ × ℕ :=
  (s.liveId.userId, s.handle.notificationTx.sent.length,
    (s.handle.flowControl.map fun flow => flow.pending.length).getD 0)

/-- **The replay goes to a namesake.** Both subscriptions are called `items`. The index comes to the
other user first: the change is sent there, and the resumed subscription gets nothing. -/
theorem replay_goes_to_namesake :
    ∃ w', run step restarted subscribeToAll = some w' ∧
      (w'.boundLog itemsKey).covers itemsKey ⟨20, by decide⟩ = true ∧
      retained (w'.boundLog itemsKey) ann ⟨20, by decide⟩ = [inserted 3 "ann" 30] ∧
      (ann.handle.sees 0 (inserted 3 "ann" 30)).isSome = true ∧
      (∃ subscribers, resumeFromReplay .ok 0 (w'.boundLog itemsKey) [bob, ann] ann
          ⟨20, by decide⟩ = .ok subscribers ∧
        subscribers.map counts = [("bob", 1, 0), ("ann", 0, 0)]) ∧
      ¬GetsOwnReplay .ok 0 (w'.boundLog itemsKey) [bob] [] ann ⟨20, by decide⟩ := by
  refine ⟨_, rfl, by decide, by decide, by decide, ⟨_, rfl, by decide⟩, ?_⟩
  rintro ⟨queued, -, hresume⟩
  -- in the index as it should be, nothing has been sent to the other user
  have hsent : [("bob", 1, 0), ("ann", 0, 0)] =
      [("bob", 0, 0), counts (ann.withHandle (ann.handle.loading ⟨20, by decide⟩ queued))] :=
    congrArg (map counts) (Except.ok.inj hresume)
  simp at hsent

/-- A subscription under another id. -/
def carl : IndexedSubscriber ScalarValue := subscriber "carl" "c3" "mine" ⟨.live, none, []⟩

theorem resume_own_replay_beside_carl :
    ∃ w', run step restarted subscribeToAll = some w' ∧
      GetsOwnReplay .ok 0 (w'.boundLog itemsKey) [carl] [] ann ⟨20, by decide⟩ := by
  have hrun : run step restarted subscribeToAll = some _ := rfl
  refine ⟨_, hrun, (resume_own_replay_iff rfl hrun (by decide) (by decide) rfl rfl).mpr ?_⟩
  refine ⟨fun e he seen hseen => ?_, by decide⟩
  obtain rfl := mem_singleton.mp he
  obtain rfl : (VisibleChange.insert, (inserted 3 "ann" 30).rowData, none) = seen := some.inj hseen
  exact ⟨_, rfl⟩

end KalamDB.Live
