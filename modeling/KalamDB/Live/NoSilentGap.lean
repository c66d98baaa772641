import KalamDB.Live.Dispatch
import KalamDB.Live.Resume

/-!
# Gaps in live delivery

Changes of a table wait in the queue of a worker, which offers them to the subscriptions. A change
that does not fit the queue, and a notification that does not fit the channel, **lapse** the
subscriptions concerned.

A subscription is bound to the policies and memberships of the moment when it was registered. After
any change of them its authorization is stale and fails closed: it gets nothing any more, also no
rows that it may still see, and no lapse is claimed (`stale_authorization_misses_change`).

Apart from that, `live_delivery_up_to_date` says that nothing is lost in silence: a subscription
that has loaded its snapshot has lapsed, or has lost its connection, or has been sent exactly what
it was to see, in order. It asks three things of a run. Changes convert for those who see them. They
are under the routes of those whom they concern, as the routes of `live_route` see to unless a zero
is lost (`offers_of_liveRoute`). And memberships are written under the **mutation guard**: without
it no generation is raised, and nobody learns that they are stale.
-/

namespace KalamDB.Live.Fanout

open Runs List SubscriptionFlowControl SubscriptionHandle LiveRoute Option

variable {J : Type} (flow : SubscriptionFlowControl J) (notification : WireNotification J)

/-! ### Subscribers and changes -/

/-- A subscription on the table. After its initial load, `owed` lists all it should have been
sent. -/
structure Subscriber (J : Type) where
  liveId : LiveQueryId
  route : LiveRoute
  handle : SubscriptionHandle J
  owed : Option (List (Except LiveError (WireNotification J)))

namespace Subscriber

def withHandle (s : Subscriber J) (handle : SubscriptionHandle J) : Subscriber J :=
  { s with handle := handle }

def owe (s : Subscriber J) (due : List (Except LiveError (WireNotification J))) : Subscriber J :=
  { s with owed := s.owed.map (· ++ due) }

end Subscriber

/-- One table: whether it is shared, the current policies and memberships with their generation, the
subscriptions in the order of the index, and the queue of the worker. -/
structure World (J : Type) where
  isShared : Bool
  generation : ℕ
  permits : LiveQueryId → Authorization
  subscribers : List (Subscriber J)
  queue : List ChangeNotification

inductive Event (J : Type) where
  | register (liveId : LiveQueryId) (filterExpr : Option LiveFilter)
    (projections : Option (List String)) (initialData : Bool) (room : ℕ)
  | unregister (liveId : LiveQueryId)
  /-- The index is visited in another order. -/
  | rehash (positions : List ℕ)
  | updateSnapshotBoundaries (liveId : LiveQueryId) (snapshotEnd : Option VersionId)
  | completeInitialLoad (liveId : LiveQueryId)
  /-- Policies or memberships change, under the mutation guard or without it. -/
  | mutateAuthorization (permits : LiveQueryId → Authorization) (isGuarded : Bool)
  /-- The client reads from its channel, which has more room. -/
  | drain (liveId : LiveQueryId) (room : ℕ)
  | disconnect (liveId : LiveQueryId)
  | notifyAsync (change : ChangeNotification) (isFull : Bool)
  /-- The worker processes the first change of its queue. -/
  | processNotification

/-- Send the buffered changes. A failure is a lapse. -/
def completeInitialLoad (handle : SubscriptionHandle J) : SubscriptionHandle J :=
  match handle.flowControl with
  | none => handle
  | some flow =>
    match flow.finish handle.notificationTx with
    | (.ok _, flow, tx) => { handle with flowControl := some flow, notificationTx := tx }
    | (.error _, flow, tx) =>
      { handle with flowControl := some flow, notificationTx := tx }.signalLapse

/-- Is the initial load finished? -/
def isLoaded (handle : SubscriptionHandle J) : Bool :=
  handle.flowControl.all fun flow => flow.phase == .live

/-- Change one subscriber. -/
def updateSubscriber (subscribers : List (Subscriber J)) (liveId : LiveQueryId)
    (f : Subscriber J → Subscriber J) : List (Subscriber J) :=
  subscribers.map fun s => if s.liveId = liveId then f s else s

/-- The handles after a fan-out, back at the candidates. -/
def writeBack (change : ChangeNotification) :
    List (Subscriber J) → List (SubscriptionHandle J) → List (Subscriber J)
  | [], _ => []
  | s :: rest, handles =>
    if s.route.offers change then
      match handles with
      | handle :: handles => s.withHandle handle :: writeBack change rest handles
      | [] => s :: writeBack change rest []
    else s :: writeBack change rest handles

/-- **What a subscriber may see now**: rows that match its filter and that the current policies
permit, as long as these are the ones it was bound to. -/
def World.maySee (w : World J) (s : Subscriber J) (row : Row) : Bool :=
  (s.handle.authorization.all fun authorization =>
    authorization.isCurrent w.generation && (w.permits s.liveId).allows row) &&
  s.handle.filterExpr.all fun filter =>
    match filter.evaluate row with
    | .ok b => b
    | .error _ => false

section Step

variable (scalarValueToJson : ScalarValue → Except String J) (w : World J)

/-- What a subscriber is to be sent of a change. -/
def World.due (s : Subscriber J) (change : ChangeNotification) :
    List (Except LiveError (WireNotification J)) :=
  match visibleChange (w.maySee s) change.changeType change.rowData change.oldData with
  | none => []
  | some seen => [(s.handle.payload scalarValueToJson change seen).map fun payload =>
      ⟨s.handle.subscriptionId, payload⟩]

/-- Lapse the subscriptions of the index. Denied ones are not in it. -/
def lapseScope (subscribers : List (Subscriber J)) : List (Subscriber J) :=
  subscribers.map fun s => if s.route = .deny then s else s.withHandle s.handle.signalLapse

/-- Offer a change to its candidates. -/
def dispatch (generation : ℕ) (change : ChangeNotification) (subscribers : List (Subscriber J)) :
    List (Subscriber J) :=
  let candidates := subscribers.filter fun s => s.route.offers change
  writeBack change subscribers
    (dispatchToSubscribers scalarValueToJson generation change
      (candidates.map Subscriber.handle)).2

def World.newSubscriber (liveId : LiveQueryId) (filterExpr : Option LiveFilter)
    (projections : Option (List String)) (initialData : Bool) (room : ℕ) : Subscriber J where
  liveId := liveId
  route := if w.isShared then (w.permits liveId).route else .broadcast
  handle :=
    { subscriptionId := liveId.subscriptionId
      filterExpr := filterExpr
      authorization :=
        if w.isShared then some ⟨w.generation, (w.permits liveId).allows⟩ else none
      projections := projections
      notificationTx := ⟨room, false, []⟩
      flowControl := if initialData then some .new else none
      isGapped := false }
  owed := if initialData then none else some []

def step : Event J → Option (World J)
  | .register liveId filterExpr projections initialData room =>
    let added := w.newSubscriber liveId filterExpr projections initialData room
    some { w with
      subscribers := w.subscribers.filter (fun s => decide (s.liveId ≠ liveId)) ++ [added] }
  | .unregister liveId =>
    some { w with subscribers := w.subscribers.filter fun s => decide (s.liveId ≠ liveId) }
  | .rehash positions =>
    if positions.Perm (List.range w.subscribers.length) then
      some { w with subscribers := positions.filterMap fun i => w.subscribers[i]? }
    else none
  | .updateSnapshotBoundaries liveId snapshotEnd =>
    some { w with subscribers := updateSubscriber w.subscribers liveId fun s =>
      s.withHandle (s.handle.updateSnapshotBoundaries snapshotEnd) }
  | .completeInitialLoad liveId =>
    some { w with subscribers := updateSubscriber w.subscribers liveId fun s =>
      let handle := completeInitialLoad s.handle
      { s with
        handle := handle
        owed := s.owed.or
          (if isLoaded handle then some (handle.notificationTx.sent.map .ok) else none) } }
  | .mutateAuthorization permits isGuarded =>
    some { w with
      generation := if isGuarded then w.generation + 1 else w.generation
      permits := permits }
  | .drain liveId room =>
    some { w with subscribers := updateSubscriber w.subscribers liveId fun s =>
      s.withHandle { s.handle with
        notificationTx := { s.handle.notificationTx with room := room } } }
  | .disconnect liveId =>
    some { w with subscribers := updateSubscriber w.subscribers liveId fun s =>
      s.withHandle { s.handle with
        notificationTx := { s.handle.notificationTx with isClosed := true } } }
  | .notifyAsync change isFull =>
    if isFull then
      let owing := w.subscribers.map fun s => s.owe (w.due scalarValueToJson s change)
      some { w with subscribers := lapseScope owing }
    else some { w with queue := w.queue ++ [change] }
  | .processNotification =>
    match w.queue with
    | [] => none
    | change :: rest =>
      let owing := w.subscribers.map fun s => s.owe (w.due scalarValueToJson s change)
      some { w with
        queue := rest
        subscribers := dispatch scalarValueToJson w.generation change owing }

/-- The policies that the subscriber is bound to let no row of the change through. -/
def Subscriber.Unconcerned (s : Subscriber J) (change : ChangeNotification) : Prop :=
  ∀ a ∈ s.handle.authorization, ∀ row ∈ change.rowData :: change.oldData.toList,
    a.allows row = false

/-- A change that is processed converts for the candidates that see it, and does not concern the
others; a change that is dropped does not concern those who are denied everything; memberships
change under the guard. -/
def Undamaged : Event J → Prop
  | .processNotification => ∀ change rest, w.queue = change :: rest → ∀ s ∈ w.subscribers,
      (s.route.offers change = true → s.handle.Converts scalarValueToJson w.generation change) ∧
        (s.route.offers change = false → s.Unconcerned change)
  | .notifyAsync change true => ∀ s ∈ w.subscribers, s.route = .deny → s.Unconcerned change
  | .mutateAuthorization _ isGuarded => isGuarded = true
  | _ => True

end Step

/-- **Nothing is missing in silence**: the subscription has lapsed, or lost its connection, or was
sent what it was owed. -/
def Subscriber.UpToDate (s : Subscriber J) : Prop :=
  ∀ owed ∈ s.owed, s.handle.isGapped = true ∨ s.handle.notificationTx.isClosed = true ∨
    s.handle.notificationTx.sent.map .ok = owed

/-! ### One subscription -/

/-- A subscription that is past its initial load, with nothing left in the buffer. -/
def IsLive (handle : SubscriptionHandle J) : Prop :=
  ∀ flow ∈ handle.flowControl, flow.phase = .live ∧ flow.pending = []

/-- The handle accounts for all that is owed. -/
def Delivered (handle : SubscriptionHandle J)
    (owed : List (Except LiveError (WireNotification J))) : Prop :=
  handle.isGapped = true ∨ handle.notificationTx.isClosed = true ∨
    (IsLive handle ∧ handle.notificationTx.sent.map .ok = owed)

theorem isClosed_sendLive
    (tx : Channel J) : (flow.sendLive notification tx).2.2.isClosed = tx.isClosed := by
  rw [sendLive]
  rcases trySend_cases tx notification with
    ⟨-, hsend⟩ | ⟨hopen, hsend | ⟨tx', hopen', -, hsend⟩⟩ <;> rw [hsend]
  exact hopen'.trans hopen.symm

theorem isClosed_accept (seq : Option VersionId) (tx : Channel J) :
    (flow.accept notification seq tx).2.2.isClosed = tx.isClosed := by
  fun_cases accept flow notification seq tx with
  | case2 => exact isClosed_sendLive flow notification tx
  | _ => rfl

section TryDeliver

variable (handle : SubscriptionHandle J) (notification : WireNotification J)
  (seq : Option VersionId)

theorem tryDeliver_fields :
    (handle.tryDeliver notification seq).2.authorization = handle.authorization ∧
      (handle.tryDeliver notification seq).2.notificationTx.isClosed =
        handle.notificationTx.isClosed := by
  unfold tryDeliver
  split
  · exact ⟨rfl, rfl⟩
  split
  · next flow hflow =>
    have haccept := isClosed_accept flow notification seq handle.notificationTx
    dsimp only
    split <;> exact ⟨rfl, haccept⟩
  · rcases trySend_cases handle.notificationTx notification with
      ⟨-, hsend⟩ | ⟨hopen, hsend | ⟨tx', hopen', -, hsend⟩⟩ <;> rw [hsend]
    · exact ⟨rfl, rfl⟩
    · exact ⟨rfl, rfl⟩
    · exact ⟨rfl, hopen'.trans hopen.symm⟩

end TryDeliver

section Dispatch

variable {scalarValueToJson : ScalarValue → Except String J} {generation : ℕ}
  {handle : SubscriptionHandle J} {change : ChangeNotification}
  {owed : List (Except LiveError (WireNotification J))}

variable (scalarValueToJson generation handle change) in
/-- What a subscription is sent of a change, as it sees it. -/
def seenOf : List (Except LiveError (WireNotification J)) :=
  match handle.sees generation change with
  | none => []
  | some seen => [(handle.payload scalarValueToJson change seen).map fun payload =>
      ⟨handle.subscriptionId, payload⟩]

theorem authorization_dispatchOne
    (hconverts : handle.Converts scalarValueToJson generation change) :
    (handle.dispatchOne scalarValueToJson generation change).2.authorization =
      handle.authorization := by
  cases hsees : handle.sees generation change with
  | none => rw [dispatchOne_of_sees_none hsees]
  | some seen =>
    obtain ⟨payload, hpayload⟩ := hconverts seen hsees
    rw [dispatchOne_of_payload hsees hpayload]
    exact (tryDeliver_fields handle _ _).1

/-- **One change**: what the subscription sees of it is sent, if it converts. -/
theorem Delivered.dispatchOne (h : Delivered handle owed)
    (hconverts : handle.Converts scalarValueToJson generation change) :
    Delivered (handle.dispatchOne scalarValueToJson generation change).2
      (owed ++ seenOf scalarValueToJson generation handle change) := by
  unfold seenOf
  cases hsees : handle.sees generation change with
  | none =>
    rw [dispatchOne_of_sees_none hsees, append_nil]
    exact h
  | some seen =>
    obtain ⟨payload, hpayload⟩ := hconverts seen hsees
    rw [dispatchOne_of_payload hsees hpayload]
    dsimp only
    rw [hpayload]
    cases hgapped : handle.isGapped with
    | true =>
      rw [tryDeliver, if_pos hgapped]
      exact .inl hgapped
    | false =>
      cases hclosed : handle.notificationTx.isClosed with
      | true =>
        refine .inr (.inl ?_)
        rw [(tryDeliver_fields _ _ _).2, hclosed]
      | false =>
        rcases h with h | h | ⟨hlive, hsent⟩
        · rw [hgapped] at h
          cases h
        · rw [hclosed] at h
          cases h
        rcases tryDeliver_of_live hgapped (fun flow hflow => (hlive flow hflow).1) _ _ with
          ⟨h, -⟩ | ⟨-, hlapsed | ⟨tx, htx, hnext⟩⟩
        · rw [hclosed] at h
          cases h
        · exact .inl hlapsed
        · rw [hnext]
          refine .inr (.inr ⟨hlive, ?_⟩)
          rw [htx, map_append, hsent]
          rfl

end Dispatch

/-! ### The initial load -/

section

variable (flow : SubscriptionFlowControl J) (tx : Channel J)

theorem finish_sendPending (sent : ℕ) (items : List (BufferedNotification J)) :
    (flow.sendPending tx sent items).2.1.pending = flow.pending ∧
      (flow.sendPending tx sent items).2.2.isClosed = tx.isClosed := by
  induction items generalizing flow tx sent with
  | nil => exact ⟨rfl, rfl⟩
  | cons item rest ih =>
    have hclosed := isClosed_sendLive flow item.notification tx
    have hpending : (flow.sendLive item.notification tx).2.1.pending = flow.pending := by
      unfold sendLive
      split <;> rfl
    unfold sendPending
    split <;> rename_i hsend <;> rw [hsend] at hpending hclosed
    · exact ⟨hpending, hclosed⟩
    · exact ⟨hpending, hclosed⟩
    · exact ⟨(ih _ _ _).1.trans hpending, (ih _ _ _).2.trans hclosed⟩

theorem isClosed_finish : (flow.finish tx).2.2.isClosed = tx.isClosed := by
  unfold finish
  split
  · rfl
  all_goals exact (finish_sendPending _ _ _ _).2

theorem pending_finish (h : (flow.finish tx).2.1.phase = .live) :
    (flow.finish tx).2.1.pending = [] := by
  unfold finish at h ⊢
  split at h
  · next hphase =>
    rw [hphase] at h
    cases h
  all_goals exact (finish_sendPending _ _ _ _).1

end

section CompleteInitialLoad

variable {handle : SubscriptionHandle J}

theorem completeInitialLoad_fields (handle : SubscriptionHandle J) :
    (completeInitialLoad handle).authorization = handle.authorization ∧
      (handle.isGapped = true → (completeInitialLoad handle).isGapped = true) ∧
      (completeInitialLoad handle).notificationTx.isClosed = handle.notificationTx.isClosed := by
  unfold completeInitialLoad
  split
  · exact ⟨rfl, id, rfl⟩
  rename_i flow hflow
  have hclosed := isClosed_finish flow handle.notificationTx
  split
  · next hfinish =>
    rw [hfinish] at hclosed
    exact ⟨rfl, id, hclosed⟩
  rename_i hfinish
  rw [hfinish] at hclosed
  exact ⟨rfl, fun _ => rfl, hclosed⟩

theorem completeInitialLoad_of_isLive (h : IsLive handle) :
    completeInitialLoad handle = handle := by
  unfold completeInitialLoad
  split
  · rfl
  rename_i flow hflow
  obtain ⟨hphase, hpending⟩ := h flow hflow
  obtain ⟨phase, snapshotEnd, pending⟩ := flow
  obtain rfl : phase = .live := hphase
  obtain rfl : pending = [] := hpending
  simp [finish, takePending, sendPending, ← hflow]

/-- A finished load leaves nothing in the buffer. -/
theorem isLive_completeInitialLoad (h : isLoaded (completeInitialLoad handle) = true) :
    IsLive (completeInitialLoad handle) := by
  intro flow hflow
  have hphase : flow.phase = .live := by
    simpa [isLoaded, mem_def.mp hflow] using h
  refine ⟨hphase, ?_⟩
  unfold completeInitialLoad at hflow
  split at hflow
  · next hnone =>
    rw [hnone] at hflow
    cases hflow
  rename_i old hold
  have hpending := pending_finish old handle.notificationTx
  split at hflow
  all_goals
    next hfinish =>
    rw [hfinish] at hpending
    cases hflow
    exact hpending hphase

theorem Delivered.completeInitialLoad {owed : List (Except LiveError (WireNotification J))}
    (h : Delivered handle owed) : Delivered (completeInitialLoad handle) owed := by
  obtain ⟨-, hgapped, hclosed⟩ := completeInitialLoad_fields handle
  rcases h with h | h | ⟨hlive, hsent⟩
  · exact .inl (hgapped h)
  · exact .inr (.inl (hclosed.trans h))
  · rw [completeInitialLoad_of_isLive hlive]
    exact .inr (.inr ⟨hlive, hsent⟩)

end CompleteInitialLoad

/-! ### All subscriptions -/

/-- **The invariant of a subscription**: what it was bound to is current or outdated, its route
reaches everything if it is bound to nothing, and it accounts for all that it is owed. -/
structure Subscriber.Sound (generation : ℕ) (permits : LiveQueryId → Authorization)
    (s : Subscriber J) : Prop where
  bound : ∀ a ∈ s.handle.authorization, a.generation ≤ generation ∧
    (a.generation = generation → a.allows = (permits s.liveId).allows)
  routed : s.handle.authorization = none → s.route = .broadcast
  delivered : ∀ owed ∈ s.owed, Delivered s.handle owed

def Sound (w : World J) : Prop := ∀ s ∈ w.subscribers, s.Sound w.generation w.permits

namespace Subscriber.Sound

variable {generation : ℕ} {permits : LiveQueryId → Authorization} {s : Subscriber J}

/-- A change of the delivery state. -/
theorem update (h : s.Sound generation permits) {handle : SubscriptionHandle J}
    {owed : Option (List (Except LiveError (WireNotification J)))}
    (hauthorization : handle.authorization = s.handle.authorization)
    (hdelivered : ∀ all ∈ owed, Delivered handle all) :
    ({ s with handle := handle, owed := owed } : Subscriber J).Sound generation permits where
  bound := by
    simpa only [hauthorization] using h.bound
  routed := by
    simpa only [hauthorization] using h.routed
  delivered := hdelivered

end Subscriber.Sound

section Visibility

variable {scalarValueToJson : ScalarValue → Except String J} {w : World J} {s : Subscriber J}
  {change : ChangeNotification}

section

variable (h : s.Sound w.generation w.permits)
include h

/-- The subscription sees what it may see. -/
theorem rowIsVisible_eq_maySee : rowIsVisible s.handle w.generation = w.maySee s := by
  funext row
  unfold rowIsVisible World.maySee
  congr 1
  cases hauthorization : s.handle.authorization with
  | none => rfl
  | some a =>
    change (a.generation == w.generation && a.allows row) =
      (a.generation == w.generation && (w.permits s.liveId).allows row)
    by_cases hcurrent : a.generation = w.generation
    · rw [(h.bound a hauthorization).2 hcurrent]
    · rw [beq_false_of_ne hcurrent, Bool.false_and, Bool.false_and]

theorem due_eq_seenOf :
    w.due scalarValueToJson s change = seenOf scalarValueToJson w.generation s.handle change := by
  unfold World.due seenOf sees
  rw [rowIsVisible_eq_maySee h]

/-- Nothing is due to a subscription that is not a candidate and not concerned. -/
theorem due_eq_nil (hoffers : s.route.offers change = false) (hnot : s.Unconcerned change) :
    w.due scalarValueToJson s change = [] := by
  have hhidden : ∀ row ∈ change.rowData :: change.oldData.toList, w.maySee s row = false := by
    intro row hrow
    rw [← rowIsVisible_eq_maySee h]
    cases hauthorization : s.handle.authorization with
    | none =>
      -- such a subscription is offered every change
      rw [h.routed hauthorization] at hoffers
      cases hoffers
    | some a =>
      simp [rowIsVisible, hauthorization, BoundLiveAuthorization.authorizes,
        hnot a hauthorization row hrow]
  unfold World.due
  rw [visibleChange_eq_none (hhidden _ mem_cons_self) fun row hrow =>
    hhidden row (mem_cons_of_mem _ (by simpa using hrow))]

end

end Visibility

/-- **The routes of `live_route` lose nobody**: a change is offered to a subscription whose policies
let one of its rows through, unless a zero is lost. -/
theorem offers_of_liveRoute {formats : Rls.TextFormats} {table : Rls.CatalogTable}
    {b : Rls.BoundAuthorization} {route : Rls.LiveAuthorizationRoute} {named : LiveRoute}
    {change : ChangeNotification} (hmatch : b.SetsMatch)
    (hroute : b.liveRoute formats table = .ok route) (hnamed : nameRoute table route = .ok named)
    (htypes : ∀ row ∈ change.rowData :: change.oldData.toList, Rls.HasColumnTypes table row)
    (hzero : Rls.losesZero table (change.rowData :: change.oldData.toList) = false)
    (h : ∃ row ∈ change.rowData :: change.oldData.toList,
      b.authorizesRow formats table row = true) : named.offers change = true := by
  obtain ⟨row, hrow, hreach⟩ := b.liveRoute_reaches hmatch hroute htypes hzero h
  rw [← reaches_nameRoute hnamed] at hreach
  rw [offers, Bool.or_eq_true]
  rcases mem_cons.mp hrow with rfl | hold
  · exact .inl hreach
  · exact .inr ((any_eq_true _ _).mpr ⟨row, by simpa using hold, hreach⟩)

theorem writeBack_map (change : ChangeNotification)
    (f : SubscriptionHandle J → SubscriptionHandle J) (subscribers : List (Subscriber J)) :
    writeBack change subscribers
        (((subscribers.filter fun s => s.route.offers change).map Subscriber.handle).map f) =
      subscribers.map fun s => if s.route.offers change then s.withHandle (f s.handle) else s := by
  induction subscribers with
  | nil => rfl
  | cons s rest ih =>
    unfold writeBack
    by_cases hoffers : s.route.offers change = true <;> simpa [hoffers] using ih

section Steps

variable {scalarValueToJson : ScalarValue → Except String J} {w : World J}
  {change : ChangeNotification} {s : Subscriber J}

theorem sound_newSubscriber (w : World J) (liveId : LiveQueryId) (filterExpr : Option LiveFilter)
    (projections : Option (List String)) (initialData : Bool) (room : ℕ) :
    (w.newSubscriber liveId filterExpr projections initialData room).Sound w.generation
      w.permits where
  bound a ha := by
    simp only [World.newSubscriber] at ha ⊢
    split at ha
    · cases ha
      exact ⟨le_rfl, fun _ => rfl⟩
    · cases ha
  routed hnone := by
    simp only [World.newSubscriber] at hnone ⊢
    cases hshared : w.isShared with
    | true =>
      rw [hshared] at hnone
      cases hnone
    | false => rfl
  delivered owed howed := by
    simp only [World.newSubscriber] at howed
    split at howed
    · cases howed
    rename_i hdata
    cases howed
    refine .inr (.inr ⟨fun flow hflow => ?_, rfl⟩)
    simp [World.newSubscriber, hdata] at hflow

/-- What changes one subscription and keeps it sound. -/
theorem Sound.updateSubscriber (hw : Sound w) {liveId : LiveQueryId}
    {f : Subscriber J → Subscriber J} (hs : s ∈ updateSubscriber w.subscribers liveId f)
    (hf : ∀ old, old.Sound w.generation w.permits → (f old).Sound w.generation w.permits) :
    s.Sound w.generation w.permits := by
  obtain ⟨old, hold, rfl⟩ := mem_map.mp hs
  split
  · exact hf old (hw old hold)
  · exact hw old hold

/-- The subscriptions as they are when a change is dispatched or dropped. -/
theorem Sound.exists_of_mem_owing (hw : Sound w)
    (hs : s ∈ w.subscribers.map fun s => s.owe (w.due scalarValueToJson s change)) :
    ∃ old, old.Sound w.generation w.permits ∧ old ∈ w.subscribers ∧
      s = old.owe (w.due scalarValueToJson old change) := by
  obtain ⟨old, hold, rfl⟩ := mem_map.mp hs
  exact ⟨old, hw old hold, hold, rfl⟩

theorem Subscriber.Sound.owe_nil {generation : ℕ} {permits : LiveQueryId → Authorization}
    (h : s.Sound generation permits) : (s.owe []).Sound generation permits := by
  refine h.update rfl fun owed howed => ?_
  simp only [append_nil, Option.map_id'] at howed
  exact h.delivered owed howed

theorem Sound.lapse (hw : Sound w) (change : ChangeNotification)
    (hdenied : ∀ s ∈ w.subscribers, s.route = .deny → s.Unconcerned change)
    (hs : s ∈ lapseScope (w.subscribers.map fun s => s.owe (w.due scalarValueToJson s change))) :
    s.Sound w.generation w.permits := by
  obtain ⟨owing, howing, rfl⟩ := mem_map.mp hs
  obtain ⟨old, hold, hmem, rfl⟩ := hw.exists_of_mem_owing howing
  split
  · next hdeny =>
    have hroute : old.route = .deny := hdeny
    have hoffers : old.route.offers change = false := by
      rw [hroute]
      cases hdata : change.oldData <;> simp [offers, reaches, hdata]
    rw [due_eq_nil hold hoffers (hdenied old hmem hroute)]
    exact hold.owe_nil
  · exact hold.update rfl fun _ _ => .inl rfl

theorem Sound.dispatch (hw : Sound w)
    (hundamaged : ∀ s ∈ w.subscribers, (s.route.offers change = true →
      s.handle.Converts scalarValueToJson w.generation change) ∧
        (s.route.offers change = false → s.Unconcerned change))
    (hs : s ∈ dispatch scalarValueToJson w.generation change
      (w.subscribers.map fun s => s.owe (w.due scalarValueToJson s change))) :
    s.Sound w.generation w.permits := by
  unfold Fanout.dispatch at hs
  dsimp only at hs
  rw [dispatchToSubscribers_eq_map, writeBack_map] at hs
  · obtain ⟨owing, howing, rfl⟩ := mem_map.mp hs
    obtain ⟨old, hold, hmem, rfl⟩ := hw.exists_of_mem_owing howing
    split
    · next hoffers =>
      have hconverted := (hundamaged old hmem).1 hoffers
      refine hold.update (authorization_dispatchOne hconverted) fun owed howed => ?_
      obtain ⟨before, hbefore, rfl⟩ := map_eq_some_iff.mp howed
      rw [due_eq_seenOf hold]
      exact (hold.delivered before hbefore).dispatchOne hconverted
    · next hoffers =>
      have hnot : old.route.offers change = false := Bool.eq_false_iff.mpr hoffers
      rw [due_eq_nil hold hnot ((hundamaged old hmem).2 hnot)]
      exact hold.owe_nil
  · intro handle hhandle
    obtain ⟨owing, hcandidate, rfl⟩ := mem_map.mp hhandle
    obtain ⟨howing, hoffers⟩ := mem_filter.mp hcandidate
    obtain ⟨old, -, hmem, rfl⟩ := hw.exists_of_mem_owing howing
    exact (hundamaged old hmem).1 hoffers

/-- **One step** keeps the invariant of every subscription. -/
theorem Sound.step {w' : World J} {event : Event J}
    (hundamaged : Undamaged scalarValueToJson w event) (hw : Sound w)
    (hstep : step scalarValueToJson w event = some w') : Sound w' := by
  revert hundamaged hstep
  fun_cases Fanout.step scalarValueToJson w event <;> rintro hundamaged ⟨⟩ s hs
  · -- a registration
    rcases mem_append.mp hs with hold | hadded
    · exact hw s (mem_filter.mp hold).1
    · obtain rfl := mem_singleton.mp hadded
      exact sound_newSubscriber w _ _ _ _ _
  · -- a subscription ends
    exact hw s (mem_filter.mp hs).1
  · -- the subscriptions are ordered anew
    obtain ⟨i, -, hi⟩ := mem_filterMap.mp hs
    exact hw s (mem_of_getElem? hi)
  · -- the end of a snapshot becomes known
    refine hw.updateSubscriber hs fun old hsound => ?_
    refine hsound.update rfl fun owed howed => ?_
    refine (hsound.delivered owed howed).imp_right (Or.imp_right fun hlive => ⟨?_, hlive.2⟩)
    intro flow hflow
    obtain ⟨before, hbefore, rfl⟩ := map_eq_some_iff.mp hflow
    obtain ⟨hphase, hpending⟩ := hlive.1 before hbefore
    exact ⟨hphase, by simp [setSnapshotEndSeq, hpending]⟩
  · -- an initial load is complete
    refine hw.updateSubscriber hs fun old hsound => ?_
    refine hsound.update (completeInitialLoad_fields old.handle).1 fun owed howed => ?_
    cases hbefore : old.owed with
    | some before =>
      rw [hbefore] at howed
      obtain rfl := some.inj howed
      exact (hsound.delivered before hbefore).completeInitialLoad
    | none =>
      rw [hbefore] at howed
      split at howed
      · next hloaded =>
        cases howed
        exact .inr (.inr ⟨isLive_completeInitialLoad hloaded, rfl⟩)
      · cases howed
  · -- nothing that was bound to the old policies is current under the new ones
    obtain rfl : _ = true := hundamaged
    refine { hw s hs with bound := fun a ha => ?_ }
    have hle := ((hw s hs).bound a ha).1
    exact ⟨hle.trans (Nat.le_succ _), fun heq => absurd hle (by simp [heq])⟩
  · -- the connection takes more
    exact hw.updateSubscriber hs fun _ hold => hold.update rfl hold.delivered
  · -- the connection ends
    exact hw.updateSubscriber hs fun _ hold => hold.update rfl fun _ _ => .inr (.inl rfl)
  · -- a change is dropped
    exact hw.lapse _ hundamaged hs
  · -- a change is queued
    exact hw s hs
  · -- a change is dispatched
    next change rest hqueue _ => exact hw.dispatch (hundamaged change rest hqueue) hs

end Steps

/-- **No silent gap.** In every run in which the changes convert for those who see them and are
under the routes of those whom they concern, and memberships change under the guard, every
subscription that is past its initial load has lapsed, or lost its connection, or has been sent, in
order, exactly the changes it may see under policies and memberships that have not changed since it
was registered. -/
theorem live_delivery_up_to_date {scalarValueToJson : ScalarValue → Except String J}
    {w w' : World J} {events : List (Event J)} (hw : w.subscribers = [])
    (hundamaged : Meets (step scalarValueToJson) (Undamaged scalarValueToJson) w events)
    (hrun : run (step scalarValueToJson) w events = some w') :
    ∀ s ∈ w'.subscribers, s.UpToDate := by
  have hinit : Sound w := by
    intro s hs
    rw [hw] at hs
    cases hs
  have hlast : Sound w' := run_invariant Sound
    (fun _ _ _ hundamaged hw hstep => hw.step hundamaged hstep) hinit hundamaged hrun
  intro s hs owed howed
  exact ((hlast s hs).delivered owed howed).imp_right (Or.imp_right And.right)

/-! ### A stale authorization -/

/-- Everybody may see the messages of their conversation, which is called like them. -/
def chatPermits (liveId : LiveQueryId) : Authorization where
  allows row := row.get "conversation" == some (.utf8 liveId.userId)
  route := .keyed [("conversation", .utf8 liveId.userId)]

def chat : World ScalarValue := ⟨true, 0, chatPermits, [], []⟩

def alice : LiveQueryId := ⟨"alice", "c1", "messages"⟩

def message (id : Int64) (conversation : String) (version : Int64) : ChangeNotification :=
  ⟨.insert, ⟨[("id", .int64 id), ("conversation", .utf8 conversation),
    ("_version", .int64 version)]⟩, none, ["id"]⟩

/-- A membership changes that is not Alice's: they may see what they saw before. -/
def unrelatedMutation : List (Event ScalarValue) :=
  [.register alice none none false 8192, .mutateAuthorization chatPermits true,
    .notifyAsync (message 1 "alice" 10) false, .processNotification]

/-- **A stale authorization misses a change.** Somebody else's membership has changed. The message
in Alice's conversation, which they may see, is not sent to them and no lapse is claimed. -/
theorem stale_authorization_misses_change :
    ∃ w', run (step .ok) chat unrelatedMutation = some w' ∧
      (w'.permits alice).allows (message 1 "alice" 10).rowData = true ∧
      ∃ s ∈ w'.subscribers, s.liveId = alice ∧ s.owed.isSome = true ∧
        s.handle.filterExpr.isNone = true ∧ s.handle.notificationTx.sent.length = 0 ∧
        s.handle.notificationTx.isClosed = false ∧ s.handle.isGapped = false := by
  refine ⟨_, rfl, by decide, _, mem_singleton_self _, rfl, rfl, rfl, rfl, rfl, rfl⟩

def twoMessages : List (Event ScalarValue) :=
  [.register alice none none false 8192, .notifyAsync (message 1 "alice" 10) false,
    .notifyAsync (message 2 "bob" 20) false, .processNotification, .processNotification]

theorem undamaged_twoMessages : Meets (step .ok) (Undamaged .ok) chat twoMessages := by
  refine meets_cons trivial rfl (meets_cons trivial rfl (meets_cons trivial rfl ?_))
  refine ⟨fun change rest hqueue s hs => ?_, fun w₄ h₄ => ?_⟩
  · obtain ⟨rfl, -⟩ := cons.inj hqueue
    obtain rfl := mem_singleton.mp hs
    refine ⟨fun _ seen hseen => ?_, nofun⟩
    obtain rfl : (VisibleChange.insert, (message 1 "alice" 10).rowData, none) = seen :=
      some.inj hseen
    exact ⟨_, rfl⟩
  · cases h₄
    refine ⟨fun change rest hqueue s hs => ?_, fun _ _ => trivial⟩
    obtain ⟨rfl, -⟩ := cons.inj hqueue
    obtain rfl := mem_singleton.mp hs
    refine ⟨nofun, fun _ a ha row hrow => ?_⟩
    cases ha
    obtain rfl := mem_singleton.mp hrow
    rfl

theorem live_delivery_of_twoMessages :
    ∃ w', run (step .ok) chat twoMessages = some w' ∧
      (∃ s ∈ w'.subscribers, s.handle.notificationTx.sent.length = 1 ∧
        s.owed.map List.length = some 1) ∧
      ∀ s ∈ w'.subscribers, s.UpToDate := by
  have hrun : run (step .ok) chat twoMessages = some _ := rfl
  exact ⟨_, hrun, ⟨_, mem_singleton_self _, rfl, rfl⟩,
    live_delivery_up_to_date rfl undamaged_twoMessages hrun⟩

end KalamDB.Live.Fanout
