import KalamDB.Live.ReplayLog
import KalamDB.RowFilter.Predicate

/-!
# Delivering a change to a subscription

A change of a row reaches a subscription as the change that **the subscriber sees**: an update that
brings a row into its view is an insert, one that takes the row out of it is a deletion. Its cells
are converted for the wire, which can fail, and the result is offered to the subscription.

While the snapshot is loading, changes wait in a buffer. Those up to the snapshot boundary are in
the snapshot and dropped. When the load is finished the buffer goes to the channel of the
connection, and later changes follow directly. A full buffer or channel **lapses** the subscription:
it gets no more changes and its client has to start again.
-/

namespace KalamDB.Live

/-! ### Payloads -/

inductive VisibleChange where
  | insert
  | update
  | delete
  /-- The row has left the view of the subscriber: a deletion that only names the row. -/
  | revoke
  deriving DecidableEq

abbrev RowData (J : Type) : Type := AList fun _ : String => J

structure SharedChangePayload (J : Type) where
  changeType : ChangeType
  rows : Option (List (RowData J))
  oldValues : Option (List (RowData J))

structure WireNotification (J : Type) where
  subscriptionId : String
  payload : SharedChangePayload J

inductive LiveError where
  | serializationError (text : String)
  deriving DecidableEq

section Payloads

variable {J : Type} (scalarValueToJson : ScalarValue → Except String J)

/-- Convert a cell and enter it. -/
def insertCell (map : RowData J) (column : String) (value : ScalarValue) :
    Except LiveError (RowData J) :=
  match scalarValueToJson value with
  | .ok cell => .ok (map.insert column cell)
  | .error text => .error (.serializationError text)

def insertCellOf (map : RowData J) (row : Row) (column : String) : Except LiveError (RowData J) :=
  match row.get column with
  | some value => insertCell scalarValueToJson map column value
  | none => .ok map

def isSystemColumn (column : String) : Bool := column.toList.head? == some '_'

def projectionIncludesColumn (projections : Option (List String)) (column : String) : Bool :=
  match projections with
  | none => true
  | some columns => column == "_version" || columns.any fun c => eqIgnoreAsciiCase c column

def projectRow (row : Row) (projections : Option (List String)) : Except LiveError (RowData J) :=
  row.values.foldlM (fun map cell =>
    if projectionIncludesColumn projections cell.1 then
      insertCell scalarValueToJson map cell.1 cell.2
    else .ok map) ∅

/-- The system columns and the primary key. -/
def projectDeleteIdentity (row : Row) (pkColumns : List String) : Except LiveError (RowData J) :=
  row.values.foldlM (fun map cell =>
    if !isSystemColumn cell.1 && !pkColumns.any fun pk => eqIgnoreAsciiCase pk cell.1 then .ok map
    else insertCell scalarValueToJson map cell.1 cell.2) ∅

/-- The version and the key of both rows, the other cells of the new row, and the changed cells of
the old one. -/
def projectUpdateDelta (oldRow newRow : Row) (pkColumns : List String)
    (projections : Option (List String)) : Except LiveError (RowData J × RowData J) := do
  let identity ← ("_version" :: pkColumns).foldlM (fun maps key => do
    let newMap ← insertCellOf scalarValueToJson maps.1 newRow key
    let oldMap ← insertCellOf scalarValueToJson maps.2 oldRow key
    return (newMap, oldMap)) (∅, ∅)
  let columns := (newRow.values.map Prod.fst).filter (projectionIncludesColumn projections)
  columns.foldlM (fun maps column =>
    if isSystemColumn column || pkColumns.contains column then .ok maps
    else do
      let newMap ←
        if newRow.get column = some .null then .ok maps.1
        else insertCellOf scalarValueToJson maps.1 newRow column
      let oldMap ←
        if oldRow.get column ≠ newRow.get column then
          insertCellOf scalarValueToJson maps.2 oldRow column
        else .ok maps.2
      return (newMap, oldMap)) identity

def buildSharedPayload (change : VisibleChange) (newRow : Row) (oldRow : Option Row)
    (pkColumns : List String) (projections : Option (List String)) :
    Except LiveError (SharedChangePayload J) :=
  match change with
  | .insert => do
    return ⟨.insert, some [← projectRow scalarValueToJson newRow projections], none⟩
  | .update => do
    let (newData, oldData) ← projectUpdateDelta scalarValueToJson (oldRow.getD newRow) newRow
      pkColumns projections
    return ⟨.update, some [newData], some [oldData]⟩
  | .delete => do
    return ⟨.delete, none, some [← projectRow scalarValueToJson newRow projections]⟩
  | .revoke => do
    return ⟨.delete, none, some [← projectDeleteIdentity scalarValueToJson newRow pkColumns]⟩

end Payloads

/-! ### The channel and the buffer -/

/-- The channel of a connection: its free slots, and what the subscription has sent on it. -/
structure Channel (J : Type) where
  room : ℕ
  isClosed : Bool
  sent : List (WireNotification J)

inductive TrySendError where
  | full
  | closed
  deriving DecidableEq

variable {J : Type}

def Channel.trySend (tx : Channel J) (notification : WireNotification J) :
    Except TrySendError (Channel J) :=
  if tx.isClosed then .error .closed
  else if tx.room = 0 then .error .full
  else .ok { tx with room := tx.room - 1, sent := tx.sent ++ [notification] }

structure BufferedNotification (J : Type) where
  seq : Option VersionId
  notification : WireNotification J

inductive Accept where
  | stored
  | covered
  | sent
  | closed
  | failed
  deriving DecidableEq

inductive Phase where
  | catchup
  | live
  | failed
  deriving DecidableEq

structure SubscriptionFlowControl (J : Type) where
  phase : Phase
  snapshotEnd : Option VersionId
  pending : List (BufferedNotification J)

def MAX_BUFFERED_NOTIFICATIONS_PER_SUBSCRIPTION : ℕ := 1024

namespace SubscriptionFlowControl

def new : SubscriptionFlowControl J := ⟨.catchup, none, []⟩

/-- Is the version beyond the end of the snapshot? -/
def isAfter (snapshotEnd seq : Option VersionId) : Bool :=
  snapshotEnd.all fun bound => seq.all fun version => decide (bound < version)

variable (flow : SubscriptionFlowControl J)

def setSnapshotEndSeq (snapshotEnd : Option VersionId) :
    SubscriptionFlowControl J :=
  { flow with
    snapshotEnd := snapshotEnd
    pending := flow.pending.filter fun item => isAfter snapshotEnd item.seq }

variable (notification : WireNotification J)

/-- Keep a change until the snapshot is handed over, once. -/
def queueChange (seq : Option VersionId) : Accept × SubscriptionFlowControl J :=
  if !isAfter flow.snapshotEnd seq then (.covered, flow)
  else if seq.isSome && flow.pending.any fun item => item.seq == seq then (.stored, flow)
  else if MAX_BUFFERED_NOTIFICATIONS_PER_SUBSCRIPTION ≤ flow.pending.length then
    (.failed, { flow with pending := [] })
  else (.stored, { flow with pending := flow.pending ++ [⟨seq, notification⟩] })

def sendLive (tx : Channel J) : Accept × SubscriptionFlowControl J × Channel J :=
  match tx.trySend notification with
  | .ok tx => (.sent, flow, tx)
  | .error .full => (.failed, { flow with phase := .failed }, tx)
  | .error .closed => (.closed, flow, tx)

/-- Offer a change. -/
def accept (seq : Option VersionId) (tx : Channel J) :
    Accept × SubscriptionFlowControl J × Channel J :=
  match flow.phase with
  | .failed => (.failed, flow, tx)
  | .live => flow.sendLive notification tx
  | .catchup =>
    match flow.queueChange notification seq with
    | (.failed, flow) => (.failed, { flow with phase := .failed }, tx)
    | (result, flow) => (result, flow, tx)

/-- Versions in order, and changes without a version at the end. -/
def seqLe (left right : BufferedNotification J) : Bool :=
  match left.seq, right.seq with
  | some l, some r => decide (l ≤ r)
  | some _, none => true
  | none, some _ => false
  | none, none => true

def takePending (pending : List (BufferedNotification J)) : List (BufferedNotification J) :=
  pending.mergeSort seqLe

/-- Send the buffer. The subscription is live when all of it has been sent. -/
def sendPending (flow : SubscriptionFlowControl J) (tx : Channel J) (sent : ℕ) :
    List (BufferedNotification J) → Except Unit ℕ × SubscriptionFlowControl J × Channel J
  | [] => (.ok sent, { flow with phase := .live }, tx)
  | item :: rest =>
    match flow.sendLive item.notification tx with
    | (.failed, flow, tx) => (.error (), flow, tx)
    | (.closed, flow, tx) => (.ok sent, { flow with phase := .failed }, tx)
    | (_, flow, tx) => sendPending flow tx (sent + 1) rest

def finish (tx : Channel J) :
    Except Unit ℕ × SubscriptionFlowControl J × Channel J :=
  match flow.phase with
  | .failed => (.error (), flow, tx)
  | .catchup | .live =>
    sendPending { flow with pending := [] } tx 0 (takePending flow.pending)

end SubscriptionFlowControl

/-! ### Subscriptions -/

/-- A compiled filter. It decides what the clause means whenever it returns an answer. -/
structure LiveFilter where
  evaluate : Row → Except RowFilter.RowFilterError Bool
  meaning : Row → Bool
  meaning_eq : ∀ row b, evaluate row = .ok b → b = meaning row

/-- The rows that a subscriber may see, as they were bound at a generation of the policies and
memberships. -/
structure BoundLiveAuthorization where
  generation : ℕ
  allows : Row → Bool

def BoundLiveAuthorization.isCurrent (authorization : BoundLiveAuthorization) (generation : ℕ) :
    Bool := authorization.generation == generation

/-- Stale authorizations fail closed. -/
def BoundLiveAuthorization.authorizes (authorization : BoundLiveAuthorization) (generation : ℕ)
    (row : Row) : Bool :=
  authorization.isCurrent generation && authorization.allows row

structure SubscriptionHandle (J : Type) where
  subscriptionId : String
  filterExpr : Option LiveFilter
  authorization : Option BoundLiveAuthorization
  projections : Option (List String)
  notificationTx : Channel J
  flowControl : Option (SubscriptionFlowControl J)
  /-- A lapse has been claimed. -/
  isGapped : Bool

variable (handle : SubscriptionHandle J)

def rowIsVisible (generation : ℕ) (row : Row) : Bool :=
  handle.authorization.all (fun authorization => authorization.authorizes generation row) &&
    handle.filterExpr.all fun filter =>
      match filter.evaluate row with
      | .ok b => b
      | .error _ => false

/-- The change as a subscriber sees it, who sees the rows of a kind. -/
def visibleChange (isVisible : Row → Bool) (changeType : ChangeType) (newRow : Row)
    (oldRow : Option Row) : Option (VisibleChange × Row × Option Row) :=
  match changeType with
  | .insert => if isVisible newRow then some (.insert, newRow, none) else none
  | .delete => if isVisible newRow then some (.delete, newRow, none) else none
  | .update =>
    let oldRow := oldRow.getD newRow
    match isVisible oldRow, isVisible newRow with
    | false, false => none
    | false, true => some (.insert, newRow, none)
    | true, true => some (.update, newRow, some oldRow)
    | true, false => some (.revoke, oldRow, none)

namespace SubscriptionHandle

def signalLapse : SubscriptionHandle J :=
  { handle with isGapped := true }

/-- Offer a notification. The answer says whether it has gone to the channel. -/
def tryDeliver (notification : WireNotification J)
    (seq : Option VersionId) : Bool × SubscriptionHandle J :=
  if handle.isGapped then (false, handle)
  else
    match handle.flowControl with
    | some flow =>
      match flow.accept notification seq handle.notificationTx with
      | (result, flow, tx) =>
        let handle := { handle with flowControl := some flow, notificationTx := tx }
        match result with
        | .stored | .covered | .closed => (false, handle)
        | .sent => (true, handle)
        | .failed => (false, handle.signalLapse)
    | none =>
      match handle.notificationTx.trySend notification with
      | .ok tx => (true, { handle with notificationTx := tx })
      | .error .closed => (false, handle)
      | .error .full => (false, handle.signalLapse)

variable (scalarValueToJson : ScalarValue → Except String J) (generation : ℕ)

/-- The change as this subscription sees it. -/
def sees (handle : SubscriptionHandle J) (change : ChangeNotification) :
    Option (VisibleChange × Row × Option Row) :=
  visibleChange (rowIsVisible handle generation) change.changeType change.rowData change.oldData

def payload (handle : SubscriptionHandle J) (change : ChangeNotification)
    (seen : VisibleChange × Row × Option Row) : Except LiveError (SharedChangePayload J) :=
  buildSharedPayload scalarValueToJson seen.1 seen.2.1 seen.2.2 change.pkColumns handle.projections

/-- Dispatch a change to one subscription. -/
def dispatchOne (handle : SubscriptionHandle J) (change : ChangeNotification) :
    Except LiveError Bool × SubscriptionHandle J :=
  match handle.sees generation change with
  | none => (.ok false, handle)
  | some seen =>
    match handle.payload scalarValueToJson change seen with
    | .error e => (.error e, handle)
    | .ok payload =>
      let (sent, handle) := handle.tryDeliver ⟨handle.subscriptionId, payload⟩ (versionOf change)
      (.ok sent, handle)

/-- Replay retained changes into a subscription. -/
def deliverResumeEvents (handle : SubscriptionHandle J) :
    List ChangeNotification → SubscriptionHandle J
  | [] => handle
  | event :: rest =>
    if (versionOf event).isNone then handle.signalLapse
    else
      match handle.dispatchOne scalarValueToJson generation event with
      | (.error _, handle) => handle.signalLapse
      | (.ok _, handle) => deliverResumeEvents handle rest

end SubscriptionHandle

end KalamDB.Live
