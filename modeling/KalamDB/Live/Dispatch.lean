import KalamDB.Lib.Fallible
import KalamDB.Live.Delivery
import KalamDB.Rls.LiveRoute

/-!
# Fan-out of a change

A worker takes the changes of a table one by one and offers each of them to the subscriptions whose
**route** it is under. One subscription is served alone. More of them share a loop, in chunks, that
builds the payload of every projection once.

The loop stops when a payload cannot be converted: the subscriptions behind it are not served. If
all payloads convert, the loop does to every subscription what `dispatchOne` does to it
(`dispatchToSubscribers_eq_map`).
-/

namespace KalamDB.Live

open SubscriptionHandle List

variable {J : Type}

/-! ### Routes -/

variable {isVisible : Row → Bool} {change : ChangeNotification}
  {seen : VisibleChange × Row × Option Row} {payload : SharedChangePayload J}

inductive LiveRoute where
  | broadcast
  | deny
  | keyed (keys : List (String × ScalarValue))
  deriving DecidableEq

def LiveRoute.reaches (route : LiveRoute) (row : Row) : Bool :=
  match route with
  | .broadcast => true
  | .deny => false
  | .keyed keys => keys.any fun key => !Rls.isNull key.2 && row.get key.1 == some key.2

/-- Is a subscription with the route a candidate for the change? -/
def LiveRoute.offers (route : LiveRoute) (change : ChangeNotification) : Bool :=
  route.reaches change.rowData || change.oldData.any route.reaches

def nameKey (table : Rls.CatalogTable) (key : ℕ × ScalarValue) :
    Except String (String × ScalarValue) :=
  match table.definition.columns.find? fun c => c.columnId == key.1 with
  | some column => .ok (column.columnName, key.2)
  | none => .error ("Live RLS route column " ++ toString key.1 ++ " does not exist on " ++
      Rls.displayTable table.tableId)

/-- The route with the names of its columns. -/
def nameRoute (table : Rls.CatalogTable) : Rls.LiveAuthorizationRoute → Except String LiveRoute
  | .broadcast => .ok .broadcast
  | .deny => .ok .deny
  | .keyed keys => (keys.mapM (nameKey table)).map LiveRoute.keyed

theorem reaches_nameRoute {table : Rls.CatalogTable} {route : Rls.LiveAuthorizationRoute}
    {named : LiveRoute} (h : nameRoute table route = .ok named) (row : Row) :
    named.reaches row = route.reaches table row := by
  cases route with
  | broadcast | deny =>
    cases h
    rfl
  | keyed keys =>
    obtain ⟨names, hnames, rfl⟩ := Fallible.map_eq_ok_iff.mp h
    -- a key and its named key agree on the row
    have hkeys := Fallible.mapM_eq_ok
      (g := fun key => !Rls.isNull key.2 && Rls.columnValue table row key.1 == some key.2)
      (h := fun key => !Rls.isNull key.2 && row.get key.1 == some key.2) (fun key name hname => by
        unfold nameKey at hname
        split at hname
        · next column hcolumn =>
          cases hname
          simp [Rls.columnValue, hcolumn]
        · cases hname) hnames
    have hany := congrArg (fun l => l.any id) hkeys
    simpa [LiveRoute.reaches, Rls.LiveAuthorizationRoute.reaches] using hany.symm

/-- What the policies give a subscriber: the rows that it may see, and the route under which they
are to be found. -/
structure Authorization where
  allows : Row → Bool
  route : LiveRoute

/-! ### The loop -/

def asVisibleChange : ChangeType → VisibleChange
  | .insert => .insert
  | .update => .update
  | .delete => .delete

inductive PayloadCacheKey where
  | allColumns
  | projection (columns : List String)
  deriving DecidableEq

def PayloadCacheKey.fromProjections : Option (List String) → PayloadCacheKey
  | some columns => .projection columns
  | none => .allColumns

abbrev PayloadCache (J : Type) : Type :=
  AList fun _ : PayloadCacheKey × VisibleChange => SharedChangePayload J

def SHARED_NOTIFY_CHUNK_SIZE : ℕ := 2048

/-- A subscription to all rows and columns, without policies. -/
def SubscriptionHandle.isPlain (handle : SubscriptionHandle J) : Bool :=
  handle.authorization.isNone && handle.filterExpr.isNone && handle.projections.isNone

section Dispatch

variable (scalarValueToJson : ScalarValue → Except String J) (generation : ℕ)
  (change : ChangeNotification)

/-- The payload for a projection and a visible change, built once. -/
def cachedPayload (cache : PayloadCache J) (handle : SubscriptionHandle J)
    (seen : VisibleChange × Row × Option Row) :
    Except LiveError (SharedChangePayload J × PayloadCache J) :=
  let key := (PayloadCacheKey.fromProjections handle.projections, seen.1)
  match cache.lookup key with
  | some payload => .ok (payload, cache)
  | none =>
    match handle.payload scalarValueToJson change seen with
    | .error e => .error e
    | .ok payload => .ok (payload, cache.insert key payload)

/-- The loop over the subscriptions of a chunk. An error ends it. -/
def dispatchLoop (cache : PayloadCache J) :
    List (SubscriptionHandle J) → Except LiveError ℕ × List (SubscriptionHandle J)
  | [] => (.ok 0, [])
  | handle :: rest =>
    match handle.sees generation change with
    | none =>
      let (count, rest) := dispatchLoop cache rest
      (count, handle :: rest)
    | some seen =>
      match cachedPayload scalarValueToJson change cache handle seen with
      | .error e => (.error e, handle :: rest)
      | .ok (payload, cache) =>
        let (sent, handle) := handle.tryDeliver ⟨handle.subscriptionId, payload⟩ (versionOf change)
        let (count, rest) := dispatchLoop cache rest
        (count.map (· + sent.toNat), handle :: rest)

/-- One payload to all subscriptions. -/
def deliverAll (payload : SharedChangePayload J) (handles : List (SubscriptionHandle J)) :
    List (Bool × SubscriptionHandle J) :=
  handles.map fun handle =>
    handle.tryDeliver ⟨handle.subscriptionId, payload⟩ (versionOf change)

variable (handles : List (SubscriptionHandle J))

def dispatchChunk :
    Except LiveError ℕ × List (SubscriptionHandle J) :=
  if handles.all SubscriptionHandle.isPlain then
    match buildSharedPayload scalarValueToJson (asVisibleChange change.changeType) change.rowData
        change.oldData change.pkColumns none with
    | .error e => (.error e, handles)
    | .ok payload =>
      let results := deliverAll change payload handles
      (.ok (results.countP Prod.fst), results.map Prod.snd)
  else dispatchLoop scalarValueToJson generation change ∅ handles

/-- Full chunks, and what is left. -/
def splitChunks {α : Type} (chunk : List α) : List α → List (List α)
  | [] => if chunk.isEmpty then [] else [chunk]
  | item :: rest =>
    if (chunk ++ [item]).length < SHARED_NOTIFY_CHUNK_SIZE then splitChunks (chunk ++ [item]) rest
    else (chunk ++ [item]) :: splitChunks [] rest

/-- Chunks are served on their own. One that fails counts nothing. -/
def dispatchToSubscribers :
    Except LiveError ℕ × List (SubscriptionHandle J) :=
  match handles with
  | [] => (.ok 0, [])
  | [handle] =>
    let (sent, handle) := handle.dispatchOne scalarValueToJson generation change
    (sent.map Bool.toNat, [handle])
  | handles =>
    if handles.length ≤ SHARED_NOTIFY_CHUNK_SIZE then
      dispatchChunk scalarValueToJson generation change handles
    else
      let results :=
        (splitChunks [] handles).map (dispatchChunk scalarValueToJson generation change)
      (.ok (results.map fun result => result.1.toOption.getD 0).sum, results.flatMap Prod.snd)

end Dispatch

/-! ### What a subscription sees -/

/-- The rows of a visible change: they do not depend on who sees it. -/
def rowsOf (change : ChangeNotification) : VisibleChange → Row × Option Row
  | .insert | .delete => (change.rowData, none)
  | .update => (change.rowData, some (change.oldData.getD change.rowData))
  | .revoke => (change.oldData.getD change.rowData, none)

theorem visibleChange_eq_some
    (h : visibleChange isVisible change.changeType change.rowData change.oldData = some seen) :
    seen = (seen.1, rowsOf change seen.1) := by
  unfold visibleChange at h
  split at h
  case h_3 =>
    dsimp only at h
    split at h
    · cases h
    all_goals
      cases h
      rfl
  all_goals
    split at h
    · cases h
      rfl
    · cases h

/-- Nobody sees a change of which they see neither row. -/
theorem visibleChange_eq_none (hnew : isVisible change.rowData = false)
    (hold : ∀ row ∈ change.oldData, isVisible row = false) :
    visibleChange isVisible change.changeType change.rowData change.oldData = none := by
  have hboth : isVisible (change.oldData.getD change.rowData) = false := by
    cases hdata : change.oldData with
    | none => exact hnew
    | some row => exact hold row hdata
  unfold visibleChange
  split <;> simp [hnew, hboth]

namespace SubscriptionHandle

variable (scalarValueToJson : ScalarValue → Except String J) (generation : ℕ)

/-- What the subscription sees of the change converts. -/
def Converts (handle : SubscriptionHandle J) (change : ChangeNotification) : Prop :=
  ∀ seen ∈ handle.sees generation change,
    ∃ payload, handle.payload scalarValueToJson change seen = .ok payload

variable {scalarValueToJson generation} {handle : SubscriptionHandle J}
  {change : ChangeNotification}

theorem dispatchOne_of_sees_none (h : handle.sees generation change = none) :
    handle.dispatchOne scalarValueToJson generation change = (.ok false, handle) := by
  rw [dispatchOne, h]

theorem dispatchOne_of_payload (hsees : handle.sees generation change = some seen)
    (hpayload : handle.payload scalarValueToJson change seen = .ok payload) :
    (handle.dispatchOne scalarValueToJson generation change).2 =
      (handle.tryDeliver ⟨handle.subscriptionId, payload⟩ (versionOf change)).2 := by
  rw [dispatchOne, hsees]
  dsimp only
  rw [hpayload]

/-- A plain subscription sees every change as it is. -/
theorem sees_of_isPlain (h : handle.isPlain = true) :
    handle.sees generation change = some (asVisibleChange change.changeType,
        rowsOf change (asVisibleChange change.changeType)) := by
  simp only [isPlain, Bool.and_eq_true, Option.isNone_iff_eq_none] at h
  obtain ⟨⟨hauthorization, hfilter⟩, -⟩ := h
  have hvisible : rowIsVisible handle generation = fun _ => true := by
    funext row
    simp [rowIsVisible, hauthorization, hfilter]
  rw [sees, hvisible]
  cases change.changeType <;> rfl

/-- The payload of the fast path. -/
theorem payload_of_isPlain (h : handle.isPlain = true) :
    handle.payload scalarValueToJson change (asVisibleChange change.changeType,
        rowsOf change (asVisibleChange change.changeType)) =
      buildSharedPayload scalarValueToJson (asVisibleChange change.changeType) change.rowData
        change.oldData change.pkColumns none := by
  simp only [isPlain, Bool.and_eq_true, Option.isNone_iff_eq_none] at h
  rw [payload, h.2]
  cases change.changeType <;> rfl

end SubscriptionHandle

/-! ### A loop without errors -/

section Dispatch

variable {scalarValueToJson : ScalarValue → Except String J} {generation : ℕ}
  {change : ChangeNotification}

variable (scalarValueToJson change) in
/-- The cache holds the payloads that the subscriptions would build themselves. -/
def CacheSound (cache : PayloadCache J) : Prop :=
  ∀ projections visible payload,
    cache.lookup (PayloadCacheKey.fromProjections projections, visible) = some payload →
      buildSharedPayload scalarValueToJson visible (rowsOf change visible).1
        (rowsOf change visible).2 change.pkColumns projections = .ok payload

open PayloadCacheKey

theorem fromProjections_injective : Function.Injective fromProjections := by
  intro p q h
  cases p <;> cases q <;> simp_all [fromProjections]

theorem cachedPayload_eq {cache : PayloadCache J}
    (hcache : CacheSound scalarValueToJson change cache) {handle : SubscriptionHandle J}
    (hsees : handle.sees generation change = some seen)
    (hpayload : handle.payload scalarValueToJson change seen = .ok payload) :
    ∃ cache', cachedPayload scalarValueToJson change cache handle seen = .ok (payload, cache') ∧
      CacheSound scalarValueToJson change cache' := by
  have hseen := visibleChange_eq_some hsees
  rw [hseen] at hpayload
  rw [hseen]
  unfold cachedPayload
  dsimp only
  cases hlookup : cache.lookup (fromProjections handle.projections, seen.1) with
  | some cached =>
    have hcached := hcache _ _ _ hlookup
    obtain rfl : cached = payload := Except.ok.inj (hcached.symm.trans hpayload)
    exact ⟨cache, rfl, hcache⟩
  | none =>
    rw [hpayload]
    refine ⟨_, rfl, fun projections visible other hother => ?_⟩
    by_cases hkey : (fromProjections projections, visible) =
        (fromProjections handle.projections, seen.1)
    · obtain ⟨hprojections, rfl⟩ := Prod.mk.inj hkey
      obtain rfl := fromProjections_injective hprojections
      rw [AList.lookup_insert] at hother
      cases hother
      exact hpayload
    · rw [AList.lookup_insert_ne hkey] at hother
      exact hcache _ _ _ hother

theorem flatten_splitChunks {α : Type} (chunk items : List α) :
    (splitChunks chunk items).flatten = chunk ++ items := by
  fun_induction splitChunks chunk items <;> simp_all

variable {handles : List (SubscriptionHandle J)}
  (hconverts : ∀ h ∈ handles, h.Converts scalarValueToJson generation change)
include hconverts

theorem dispatchLoop_eq_map {cache : PayloadCache J}
    (hcache : CacheSound scalarValueToJson change cache) :
    (dispatchLoop scalarValueToJson generation change cache handles).2 =
      handles.map fun h => (h.dispatchOne scalarValueToJson generation change).2 := by
  induction handles generalizing cache with
  | nil => rfl
  | cons handle rest ih =>
    have hrest := fun h hh => hconverts h (mem_cons_of_mem handle hh)
    unfold dispatchLoop
    cases hsees : handle.sees generation change with
    | none =>
      rw [map_cons, dispatchOne_of_sees_none hsees, ← ih hrest hcache]
    | some seen =>
      obtain ⟨payload, hpayload⟩ := hconverts handle mem_cons_self seen hsees
      obtain ⟨cache', hcached, hcache'⟩ := cachedPayload_eq hcache hsees hpayload
      dsimp only
      rw [hcached, map_cons, dispatchOne_of_payload hsees hpayload, ← ih hrest hcache']

theorem dispatchChunk_eq_map :
    (dispatchChunk scalarValueToJson generation change handles).2 =
      handles.map fun h => (h.dispatchOne scalarValueToJson generation change).2 := by
  unfold dispatchChunk
  split
  · next hplain =>
    rw [all_eq_true] at hplain
    cases hpayload : buildSharedPayload scalarValueToJson (asVisibleChange change.changeType)
        change.rowData change.oldData change.pkColumns none with
    | error e =>
      -- a plain subscription sees the change, and its payload converts
      cases handles with
      | nil => rfl
      | cons handle rest =>
        have hhandle := hplain handle mem_cons_self
        obtain ⟨payload, hconverted⟩ := hconverts handle mem_cons_self _ (sees_of_isPlain hhandle)
        rw [payload_of_isPlain hhandle, hpayload] at hconverted
        cases hconverted
    | ok payload =>
      simp only [deliverAll, map_map]
      refine map_congr_left fun handle hmem => ?_
      have hhandle := hplain handle hmem
      refine (dispatchOne_of_payload (sees_of_isPlain hhandle) ?_).symm
      rw [payload_of_isPlain hhandle, hpayload]
  · exact dispatchLoop_eq_map hconverts fun _ _ _ h => by cases h

/-- **Without conversion errors** a fan-out does to every subscription what it would do to it
alone. -/
theorem dispatchToSubscribers_eq_map :
    (dispatchToSubscribers scalarValueToJson generation change handles).2 =
      handles.map fun h => (h.dispatchOne scalarValueToJson generation change).2 := by
  unfold dispatchToSubscribers
  split
  · rfl
  · rfl
  split
  · exact dispatchChunk_eq_map hconverts
  have hflatten := flatten_splitChunks [] handles
  rw [nil_append] at hflatten
  conv_rhs => rw [← hflatten, map_flatten]
  dsimp only
  rw [flatMap_map]
  refine congrArg flatten (map_congr_left fun chunk hchunk => ?_)
  refine dispatchChunk_eq_map fun h hh => hconverts h ?_
  rw [← hflatten]
  exact mem_flatten_of_mem hchunk hh

end Dispatch

end KalamDB.Live
