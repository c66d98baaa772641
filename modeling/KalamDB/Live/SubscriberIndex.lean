import KalamDB.Live.Dispatch
import KalamDB.Live.Resume

/-!
# The index of routed subscriptions

The subscriptions of shared tables are found through an index: under their table if their route is
`broadcast`, else under the columns and values of their keys. A change is offered to the
**candidates** that its rows lead to. A subscription whose policies let one of the rows through is a
candidate, whatever else is indexed and removed, unless a zero is lost (`offersChange_iff`). The
sets it is bound to must be those of its own programs, which the cache does not see to.
-/

namespace KalamDB.Live

open Rls BoundAuthorization List

variable {H : Type}

/-! ### The index -/

structure RoutedSubscriber (H : Type) where
  tableId : TableId
  route : LiveRoute
  handle : H

/-- A subscription in the bucket of a column and value, or in the broadcast bucket of the table. -/
abbrev BucketEntry : Type := TableId × Option (String × ScalarValue) × LiveQueryId

def RoutedSubscriber.entries (subscriber : RoutedSubscriber H) (liveId : LiveQueryId) :
    List BucketEntry :=
  let buckets := match subscriber.route with
    | .broadcast => [none]
    | .deny => []
    | .keyed keys => keys.map some
  buckets.map fun bucket => (subscriber.tableId, bucket, liveId)

/-- The index. No bucket is left empty, so the maps of buckets are the list of their entries. -/
structure IndexedSubscriberRelation (H : Type) where
  subscribers : AList fun _ : LiveQueryId => RoutedSubscriber H := ∅
  buckets : List BucketEntry := []

namespace IndexedSubscriberRelation

variable (r : IndexedSubscriberRelation H)

def unindex (liveId : LiveQueryId) : IndexedSubscriberRelation H :=
  match r.subscribers.lookup liveId with
  | none => r
  | some subscriber =>
    { subscribers := r.subscribers.erase liveId
      buckets := r.buckets.filter (· ∉ subscriber.entries liveId) }

def index (liveId : LiveQueryId) (subscriber : RoutedSubscriber H) :
    IndexedSubscriberRelation H :=
  let r := r.unindex liveId
  if subscriber.route = .deny then r
  else
    { subscribers := r.subscribers.insert liveId subscriber
      buckets := subscriber.entries liveId ++ r.buckets }

/-- Do the rows of a change lead to the entry? Nulls are not looked up. -/
def isFound (tableId : TableId) (rows : List Row) (entry : BucketEntry) : Bool :=
  entry.1 == tableId && entry.2.1.all fun key =>
    rows.any fun row => !isNull key.2 && row.get key.1 == some key.2

def candidates (tableId : TableId) (newRow : Row) (oldRow : Option Row) : List H :=
  let found := r.buckets.filter (isFound tableId (newRow :: oldRow.toList))
  (found.map (·.2.2)).dedup.filterMap fun liveId =>
    (r.subscribers.lookup liveId).map RoutedSubscriber.handle

/-! ### A subscription stays in the index -/

/-- A call for a subscription: it is indexed, or removed. -/
def step (r : IndexedSubscriberRelation H) :
    LiveQueryId × Option (RoutedSubscriber H) → IndexedSubscriberRelation H
  | (liveId, some subscriber) => r.index liveId subscriber
  | (liveId, none) => r.unindex liveId

/-- The subscription is in the index and in all of its buckets. -/
structure Holds (liveId : LiveQueryId) (subscriber : RoutedSubscriber H) : Prop where
  lookup_eq : r.subscribers.lookup liveId = some subscriber
  mem_buckets : ∀ entry ∈ subscriber.entries liveId, entry ∈ r.buckets

variable {r} {liveId other : LiveQueryId} {subscriber added : RoutedSubscriber H} {newRow : Row}
  {oldRow : Option Row}

theorem liveId_of_mem_entries {entry : BucketEntry} (h : entry ∈ subscriber.entries liveId) :
    entry.2.2 = liveId := by
  obtain ⟨bucket, -, rfl⟩ := mem_map.mp h
  rfl

theorem holds_index (h : subscriber.route ≠ .deny) :
    (r.index liveId subscriber).Holds liveId subscriber := by
  rw [index, if_neg h]
  exact ⟨AList.lookup_insert _, fun entry hentry => mem_append_left _ hentry⟩

section

variable (h : r.Holds liveId subscriber)
include h

theorem Holds.unindex (hne : other ≠ liveId) : (r.unindex other).Holds liveId subscriber := by
  unfold IndexedSubscriberRelation.unindex
  split
  · exact h
  · refine ⟨(AList.lookup_erase_ne hne.symm).trans h.lookup_eq, fun entry hentry => ?_⟩
    -- only entries of the other id are removed
    refine mem_filter.mpr ⟨h.mem_buckets entry hentry, decide_eq_true fun hother => hne ?_⟩
    rw [← liveId_of_mem_entries hother, liveId_of_mem_entries hentry]

theorem Holds.index (hne : other ≠ liveId) : (r.index other added).Holds liveId subscriber := by
  have hother := h.unindex hne
  unfold IndexedSubscriberRelation.index
  split
  · exact hother
  · exact ⟨(AList.lookup_insert_ne hne.symm).trans hother.lookup_eq,
      fun entry hentry => mem_append_right _ (hother.mem_buckets entry hentry)⟩

theorem Holds.run {calls : List (LiveQueryId × Option (RoutedSubscriber H))}
    (hne : ∀ call ∈ calls, call.1 ≠ liveId) :
    (calls.foldl step r).Holds liveId subscriber := by
  refine foldlRecOn (motive := (Holds · liveId subscriber)) calls _ h fun r h call hcall => ?_
  obtain ⟨other, _ | added⟩ := call
  · exact h.unindex (hne _ hcall)
  · exact h.index (hne _ hcall)

/-- A subscription is a candidate for the rows that its route reaches. -/
theorem Holds.mem_candidates
    (hreach : ∃ row ∈ newRow :: oldRow.toList, subscriber.route.reaches row = true) :
    subscriber.handle ∈ r.candidates subscriber.tableId newRow oldRow := by
  obtain ⟨row, hrow, hreach⟩ := hreach
  suffices ∃ bucket, (subscriber.tableId, bucket, liveId) ∈ subscriber.entries liveId ∧
      isFound subscriber.tableId (newRow :: oldRow.toList) (subscriber.tableId, bucket, liveId) by
    obtain ⟨bucket, hentry, hfound⟩ := this
    have hmem := mem_filter.mpr ⟨h.mem_buckets _ hentry, hfound⟩
    refine mem_filterMap.mpr ⟨liveId, mem_dedup.mpr ?_, by rw [h.lookup_eq]; rfl⟩
    exact mem_map.mpr ⟨_, hmem, rfl⟩
  unfold LiveRoute.reaches at hreach
  split at hreach
  · next hroute => exact ⟨none, by simp [RoutedSubscriber.entries, hroute], by simp [isFound]⟩
  · cases hreach
  · next keys hroute =>
    obtain ⟨key, hkey, hunder⟩ := any_eq_true.mp hreach
    refine ⟨some key, by simpa [RoutedSubscriber.entries, hroute] using hkey, ?_⟩
    rw [isFound, beq_self_eq_true]
    exact any_eq_true.mpr ⟨row, hrow, hunder⟩

end

/-! ### Candidates and policies -/

/-- A change of a table: the new row and the old one, their cells of the types of the columns. -/
structure TableChange (table : CatalogTable) where
  newRow : Row
  oldRow : Option Row
  hasColumnTypes : ∀ row ∈ newRow :: oldRow.toList, HasColumnTypes table row

def TableChange.rows {table : CatalogTable} (change : TableChange table) : List Row :=
  change.newRow :: change.oldRow.toList

variable {formats : TextFormats} {table : CatalogTable} {column : ColumnDefinition}
  {change : TableChange table}

variable (formats change) in
/-- **The change reaches everybody it concerns**: a subscription whose policies let one of its rows
through is a candidate, whatever was indexed before it and is indexed or removed after it. -/
def OffersChange : Prop :=
  ∀ (b : BoundAuthorization) (route : LiveAuthorizationRoute) (named : LiveRoute),
    b.SetsMatch → b.liveRoute formats table = .ok route → nameRoute table route = .ok named →
    (∃ row ∈ change.rows, b.authorizesRow formats table row = true) →
    ∀ (H : Type) (r : IndexedSubscriberRelation H) (liveId : LiveQueryId) (handle : H)
      (later : List (LiveQueryId × Option (RoutedSubscriber H))),
      (∀ call ∈ later, call.1 ≠ liveId) →
      handle ∈ (later.foldl step (r.index liveId ⟨table.tableId, named, handle⟩)).candidates
        table.tableId change.newRow change.oldRow

/-- The authorization of a policy `column = 0.0`. -/
def zeroPolicy (table : CatalogTable) (column : ColumnDefinition) : BoundAuthorization where
  policies := ⟨"alice", false, [⟨(table.tableId, "zero"), 0,
    .rowLocal (.columnEqualsScalar column.columnId (.float64 ⟨0, some (-1)⟩))⟩]⟩
  sets := ∅
  dependencies := []

section Zero

variable (hcolumn : column ∈ table.definition.columns) (hdouble : column.dataType = .double)
include hcolumn hdouble

theorem liveRoute_zeroPolicy :
    (zeroPolicy table column).liveRoute formats table =
      .ok (.keyed [(column.columnId, positiveZero)]) := by
  simp [liveRoute, zeroPolicy, BoundTablePolicies.isDefaultDeny, routePolicies, policyScalarText,
    routeKey, table.find?_columnId hcolumn, parseAsColumn, hdouble, keyType,
    formats.parseFloat_zero, Except.map]

end Zero

theorem not_offersChange (hloses : losesZero table change.rows = true) :
    ¬OffersChange formats change := by
  intro h
  obtain ⟨column, hcolumn, hloses⟩ := any_eq_true.mp hloses
  simp only [Bool.and_eq_true, beq_iff_eq, any_eq_true, all_eq_true, bne_iff_ne] at hloses
  obtain ⟨⟨hdouble, row, hrow, hnegative⟩, hpositive⟩ := hloses
  have hauthorizes : (zeroPolicy table column).authorizesRow formats table row = true := by
    simp [authorizesRow, zeroPolicy, policyAuthorizesFloats, table.find?_columnId hcolumn, hdouble,
      hnegative, equalsFloat, isFloat, formats.parseFloat_zero, positiveZero, isNull]
  -- alice, subscribed under the policy, is not a candidate
  have hmem := h (zeroPolicy table column) _ (.keyed [(column.columnName, positiveZero)])
    (by simp [SetsMatch, SetMatches, zeroPolicy]) (liveRoute_zeroPolicy hcolumn hdouble)
    (by simp [nameRoute, nameKey, table.find?_columnId hcolumn, Except.map])
    ⟨row, hrow, hauthorizes⟩ Unit {} ⟨"alice", "", ""⟩ () [] (by simp)
  simp only [TableChange.rows, forall_mem_cons] at hpositive
  simp_all [index, unindex, candidates, isFound, RoutedSubscriber.entries]

/-- **A change reaches everybody it concerns** unless it has a column with a negative zero and no
positive one. -/
theorem offersChange_iff (change : TableChange table) :
    OffersChange formats change ↔ losesZero table change.rows = false := by
  refine ⟨fun h => Bool.eq_false_iff.mpr fun hloses => not_offersChange hloses h, ?_⟩
  intro hzero b route named hmatch hroute hnamed hauthorizes H r liveId handle later hlater
  have hreach := b.liveRoute_reaches hmatch hroute change.hasColumnTypes hzero hauthorizes
  simp only [← reaches_nameRoute hnamed] at hreach
  have hdeny : named ≠ .deny := by
    rintro rfl
    simp [LiveRoute.reaches] at hreach
  exact ((holds_index hdeny).run hlater).mem_candidates hreach

/-- Formats in which the text of a number is its mantissa. -/
def plainFormats : TextFormats :=
  ⟨fun value => toString value.mantissa, fun text => some (.other text), fun _ text => text, rfl⟩

/-- `CREATE TABLE app.scores (id BIGINT PRIMARY KEY, score DOUBLE)`. -/
def scoresTable : CatalogTable :=
  ⟨"app", "scores", true, ⟨[⟨1, "id", .bigInt, true⟩, ⟨2, "score", .double, false⟩], 3, [],
    by decide, by decide⟩, by decide⟩

/-- `USING (id IN (SELECT score FROM app.grants WHERE owner = CURRENT_USER))`, or the same with the
column `score` in front. -/
def grantedScores (protectedKey : ℕ) : AuthorizationRelation :=
  ⟨scoresTable.tableId, [protectedKey], ("app", "grants"), [2], 1, .currentUser, []⟩

/-- A policy on `id` with the set of a check on `score`, which the cache holds under one key. -/
def checkedSet : BoundAuthorization where
  policies := ⟨"alice", false, [⟨(scoresTable.tableId, "granted"), 0,
    .authorizationRelation (grantedScores 1)⟩]⟩
  sets := AList.insert (scoresTable.tableId, "granted")
    ⟨grantedScores 2, .single [positiveZero]⟩ ∅
  dependencies := []

/-- Nobody subscribed under `score = 0.0` is offered the insert of a score `-0.0`. And a set that
was made for another column lets rows through which the route does not lead to. -/
theorem not_offersChange_negativeScore :
    ¬OffersChange plainFormats
      (⟨⟨[("id", .int64 1), ("score", negativeZero)]⟩, none, by decide⟩ :
        TableChange scoresTable) ∧
    (¬checkedSet.SetsMatch ∧
      checkedSet.liveRoute plainFormats scoresTable = .ok (.keyed [(1, positiveZero)]) ∧
      checkedSet.authorizesRow plainFormats scoresTable
        ⟨[("id", .int64 1), ("score", positiveZero)]⟩ = true ∧
      (index {} ⟨"alice", "", ""⟩
        ⟨scoresTable.tableId, .keyed [("id", positiveZero)], ()⟩).candidates scoresTable.tableId
          ⟨[("id", .int64 1), ("score", positiveZero)]⟩ none = []) := by
  refine ⟨not_offersChange (by decide), fun h => ?_, by decide, by decide, by decide⟩
  have hkeys := h _ (mem_singleton_self _) (grantedScores 1) _ rfl rfl
  exact absurd hkeys (by decide)

end IndexedSubscriberRelation

end KalamDB.Live
