import KalamDB.Lib.SuffixLog
import KalamDB.Raft.Commands
import Mathlib.Data.List.AList

/-!
# The replay log

A client that reconnects presents the version of the last change it has seen. The server keeps, per
table scope, a bounded log of the newest changes, and replays it from that **cursor** when the log
still **covers** it. One log is shared by all subscribers of a scope. Its floor comes from the
snapshots that subscriptions take: the largest version among the rows of a query.

This file has the log of one scope (`ScopeLog`), the map of all scopes with its eviction
(`ReplayState`), and what each operation does to the log of every scope.
-/

namespace KalamDB.Live

open SuffixLog AList Option

/-! ### Changes -/

inductive ChangeType where
  | insert
  | update
  | delete
  deriving DecidableEq

structure ChangeNotification where
  changeType : ChangeType
  rowData : Row
  oldData : Option Row
  pkColumns : List String
  deriving DecidableEq

/-- A stored version: a value that fits a signed integer and is not zero. -/
def versionOfRaw (value : Int64) : Option VersionId :=
  if h : 0 < value.toInt.toNat ∧ value.toInt.toNat < 2 ^ 63 then some ⟨value.toInt.toNat, h⟩
  else none

/-- The version of a change, as its row carries it. -/
def versionOf (notification : ChangeNotification) : Option VersionId :=
  match notification.rowData.get "_version" with
  | some (.int64 version) => versionOfRaw version
  | some (.uint64 version) => versionOfRaw version.toInt64
  | _ => none

/-! ### The log of a scope -/

def MAX_EVENTS_PER_SCOPE : ℕ := 16384

def MAX_SCOPES : ℕ := 64

structure ScopeKey where
  userId : Option Raft.UserId
  tableId : TableId
  deriving DecidableEq

/-- One ordered history. Versions of different domains have no common order. -/
structure VersionDomain where
  historyIncarnation : String
  tableId : TableId
  scopeId : ℕ
  deriving DecidableEq

structure ReplayEvent where
  version : VersionId
  notification : ChangeNotification
  versionOf_eq : versionOf notification = some version

structure ScopeLog where
  domain : Option VersionDomain
  coveredFrom : Option VersionId
  discarded : Bool
  emptySnapshot : Bool
  events : List ReplayEvent

namespace ScopeLog

def new : ScopeLog := ⟨none, none, false, false, []⟩

variable (log : ScopeLog)

def noteSnapshot (snapshot : VersionId) : ScopeLog :=
  if log.discarded then log
  else
    { log with
      emptySnapshot := false
      coveredFrom := some (match log.coveredFrom with
        | some existing => min existing snapshot
        | none => snapshot) }

def noteEmpty : ScopeLog :=
  if log.discarded then log else { log with emptySnapshot := true }

variable (cursor : VersionId)

def covers : Bool :=
  log.coveredFrom.any fun floor => decide (floor ≤ cursor)

def invalidate : ScopeLog :=
  { log with events := [], coveredFrom := none, discarded := true, emptySnapshot := false }

/-- Drop the oldest events of a log that is too long. -/
def trim (log : ScopeLog) : List ReplayEvent → ScopeLog
  | [] => { log with events := [] }
  | dropped :: rest =>
    if MAX_EVENTS_PER_SCOPE < (dropped :: rest).length then
      trim { log with
        discarded := true, emptySnapshot := false, coveredFrom := some dropped.version } rest
    else { log with events := dropped :: rest }

/-- After an empty snapshot the first version is a floor. -/
def push (event : ReplayEvent) : ScopeLog :=
  trim
    { log with
      coveredFrom :=
        if log.coveredFrom.isNone && log.emptySnapshot && !log.discarded then some event.version
        else log.coveredFrom }
    (log.events ++ [event])

def changesAfter : List ChangeNotification :=
  (log.events.filter fun event => decide (cursor < event.version)).map ReplayEvent.notification

/-- The changes in the log. -/
def recorded : List ChangeNotification := log.events.map ReplayEvent.notification

theorem changesAfter_eq : log.changesAfter cursor = after versionOf cursor log.recorded := by
  rw [recorded, after, List.filter_map]
  refine congrArg _ (List.filter_congr fun event _ => ?_)
  simp [event.versionOf_eq]

end ScopeLog

/-! ### All scopes -/

structure ReplayState where
  scopes : AList fun _ : ScopeKey => ScopeLog
  lru : List ScopeKey

inductive ResumeCursor where
  /-- Every commit after the cursor is still queued. -/
  | replay
  /-- Older than an intact floor: the rows after it can be read from storage. -/
  | snapshot
  /-- The log lost commits after the cursor, or the table was never tracked. -/
  | expired
  deriving DecidableEq

namespace ReplayState

variable {key other : ScopeKey} {log : ScopeLog} {state : ReplayState}

def new : ReplayState := ⟨∅, []⟩

variable (state)

def touch (key : ScopeKey) : ReplayState :=
  { state with lru := if key ∈ state.lru then state.lru.erase key ++ [key] else state.lru }

/-- Evict scopes, the least recently used ones first, until there is room for one more. -/
def evict (scopes : AList fun _ : ScopeKey => ScopeLog) : List ScopeKey → ReplayState
  | [] => ⟨scopes, []⟩
  | evicted :: rest =>
    if MAX_SCOPES ≤ scopes.entries.length then evict (scopes.erase evicted) rest
    else ⟨scopes, evicted :: rest⟩

def begin (key : ScopeKey) : ReplayState :=
  if key ∈ state.scopes then state.touch key
  else
    let state := evict state.scopes state.lru
    ⟨state.scopes.insert key ScopeLog.new, state.lru ++ [key]⟩

/-- Change the log of a scope in place. -/
def modify (key : ScopeKey) (f : ScopeLog → ScopeLog) : ReplayState :=
  match state.scopes.lookup key with
  | none => state
  | some log => { state with scopes := state.scopes.insert key (f log) }

/-- A recreated or moved table must never inherit an earlier replay buffer. -/
def bindDomain (key : ScopeKey) (domain : Option VersionDomain) :
    ReplayState :=
  (state.begin key).modify key fun log =>
    if log.domain ≠ domain then { ScopeLog.new with domain := domain } else log

def noteSnapshot (key : ScopeKey) (snapshot : VersionId) : ReplayState :=
  (state.begin key).modify key fun log => log.noteSnapshot snapshot

def noteEmpty (key : ScopeKey) : ReplayState :=
  (state.begin key).modify key ScopeLog.noteEmpty

def tracking (key : ScopeKey) : Bool := (state.scopes.lookup key).isSome

/-- Record a change. Without a version nothing can be replayed past it. -/
def record (key : ScopeKey) (notification : ChangeNotification) :
    ReplayState :=
  if state.tracking key then
    match h : versionOf notification with
    | none => state.modify key ScopeLog.invalidate
    | some version =>
      (state.modify key fun log => log.push ⟨version, notification, h⟩).touch key
  else state

def covers (key : ScopeKey) (cursor : VersionId) : Bool :=
  (state.scopes.lookup key).any fun log => log.covers cursor

def classifyCursor (key : ScopeKey) (cursor : VersionId) : ResumeCursor :=
  match state.scopes.lookup key with
  | none => .expired
  | some log =>
    if log.covers cursor then .replay
    else if log.discarded || log.coveredFrom.isNone then .expired
    else .snapshot

def changesAfter (key : ScopeKey) (cursor : VersionId) :
    Option (List ChangeNotification) := do
  let log ← state.scopes.lookup key
  if log.covers cursor then some (log.changesAfter cursor) else none

/-- The changes that the log of a scope holds. -/
def recorded (key : ScopeKey) : List ChangeNotification :=
  ((state.scopes.lookup key).map ScopeLog.recorded).getD []

/-! ### What the operations do to the scopes -/

@[simp]
theorem scopes_touch (key : ScopeKey) : (state.touch key).scopes = state.scopes := rfl

theorem lookup_evict {scopes : AList fun _ : ScopeKey => ScopeLog} {lru : List ScopeKey}
    (h : (evict scopes lru).scopes.lookup key = some log) : scopes.lookup key = some log := by
  induction lru generalizing scopes with
  | nil => exact h
  | cons evicted rest ih =>
    unfold evict at h
    split at h
    · have hrest := ih h
      by_cases hkey : key = evicted
      · rw [hkey, lookup_erase] at hrest
        cases hrest
      · rwa [lookup_erase_ne hkey] at hrest
    · exact h

theorem lookup_begin_self (key : ScopeKey) :
    (state.begin key).scopes.lookup key = some ((state.scopes.lookup key).getD ScopeLog.new) := by
  unfold begin
  split
  · next hmem =>
    obtain ⟨log, hlog⟩ := isSome_iff_exists.mp (lookup_isSome.mpr hmem)
    rw [scopes_touch, hlog, getD_some]
  · next hmem => simp [lookup_eq_none.mpr hmem]

variable {state}

theorem lookup_modify_self (state : ReplayState) (key : ScopeKey) (f : ScopeLog → ScopeLog) :
    (state.modify key f).scopes.lookup key = (state.scopes.lookup key).map f := by
  unfold modify
  split
  · next hnone => rw [hnone, map_none]
  · next log hlog => rw [lookup_insert, hlog, map_some]

theorem lookup_modify_of_ne (state : ReplayState) (f : ScopeLog → ScopeLog) (hne : other ≠ key) :
    (state.modify key f).scopes.lookup other = state.scopes.lookup other := by
  unfold modify
  split
  · rfl
  · rw [lookup_insert_ne hne]

/-- An operation on a scope, which is begun if need be: other scopes stay or are evicted. -/
theorem lookup_begin_modify {f : ScopeLog → ScopeLog}
    (h : ((state.begin key).modify key f).scopes.lookup other = some log) :
    (other = key ∧ log = f ((state.scopes.lookup key).getD ScopeLog.new)) ∨
      (other ≠ key ∧ state.scopes.lookup other = some log) := by
  by_cases hkey : other = key
  · subst hkey
    rw [lookup_modify_self, lookup_begin_self] at h
    exact .inl ⟨rfl, (some.inj h).symm⟩
  · rw [lookup_modify_of_ne _ _ hkey] at h
    refine .inr ⟨hkey, ?_⟩
    unfold begin at h
    split at h
    · exact h
    · rw [lookup_insert_ne hkey] at h
      exact lookup_evict h

/-- After the binding the scope is tracked under its domain. -/
theorem exists_lookup_bindDomain (state : ReplayState) (key : ScopeKey)
    (domain : Option VersionDomain) :
    ∃ log, (state.bindDomain key domain).scopes.lookup key = some log ∧ log.domain = domain := by
  rw [bindDomain, lookup_modify_self, lookup_begin_self, map_some]
  refine ⟨_, rfl, ?_⟩
  split
  · rfl
  · next hdomain => exact not_not.mp hdomain

end ReplayState

end KalamDB.Live
