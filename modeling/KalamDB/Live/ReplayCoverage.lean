import KalamDB.Lib.Runs
import KalamDB.Live.ReplayLog

/-!
# What a covered cursor misses

The log covers a cursor when it is not below the **floor**, and the floor comes from the snapshots
that subscriptions take: the largest version among the rows of a query. The floor is sound when
every change after it is in the log. A query with a filter finds a smaller version than that of the
last change, and so does any query after a deletion. When the log has not recorded the changes in
between, it now covers cursors after which they are missing (`replay_misses_change`).

`replay_exact` says what else misses a change: one whose subscriber check came before the scope was
tracked, one that is committed after a **later version** (a command that waited for its metadata),
and a table that is **created again under the same identity**, as every user table is. Evictions,
overflow, changes without a version and empty snapshots are all harmless.
-/

namespace KalamDB.Live

open Runs SuffixLog ScopeLog List Function Option

/-! ### Snapshots -/

variable {log : ScopeLog}

structure InitialDataOptions where
  sinceSeq : Option VersionId
  untilSeq : Option VersionId
  includeDeleted : Bool

/-- The primary key of the changed row. -/
def ChangeNotification.key (change : ChangeNotification) : List (Option ScalarValue) :=
  change.pkColumns.map change.rowData.get

/-- The rows that a history leaves in storage: the newest version of every key, tombstones
included. -/
def storedRows : List ChangeNotification → List ChangeNotification
  | [] => []
  | change :: later =>
    if later.any fun c => c.key == change.key then storedRows later
    else change :: storedRows later

/-- The conditions of the snapshot query. -/
def InitialDataOptions.selects (options : InitialDataOptions) (whereClause : Row → Bool)
    (row : ChangeNotification) (version : VersionId) : Bool :=
  options.sinceSeq.all (fun since => decide (since < version)) &&
    options.untilSeq.all (fun upTo => decide (version ≤ upTo)) &&
    (options.includeDeleted || row.changeType != .delete) && whereClause row.rowData

/-- `MAX(_version)` over the rows of the query. -/
def computeSnapshotEndSeq (options : InitialDataOptions) (whereClause : Row → Bool)
    (rows : List ChangeNotification) : Option VersionId :=
  (rows.filterMap fun row =>
    (versionOf row).filter fun version => options.selects whereClause row version).max?

/-! ### The log beside the tables -/

/-- The changes of a scope in the order of their commits. A user table has no domain. -/
structure ScopeHistory where
  domain : Option VersionDomain
  changes : List ChangeNotification

/-- The log, the tables, and the boundaries of subscriptions that have not noted them yet. -/
structure World where
  log : ReplayState
  scope : ScopeKey → ScopeHistory
  boundaries : List (ScopeKey × Option VersionId)

variable {w w' : World}

inductive Event where
  /-- A subscription binds the log to the domain it has found. -/
  | bind (key : ScopeKey) (domain : Option VersionDomain)
  /-- It computes the boundary of its snapshot. -/
  | compute (key : ScopeKey) (options : InitialDataOptions) (whereClause : Row → Bool)
  /-- It notes the boundary. -/
  | note (index : ℕ)
  /-- A change is persisted, and recorded if its check has found somebody to notify. -/
  | commit (key : ScopeKey) (change : ChangeNotification) (hasLiveSubscribers : Bool)
  /-- The table is created again, with a history of its own. -/
  | recreate (key : ScopeKey) (domain : Option VersionDomain)

variable {event : Event} (history : ScopeHistory) (change : ChangeNotification)
  {events : List Event}

/-- The change is later than all before it. -/
def ScopeHistory.Extends : Prop :=
  ∀ c ∈ history.changes, ∀ v ∈ versionOf c, ∀ w ∈ versionOf change, v < w

instance (history : ScopeHistory) (change : ChangeNotification) :
    Decidable (history.Extends change) :=
  inferInstanceAs (Decidable (∀ c ∈ history.changes, _))

def ScopeHistory.append : ScopeHistory := { history with changes := history.changes ++ [change] }

theorem ScopeHistory.Extends.rising {history : ScopeHistory} (h : history.Extends change)
    (hrising : Rising versionOf history.changes) :
    Rising versionOf (history.append change).changes :=
  List.pairwise_append.mpr ⟨hrising, List.pairwise_singleton _ _, fun c hc d hd v hv w hw => by
    obtain rfl := List.mem_singleton.mp hd
    exact h c hc v hv w hw⟩

/-- Versions of changes in a list are different. -/
def Distinct (changes : List ChangeNotification) : Prop :=
  changes.Pairwise fun c d => ∀ v ∈ versionOf c, ∀ w ∈ versionOf d, v ≠ w

/-- A version is given to one change of a scope only. -/
def NewVersion (w : World) (key : ScopeKey) (change : ChangeNotification) : Prop :=
  ∀ c ∈ (w.scope key).changes ++ w.log.recorded key,
    ∀ v ∈ versionOf c, ∀ u ∈ versionOf change, v ≠ u

instance (w : World) (key : ScopeKey) (change : ChangeNotification) :
    Decidable (NewVersion w key change) :=
  inferInstanceAs (Decidable (∀ c ∈ (w.scope key).changes ++ w.log.recorded key, _))

/-- The log does not stand under the identity of a new history. -/
def FreshDomain (w : World) (key : ScopeKey) (domain : Option VersionDomain) : Prop :=
  ∀ log ∈ w.log.scopes.lookup key, log.domain ≠ domain

instance (w : World) (key : ScopeKey) (domain : Option VersionDomain) :
    Decidable (FreshDomain w key domain) :=
  inferInstanceAs (Decidable (∀ log ∈ w.log.scopes.lookup key, _))

def ReplayState.note (log : ReplayState) (key : ScopeKey) : Option VersionId → ReplayState
  | some snapshot => log.noteSnapshot key snapshot
  | none => log.noteEmpty key

def step (w : World) : Event → Option World
  | .bind key domain => some { w with log := w.log.bindDomain key domain }
  | .compute key options whereClause =>
    let boundary := options.untilSeq.or
      (computeSnapshotEndSeq options whereClause (storedRows (w.scope key).changes))
    some { w with boundaries := w.boundaries ++ [(key, boundary)] }
  | .note index =>
    match w.boundaries[index]? with
    | none => none
    | some (key, boundary) => some { w with
        log := w.log.note key boundary
        boundaries := w.boundaries.eraseIdx index }
  | .commit key change hasLiveSubscribers =>
    if NewVersion w key change then
      some { w with
        log := if hasLiveSubscribers then w.log.record key change else w.log
        scope := Function.update w.scope key ((w.scope key).append change) }
    else none
  | .recreate key domain => some { w with scope := Function.update w.scope key ⟨domain, []⟩ }

/-- A client resumes at a cursor: the log is bound to the domain of the table, and replays the
changes after the cursor if it covers it. -/
def World.resume (w : World) (key : ScopeKey) (cursor : VersionId) :
    Option (List ChangeNotification) :=
  let log := w.log.bindDomain key (w.scope key).domain
  match log.classifyCursor key cursor with
  | .replay => some ((log.changesAfter key cursor).getD [])
  | .snapshot | .expired => none

/-! ### A sound log -/

/-- The log of a scope holds the end of the history, down to its floor. -/
def ScopeLog.Sound (log : ScopeLog) : Prop :=
  log.domain = history.domain → Retains versionOf history.changes log.recorded log.coveredFrom

structure Sound (w : World) : Prop where
  rising : ∀ key, Rising versionOf (w.scope key).changes
  logs : ∀ key log, w.log.scopes.lookup key = some log → log.Sound (w.scope key)

namespace ScopeLog

variable {history : ScopeHistory} {log : ScopeLog}

theorem sound_of_recorded_eq_nil (hevents : log.events = []) (hfloor : log.coveredFrom = none) :
    log.Sound history := by
  intro _
  rw [recorded, hevents, hfloor]
  exact Retains.start

theorem Sound.noteSnapshot (h : log.Sound history) {snapshot : VersionId}
    (hrising : Rising versionOf history.changes)
    (hsnapshot : ∀ c ∈ history.changes, ∀ v ∈ versionOf c, snapshot < v → c ∈ log.recorded) :
    (log.noteSnapshot snapshot).Sound history := by
  unfold ScopeLog.noteSnapshot
  split
  · exact h
  intro hdomain
  have hnow := h hdomain
  have hlower : Retains versionOf history.changes log.recorded (some snapshot) :=
    hnow.lower hrising hsnapshot
  cases hfloor : log.coveredFrom with
  | none => exact hlower
  | some floor =>
    rw [hfloor] at hnow
    exact hnow.min_floor hlower

theorem Sound.noteEmpty (h : log.Sound history) : log.noteEmpty.Sound history := by
  unfold ScopeLog.noteEmpty
  split <;> exact h

/-- Dropping the oldest events moves the floor along. -/
theorem retains_trim {events : List ReplayEvent} (hrising : Rising versionOf history.changes)
    (h : Retains versionOf history.changes (events.map ReplayEvent.notification) log.coveredFrom) :
    Retains versionOf history.changes (log.trim events).recorded (log.trim events).coveredFrom := by
  fun_induction log.trim events with
  | case1 | case3 => exact h
  | case2 log dropped rest _ ih =>
    exact ih (h.drop_first hrising dropped.versionOf_eq)

@[simp]
theorem domain_trim (events : List ReplayEvent) : (log.trim events).domain = log.domain := by
  fun_induction log.trim events with
  | case1 | case3 => rfl
  | case2 log dropped rest _ ih => rw [ih]

theorem Sound.push (h : log.Sound history) (event : ReplayEvent)
    (hrising : Rising versionOf (history.append event.notification).changes) :
    (log.push event).Sound (history.append event.notification) := by
  intro hdomain
  rw [ScopeLog.push, domain_trim] at hdomain
  refine retains_trim hrising ?_
  have happend := (h hdomain).append event.notification
  rw [map_append]
  -- the first version after an empty snapshot is later than all before
  split
  · exact happend.floor_at_last hrising event.versionOf_eq
  · exact happend

end ScopeLog

/-! ### Runs -/

/-- **Steps that keep the log sound.**

* A boundary is noted only when every later change of the scope is in the log.
* A change is later than those before it, and one of a tracked scope is recorded: its check has not
  come before the tracking.
* A table is created again under an identity that the log does not stand under. -/
def Founded (w : World) : Event → Prop
  | .note index => ∀ key snapshot, w.boundaries[index]? = some (key, some snapshot) →
      ∀ c ∈ (w.scope key).changes, ∀ v ∈ versionOf c, snapshot < v → c ∈ w.log.recorded key
  | .commit key change hasLiveSubscribers => (w.scope key).Extends change ∧
      (w.log.tracking key = true → hasLiveSubscribers = true)
  | .recreate key domain => FreshDomain w key domain
  | .bind .. | .compute .. => True

namespace ReplayState

variable {state : ReplayState}

theorem recorded_eq (state : ReplayState) (key : ScopeKey) :
    state.recorded key = ((state.scopes.lookup key).getD ScopeLog.new).recorded := by
  unfold recorded
  cases state.scopes.lookup key <;> rfl

/-- What recording a change does: only the log of its scope changes. -/
theorem lookup_record {change : ChangeNotification} {other : ScopeKey}
    (h : (state.record key change).scopes.lookup other = some log) :
    (other ≠ key ∧ state.scopes.lookup other = some log) ∨
      (other = key ∧ ∃ old, state.scopes.lookup key = some old ∧
        (log = old.invalidate ∨
          ∃ event : ReplayEvent, event.notification = change ∧ log = old.push event)) := by
  unfold record at h
  split at h
  · next htracking =>
    obtain ⟨old, hold⟩ := isSome_iff_exists.mp htracking
    by_cases hkey : other = key
    · subst hkey
      refine .inr ⟨rfl, old, hold, ?_⟩
      split at h
      · rw [lookup_modify_self, hold] at h
        exact .inl (some.inj h).symm
      rename_i version hversion
      rw [scopes_touch, lookup_modify_self, hold] at h
      exact .inr ⟨⟨version, change, hversion⟩, rfl, (some.inj h).symm⟩
    · refine .inl ⟨hkey, ?_⟩
      split at h
      · rwa [lookup_modify_of_ne _ _ hkey] at h
      · rwa [scopes_touch, lookup_modify_of_ne _ _ hkey] at h
  · next htracking =>
    by_cases hkey : other = key
    · subst hkey
      exact absurd (isSome_iff_exists.mpr ⟨log, h⟩) htracking
    · exact .inl ⟨hkey, h⟩

end ReplayState

/-- **What a step can do to a scope**: to its history and to its log, which is a new one if the
scope was not tracked. -/
inductive ScopeStep (w : World) (event : Event) (key : ScopeKey) (log : ScopeLog) :
    ScopeHistory → ScopeLog → Prop
  | same : ScopeStep w event key log (w.scope key) log
  | rebound (domain : Option VersionDomain) :
    ScopeStep w event key log (w.scope key) { ScopeLog.new with domain := domain }
  | empty : ScopeStep w event key log (w.scope key) log.noteEmpty
  | noted (index : ℕ) (snapshot : VersionId) (hevent : event = .note index)
    (hboundary : w.boundaries[index]? = some (key, some snapshot)) :
    ScopeStep w event key log (w.scope key) (log.noteSnapshot snapshot)
  | missed (change : ChangeNotification) (hevent : event = .commit key change false)
    (htracking : w.log.tracking key = true) :
    ScopeStep w event key log ((w.scope key).append change) log
  | invalidated (change : ChangeNotification) :
    ScopeStep w event key log ((w.scope key).append change) log.invalidate
  | pushed (pushed : ReplayEvent) (hnew : NewVersion w key pushed.notification)
    (hevent : event = .commit key pushed.notification true) :
    ScopeStep w event key log ((w.scope key).append pushed.notification) (log.push pushed)
  | recreated (domain : Option VersionDomain) (hevent : event = .recreate key domain)
    (htracked : w.log.scopes.lookup key = some log) : ScopeStep w event key log ⟨domain, []⟩ log

theorem scopeStep_of_same {key : ScopeKey} (h : w.log.scopes.lookup key = some log) :
    ScopeStep w event key ((w.log.scopes.lookup key).getD new) (w.scope key) log := by
  rw [h]
  exact .same

theorem scopeStep_of_step (hstep : step w event = some w') {key : ScopeKey}
    (hlookup : w'.log.scopes.lookup key = some log) :
    ScopeStep w event key ((w.log.scopes.lookup key).getD new) (w'.scope key) log := by
  revert hstep
  fun_cases step w event <;> rintro ⟨⟩
  · -- bind
    rcases ReplayState.lookup_begin_modify hlookup with ⟨rfl, rfl⟩ | ⟨-, hsame⟩
    · split
      · exact .rebound _
      · exact .same
    · exact scopeStep_of_same hsame
  · -- compute
    exact scopeStep_of_same hlookup
  · -- note
    next index noted boundary hboundary =>
    cases boundary with
    | none =>
      rcases ReplayState.lookup_begin_modify hlookup with ⟨rfl, rfl⟩ | ⟨-, hsame⟩
      · exact .empty
      · exact scopeStep_of_same hsame
    | some snapshot =>
      rcases ReplayState.lookup_begin_modify hlookup with ⟨rfl, rfl⟩ | ⟨-, hsame⟩
      · exact .noted index snapshot rfl hboundary
      · exact scopeStep_of_same hsame
  · -- commit
    next changed change hasLiveSubscribers hnew =>
    by_cases hkey : key = changed
    · subst hkey
      simp only [update_self]
      cases hasLiveSubscribers with
      | false =>
        have hsame : w.log.scopes.lookup key = some log := hlookup
        rw [hsame]
        exact .missed change rfl (isSome_iff_exists.mpr ⟨log, hsame⟩)
      | true =>
        rcases ReplayState.lookup_record hlookup with ⟨hne, -⟩ | ⟨-, old, hold, hlog⟩
        · exact absurd rfl hne
        rw [hold]
        rcases hlog with rfl | ⟨pushed, rfl, rfl⟩
        · exact .invalidated change
        · exact .pushed pushed hnew rfl
    · simp only [update_of_ne hkey]
      refine scopeStep_of_same ?_
      cases hasLiveSubscribers with
      | false => exact hlookup
      | true =>
        rcases ReplayState.lookup_record hlookup with ⟨-, hsame⟩ | ⟨heq, -⟩
        · exact hsame
        · exact absurd heq hkey
  · -- recreate
    next recreated domain =>
    have hsame : w.log.scopes.lookup key = some log := hlookup
    by_cases hkey : key = recreated
    · subst hkey
      simp only [update_self, hsame]
      exact .recreated domain rfl hsame
    · simp only [update_of_ne hkey]
      exact scopeStep_of_same hsame

/-- **One step.** -/
theorem Sound.step (hfounded : Founded w event) (hw : Sound w) (hstep : step w event = some w') :
    Sound w' := by
  have hrising : ∀ key, Rising versionOf (w'.scope key).changes := by
    have hupdate : ∀ key history, Rising versionOf history.changes →
        ∀ other, Rising versionOf (update w.scope key history other).changes := by
      intro key history hhistory other
      by_cases hkey : other = key
      · rwa [hkey, update_self]
      · rw [update_of_ne hkey]
        exact hw.rising other
    revert hfounded hstep
    fun_cases Live.step w event <;> rintro hfounded ⟨⟩
    case case5 changed change hasLiveSubscribers hnew =>
      exact hupdate changed _ (hfounded.1.rising change (hw.rising changed))
    case case7 recreated domain => exact hupdate recreated _ List.Pairwise.nil
    all_goals exact hw.rising
  refine ⟨hrising, fun key log hlookup => ?_⟩
  have hrisingKey := hrising key
  have hold : ((w.log.scopes.lookup key).getD ScopeLog.new).Sound (w.scope key) := by
    cases hlog : w.log.scopes.lookup key with
    | none => exact sound_of_recorded_eq_nil rfl rfl
    | some log => exact hw.logs key log hlog
  have hscope := scopeStep_of_step hstep hlookup
  generalize w'.scope key = history at hscope hrisingKey ⊢
  cases hscope with
  | same => exact hold
  | rebound | invalidated => exact sound_of_recorded_eq_nil rfl rfl
  | empty => exact hold.noteEmpty
  | noted index snapshot hevent hboundary =>
    subst hevent
    have hrecorded := hfounded key snapshot hboundary
    rw [ReplayState.recorded_eq] at hrecorded
    exact hold.noteSnapshot (hw.rising key) hrecorded
  | missed change hevent htracking =>
    subst hevent
    cases hfounded.2 htracking
  | pushed pushed => exact hold.push pushed hrisingKey
  | recreated domain hevent htracked =>
    subst hevent
    exact fun hdomain => absurd hdomain (hfounded _ htracked)

/-- Binding a domain keeps every log sound. -/
theorem Sound.bindDomain (hw : Sound w) (key : ScopeKey) (domain : Option VersionDomain) :
    Sound { w with log := w.log.bindDomain key domain } := by
  have hfounded : Founded w (.bind key domain) := trivial
  exact hw.step hfounded rfl

/-- In a sound world a resume replays exactly the changes after the cursor. -/
theorem Sound.resume_eq (hw : Sound w) {key : ScopeKey} {cursor : VersionId}
    {replayed : List ChangeNotification} (h : w.resume key cursor = some replayed) :
    replayed = after versionOf cursor (w.scope key).changes := by
  obtain ⟨log, hlog, hdomain⟩ := w.log.exists_lookup_bindDomain key (w.scope key).domain
  have hretains := (hw.bindDomain key (w.scope key).domain).logs key log hlog hdomain
  simp only [World.resume, ReplayState.classifyCursor, ReplayState.changesAfter, hlog] at h
  by_cases hcovers : log.covers cursor = true
  · obtain rfl : log.changesAfter cursor = replayed := by simpa [hcovers] using h
    obtain ⟨floor, hfloor, hle⟩ : ∃ floor, log.coveredFrom = some floor ∧ floor ≤ cursor := by
      simpa [covers, Option.any_eq_true] using hcovers
    rw [hfloor] at hretains
    rw [changesAfter_eq, hretains.after_eq hle]
  · -- not covered: the cursor is older or expired, and nothing is replayed
    rw [if_neg hcovers] at h
    split at h
    · next hreplay => split at hreplay <;> cases hreplay
    all_goals cases h

/-- **What is replayed is exact** after every run of a new log in which boundaries, changes and new
tables are founded: if a cursor is covered, the replayed changes are all changes of the scope after
it. -/
theorem replay_exact {w w' : World} {events : List Event} (hnew : w.log = ReplayState.new)
    (hrising : ∀ key, Rising versionOf (w.scope key).changes)
    (hevents : Meets step Founded w events) (hrun : run step w events = some w') :
    ∀ key cursor replayed, w'.resume key cursor = some replayed →
      replayed = after versionOf cursor (w'.scope key).changes := by
  intro key cursor replayed hresume
  have hinit : Sound w := by
    refine ⟨hrising, fun other log hlookup => ?_⟩
    rw [hnew] at hlookup
    cases hlookup
  have hlast : Sound w' :=
    run_invariant Sound (fun _ _ _ hfounded hw hstep => hw.step hfounded hstep) hinit hevents hrun
  exact hlast.resume_eq hresume

/-! ### Recorded changes -/

theorem ScopeLog.recorded_trim_sublist (log : ScopeLog) (events : List ReplayEvent) :
    (log.trim events).recorded.Sublist (events.map ReplayEvent.notification) := by
  fun_induction log.trim events with
  | case1 | case3 => exact List.Sublist.refl _
  | case2 log dropped rest _ ih => exact ih.trans (sublist_cons_self _ _)

/-- The versions in the log of every scope are different. -/
def DistinctLogs (w : World) : Prop :=
  ∀ key log, w.log.scopes.lookup key = some log → Distinct log.recorded

/-- Every step keeps the recorded versions apart, founded or not. -/
theorem DistinctLogs.step (hw : DistinctLogs w) (hstep : step w event = some w') :
    DistinctLogs w' := by
  intro key log hlookup
  have hold : Distinct ((w.log.scopes.lookup key).getD new).recorded := by
    cases h : w.log.scopes.lookup key with
    | none => exact List.Pairwise.nil
    | some old => exact hw key old h
  have hscope := scopeStep_of_step hstep hlookup
  generalize w'.scope key = history at hscope
  cases hscope with
  | same | missed | recreated => exact hold
  | rebound | invalidated => exact List.Pairwise.nil
  | empty =>
    unfold noteEmpty
    split <;> exact hold
  | noted =>
    unfold noteSnapshot
    split <;> exact hold
  | pushed pushed hnew =>
    refine List.Pairwise.sublist (recorded_trim_sublist _ _) ?_
    rw [map_append]
    refine List.pairwise_append.mpr ⟨hold, List.pairwise_singleton _ _, fun c hc d hd => ?_⟩
    obtain rfl := List.mem_singleton.mp hd
    refine hnew c (mem_append_right _ ?_)
    rwa [ReplayState.recorded_eq]

/-- **Recorded versions are different** in every reached world, once the log is bound to the
table. -/
theorem distinct_recorded_of_run (hnew : w.log = ReplayState.new)
    (hrun : run step w events = some w') (key : ScopeKey) :
    Distinct ((w'.log.bindDomain key (w'.scope key).domain).recorded key) := by
  have hinit : DistinctLogs w := by
    intro other log hlookup
    rw [hnew] at hlookup
    cases hlookup
  have hlast : DistinctLogs w' :=
    run_preserves DistinctLogs (fun _ _ _ hw hstep => hw.step hstep) hinit hrun
  have hbound : DistinctLogs { w' with log := w'.log.bindDomain key (w'.scope key).domain } :=
    hlast.step (by rfl : step w' (.bind key (w'.scope key).domain) = _)
  obtain ⟨log, hlog, -⟩ := w'.log.exists_lookup_bindDomain key (w'.scope key).domain
  rw [ReplayState.recorded_eq, hlog]
  exact hbound key log hlog

/-! ### A filtered snapshot -/

/-- The insert of a row with an owner, at a version. -/
def inserted (id : Int64) (owner : String) (version : Int64) : ChangeNotification :=
  ⟨.insert, ⟨[("id", .int64 id), ("owner", .utf8 owner), ("_version", .int64 version)]⟩, none,
    ["id"]⟩

/-- A shared table. -/
def itemsKey : ScopeKey := ⟨none, ("app", "items")⟩

/-- Two rows were inserted before the server started. -/
def restarted : World where
  log := ReplayState.new
  scope := fun _ => ⟨none, [inserted 1 "ann" 10, inserted 2 "bob" 20]⟩
  boundaries := []

def ownedBy (owner : String) (row : Row) : Bool := row.get "owner" == some (.utf8 owner)

def snapshotOptions : InitialDataOptions := ⟨none, none, false⟩

/-- A subscription to the rows of one owner. -/
def subscribeToAnn : List Event :=
  [.bind itemsKey none, .compute itemsKey snapshotOptions (ownedBy "ann"), .note 0]

/-- A subscription to all rows, and a change after it. -/
def subscribeToAll : List Event :=
  [.bind itemsKey none, .compute itemsKey snapshotOptions fun _ => true, .note 0,
    .commit itemsKey (inserted 3 "ann" 30) true]

/-- **A covered cursor misses a change.** The snapshot of one owner's rows ends at version 10, which
becomes the floor. A client that has seen version 10 resumes and gets nothing, although the row of
version 20 was inserted while it was away. And the change of a dropped table is replayed to a
client of the new one. -/
theorem replay_misses_change :
    (∃ w', run step restarted subscribeToAnn = some w' ∧
      w'.resume itemsKey ⟨10, by decide⟩ = some [] ∧
      after versionOf ⟨10, by decide⟩ (w'.scope itemsKey).changes = [inserted 2 "bob" 20]) ∧
    ∃ w', run step restarted (subscribeToAll ++ [.recreate itemsKey none]) = some w' ∧
      w'.resume itemsKey ⟨20, by decide⟩ = some [inserted 3 "ann" 30] ∧
      after versionOf ⟨20, by decide⟩ (w'.scope itemsKey).changes = [] := by
  refine ⟨⟨_, rfl, ?_, ?_⟩, _, rfl, ?_, ?_⟩ <;> decide

theorem founded_subscribeToAll : Meets step Founded restarted subscribeToAll := by
  refine meets_cons trivial rfl (meets_cons trivial rfl (meets_cons ?_ rfl
    ⟨⟨by decide, fun _ => rfl⟩, fun _ _ => trivial⟩))
  · intro key snapshot hboundary
    obtain ⟨rfl, hsnapshot⟩ := Prod.mk.inj (some.inj hboundary)
    cases hsnapshot
    decide

theorem replay_exact_of_subscribeToAll :
    ∃ w', run step restarted subscribeToAll = some w' ∧
      w'.resume itemsKey ⟨20, by decide⟩ = some [inserted 3 "ann" 30] ∧
      [inserted 3 "ann" 30] = after versionOf ⟨20, by decide⟩ (w'.scope itemsKey).changes := by
  refine ⟨_, rfl, by decide, ?_⟩
  have hrising : Rising versionOf [inserted 1 "ann" 10, inserted 2 "bob" 20] := by decide
  exact replay_exact rfl (fun _ => hrising) founded_subscribeToAll rfl itemsKey ⟨20, by decide⟩ _
    (by decide)

end KalamDB.Live
