import KalamDB.Lib.Resumption
import KalamDB.Lib.Runs
import KalamDB.Rls.Evaluate
import KalamDB.Scan.Versions

/-!
# Row-level security: memberships under concurrent change

How an authorization is bound to the membership of a principal, and how the membership
changes at the same time. Every read or write of shared state is a step of its own:

* A **mutation guard** announces a change of a relation table: it raises the counter of active
  mutations, then the table's generation; when it is dropped it raises the generation again
  and lowers the counter.
* Between the two the state-machine worker of the table's group writes row versions. When it
  applies a single entry, the writes are **coalesced**: they are buffered and persisted as one
  batch after the apply has returned, that is after the guard is dropped. The batched updates and
  deletes of a shared table write **without a guard**.
* `bindAuthorization` captures the generation of every relation table it depends on, looks the
  authorization set up in a cache keyed by that generation, or loads the membership and
  inserts the set; it gives up when the generation changed or a mutation is active.
* A bound authorization is checked (`authorizes`, `filterAuthorized`) with the generations
  compared before and after.

Readers are programs over the atomic operations `Access`; workers are small state machines.
A relation table keeps all its row versions, and the contents it had after each change that
was persisted.
-/

namespace KalamDB.Rls

open Resumption LatestVersion

/-! ### Shared state -/

/-- A relation table: the two counters its provider owns, the row versions it stores, and the
contents it had before each persisted change, the latest first. -/
structure RelationState where
  generation : ℕ
  activeMutations : ℕ
  current : List SharedTableRow
  past : List (List SharedTableRow)

namespace RelationState

def contents (r : RelationState) : List (List SharedTableRow) := r.current :: r.past

/-- A write that reaches the store. -/
def append (r : RelationState) (rows : List SharedTableRow) : RelationState :=
  if rows = [] then r else { r with current := r.current ++ rows, past := r.contents }

end RelationState

/-- Identity- and generation-complete key of an authorization set. -/
structure AuthorizationCacheKey where
  policyId : PolicyId
  policyGeneration : ℕ
  principalId : String
  relationTable : TableId
  relationGeneration : ℕ
  snapshotCommitSeq : Option VersionId
  deriving DecidableEq

/-- Policy, principal and relation table; the cache keeps the newest key of each scope. -/
abbrev AuthorizationCacheScope : Type := PolicyId × String × TableId

def AuthorizationCacheKey.scope (key : AuthorizationCacheKey) : AuthorizationCacheScope :=
  (key.policyId, key.principalId, key.relationTable)

structure AuthorizationCache where
  sets : AList fun _ : AuthorizationCacheKey => AuthorizationSet
  latestKeys : AList fun _ : AuthorizationCacheScope => AuthorizationCacheKey

namespace AuthorizationCache

def empty : AuthorizationCache := ⟨∅, ∅⟩

/-- Enter a set and drop the one under the key this scope had before. -/
def insert (cache : AuthorizationCache) (key : AuthorizationCacheKey) (set : AuthorizationSet) :
    AuthorizationCache where
  sets :=
    (match cache.latestKeys.lookup key.scope with
      | some stale => if stale = key then cache.sets else cache.sets.erase stale
      | none => cache.sets).insert key set
  latestKeys := cache.latestKeys.insert key.scope key

end AuthorizationCache

/-- Where a worker stands with its mutation guard: none, counter raised, generation raised (the
mutation proper), generation raised again. -/
inductive MutationGuard where
  | idle
  | announced (table : TableId)
  | mutating (table : TableId)
  | leaving (table : TableId)
  deriving DecidableEq

/-- The worker of a group: its guard and the writes buffered for the next batch. -/
structure Worker where
  guard : MutationGuard
  batch : List (TableId × SharedTableRow)

def Worker.idle : Worker := ⟨.idle, []⟩

/-- The buffered writes of one table. -/
def Worker.pending (w : Worker) (t : TableId) : List SharedTableRow :=
  (w.batch.filter fun entry => entry.1 = t).map Prod.snd

structure Shared where
  relations : TableId → RelationState
  cache : AuthorizationCache
  workers : List Worker

/-! ### Reads of a relation table -/

variable (table : CatalogTable)

/-- The newest version of every row that a snapshot shows, without tombstones. -/
def resolveRows (snapshot : Option VersionId) (versions : List SharedTableRow) : List Row :=
  let candidates := versions.filter (isVisibleAtSnapshot snapshot)
  let best := winners table.definition.mergeBucket SharedTableRow.version candidates
  ((best.entries.map Sigma.snd).filter fun r => !r.deleted).map SharedTableRow.fields

/-- The versions an index on the principal column finds, old ones included. -/
def principalVersions (columnId : ℕ) (principal : String)
    (versions : List SharedTableRow) : List SharedTableRow :=
  versions.filter fun r =>
    (columnValue table r.fields columnId).any (scalarEqualsPrincipal · principal)

/-- The live row of a primary key. -/
def findByPk (versions : List SharedTableRow) (pk : ScalarValue) :
    Option Row :=
  (resolveRows table none versions).find? fun row =>
    row.get table.definition.primaryKeyFieldName = some pk

/-! ### Atomic accesses of the readers -/

inductive Access where
  | generation (t : TableId)
  | hasActiveMutations (t : TableId)
  | cacheGet (key : AuthorizationCacheKey)
  | cacheInsert (key : AuthorizationCacheKey) (set : AuthorizationSet)
  | scanRelation (table : CatalogTable) (t : TableId) (principal : Option (ℕ × String))
      (snapshot : Option VersionId)
  | findByPk (table : CatalogTable) (t : TableId) (pk : ScalarValue)

@[reducible]
def Answer : Access → Type
  | .generation _ => ℕ
  | .hasActiveMutations _ => Bool
  | .cacheGet _ => Option AuthorizationSet
  | .cacheInsert _ _ => Unit
  | .scanRelation _ _ _ _ => List Row
  | .findByPk _ _ _ => Option Row

def execute : (a : Access) → Shared → Answer a × Shared
  | .generation t, s => ((s.relations t).generation, s)
  | .hasActiveMutations t, s => (decide ((s.relations t).activeMutations ≠ 0), s)
  | .cacheGet key, s => (s.cache.sets.lookup key, s)
  | .cacheInsert key set, s => ((), { s with cache := s.cache.insert key set })
  | .scanRelation table t principal snapshot, s =>
    let versions := (s.relations t).current
    (resolveRows table snapshot
      (match principal with
        | some (columnId, user) => principalVersions table columnId user versions
        | none => versions), s)
  | .findByPk table t pk, s => (findByPk table (s.relations t).current pk, s)

abbrev Reader (α : Type) : Type := Prog Access Answer α

namespace Reader

variable (t : TableId)

def generation : Reader ℕ := Prog.perform (Access.generation t)

def hasActiveMutations : Reader Bool :=
  Prog.perform (Access.hasActiveMutations t)

def cacheGet (key : AuthorizationCacheKey) : Reader (Option AuthorizationSet) :=
  Prog.perform (Access.cacheGet key)

def cacheInsert (key : AuthorizationCacheKey) (set : AuthorizationSet) : Reader Unit :=
  Prog.perform (Access.cacheInsert key set)

def scanRelation (principal : Option (ℕ × String))
    (snapshot : Option VersionId) : Reader (List Row) :=
  Prog.perform (Access.scanRelation table t principal snapshot)

def findByPk (pk : ScalarValue) : Reader (Option Row) :=
  Prog.perform (Access.findByPk table t pk)

end Reader

/-! ### Binding -/

def displayTable (t : TableId) : String := t.1 ++ ":" ++ t.2

/-- Does an index lead with the principal column? -/
def hasPrincipalIndex (relation : AuthorizationRelation) : Bool :=
  table.definition.scalarIndexes.any fun index =>
    index.columns.head? == some relation.principalColumn

/-- The live rows of the keys that an index scan found, each key once. -/
def findWinners (table : CatalogTable) (t : TableId) :
    List ScalarValue → List Row → Reader (List Row)
  | _, [] => return []
  | seen, row :: rest =>
    match row.get table.definition.primaryKeyFieldName with
    | none => findWinners table t seen rest
    | some pk =>
      if pk ∈ seen then findWinners table t seen rest
      else do
        let found ← Reader.findByPk table t pk
        let others ← findWinners table t (pk :: seen) rest
        return found.toList ++ others

/-- Load the membership of a principal. An index on the principal column finds stale versions
too, so that its keys are looked up again. -/
def loadMembershipAuthorizationSet (relation : AuthorizationRelation) (principal : String)
    (snapshot : Option VersionId) : Reader AuthorizationSet := do
  if hasPrincipalIndex table relation then
    let rows ← Reader.scanRelation table relation.relationTable
      (some (relation.principalColumn, principal)) snapshot
    let winners ← findWinners table relation.relationTable [] rows
    return .fromRelationRows relation table principal winners
  else
    let rows ← Reader.scanRelation table relation.relationTable none snapshot
    return .fromRelationRows relation table principal rows

/-- A captured generation is current: no mutation is active and the generation is the same. -/
def isCurrent (t : TableId) (expected : ℕ) : Reader Bool := do
  if ← Reader.hasActiveMutations t then return false
  return (← Reader.generation t) == expected

/-- The test after a lookup or a load: the generation first, then the counter. -/
def isUnchanged (t : TableId) (expected : ℕ) : Reader Bool := do
  if (← Reader.generation t) != expected then return false
  return !(← Reader.hasActiveMutations t)

abbrev AuthorizationSets : Type := AList fun _ : PolicyId => AuthorizationSet

/-- Captured generations by relation table. -/
abbrev Dependencies : Type := List (TableId × ℕ)

structure BoundAuthorization where
  policies : BoundTablePolicies
  sets : AuthorizationSets
  dependencies : Dependencies

variable (policy : BoundPolicy)

section Binding

variable (tables : TableId → Option CatalogTable) (host : CatalogTable)

def resolveRelationProvider (t : TableId) : Except String CatalogTable :=
  match tables t with
  | none => .error ("RLS relation provider " ++ displayTable t ++ " is unavailable")
  | some table =>
    if table.isShared then .ok table
    else .error ("RLS relation " ++ displayTable t ++ " must be a shared table")

def authorizationCacheKey (principal : String) (t : TableId) (generation : ℕ)
    (snapshot : Option VersionId) : AuthorizationCacheKey :=
  ⟨policy.policyId, policy.policyGeneration, principal, t, generation, snapshot⟩

/-- The generation captured for a table, now or for an earlier policy. -/
def captureDependency (dependencies : Dependencies) (t : TableId) :
    Reader (ℕ × Dependencies) :=
  match dependencies.lookup t with
  | some generation => return (generation, dependencies)
  | none => do
    let generation ← Reader.generation t
    return (generation, dependencies ++ [(t, generation)])

/-- Load the membership and cache it under the captured generation, unless the table changed
meanwhile. -/
def loadAndCache (relation : AuthorizationRelation) (principal : String)
    (snapshot : Option VersionId) (generation : ℕ) : Reader (Option AuthorizationSet) := do
  let set ← loadMembershipAuthorizationSet table relation principal snapshot
  if !(← isUnchanged relation.relationTable generation) then return none
  Reader.cacheInsert
    (authorizationCacheKey policy principal relation.relationTable generation snapshot) set
  return some set

/-- The set of one policy at a captured generation: from the cache, or loaded and inserted. -/
def bindRelation (relation : AuthorizationRelation) (principal : String)
    (snapshot : Option VersionId) (generation : ℕ) : Reader (Except String AuthorizationSet) := do
  let t := relation.relationTable
  if !(← isCurrent t generation) then
    return .error ("RLS relation " ++ displayTable t ++
      " is changing; authorization fails closed")
  let key := authorizationCacheKey policy principal t generation snapshot
  let cached ← Reader.cacheGet key
  let hit ← match cached with
    | some _ => isUnchanged t generation
    | none => pure false
  match cached, hit with
  | some set, true => return .ok set
  | _, _ =>
    match ← loadAndCache table policy relation principal snapshot generation with
    | some set => return .ok set
    | none =>
      return .error ("RLS relation " ++ displayTable t ++
        " changed while authorization was built; authorization fails closed")

/-- The loop over the policies. -/
def bindPolicies (principal : String) (snapshot : Option VersionId) :
    List BoundPolicy → AuthorizationSets → Dependencies →
      Reader (Except String (AuthorizationSets × Dependencies))
  | [], sets, dependencies => return .ok (sets, dependencies)
  | policy :: rest, sets, dependencies =>
    match policy.program with
    | .rowLocal _ => bindPolicies principal snapshot rest sets dependencies
    | .authorizationRelation relation =>
      match resolveRelationProvider tables relation.relationTable with
      | .error e => return .error e
      | .ok table => do
        let (generation, dependencies') ←
          captureDependency dependencies relation.relationTable
        match ← bindRelation table policy relation principal snapshot generation with
        | .error e => return .error e
        | .ok set =>
          bindPolicies principal snapshot rest (sets.insert policy.policyId set) dependencies'

/-- Are all captured generations current? -/
def allCurrent : Dependencies → Reader Bool
  | [] => return true
  | (t, generation) :: rest => do
    if !(← isCurrent t generation) then return false
    allCurrent rest

variable (policies : BoundTablePolicies) (snapshot : Option VersionId)

/-- **Binding policies to the memberships of their principal.** -/
def bindAuthorization :
    Reader (Except String BoundAuthorization) := do
  match ← bindPolicies tables policies.principal snapshot policies.policies ∅ [] with
  | .error e => return .error e
  | .ok (sets, dependencies) =>
    if !(← allCurrent dependencies) then
      return .error "RLS dependency changed while authorization was bound"
    return .ok ⟨policies, sets, dependencies⟩

/-! ### Checking -/

/-- Live delivery of one row. -/
def BoundAuthorization.authorizes (b : BoundAuthorization) (row : Row) : Reader Bool := do
  if !(← allCurrent b.dependencies) then return false
  if !b.policies.authorizesRowWithSets host row b.sets then return false
  allCurrent b.dependencies

/-- Rows of a scan; a change during the evaluation rejects them all. -/
def BoundAuthorization.filterAuthorized (b : BoundAuthorization) (rows : List Row) :
    Reader (Option (List Row)) := do
  if !(← allCurrent b.dependencies) then return none
  let authorized := rows.filter (b.policies.authorizesRowWithSets host · b.sets)
  if ← allCurrent b.dependencies then return some authorized
  return none

/-- The policy list when it is one membership policy. -/
def singleMembershipPolicy :
    Option (BoundPolicy × AuthorizationRelation) :=
  match policies.policies with
  | [policy] =>
    match policy.program with
    | .authorizationRelation relation => some (policy, relation)
    | .rowLocal _ => none
  | _ => none

/-- Is one of the key values in the membership? The answer may come from the cache; the
membership of a principal that is the primary key of the relation table is loaded and cached,
any other is left to the scan. -/
def preAuthorizeKeys (relation : AuthorizationRelation) (principal : String)
    (snapshot : Option VersionId) (values : List ScalarValue) : Reader (Except String Bool) := do
  let t := relation.relationTable
  let generation ← Reader.generation t
  if ← Reader.hasActiveMutations t then return .ok false
  let key := authorizationCacheKey policy principal t generation snapshot
  match ← Reader.cacheGet key with
  | some set =>
    if !(← isUnchanged t generation) then return .ok false
    return .ok (values.any fun value => set.containsKey [value])
  | none =>
    if table.definition.primaryKeyColumn.columnId != relation.principalColumn then
      return .ok true
    match ← loadAndCache table policy relation principal snapshot generation with
    | some set => return .ok (values.any fun value => set.containsKey [value])
    | none => return .ok false

variable (constraint : Option (List ScalarValue))

/-- The early test of a scan, whose filter may pin the protected key to `constraint`. -/
def preAuthorizeScan : Reader (Except String Bool) := do
  if policies.bypass then return .ok true
  if policies.isDefaultDeny then return .ok false
  match singleMembershipPolicy policies with
  | none => return .ok true
  | some (policy, relation) =>
    match relation.protectedKeys with
    | [protectedKey] =>
      if (host.definition.columns.find? fun c => c.columnId == protectedKey).isNone then
        return .ok false
      match constraint with
      | none => return .ok true
      | some values =>
        match resolveRelationProvider tables relation.relationTable with
        | .error _ => return .ok false
        | .ok table => preAuthorizeKeys table policy relation policies.principal snapshot values
    | _ => return .ok true

/-- Authorization of the resolved rows of a scan. -/
def authorizeResolvedRows (rows : List Row) : Reader (Except String (List Row)) := do
  if policies.bypass then return .ok rows
  if policies.isDefaultDeny then return .ok []
  match ← bindAuthorization tables policies snapshot with
  | .error e => return .error e
  | .ok b =>
    match ← b.filterAuthorized host rows with
    | some authorized => return .ok authorized
    | none => return .error "RLS dependency changed while rows were authorized"

/-- **A scan**: the early test, then the rows that storage resolved. -/
def scanAuthorized (rows : List Row) :
    Reader (Except String (List Row)) := do
  match ← preAuthorizeScan tables host policies snapshot constraint with
  | .error e => return .error e
  | .ok false => return .ok []
  | .ok true => authorizeResolvedRows tables host policies snapshot rows

end Binding

/-! ### The system -/

/-- The shared state with the readers started so far. -/
structure World where
  shared : Shared
  scans : List (Reader (Except String (List Row)))
  subscriptions : List (Reader (Except String BoundAuthorization))
  deliveries : List (Reader Bool)

/-- The steps of a worker: `AuthorizationMutationGuard::begin` and its drop, two counter updates
each, the writes in between, the writes of `update_batch_by_pk_values_deferred` and
`delete_batch_by_pk_values_deferred`, which take no guard, and the batch that is persisted or thrown
away once the apply has returned. -/
inductive WorkerEvent where
  | raiseActive (t : TableId)
  | raiseGeneration
  | bufferWrite (rows : List SharedTableRow)
  | writeThrough (rows : List SharedTableRow)
  | raiseGenerationAgain
  | lowerActive
  | bufferUnguarded (t : TableId) (rows : List SharedTableRow)
  | writeUnguarded (t : TableId) (rows : List SharedTableRow)
  | persistBatch
  | discardBatch

def WorkerEvent.isGuarded : WorkerEvent → Bool
  | .bufferUnguarded _ _ | .writeUnguarded _ _ => false
  | _ => true

/-- What can happen next. Workers and readers are named by their position. -/
inductive Event where
  | worker (i : ℕ) (e : WorkerEvent)
  | scan (policies : BoundTablePolicies) (snapshot : Option VersionId)
      (constraint : Option (List ScalarValue)) (rows : List Row)
  | subscribe (policies : BoundTablePolicies)
  | deliver (subscription : ℕ) (row : Row)
  | resumeScan (reader : ℕ)
  | resumeSubscription (reader : ℕ)
  | resumeDelivery (reader : ℕ)

namespace Worker

/-- The worker after a step, if it can take it. -/
def next (w : Worker) (e : WorkerEvent) : Option Worker :=
  match w.guard, e with
  | .idle, .raiseActive t => some { w with guard := .announced t }
  | .announced t, .raiseGeneration => some { w with guard := .mutating t }
  | .mutating t, .bufferWrite rows => some { w with batch := w.batch ++ rows.map (t, ·) }
  | .mutating _, .writeThrough _ => some w
  | .mutating t, .raiseGenerationAgain => some { w with guard := .leaving t }
  | .leaving _, .lowerActive => some { w with guard := .idle }
  | .idle, .bufferUnguarded t rows => some { w with batch := w.batch ++ rows.map (t, ·) }
  | .idle, .writeUnguarded _ _ => some w
  | .idle, .persistBatch | .idle, .discardBatch => some .idle
  | _, _ => none

/-- What a step does to a table. -/
def effect (w : Worker) (e : WorkerEvent) (t : TableId) (r : RelationState) : RelationState :=
  match w.guard, e with
  | .idle, .raiseActive t' =>
    if t = t' then { r with activeMutations := r.activeMutations + 1 } else r
  | .announced t', .raiseGeneration | .mutating t', .raiseGenerationAgain =>
    if t = t' then { r with generation := r.generation + 1 } else r
  | .mutating t', .writeThrough rows | .idle, .writeUnguarded t' rows =>
    if t = t' then r.append rows else r
  | .leaving t', .lowerActive =>
    if t = t' then { r with activeMutations := r.activeMutations - 1 } else r
  | .idle, .persistBatch => r.append (w.pending t)
  | _, _ => r

end Worker

/-- A step of the worker at position `i`. -/
def Shared.workerStep (s : Shared) (i : ℕ) (e : WorkerEvent) : Option Shared :=
  (s.workers[i]?).bind fun w =>
    (w.next e).map fun w' =>
      { s with relations := fun t => w.effect e t (s.relations t)
               workers := s.workers.set i w' }

section System

variable (tables : TableId → Option CatalogTable) (host : CatalogTable)

/-- **One step of the system.** -/
def World.step (w : World) (e : Event) : Option World :=
  match e with
  | .worker i e => (w.shared.workerStep i e).map fun shared => { w with shared := shared }
  | .scan policies snapshot constraint rows =>
    some { w with scans := w.scans ++
      [scanAuthorized tables host policies snapshot constraint rows] }
  | .subscribe policies =>
    some { w with subscriptions := w.subscriptions ++ [bindAuthorization tables policies none] }
  | .deliver i row =>
    match w.subscriptions[i]? with
    | some (.pure (.ok b)) => some { w with deliveries := w.deliveries ++ [b.authorizes host row] }
    | _ => none
  | .resumeScan i =>
    (w.scans[i]?).map fun p =>
      { w with scans := w.scans.set i (p.resume execute w.shared).1
               shared := (p.resume execute w.shared).2 }
  | .resumeSubscription i =>
    (w.subscriptions[i]?).map fun p =>
      { w with subscriptions := w.subscriptions.set i (p.resume execute w.shared).1
               shared := (p.resume execute w.shared).2 }
  | .resumeDelivery i =>
    (w.deliveries[i]?).map fun p =>
      { w with deliveries := w.deliveries.set i (p.resume execute w.shared).1
               shared := (p.resume execute w.shared).2 }

/-- The start: stored tables without mutations, an empty cache, idle workers, no readers. -/
def World.initial (contents : TableId → List SharedTableRow) (workers : ℕ) : World where
  shared :=
    { relations := fun t => ⟨0, 0, contents t, []⟩
      cache := .empty
      workers := List.replicate workers .idle }
  scans := []
  subscriptions := []
  deliveries := []

end System

end KalamDB.Rls
