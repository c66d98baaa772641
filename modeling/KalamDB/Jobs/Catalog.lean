import KalamDB.Raft.Errors

/-!
# Jobs, job nodes and schedules in the catalog

The rows of `system.jobs`, of its per-node companion and of the schedules, and how the Meta
applier changes them. Every change of a job row goes through `validateJobUpdate`, which demands
**timestamps and messages that fit the new status**; a change that does not provide them fails.

Storage errors are left out, and so are the columns of a job that no modelled function reads.
-/

namespace KalamDB.Jobs

open Raft

abbrev JobId : Type := String
abbrev ScheduleId : Type := String

/-- Milliseconds since the epoch. -/
abbrev Millis : Type := Int

inductive JobStatus where
  | new
  | queued
  | running
  | retrying
  | completed
  | failed
  | cancelled
  | skipped
  deriving DecidableEq

namespace JobStatus

def asStr : JobStatus → String
  | new => "new"
  | queued => "queued"
  | running => "running"
  | retrying => "retrying"
  | completed => "completed"
  | failed => "failed"
  | cancelled => "cancelled"
  | skipped => "skipped"

/-- The derived debug text. -/
def debug : JobStatus → String
  | new => "New"
  | queued => "Queued"
  | running => "Running"
  | retrying => "Retrying"
  | completed => "Completed"
  | failed => "Failed"
  | cancelled => "Cancelled"
  | skipped => "Skipped"

def isTerminal : JobStatus → Bool
  | completed | failed | cancelled | skipped => true
  | new | queued | running | retrying => false

end JobStatus

inductive JobType where
  | flush
  | vectorIndex
  | compact
  | segmentCompact
  | cleanup
  | jobCleanup
  | backup
  | restore
  | retention
  | streamEviction
  | userCleanup
  | manifestEviction
  | topicCleanup
  | topicRetention
  | userExport
  | tableExport
  | tableImport
  | unknown
  deriving DecidableEq

def JobType.debug : JobType → String
  | flush => "Flush"
  | vectorIndex => "VectorIndex"
  | compact => "Compact"
  | segmentCompact => "SegmentCompact"
  | cleanup => "Cleanup"
  | jobCleanup => "JobCleanup"
  | backup => "Backup"
  | restore => "Restore"
  | retention => "Retention"
  | streamEviction => "StreamEviction"
  | userCleanup => "UserCleanup"
  | manifestEviction => "ManifestEviction"
  | topicCleanup => "TopicCleanup"
  | topicRetention => "TopicRetention"
  | userExport => "UserExport"
  | tableExport => "TableExport"
  | tableImport => "TableImport"
  | unknown => "Unknown"

structure Job where
  jobId : JobId
  jobType : JobType
  status : JobStatus
  message : Option String
  idempotencyKey : Option String
  retryCount : ℕ
  maxRetries : ℕ
  createdAt : Millis
  updatedAt : Millis
  startedAt : Option Millis
  finishedAt : Option Millis
  nodeId : NodeId
  deriving DecidableEq

/-- The share of a node in a job. -/
structure JobNode where
  jobId : JobId
  nodeId : NodeId
  status : JobStatus
  errorMessage : Option String
  createdAt : Millis
  updatedAt : Millis
  startedAt : Option Millis
  finishedAt : Option Millis
  deriving DecidableEq

/-- A schedule by its version; its other columns are carried along as one text. -/
structure CatalogSchedule where
  version : String
  body : String
  deriving DecidableEq

/-- The tables; a job is stored under its id. -/
structure Catalog where
  jobs : JobId → Option Job
  jobNodes : JobId → NodeId → Option JobNode
  schedules : ScheduleId → Option CatalogSchedule
  keyed : ∀ {id job}, jobs id = some job → job.jobId = id

variable (catalog : Catalog)

namespace Catalog

def empty : Catalog := ⟨fun _ => none, fun _ _ => none, fun _ => none, nofun⟩

def putJob (job : Job) : Catalog :=
  { catalog with
    jobs := Function.update catalog.jobs job.jobId (some job)
    keyed := by
      intro id job' h
      by_cases hid : id = job.jobId
      · obtain rfl : job = job' := by simpa [hid] using h
        exact hid.symm
      · exact catalog.keyed (by simpa [hid] using h) }

def removeJob (id : JobId) : Catalog :=
  { catalog with
    jobs := Function.update catalog.jobs id none
    keyed := by
      intro id' job h
      by_cases hid : id' = id
      · simp [hid] at h
      · exact catalog.keyed (by simpa [hid] using h) }

def putJobNode (node : JobNode) : Catalog :=
  { catalog with
    jobNodes := Function.update catalog.jobNodes node.jobId
      (Function.update (catalog.jobNodes node.jobId) node.nodeId (some node)) }

def putSchedule (id : ScheduleId) (row : Option CatalogSchedule) : Catalog :=
  { catalog with schedules := Function.update catalog.schedules id row }

end Catalog

/-! ### The jobs provider -/

/-- An error of the system tables, shown with its kind. -/
inductive SystemError where
  | notFound (message : String)
  | other (message : String)
  deriving DecidableEq

def SystemError.display : SystemError → String
  | notFound message => "Not found: " ++ message
  | other message => "Other error: " ++ message

/-- A status that a job can only have once it was started. -/
def needsStart : JobStatus → Bool
  | .running | .retrying | .completed | .failed | .cancelled | .skipped => true
  | .new | .queued => false

def validateJobUpdate (job : Job) : Except SystemError Unit :=
  if needsStart job.status ∧ job.startedAt = none then
    .error (.other ("Job " ++ job.jobId ++ ": started_at must be set before marking status " ++
      job.status.asStr))
  else if job.status.isTerminal ∧ job.finishedAt = none then
    .error (.other ("Job " ++ job.jobId ++ ": finished_at must be set before marking status " ++
      job.status.asStr))
  else if job.status = .completed ∧ job.message = none then
    .error (.other ("Job " ++ job.jobId ++ ": result/message must be set before marking status " ++
      job.status.asStr))
  else if job.status = .skipped ∧ job.message = none then
    .error (.other ("Job " ++ job.jobId ++ ": message must be set before marking status " ++
      job.status.asStr))
  else .ok ()

/-- Replace the row of a job. -/
def updateJob (job : Job) : Except SystemError Catalog :=
  match catalog.jobs job.jobId with
  | none => .error (.notFound ("Job not found: " ++ job.jobId))
  | some _ =>
    match validateJobUpdate job with
    | .error e => .error e
    | .ok () => .ok (catalog.putJob job)

/-! ### The Meta applier -/

namespace ProviderMetaApplier

variable (jobId : JobId)

/-- Change the row of a job and say so; without a row nothing happens. -/
def changeJob (change : Job → Job) (failure : String) (done : Job → String)
    (missing : String) : Except RaftError (String × Catalog) :=
  match catalog.jobs jobId with
  | none => .ok ("Job " ++ jobId ++ missing, catalog)
  | some job =>
    match updateJob catalog (change job) with
    | .error e => .error (.internal (failure ++ ": " ++ e.display))
    | .ok catalog' => .ok (done job, catalog')

def createJob (job : Job) : Except RaftError (String × Catalog) :=
  .ok ("Job " ++ job.jobId ++ " created", catalog.putJob job)

variable (nodeId : NodeId)

/-- Unlike every other change, a claim fails for a job that is not there and for one that is
running. -/
def claimJob (claimedAt : Millis) :
    Except RaftError (String × Catalog) :=
  match catalog.jobs jobId with
  | none => .error (.internal ("Job " ++ jobId ++ " not found for claiming"))
  | some job =>
    if job.status = .running then
      .error (.internal ("Job " ++ jobId ++ " already claimed by node " ++ toString job.nodeId))
    else
      match updateJob catalog
          { job with
            nodeId := nodeId
            startedAt := some claimedAt
            status := .running
            updatedAt := claimedAt } with
      | .error e => .error (.internal ("Failed to claim job: " ++ e.display))
      | .ok catalog' => .ok ("Job " ++ jobId ++ " claimed by node " ++ toString nodeId, catalog')

variable (status : JobStatus)

def updateJobStatus (updatedAt : Millis) : Except RaftError (String × Catalog) :=
  changeJob catalog jobId
    (fun job =>
      { job with
        status := status
        updatedAt := updatedAt
        startedAt :=
          if (status = .running ∨ status = .retrying) ∧ job.startedAt = none then some updatedAt
          else job.startedAt
        finishedAt :=
          if (status = .completed ∨ status = .failed ∨ status = .cancelled) ∧
              job.finishedAt = none then some updatedAt
          else job.finishedAt })
    "Failed to update job status"
    (fun job => "Job " ++ jobId ++ " status updated from " ++ job.status.debug ++ " to " ++
      status.debug)
    " not found for status update"

def completeJob (result : Option String)
    (completedAt : Millis) : Except RaftError (String × Catalog) :=
  changeJob catalog jobId
    (fun job =>
      { job with
        status := .completed
        message := some (result.getD "\x7b\"message\":\"Job completed successfully\"\x7d")
        startedAt := some (job.startedAt.getD completedAt)
        finishedAt := some completedAt
        updatedAt := completedAt })
    "Failed to complete job"
    (fun job => "Job " ++ jobId ++ " (" ++ job.jobType.debug ++ ") completed successfully")
    " not found for completion"

def failJob (errorMessage : String) (failedAt : Millis) :
    Except RaftError (String × Catalog) :=
  changeJob catalog jobId
    (fun job =>
      { job with
        status := .failed
        message := some errorMessage
        finishedAt := some failedAt
        updatedAt := failedAt })
    "Failed to fail job"
    (fun job => "Job " ++ jobId ++ " (" ++ job.jobType.debug ++ ") marked as failed: " ++
      errorMessage)
    " not found for failure"

def releaseJob (reason : String) (releasedAt : Millis) :
    Except RaftError (String × Catalog) :=
  changeJob catalog jobId
    (fun job =>
      { job with
        status := .new
        nodeId := 1
        startedAt := none
        updatedAt := releasedAt })
    "Failed to release job"
    (fun job => "Job " ++ jobId ++ " (" ++ job.jobType.debug ++ ") released: " ++ reason)
    " not found for release"

def cancelJob (reason : String) (cancelledAt : Millis) :
    Except RaftError (String × Catalog) :=
  changeJob catalog jobId
    (fun job =>
      { job with
        status := .cancelled
        finishedAt := some cancelledAt
        message := some reason
        updatedAt := cancelledAt })
    "Failed to cancel job"
    (fun job => "Job " ++ jobId ++ " (" ++ job.jobType.debug ++ ") cancelled: " ++ reason)
    " not found for cancellation"

def createJobNode (createdAt : Millis) : String × Catalog :=
  ("Job node " ++ toString nodeId ++ " created and awakened",
    catalog.putJobNode ⟨jobId, nodeId, status, none, createdAt, createdAt, none, none⟩)

def claimJobNode (claimedAt : Millis) :
    String × Catalog :=
  match catalog.jobNodes jobId nodeId with
  | none => ("Job node " ++ toString nodeId ++ " not found for claim", catalog)
  | some node =>
    ("Job node " ++ toString nodeId ++ " claimed",
      catalog.putJobNode
        { node with
          status := .running
          startedAt := some claimedAt
          updatedAt := claimedAt })

def updateJobNodeStatus (errorMessage : Option String) (updatedAt : Millis) : String × Catalog :=
  match catalog.jobNodes jobId nodeId with
  | none => ("Job node " ++ toString nodeId ++ " not found for update", catalog)
  | some node =>
    ("Job node " ++ toString nodeId ++ " updated",
      catalog.putJobNode
        { node with
          status := status
          updatedAt := updatedAt
          errorMessage := errorMessage
          finishedAt := if status.isTerminal then some updatedAt else node.finishedAt })

/-- Replace a schedule if it still has the expected version. -/
def compareExchangeSchedule (id : ScheduleId) (expectedVersion : Option String)
    (replacement : Option CatalogSchedule) : Bool × Catalog :=
  if (catalog.schedules id).map CatalogSchedule.version ≠ expectedVersion then (false, catalog)
  else (true, catalog.putSchedule id replacement)

end ProviderMetaApplier

/-! ### When a change of a job passes -/

theorem validateJobUpdate_eq_ok_iff {job : Job} :
    validateJobUpdate job = .ok () ↔
      (needsStart job.status = true → job.startedAt ≠ none) ∧
      (job.status.isTerminal = true → job.finishedAt ≠ none) ∧
      (job.status = .completed ∨ job.status = .skipped → job.message ≠ none) := by
  unfold validateJobUpdate
  split_ifs <;> simp_all; grind

/-- A change of a job passes exactly when there is no row or the changed row is valid. -/
theorem ProviderMetaApplier.changeJob_ok_iff {catalog : Catalog} {jobId : JobId}
    {change : Job → Job} {failure missing : String} {done : Job → String}
    (hid : ∀ job, (change job).jobId = job.jobId) :
    (∃ r, changeJob catalog jobId change failure done missing = .ok r) ↔
      ∀ job, catalog.jobs jobId = some job → validateJobUpdate (change job) = .ok () := by
  unfold changeJob updateJob
  cases hjob : catalog.jobs jobId with
  | none => simp
  | some job =>
    simp only [hid job, catalog.keyed hjob, hjob, Option.some.injEq, forall_eq']
    cases hvalid : validateJobUpdate (change job) with
    | error | ok => simp

end KalamDB.Jobs
