import KalamDB.Jobs.Catalog
import KalamDB.Lib.Runs

/-!
# The Meta group and commands that stop it

The Meta state machine applies job and schedule commands in log order. An error of a command is
an error of the entry, and the replica **stops at that entry**, now and after every restart.
`Applicable` says which commands pass on which rows; a run of the group gets through exactly when
every entry meets a row on which it is applicable (`exists_run_iff_applicable`).

Between entries a node also writes job rows directly (recovery and retries do), removes old jobs,
and restarts. A restart keeps the rows and may bring the applied index back to an earlier value,
because the rows are written before the progress is.
-/

namespace KalamDB.Jobs

open Raft Runs JobStatus

inductive MetaCommand where
  | createJob (job : Job)
  | createJobNode (jobId : JobId) (nodeId : NodeId) (status : JobStatus) (createdAt : Millis)
  | claimJobNode (jobId : JobId) (nodeId : NodeId) (claimedAt : Millis)
  | updateJobNodeStatus (jobId : JobId) (nodeId : NodeId) (status : JobStatus)
      (errorMessage : Option String) (updatedAt : Millis)
  | claimJob (jobId : JobId) (nodeId : NodeId) (claimedAt : Millis)
  | updateJobStatus (jobId : JobId) (status : JobStatus) (updatedAt : Millis)
  | completeJob (jobId : JobId) (result : Option String) (completedAt : Millis)
  | failJob (jobId : JobId) (errorMessage : String) (failedAt : Millis)
  | releaseJob (jobId : JobId) (reason : String) (releasedAt : Millis)
  | cancelJob (jobId : JobId) (reason : String) (cancelledAt : Millis)
  | compareExchangeSchedules
      (updates : List (ScheduleId × Option String × Option CatalogSchedule))
  | compareExchangeSchedule (scheduleId : ScheduleId) (expectedVersion : Option String)
      (replacement : Option CatalogSchedule)
  deriving DecidableEq

inductive MetaResponse where
  | ok
  | jobCreated (jobId : JobId) (message : String)
  | jobClaimed (jobId : JobId) (nodeId : NodeId) (message : String)
  | schedulesUpdated (applied : List Bool)
  | message (message : String)
  deriving DecidableEq

structure MetaStateMachine where
  lastAppliedIndex : ℕ
  lastAppliedTerm : ℕ
  catalog : Catalog

structure MetaEntry where
  index : ℕ
  term : ℕ
  command : MetaCommand
  deriving DecidableEq

namespace MetaStateMachine

open ProviderMetaApplier

variable {catalog : Catalog}

def new : MetaStateMachine := ⟨0, 0, .empty⟩

/-- The answer to a change of a job, without its message. -/
def answered (r : Except RaftError (String × Catalog)) :
    Except RaftError (MetaResponse × Catalog) :=
  r.map fun r => (.ok, r.2)

def compareExchangeAll (catalog : Catalog) :
    List (ScheduleId × Option String × Option CatalogSchedule) → List Bool × Catalog
  | [] => ([], catalog)
  | (id, expected, replacement) :: rest =>
    let first := compareExchangeSchedule catalog id expected replacement
    let others := compareExchangeAll first.2 rest
    (first.1 :: others.1, others.2)

def applyCommand (catalog : Catalog) : MetaCommand → Except RaftError (MetaResponse × Catalog)
  | .createJob job => (createJob catalog job).map fun r => (.jobCreated job.jobId r.1, r.2)
  | .createJobNode jobId nodeId status createdAt =>
    .ok (.ok, (createJobNode catalog jobId nodeId status createdAt).2)
  | .claimJobNode jobId nodeId claimedAt =>
    .ok (.ok, (claimJobNode catalog jobId nodeId claimedAt).2)
  | .updateJobNodeStatus jobId nodeId status errorMessage updatedAt =>
    .ok (.ok, (updateJobNodeStatus catalog jobId nodeId status errorMessage updatedAt).2)
  | .claimJob jobId nodeId claimedAt =>
    (claimJob catalog jobId nodeId claimedAt).map fun r => (.jobClaimed jobId nodeId r.1, r.2)
  | .updateJobStatus jobId status updatedAt =>
    answered (updateJobStatus catalog jobId status updatedAt)
  | .completeJob jobId result completedAt =>
    answered (completeJob catalog jobId result completedAt)
  | .failJob jobId errorMessage failedAt => answered (failJob catalog jobId errorMessage failedAt)
  | .releaseJob jobId reason releasedAt => answered (releaseJob catalog jobId reason releasedAt)
  | .cancelJob jobId reason cancelledAt => answered (cancelJob catalog jobId reason cancelledAt)
  | .compareExchangeSchedules updates =>
    let r := compareExchangeAll catalog updates
    .ok (.schedulesUpdated r.1, r.2)
  | .compareExchangeSchedule scheduleId expectedVersion replacement =>
    let r := compareExchangeSchedule catalog scheduleId expectedVersion replacement
    .ok (.message (if r.1 then "applied" else "conflict"), r.2)

variable (m : MetaStateMachine)

/-- Apply a committed entry; one that was applied before is skipped. -/
def apply (entry : MetaEntry) :
    Except RaftError (Option MetaResponse × MetaStateMachine) :=
  if entry.index ≤ m.lastAppliedIndex then .ok (none, m)
  else
    match applyCommand m.catalog entry.command with
    | .error e => .error e
    | .ok (response, catalog) => .ok (some response, ⟨entry.index, entry.term, catalog⟩)

/-! ### Applicable commands -/

/-- What a status demands of the row that an update of the status leaves as it is. -/
def StatusFits (job : Job) : JobStatus → Prop
  | .new | .queued | .running | .retrying => True
  | .failed | .cancelled => job.startedAt ≠ none
  | .completed => job.startedAt ≠ none ∧ job.message ≠ none
  | .skipped => job.startedAt ≠ none ∧ job.finishedAt ≠ none ∧ job.message ≠ none

/-- The rows on which a command passes: a claim needs a job that is not running, a failure or
cancellation one that was started, a status update one that has what the status demands. -/
def Applicable (catalog : Catalog) : MetaCommand → Prop
  | .claimJob jobId _ _ => ∃ job, catalog.jobs jobId = some job ∧ job.status ≠ .running
  | .failJob jobId _ _ | .cancelJob jobId _ _ =>
    ∀ job, catalog.jobs jobId = some job → job.startedAt ≠ none
  | .updateJobStatus jobId status _ =>
    ∀ job, catalog.jobs jobId = some job → StatusFits job status
  | _ => True

theorem exists_answered_iff {r : Except RaftError (String × Catalog)} :
    (∃ r', answered r = .ok r') ↔ ∃ r', r = .ok r' := by
  cases r with
  | error | ok => simp [answered, Except.map]

theorem exists_claimJob_ok_iff {jobId : JobId} {nodeId : NodeId} {claimedAt : Millis} :
    (∃ r, claimJob catalog jobId nodeId claimedAt = .ok r) ↔
      ∃ job, catalog.jobs jobId = some job ∧ job.status ≠ .running := by
  unfold claimJob updateJob
  cases hjob : catalog.jobs jobId with
  | none => simp
  | some job =>
    have hkey := catalog.keyed hjob
    by_cases hrunning : job.status = .running
    · simp [hrunning]
    -- the claimed row has its start, and running demands no more
    have hvalid : ∀ job : Job, job.startedAt ≠ none → job.status = .running →
        validateJobUpdate job = .ok () := by
      intro job hstarted hstatus
      rw [validateJobUpdate_eq_ok_iff, hstatus]
      simp [hstarted, isTerminal]
    simp [hrunning, hkey, hjob, hvalid]

/-- **A command passes exactly on the rows on which it is applicable.** -/
theorem exists_applyCommand_ok_iff {command : MetaCommand} :
    (∃ r, applyCommand catalog command = .ok r) ↔ Applicable catalog command := by
  cases command with
  | createJob job => simp [applyCommand, Applicable, createJob, Except.map]
  | createJobNode | claimJobNode | updateJobNodeStatus | compareExchangeSchedules
  | compareExchangeSchedule => simp [applyCommand, Applicable]
  | claimJob jobId nodeId claimedAt =>
    rw [Applicable, ← exists_claimJob_ok_iff, applyCommand]
    cases claimJob catalog jobId nodeId claimedAt <;> simp [Except.map]
  | updateJobStatus jobId status updatedAt =>
    rw [applyCommand, exists_answered_iff, updateJobStatus,
      changeJob_ok_iff (by exact fun _ => rfl)]
    refine forall_congr' fun job => imp_congr_right fun _ => ?_
    rw [validateJobUpdate_eq_ok_iff]
    -- running and retrying set the start themselves, the first three final statuses the end
    cases status <;> cases hs : job.startedAt <;> cases hf : job.finishedAt <;>
      simp [StatusFits, needsStart, isTerminal, hs, hf]
  | completeJob jobId result completedAt =>
    rw [applyCommand, exists_answered_iff, completeJob, changeJob_ok_iff (by exact fun _ => rfl)]
    simp [Applicable, validateJobUpdate_eq_ok_iff]
  | failJob jobId errorMessage failedAt =>
    rw [applyCommand, exists_answered_iff, failJob, changeJob_ok_iff (by exact fun _ => rfl)]
    simp [Applicable, validateJobUpdate_eq_ok_iff, needsStart]
  | releaseJob jobId reason releasedAt =>
    rw [applyCommand, exists_answered_iff, releaseJob, changeJob_ok_iff (by exact fun _ => rfl)]
    simp [Applicable, validateJobUpdate_eq_ok_iff, needsStart, isTerminal]
  | cancelJob jobId reason cancelledAt =>
    rw [applyCommand, exists_answered_iff, cancelJob, changeJob_ok_iff (by exact fun _ => rfl)]
    simp [Applicable, validateJobUpdate_eq_ok_iff, needsStart]

/-! ### Runs of the group on one replica -/

/-- What happens to a replica of the Meta group: a committed entry is applied, recovery or a retry
writes a job row, old jobs are removed, the node restarts with the progress it had persisted. -/
inductive Event where
  | entry (entry : MetaEntry)
  | updateJob (job : Job)
  | deleteJob (jobId : JobId)
  | restart (persistedIndex persistedTerm : ℕ)
  deriving DecidableEq

/-- An entry whose application fails has no next state: the replica stops there. -/
def step : Event → Option MetaStateMachine
  | .entry entry => (m.apply entry).toOption.map Prod.snd
  | .updateJob job =>
    match Jobs.updateJob m.catalog job with
    | .error _ => some m
    | .ok catalog => some { m with catalog := catalog }
  | .deleteJob jobId => some { m with catalog := m.catalog.removeJob jobId }
  | .restart persistedIndex persistedTerm =>
    if persistedIndex ≤ m.lastAppliedIndex then
      some { m with lastAppliedIndex := persistedIndex, lastAppliedTerm := persistedTerm }
    else some m

/-- The entry was applied before or its command is applicable to the rows. -/
def EntryApplicable : Event → Prop
  | .entry entry => entry.index ≤ m.lastAppliedIndex ∨ Applicable m.catalog entry.command
  | _ => True

theorem exists_step_iff (event : Event) :
    (∃ m', m.step event = some m') ↔ m.EntryApplicable event := by
  cases event with
  | entry entry =>
    rw [EntryApplicable, ← exists_applyCommand_ok_iff, step, apply]
    by_cases hindex : entry.index ≤ m.lastAppliedIndex
    · simp [hindex, Except.toOption]
    · cases applyCommand m.catalog entry.command <;> simp [hindex, Except.toOption]
  | updateJob | restart => rw [step]; split <;> simp [EntryApplicable]
  | deleteJob jobId => simp [step, EntryApplicable]

/-- **When no entry stops the Meta group**: from every state, a replica gets through all events
exactly when every entry it has not applied yet finds rows on which its command is applicable. -/
theorem applies_all_iff_entries_applicable (events : List Event) :
    (∃ m', run step m events = some m') ↔ Meets step EntryApplicable m events :=
  exists_run_iff_meets exists_step_iff

end MetaStateMachine

/-! ### What the proposers check -/

namespace JobsManager

inductive Refusal where
  | idempotentConflict (message : String)
  | notFound (message : String)
  | invalidOperation (message : String)
  deriving DecidableEq

/-- The job that `create_job` proposes on the leader. -/
def createJob (jobId : JobId) (jobType : JobType) (idempotencyKey : Option String)
    (maxRetries : Option ℕ) (activeJobWithKey : String → Bool) (nodeId : NodeId) (now : Millis) :
    Except Refusal MetaCommand :=
  if idempotencyKey.any activeJobWithKey then
    .error (.idempotentConflict ("Job with idempotency key '" ++ idempotencyKey.getD "" ++
      "' is already running or queued"))
  else
    .ok (.createJob
      { jobId := jobId
        jobType := jobType
        status := .queued
        message := none
        idempotencyKey := idempotencyKey
        retryCount := 0
        maxRetries := maxRetries.getD 3
        createdAt := now
        updatedAt := now
        startedAt := none
        finishedAt := none
        nodeId := nodeId })

/-- Only a new, queued or running job is cancelled. -/
def cancelJob (catalog : Catalog) (jobId : JobId) (now : Millis) : Except Refusal MetaCommand :=
  match catalog.jobs jobId with
  | none => .error (.notFound ("Job " ++ jobId ++ " not found"))
  | some job =>
    if job.status = .new ∨ job.status = .queued ∨ job.status = .running then
      .ok (.cancelJob jobId "Cancelled by user" now)
    else .error (.invalidOperation ("Cannot cancel job in status " ++ job.status.debug))

/-- The runner claims the job that it is about to execute. -/
def markJobRunning (jobId : JobId) (nodeId : NodeId) (now : Millis) : MetaCommand :=
  .claimJob jobId nodeId now

end JobsManager

/-- A flush job as the leader creates it. -/
def queuedFlush : Job :=
  ⟨"FL-1", .flush, .queued, none, none, 0, 3, 10, 10, none, none, 1⟩

/-- **A queued job that is cancelled, and a claim that is replayed, stop the group.** The
cancellation passes the manager's own check; the claim was applied before the node went down. -/
theorem cancelled_queued_job_and_replayed_claim_stop_group :
    (JobsManager.createJob "FL-1" .flush none none (fun _ => false) 1 10 =
        .ok (.createJob queuedFlush) ∧
      ∃ created, MetaStateMachine.new.apply ⟨1, 1, .createJob queuedFlush⟩ =
          .ok (some (.jobCreated "FL-1" "Job FL-1 created"), created) ∧
        JobsManager.cancelJob created.catalog "FL-1" 20 =
          .ok (.cancelJob "FL-1" "Cancelled by user" 20) ∧
        created.apply ⟨2, 1, .cancelJob "FL-1" "Cancelled by user" 20⟩ =
          .error (.internal ("Failed to cancel job: Other error: Job FL-1: started_at must be " ++
            "set before marking status cancelled"))) ∧
    ¬ (∃ m', run MetaStateMachine.step .new
      [.entry ⟨1, 1, .createJob queuedFlush⟩, .entry ⟨2, 1, JobsManager.markJobRunning "FL-1" 1 20⟩,
        .restart 1 1, .entry ⟨2, 1, JobsManager.markJobRunning "FL-1" 1 20⟩] = some m') := by
  refine ⟨⟨rfl, _, rfl, rfl, rfl⟩, ?_⟩
  rintro ⟨m', hrun⟩
  cases hrun

end KalamDB.Jobs
