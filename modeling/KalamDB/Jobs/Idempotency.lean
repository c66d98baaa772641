import Mathlib.Data.List.Sort
import Mathlib.Data.String.Basic
import KalamDB.Jobs.MetaMachine

/-!
# One active job for an idempotency key

`create_job` looks for an active job with its key among the applied rows. The job that it then
proposes is a row only once its entry is applied, and until then **another call passes the same
check**. The check also reads a listing with limits: the first ten thousand jobs, and of these the
first hundred with the key. And a retry, a claim or a release writes its status over the row of a
job that was **finished meanwhile**. Keys whose calls do not overlap, whose jobs are all listed and
whose finished jobs stay finished never have two active jobs.

The check that `create_job_typed` makes first only refuses calls, which are otherwise calls of
`create_job`.
-/

namespace KalamDB.Jobs

open Runs List

def MAX_SCAN_LIMIT : ℕ := 10000

/-- The limit of a job filter that does not set one. -/
def DEFAULT_LIST_LIMIT : ℕ := 100

def JobStatus.isActive (status : JobStatus) : Bool :=
  status = .new || status = .queued || status = .running || status = .retrying

def Job.isActive (job : Job) : Bool := job.status.isActive

def Job.hasKey (job : Job) (key : String) : Bool := job.idempotencyKey = some key

/-- The leader: the job rows, and the jobs of calls that are past their check. -/
structure Leader where
  jobs : List Job
  calls : List Job

namespace Leader

def start : Leader := ⟨[], []⟩

variable (s : Leader)

/-- The jobs with a key: rows are scanned in the order of their ids. -/
def listJobs (key : String) : List Job :=
  (((s.jobs.insertionSort fun a b => a.jobId ≤ b.jobId).take MAX_SCAN_LIMIT).filter
    (·.hasKey key)).take DEFAULT_LIST_LIMIT

def hasActiveJobWithKey (key : String) : Bool := (s.listJobs key).any Job.isActive

/-- A call makes its check, its entry is applied or its proposal fails; a job is given a status,
whatever it had before; a row is deleted. -/
inductive Event where
  | check (jobId : JobId) (jobType : JobType) (idempotencyKey : Option String)
      (maxRetries : Option ℕ) (nodeId : NodeId) (now : Millis)
  | apply (job : Job)
  | giveUp (job : Job)
  | move (jobId : JobId) (status : JobStatus)
  | delete (jobId : JobId)

def step : Event → Option Leader
  | .check jobId jobType key maxRetries nodeId now =>
    match JobsManager.createJob jobId jobType key maxRetries s.hasActiveJobWithKey nodeId now with
    | .ok (.createJob job) => some { s with calls := job :: s.calls }
    | _ => some s
  | .apply job =>
    if job ∈ s.calls then
      some ⟨job :: s.jobs.filter (·.jobId ≠ job.jobId), s.calls.erase job⟩
    else none
  | .giveUp job => some { s with calls := s.calls.erase job }
  | .move jobId status =>
    some { s with jobs := s.jobs.map fun job =>
      if job.jobId = jobId then { job with status := status } else job }
  | .delete jobId => some { s with jobs := s.jobs.filter (·.jobId ≠ jobId) }

/-- The active jobs with the key. -/
def activeJobs (key : String) : ℕ := s.jobs.countP fun job => job.hasKey key && job.isActive

/-- A check finds no call with its key between check and application, and no more jobs than are
listed; a finished job is not made active again. -/
def seesKey : Event → Bool
  | .check _ _ (some key) _ _ _ =>
    s.calls.all (fun job => !job.hasKey key) && s.jobs.length ≤ MAX_SCAN_LIMIT &&
      s.jobs.countP (·.hasKey key) ≤ DEFAULT_LIST_LIMIT
  | .move jobId status =>
    s.jobs.all fun job => job.jobId ≠ jobId || job.isActive || !status.isActive
  | _ => true

/-- A key is had by one active job or by one call. -/
def Exclusive : Prop := ∀ key, s.activeJobs key + s.calls.countP (·.hasKey key) ≤ 1

variable {s} {s' : Leader} {key : String}

/-- Within the limits every job with the key is listed. -/
theorem mem_listJobs {job : Job} (hjobs : s.jobs.length ≤ MAX_SCAN_LIMIT)
    (hkey : s.jobs.countP (·.hasKey key) ≤ DEFAULT_LIST_LIMIT) :
    job ∈ s.listJobs key ↔ job ∈ s.jobs ∧ job.hasKey key = true := by
  have hperm := perm_insertionSort (fun a b : Job => a.jobId ≤ b.jobId) s.jobs
  have hall : (s.jobs.insertionSort fun a b => a.jobId ≤ b.jobId).take MAX_SCAN_LIMIT =
      s.jobs.insertionSort fun a b => a.jobId ≤ b.jobId :=
    take_of_length_le (by rwa [length_insertionSort])
  rw [listJobs, hall, take_of_length_le, mem_filter, hperm.mem_iff]
  rwa [← countP_eq_length_filter, hperm.countP_eq]

/-- Within the limits a check leaves no active job out. -/
theorem activeJobs_eq_zero (hjobs : s.jobs.length ≤ MAX_SCAN_LIMIT)
    (hlisted : s.jobs.countP (·.hasKey key) ≤ DEFAULT_LIST_LIMIT)
    (hnone : ¬s.hasActiveJobWithKey key = true) : s.activeJobs key = 0 := by
  refine countP_eq_zero.mpr fun job hjob hboth => hnone (any_eq_true.mpr ⟨job, ?_⟩)
  rw [Bool.and_eq_true] at hboth
  exact ⟨(mem_listJobs hjobs hlisted).mpr ⟨hjob, hboth.1⟩, hboth.2⟩

theorem Exclusive.step {event : Event} (h : s.Exclusive) (hsees : s.seesKey event = true)
    (hstep : s.step event = some s') : s'.Exclusive := by
  intro key
  have hkey := h key
  cases event with
  | check jobId jobType key' maxRetries nodeId now =>
    simp only [Leader.step, JobsManager.createJob] at hstep
    by_cases hactive : key'.any s.hasActiveJobWithKey = true
    · rw [if_pos hactive] at hstep
      cases hstep
      exact hkey
    rw [if_neg hactive] at hstep
    cases hstep
    simp only [countP_cons]
    split_ifs with hhas
    · -- no active job has the key, and no other call
      obtain rfl : key' = some key := of_decide_eq_true hhas
      simp only [seesKey, Bool.and_eq_true, decide_eq_true_eq, all_eq_true] at hsees
      obtain ⟨⟨hidle, hjobs⟩, hlisted⟩ := hsees
      have hnone : s.activeJobs key = 0 := activeJobs_eq_zero hjobs hlisted hactive
      have hcalls : s.calls.countP (·.hasKey key) = 0 :=
        countP_eq_zero.mpr fun job hjob => by simpa using hidle job hjob
      rw [hcalls]
      exact Nat.add_le_add_right hnone.le _
    · exact hkey
  | apply job =>
    simp only [Leader.step] at hstep
    split_ifs at hstep with hmem
    cases hstep
    have hothers : countP (fun job => job.hasKey key && job.isActive)
        (s.jobs.filter (·.jobId ≠ job.jobId)) ≤ s.activeJobs key := filter_sublist.countP_le
    have hcalls := (perm_cons_erase hmem).countP_eq (·.hasKey key)
    simp only [activeJobs, countP_cons] at hkey hothers hcalls ⊢
    have hhas : (if (job.hasKey key && job.isActive) = true then 1 else 0) ≤
        if job.hasKey key = true then 1 else 0 := by
      cases job.hasKey key <;> cases job.isActive <;> decide
    omega
  | giveUp job =>
    cases hstep
    exact (Nat.add_le_add_left erase_sublist.countP_le _).trans hkey
  | move jobId status =>
    cases hstep
    refine (Nat.add_le_add_right ?_ _).trans hkey
    simp only [activeJobs, countP_map]
    refine countP_mono_left fun job hjob => ?_
    have hok := all_eq_true.mp hsees job hjob
    simp only [Function.comp]
    split
    · next hmoved =>
      simp only [hmoved, ne_eq, not_true_eq_false, decide_false, Bool.false_or, Bool.or_eq_true,
        Bool.not_eq_true', Job.isActive] at hok
      simp only [Job.hasKey, Job.isActive, Bool.and_eq_true]
      rintro ⟨hhas, hactive⟩
      exact ⟨hhas, hok.resolve_right (by simp [hactive])⟩
    · exact id
  | delete jobId =>
    cases hstep
    exact (Nat.add_le_add_right filter_sublist.countP_le _).trans hkey

/-- **One active job for a key**, in every run in which the checks see the jobs with their keys and
finished jobs stay finished. -/
theorem one_active_job_of_meets (events : List Event)
    (hsees : Meets step (seesKey · ·) start events) (hrun : run step start events = some s)
    (key : String) : s.activeJobs key ≤ 1 := by
  have hs : s.Exclusive := run_invariant Exclusive (fun _ _ _ hsees h hstep => h.step hsees hstep)
    (fun _ => by simp [start, activeJobs]) hsees hrun
  exact (Nat.le_add_right _ _).trans (hs key)

/-! ### Two calls with one key -/

/-- The job of a flush with the key `flush:t`. -/
def keyedFlush (jobId : JobId) : Job :=
  ⟨jobId, .flush, .queued, none, some "flush:t", 0, 3, 10, 10, none, none, 1⟩

/-- A call for such a job makes its check. -/
def checkFlush (jobId : JobId) : Event := .check jobId .flush (some "flush:t") none 1 10

/-- Three calls, of which the second is refused and the third comes after the end of the job. -/
def flushesInTurn : List Event :=
  [checkFlush "FL-1", .apply (keyedFlush "FL-1"), checkFlush "FL-2", .move "FL-1" .completed,
    checkFlush "FL-3", .apply (keyedFlush "FL-3")]

theorem one_active_job_in_turn :
    ∃ s, run step start flushesInTurn = some s ∧ s.activeJobs "flush:t" ≤ 1 :=
  ⟨_, rfl, one_active_job_of_meets flushesInTurn (by decide) rfl "flush:t"⟩

/-- Both calls pass their check before one of the jobs is a row; or the second call comes when the
job was cancelled, which is then retried. -/
theorem two_active_jobs_of_overlapping_calls :
    (∃ s, run step start [checkFlush "FL-1", checkFlush "FL-2", .apply (keyedFlush "FL-1"),
      .apply (keyedFlush "FL-2")] = some s ∧ s.activeJobs "flush:t" = 2) ∧
    ∃ s, run step start [checkFlush "FL-1", .apply (keyedFlush "FL-1"), .move "FL-1" .cancelled,
      checkFlush "FL-2", .apply (keyedFlush "FL-2"), .move "FL-1" .retrying] = some s ∧
        s.activeJobs "flush:t" = 2 :=
  ⟨⟨_, rfl, rfl⟩, _, rfl, rfl⟩

end Leader

end KalamDB.Jobs
