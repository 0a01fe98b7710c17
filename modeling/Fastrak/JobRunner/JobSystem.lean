import Fastrak.JobRunner.Job
import Fastrak.Library.Run
import Fastrak.Library.Table
import Mathlib.Data.List.Basic
import Mathlib.Data.List.Nodup

/-!
# The jobs and those who work on them

The table of the jobs is shared: programs delay graphs of jobs, the runner marks jobs as
enqueued and asks for them to be run, workers perform them, and users set them to done,
cancel or requeue them. Every event is one transaction, and they come in any order. A
worker has three of them for a job: it marks the job as started, it performs the job and
stores how that ended, and, where the job is done, it releases the jobs that were waiting
for it. It may also be killed between two of them.
-/

namespace Fastrak

namespace JobRunner

/-- What a worker is about to do. -/
inductive Worker
  /-- It has started the job, and has read whether the parents are done. -/
  | performing (uuid : String) (job : Job) (parentsDone : Bool)
  /-- It has stored the job as done. -/
  | finishing (uuid : String)
  deriving DecidableEq

/-- The job that the worker performs. -/
def Worker.performs : Worker → Option String
  | performing uuid _ _ => some uuid
  | finishing _ => none

structure JobSystem where
  table : JobTable := fun _ => none
  workers : List Worker := []

/-- The transactions on the jobs. Workers are named by their position. -/
inductive JobEvent
  | delay (graphUuid : String) (vertices : List JobTable.Vertex) (edges : List (String × String))
  | setJobEnqueued (uuid : String)
  /-- The runner had no answer to its request. -/
  | setJobPending (uuid : String)
  | runjob (uuid : String)
  | perform (worker : ℕ) (outcome : Outcome)
  | enqueueWaiting (worker : ℕ)
  /-- The worker is killed. -/
  | abandon (worker : ℕ)
  | buttonDone (uuid : String)
  | buttonCancelled (uuid : String)
  | requeue (uuid : String)
  | unlink (uuid : String)
  deriving DecidableEq

namespace JobSystem

/-- `set_job_enqueued(uuid)` of the runner: an update of the row, whatever its state. -/
def setJobEnqueued (uuid : String) (s : JobSystem) : JobSystem :=
  match s.table uuid with
  | none => s
  | some job => { s with table := s.table.store uuid { job with state := .enqueued } }

/-- `set_job_pending()`, after a request that failed. -/
def setJobPending (uuid : String) (s : JobSystem) : JobSystem :=
  match s.table uuid with
  | none => s
  | some job =>
      if job.state = .enqueued then
        { s with table := s.table.store uuid { job with state := .pending } }
      else s

/-- The first transaction of `runjob`: a job that is not enqueued is not run. -/
def runjob (uuid : String) (s : JobSystem) : JobSystem :=
  match s.table.load uuid with
  | none => s
  | some job =>
      if job.state = .enqueued then
        { table := s.table.store uuid job.setStarted
          workers := s.workers ++
            [.performing uuid job.setStarted (s.table.allDone job.dependsOn)] }
      else s

/-- The job has been performed: it is done, or it is pending again, or it has failed. -/
def perform (worker : ℕ) (outcome : Outcome) (s : JobSystem) : JobSystem :=
  match s.workers[worker]? with
  | some (.performing uuid job parentsDone) =>
      match job.perform outcome with
      | (.done, job) =>
          { table := s.table.store uuid job.setDone
            workers := .finishing uuid :: s.workers.eraseIdx worker }
      | (.postponed, job) =>
          { table := s.table.store uuid (job.setPending parentsDone false)
            workers := s.workers.eraseIdx worker }
      | (.failed, job) =>
          { table := s.table.store uuid job.setFailed
            workers := s.workers.eraseIdx worker }
  | _ => s

/-- `_enqueue_dependent_jobs` -/
def enqueueWaiting (worker : ℕ) (s : JobSystem) : JobSystem :=
  match s.workers[worker]? with
  | some (.finishing uuid) =>
      { table := s.table.enqueueWaiting uuid
        workers := s.workers.eraseIdx worker }
  | _ => s

def buttonDone (uuid : String) (s : JobSystem) : JobSystem :=
  match s.table.load uuid with
  | none => s
  | some job => { s with table := (s.table.store uuid job.setDone).enqueueWaiting uuid }

def buttonCancelled (uuid : String) (s : JobSystem) : JobSystem :=
  match s.table.load uuid with
  | none => s
  | some job => { s with table := s.table.store uuid job.setCancelled }

/-- Only a job that does not wait for others is requeued, but then it may have to wait. -/
def requeue (uuid : String) (s : JobSystem) : JobSystem :=
  match s.table.load uuid with
  | none => s
  | some job =>
      if job.state = .waitDependencies then s
      else { s with
        table := s.table.store uuid (job.setPending (s.table.allDone job.dependsOn) true) }

def unlink (uuid : String) (s : JobSystem) : JobSystem :=
  { s with table := Function.update s.table uuid none }

def step (s : JobSystem) : JobEvent → JobSystem
  | .delay graphUuid vertices edges => { s with table := s.table.delay graphUuid vertices edges }
  | .setJobEnqueued uuid => s.setJobEnqueued uuid
  | .setJobPending uuid => s.setJobPending uuid
  | .runjob uuid => s.runjob uuid
  | .perform worker outcome => s.perform worker outcome
  | .enqueueWaiting worker => s.enqueueWaiting worker
  | .abandon worker => { s with workers := s.workers.eraseIdx worker }
  | .buttonDone uuid => s.buttonDone uuid
  | .buttonCancelled uuid => s.buttonCancelled uuid
  | .requeue uuid => s.requeue uuid
  | .unlink uuid => s.unlink uuid

end JobSystem

end JobRunner

end Fastrak
