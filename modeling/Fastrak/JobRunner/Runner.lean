import Fastrak.JobRunner.JobSystem
import Fastrak.JobRunner.ManagerEffect

/-!
# The runner and the jobs of a database

The runner keeps a channel manager for the jobs of a database. The database notifies it of
the uuids of the jobs that have changed; it reads their rows, whenever it comes to it, and
tells the manager. It polls the manager for the jobs to run, and marks their rows as
enqueued before it asks for them to be run.
-/

namespace Fastrak

namespace JobRunner

/-- The columns of a job that only the runner reads. -/
structure Schedule where
  seq : ℕ
  dateCreated : ℚ
  priority : ℤ := 10
  eta : Option ℚ := none
  deriving DecidableEq

structure QueueJobRunner where
  dbName : String
  jobs : JobSystem := {}
  channelManager : ChannelManager

/-- What the runner does and what others do to the jobs. -/
inductive RunnerEvent
  | jobs (event : JobEvent)
  | processNotification (uuid : String) (schedule : Schedule)
  | runJobs (now : ℚ)
  | collect (uuid : String)
  deriving DecidableEq

namespace QueueJobRunner

/-- What `select_jobs` reads of a row. -/
def selectJob (uuid : String) (schedule : Schedule) (r : QueueJobRunner) : Option Notification :=
  (r.jobs.table uuid).map fun job =>
    { dbName := r.dbName
      channelName := job.channel
      uuid := uuid
      seq := schedule.seq
      dateCreated := schedule.dateCreated
      priority := schedule.priority
      eta := schedule.eta
      state := some job.state }

/-- A round of `process_notifications`. -/
def processNotification (uuid : String) (schedule : Schedule) (r : QueueJobRunner) :
    QueueJobRunner :=
  match r.selectJob uuid schedule with
  | some n => { r with channelManager := r.channelManager.notify n }
  | none => { r with channelManager := r.channelManager.removeJob uuid }

def runJobs (now : ℚ) (r : QueueJobRunner) : QueueJobRunner :=
  let (jobs, channelManager) := r.channelManager.getJobsToRun now
  { r with
    jobs := jobs.foldl (fun s job => s.setJobEnqueued job.uuid) r.jobs
    channelManager }

def step (r : QueueJobRunner) : RunnerEvent → QueueJobRunner
  | .jobs event => { r with jobs := r.jobs.step event }
  | .processNotification uuid schedule => r.processNotification uuid schedule
  | .runJobs now => r.runJobs now
  | .collect uuid => { r with channelManager := r.channelManager.collect uuid }

end QueueJobRunner

end JobRunner

end Fastrak
