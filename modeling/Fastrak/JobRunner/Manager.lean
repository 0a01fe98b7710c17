import Fastrak.JobRunner.Channel
import Fastrak.JobRunner.Job
import Fastrak.Library.Run

/-!
# The channel manager

The manager keeps the channels and, for each uuid, the job with it. It is told by
notifications what the state of a job in its database is, and it is polled for the jobs
to run. The jobs are kept in a weak dictionary: `collect` is the removal of one that no
channel refers to, which may happen at any time.
-/

namespace Fastrak

namespace JobRunner

namespace Subchannels

/-- A channel with only this line of descendants. -/
def line : List Text → Subchannels
  | [] => nil
  | name :: names => cons name (line names) nil

/-- The children of the channel that these names lead to, if it exists. -/
def subtree : Subchannels → List Text → Option Subchannels
  | cs, [] => some cs
  | nil, _ :: _ => none
  | cons n children siblings, name :: names =>
      if n = name then children.subtree names else siblings.subtree (name :: names)

/-- The channel exists. -/
def has (children : Subchannels) (p : Path) : Bool := (children.subtree p.reverse).isSome

/-- Gets or creates the channels that these names lead through. -/
def create : Subchannels → List Text → Subchannels
  | cs, [] => cs
  | nil, name :: names => line (name :: names)
  | cons n children siblings, name :: names =>
      if n = name then cons n (children.create names) siblings
      else cons n children (siblings.create (name :: names))

/-- The nearest existing channel above this one. -/
def fallback (children : Subchannels) : Path → Path
  | [] => []
  | _ :: p => if p = [] ∨ children.has p then p else children.fallback p

end Subchannels

/-- Some channel refers to the job. -/
def Channels.holds (s : Channels) (job : ChannelJob) : Bool :=
  job.channel.tails.any fun p =>
    (s.chan p).queue.contains job || job ∈ (s.chan p).running || job ∈ (s.chan p).failed

/-- What the runner tells of a job in a database. -/
structure Notification where
  dbName : String
  channelName : Option Text
  uuid : String
  seq : ℕ
  dateCreated : ℚ
  priority : ℤ
  eta : Option ℚ
  state : Option State
  deriving DecidableEq

/-- The configuration of a channel. -/
structure Config where
  name : Text
  capacity : Option ℤ := none
  sequential : Bool := false
  throttle : ℤ := 0
  deriving DecidableEq

structure ChannelManager where
  /-- The channels below the root channel. -/
  children : Subchannels := .nil
  channels : Channels := { chan := fun p => if p = [] then { capacity := some 1 } else {} }
  jobs : List ChannelJob := []
  nextIdent : ℕ := 0

namespace ChannelManager

def rootName : Text := ['r', 'o', 'o', 't']

/-- The names below the root channel in a full name. -/
def parts (channelName : Text) : List Text :=
  ((if rootName ++ ['.'] <+: channelName then channelName
    else rootName ++ '.' :: channelName).splitOn '.').drop 1

/-- `get_channel_by_name(channel_name, autocreate, parent_fallback)`, where there may be no
channel of this name. With a fallback, all the names are looked up again below the nearest
channel that exists. -/
def getChannelByName (channelName : Option Text) (autocreate parentFallback : Bool)
    (m : ChannelManager) : Option (Path × ChannelManager) :=
  let channelName := channelName.getD []
  if channelName = [] ∨ channelName = rootName then some ([], m)
  else
    let p := (parts channelName).reverse
    if m.children.has p then some (p, m)
    else if !autocreate && !parentFallback then none
    else
      let parent := if parentFallback then m.children.fallback p else []
      some (p ++ parent, { m with children := m.children.create (p ++ parent).reverse })

/-- `get_channel_from_config(config)`, where the configuration may be refused. -/
def getChannelFromConfig (config : Config) (m : ChannelManager) : Option ChannelManager :=
  match m.getChannelByName (some config.name) true false with
  | none => none
  | some (p, m) =>
      let m := { m with
        channels := m.channels.modify p fun c => { c with
          capacity := config.capacity
          throttle := config.throttle
          queue := { c.queue with sequential := config.sequential } } }
      if config.sequential ∧ config.capacity ≠ some 1 then none else some m

def simpleConfigure (configs : List Config) (m : ChannelManager) : Option ChannelManager :=
  configs.foldlM (fun m config => m.getChannelFromConfig config) m

/-- `_jobs_by_uuid.get(uuid)` -/
def find (uuid : String) (m : ChannelManager) : Option ChannelJob :=
  m.jobs.find? (·.uuid = uuid)

/-- `job.channel.remove(job)` and the removal from the dictionary. -/
def forget (job : ChannelJob) (m : ChannelManager) : ChannelManager :=
  { m with channels := m.channels.remove job job.channel, jobs := m.jobs.erase job }

/-- `remove_job(uuid)` -/
def removeJob (uuid : String) (m : ChannelManager) : ChannelManager :=
  match m.find uuid with
  | none => m
  | some job => m.forget job

/-- `remove_db(db_name)` -/
def removeDb (dbName : String) (m : ChannelManager) : ChannelManager :=
  (m.jobs.filter (·.dbName = dbName)).foldl (fun m job => m.forget job) m

/-- The state transitions of `notify`. -/
def transition (state : Option State) (job : ChannelJob) (s : Channels) : Channels :=
  match state with
  | none | some .done | some .cancelled => s.setDone job job.channel
  | some .pending => s.setPending job job.channel
  | some .enqueued | some .started => s.setRunning job job.channel
  | some .failed => s.setFailed job job.channel
  -- the job waits until all its parents are done
  | some .waitDependencies => s

/-- A job with the properties of the notification. -/
def newJob (n : Notification) (channel : Path) (ident : ℕ) : ChannelJob where
  ident := ident
  dbName := n.dbName
  channel := channel
  uuid := n.uuid
  seq := n.seq
  dateCreated := n.dateCreated
  priority := n.priority
  eta := n.eta

/-- The job that the notification is about is not the one that is known. -/
def Changed (n : Notification) (channel : Path) (m : ChannelManager) (job : ChannelJob) : Prop :=
  n.seq ≠ job.seq ∨ n.priority ≠ job.priority ∨ n.eta ≠ m.channels.eta job ∨
    channel ≠ job.channel

instance (n : Notification) (channel : Path) (m : ChannelManager) (job : ChannelJob) :
    Decidable (Changed n channel m job) :=
  inferInstanceAs (Decidable (_ ∨ _ ∨ _ ∨ _))

/-- The job object for the notification, a new one if there is none with its
properties. -/
def jobFor (n : Notification) (channel : Path) (m : ChannelManager) :
    ChannelJob × ChannelManager :=
  let fresh := fun (m : ChannelManager) =>
    let job := newJob n channel m.nextIdent
    (job, { m with jobs := job :: m.jobs, nextIdent := m.nextIdent + 1 })
  match m.find n.uuid with
  | none => fresh m
  | some job => if Changed n channel m job then fresh (m.removeJob n.uuid) else (job, m)

/-- `notify(...)`. The database and the date of a job never change: that they do not is
asserted, and the call fails before it changes any job otherwise. -/
def notify (n : Notification) (m : ChannelManager) : ChannelManager :=
  match m.getChannelByName n.channelName false true with
  | none => m
  | some (channel, m) =>
      if ∃ job ∈ m.find n.uuid, job.dbName ≠ n.dbName ∨ job.dateCreated ≠ n.dateCreated then m
      else
        let (job, m) := jobFor n channel m
        { m with channels := transition n.state job m.channels }

/-- `get_jobs_to_run(now)` -/
def getJobsToRun (now : ℚ) (m : ChannelManager) : List ChannelJob × ChannelManager :=
  let (jobs, channels) := (m.children.enqueueReady now [] m.channels).getJobsToRun now []
  (jobs, { m with channels })

/-- `get_wakeup_time()` -/
def getWakeupTime (m : ChannelManager) : ℚ :=
  (m.channels.chan []).getWakeupTime (m.children.getWakeupTime m.channels []) 0

/-- The weak dictionary drops a job that is in no channel. -/
def collect (uuid : String) (m : ChannelManager) : ChannelManager :=
  match m.find uuid with
  | none => m
  | some job =>
      if m.channels.holds job then m else { m with jobs := m.jobs.erase job }

end ChannelManager

end JobRunner

end Fastrak
