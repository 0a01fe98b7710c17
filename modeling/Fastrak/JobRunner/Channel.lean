import Mathlib.Data.Prod.Lex
import Mathlib.Data.Rat.Defs
import Mathlib.Algebra.Order.Field.Rat
import Mathlib.Logic.Function.Basic
import Fastrak.JobRunner.PriorityQueue
import Fastrak.Library.Text

/-!
# The channels of the job runner

A job waits in the queue of its channel; when the channel has capacity it is marked as
running there and waits in the queue of the parent channel, and so on up to the root
channel, from where it goes to Odoo. Channels are objects that refer to each other, so
they are addressed here by the names on the way up to the root, and `Channels` holds the
state of each of them.

A `ChannelJob` is an object with an identity, and all its attributes but `eta` stay as
they were made. The eta of a job is reset to `None` when it has passed; the jobs this has
been done to are part of the state.
-/

namespace Fastrak

namespace JobRunner

/-- A channel: its own name first, then the names of its ancestors below the root. -/
abbrev Path : Type := List Text

/-- Truth in Python of a number that may be `None`. -/
def given (x : Option ℚ) : Bool := x.getD 0 ≠ 0

/-- The attributes of a job that decide when it runs, with the eta it was made with. -/
structure ChannelJob where
  ident : ℕ
  dbName : String
  channel : Path
  uuid : String
  seq : ℕ
  dateCreated : ℚ
  priority : ℤ
  eta : Option ℚ
  deriving DecidableEq

namespace ChannelJob

/-- The eta of a job that has one. -/
def etaTime (job : ChannelJob) : ℚ := job.eta.getD 0

/-- `sorting_key_ignoring_eta()` -/
def sortingKeyIgnoringEta (job : ChannelJob) : ℤ ×ₗ ℚ ×ₗ ℕ :=
  toLex (job.priority, toLex (job.dateCreated, job.seq))

/-- `sorting_key()` -/
def sortingKey (job : ChannelJob) : ℚ ×ₗ ℤ ×ₗ ℚ ×ₗ ℕ :=
  toLex (job.etaTime, job.sortingKeyIgnoringEta)

/-- `__lt__`, in which jobs with an eta come first. -/
def lt (job other : ChannelJob) : Bool :=
  if given job.eta && !given other.eta then true
  else if !given job.eta && given other.eta then false
  else job.sortingKey < other.sortingKey

theorem lt_iff_of_given {job other : ChannelJob} (h : given job.eta) (h' : given other.eta) :
    job.lt other ↔ job.sortingKey < other.sortingKey := by
  simp [lt, h, h']

theorem lt_iff_of_not_given {job other : ChannelJob} (h : given job.eta = false)
    (h' : given other.eta = false) :
    job.lt other ↔ job.sortingKeyIgnoringEta < other.sortingKeyIgnoringEta := by
  have heta : job.etaTime = 0 := by simpa [given, etaTime] using h
  have heta' : other.etaTime = 0 := by simpa [given, etaTime] using h'
  simp [lt, h, h', sortingKey, heta, heta', Prod.Lex.toLex_lt_toLex]

end ChannelJob

/-- The queue of a channel: jobs without an eta compete by their keys, jobs with one are
set aside until it has passed. -/
structure ChannelQueue where
  queue : PriorityQueue ChannelJob.sortingKeyIgnoringEta := .empty _
  etaQueue : PriorityQueue ChannelJob.sortingKey := .empty _
  sequential : Bool := false

namespace ChannelQueue

/-- `len(queue)` -/
def len (q : ChannelQueue) : ℕ := q.etaQueue.len + q.queue.len

/-- `job in queue` -/
def contains (q : ChannelQueue) (job : ChannelJob) : Bool :=
  q.etaQueue.contains job || q.queue.contains job

/-- `add(job)`, with the eta that the job has now. -/
def add (eta : Option ℚ) (q : ChannelQueue) (job : ChannelJob) : ChannelQueue :=
  if given eta then { q with etaQueue := q.etaQueue.add job }
  else { q with queue := q.queue.add job }

def remove (q : ChannelQueue) (job : ChannelJob) : ChannelQueue :=
  { q with etaQueue := q.etaQueue.remove job, queue := q.queue.remove job }

/-- The first loop of `pop`: the jobs whose eta has passed, which is then reset, join the
other jobs. -/
def releaseDue (now : ℚ) : ℕ → ChannelQueue → List ChannelJob × ChannelQueue
  | 0, q => ([], q)
  | n + 1, q =>
      match q.etaQueue.getitem with
      | none => ([], q)
      | some first =>
          if first.etaTime ≤ now then
            let (job, etaQueue) := q.etaQueue.pruned.pop
            match job with
            | none => ([], { q with etaQueue })
            | some job =>
                let (due, q) := releaseDue now n { q with etaQueue, queue := q.queue.add job }
                (job :: due, q)
          else ([], { q with etaQueue := q.etaQueue.pruned })

/-- In a sequential queue a job with an eta that comes before the other jobs is waited
for. -/
def mustWait (q : ChannelQueue) : Bool :=
  match q.etaQueue.getitem, q.queue.getitem with
  | some etaJob, some job =>
      q.sequential && etaJob.sortingKeyIgnoringEta < job.sortingKeyIgnoringEta
  | _, _ => false

/-- `pop(now)`, with the jobs whose eta is reset. -/
def pop (now : ℚ) (q : ChannelQueue) : Option ChannelJob × List ChannelJob × ChannelQueue :=
  let (due, q) := q.releaseDue now q.etaQueue.len
  if q.mustWait then (none, due, q)
  else
    let (job, queue) := q.queue.pop
    (job, due, { q with queue })

/-- `get_wakeup_time(wakeup_time)`; that reading `queue[0]` also drops the removed jobs
in front is left out. -/
def getWakeupTime (q : ChannelQueue) (wakeupTime : ℚ) : ℚ :=
  match q.etaQueue.getitem with
  | none => wakeupTime
  | some first => if wakeupTime = 0 then first.etaTime else min wakeupTime first.etaTime

end ChannelQueue

/-- What a channel holds and how it is configured. -/
structure Channel where
  /-- No capacity means an unlimited one. -/
  capacity : Option ℤ := none
  throttle : ℤ := 0
  queue : ChannelQueue := {}
  running : Finset ChannelJob := ∅
  failed : Finset ChannelJob := ∅
  /-- Where it is 0, there is no pause. -/
  pauseUntil : ℚ := 0

namespace Channel

/-- What `remove(job)` does to the channel itself. -/
def remove (c : Channel) (job : ChannelJob) : Channel :=
  { c with
    queue := c.queue.remove job
    running := c.running.erase job
    failed := c.failed.erase job }

def hasCapacity (c : Channel) : Bool :=
  if c.queue.sequential && c.failed.Nonempty then false
  else
    match c.capacity with
    | none => true
    | some capacity => capacity = 0 ∨ (c.running.card : ℤ) < capacity

/-- `get_wakeup_time(wakeup_time)`. A full channel is woken up by a notification, and in a
paused one neither its jobs nor those of its children would run. -/
def getWakeupTime (c : Channel) (ofChildren : ℚ → ℚ) (wakeupTime : ℚ) : ℚ :=
  if c.hasCapacity = false then wakeupTime
  else if c.pauseUntil ≠ 0 then
    if wakeupTime = 0 then c.pauseUntil else min wakeupTime c.pauseUntil
  else ofChildren (c.queue.getWakeupTime wakeupTime)

end Channel

/-- The state of the channels, and the jobs whose eta has been reset. -/
structure Channels where
  chan : Path → Channel
  etaReset : Finset ChannelJob := ∅

namespace Channels

/-- `job.eta` -/
def eta (s : Channels) (job : ChannelJob) : Option ℚ :=
  if job ∈ s.etaReset then none else job.eta

def modify (s : Channels) (p : Path) (f : Channel → Channel) : Channels :=
  { s with chan := Function.update s.chan p (f (s.chan p)) }

/-- `remove(job)` -/
def remove (job : ChannelJob) : Path → Channels → Channels
  | [], s => s.modify [] (·.remove job)
  | name :: p, s => remove job p (s.modify (name :: p) (·.remove job))

/-- `self.parent.remove(job)`, if there is a parent. -/
def removeAbove (job : ChannelJob) : Path → Channels → Channels
  | [], s => s
  | _ :: p, s => s.remove job p

/-- `set_done(job)` -/
def setDone (job : ChannelJob) (p : Path) (s : Channels) : Channels := s.remove job p

/-- `set_pending(job)` -/
def setPending (job : ChannelJob) (p : Path) (s : Channels) : Channels :=
  if (s.chan p).queue.contains job then s
  else
    (s.modify p fun c => { c with
      queue := c.queue.add (s.eta job) job
      running := c.running.erase job
      failed := c.failed.erase job }).removeAbove job p

/-- What `set_running(job)` does to one channel. -/
def markRunning (s : Channels) (job : ChannelJob) (p : Path) : Channels :=
  s.modify p fun c => { c with
    queue := c.queue.remove job
    running := insert job c.running
    failed := c.failed.erase job }

/-- `set_running(job)`: as long as the job is not running yet, the parent is next. -/
def setRunning (job : ChannelJob) : Path → Channels → Channels
  | [], s => if job ∈ (s.chan []).running then s else s.markRunning job []
  | name :: p, s =>
      if job ∈ (s.chan (name :: p)).running then s
      else setRunning job p (s.markRunning job (name :: p))

/-- `set_failed(job)` -/
def setFailed (job : ChannelJob) (p : Path) (s : Channels) : Channels :=
  if job ∈ (s.chan p).failed then s
  else
    (s.modify p fun c => { c with
      queue := c.queue.remove job
      running := c.running.erase job
      failed := insert job c.failed }).removeAbove job p

/-- The loop of `get_jobs_to_run`. Every round takes a job out of the queue, so the
length of the queue bounds their number. -/
def yieldJobs (now : ℚ) (p : Path) : ℕ → Channels → List ChannelJob × Channels
  | 0, s => ([], s)
  | n + 1, s =>
      if (s.chan p).hasCapacity then
        let (job, due, queue) := (s.chan p).queue.pop now
        let s := { s.modify p fun c => { c with queue } with
          etaReset := s.etaReset ∪ due.toFinset }
        match job with
        | none => ([], s)
        | some job =>
            let s := s.modify p fun c => { c with running := insert job c.running }
            if (s.chan p).throttle ≠ 0 then
              ([job], s.modify p fun c => { c with pauseUntil := now + c.throttle })
            else
              let (jobs, s) := yieldJobs now p n s
              (job :: jobs, s)
      else ([], s)

/-- `get_jobs_to_run(now)` of a channel, when the jobs of its children are enqueued. -/
def getJobsToRun (now : ℚ) (p : Path) (s : Channels) : List ChannelJob × Channels :=
  let c := s.chan p
  if c.throttle ≠ 0 ∧ c.pauseUntil ≠ 0 then
    if now < c.pauseUntil then ([], s)
    else (s.modify p fun c => { c with pauseUntil := 0 }).yieldJobs now p (c.queue.len + 1)
  else s.yieldJobs now p (c.queue.len + 1)

/-- The jobs that a child has yielded join the queue of the channel. -/
def enqueue (jobs : List ChannelJob) (p : Path) (s : Channels) : Channels :=
  s.modify p fun c => { c with
    queue := jobs.foldl (fun q job => q.add (s.eta job) job) c.queue }

end Channels

/-- The channels below some channel, in the order in which they were made. -/
inductive Subchannels
  | nil
  | cons (name : Text) (children siblings : Subchannels)
  deriving DecidableEq

namespace Subchannels

/-- The first loop of `get_jobs_to_run(now)`, for the channel `p` with these children. -/
def enqueueReady (now : ℚ) : Subchannels → Path → Channels → Channels
  | nil, _, s => s
  | cons name children siblings, p, s =>
      let s := children.enqueueReady now (name :: p) s
      let (jobs, s) := s.getJobsToRun now (name :: p)
      siblings.enqueueReady now p (s.enqueue jobs p)

/-- `get_wakeup_time` of the children, one after the other. -/
def getWakeupTime (s : Channels) : Subchannels → Path → ℚ → ℚ
  | nil, _, wakeupTime => wakeupTime
  | cons name children siblings, p, wakeupTime =>
      siblings.getWakeupTime s p
        ((s.chan (name :: p)).getWakeupTime (children.getWakeupTime s (name :: p)) wakeupTime)

end Subchannels

end JobRunner

end Fastrak
