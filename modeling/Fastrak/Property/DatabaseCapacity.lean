import Fastrak.JobRunner.JobEffect
import Fastrak.JobRunner.Runner
import Fastrak.Property.ChannelCapacity

/-!
# The capacity of a channel, in the database

Whatever programs, users and workers do to the jobs, and however late the runner reads
what they have done, there are never more jobs enqueued or started in the database than
the capacities of their channels allow.
-/

namespace Fastrak

namespace JobRunner

open Run Place ChannelManager JobTable

variable {r : QueueJobRunner} {m : ChannelManager} {s : JobSystem} {t : JobTable}
  {f : String → Option Text} {place place' : ChannelJob → Place} {job job' : Job}
  {uuid other : String} {event : JobEvent}

/-! ## The rows -/

/-- The runner has handed out the job, and it is not over. -/
def Job.Taken (job : Job) : Prop := job.state = .enqueued ∨ job.state = .started

/-- The rows have the channels of their uuids. -/
def Channelled (f : String → Option Text) (t : JobTable) : Prop :=
  ∀ uuid, ∀ job ∈ t uuid, job.channel = f uuid

/-- So have the jobs that are performed. -/
structure JobSystem.Channelled (f : String → Option Text) (s : JobSystem) : Prop where
  rows : JobRunner.Channelled f s.table
  workers : ∀ uuid job parentsDone, .performing uuid job parentsDone ∈ s.workers →
    job.channel = f uuid

/-- The jobs are created in the channels of their uuids, and only the runner takes them. -/
def JobEvent.Channelled (f : String → Option Text) : JobEvent → Prop
  | .delay _ vertices _ => ∀ vertex ∈ vertices, vertex.channel = f vertex.uuid
  | .setJobEnqueued _ => False
  | _ => True

/-- Whoever is taken in the new table was taken before. -/
def TakenBefore (t t' : JobTable) : Prop :=
  ∀ uuid, ∀ job' ∈ t' uuid, job'.Taken → ∃ job ∈ t uuid, job.Taken

theorem TakenBefore.refl (t : JobTable) : TakenBefore t t :=
  fun _ job hjob htaken => ⟨job, hjob, htaken⟩

theorem takenBefore_store (h : job'.Taken → ∃ job ∈ t uuid, job.Taken) :
    TakenBefore t (t.store uuid job') := by
  intro other child hchild htaken
  rcases store_cases hchild with ⟨rfl, rfl⟩ | ⟨-, hold⟩
  · exact h htaken
  · exact ⟨child, hold, htaken⟩

theorem takenBefore_enqueueWaiting (t : JobTable) (uuid : String) :
    TakenBefore t (t.enqueueWaiting uuid) := by
  intro other child hchild htaken
  obtain ⟨old, hold, ⟨rfl, -⟩ | ⟨-, rfl⟩⟩ := enqueueWaiting_cases hchild
  · exact ⟨child, hold, htaken⟩
  · simp [Job.Taken] at htaken

theorem TakenBefore.trans {t' t'' : JobTable} (h : TakenBefore t t') (h' : TakenBefore t' t'') :
    TakenBefore t t'' := by
  intro uuid job hjob htaken
  obtain ⟨old, hold, htaken⟩ := h' uuid job hjob htaken
  exact h uuid old hold htaken

namespace JobSystem.Channelled

theorem store (h : s.Channelled f) (hjob : job.channel = f uuid) {workers : List Worker}
    (hworkers : ∀ worker ∈ workers, worker ∈ s.workers ∨
      (∀ uuid job parentsDone, worker = .performing uuid job parentsDone → job.channel = f uuid)) :
    JobSystem.Channelled f { table := s.table.store uuid job, workers := workers } where
  rows other child hchild := by
    rcases store_cases hchild with ⟨rfl, rfl⟩ | ⟨-, hold⟩
    · exact hjob
    · exact h.rows other child hold
  workers other child parentsDone hworker := by
    rcases hworkers _ hworker with hold | hnew
    · exact h.workers other child parentsDone hold
    · exact hnew other child parentsDone rfl

theorem enqueueWaiting (h : s.Channelled f) (uuid : String) {workers : List Worker}
    (hworkers : ∀ worker ∈ workers, worker ∈ s.workers) :
    JobSystem.Channelled f { table := s.table.enqueueWaiting uuid, workers := workers } where
  rows other child hchild := by
    obtain ⟨old, hold, ⟨rfl, -⟩ | ⟨-, rfl⟩⟩ := enqueueWaiting_cases hchild
    · exact h.rows other child hold
    · exact h.rows other old hold
  workers other child parentsDone hworker := h.workers other child parentsDone (hworkers _ hworker)

theorem delay (h : s.Channelled f) {graphUuid : String} {vertices : List Vertex}
    {edges : List (String × String)} (hvertices : ∀ v ∈ vertices, v.channel = f v.uuid) :
    JobSystem.Channelled f { s with table := s.table.delay graphUuid vertices edges } ∧
      TakenBefore s.table (s.table.delay graphUuid vertices edges) := by
  have hfold : ∀ (vs : List Vertex) (t : JobTable), (∀ v ∈ vs, v.channel = f v.uuid) →
      JobRunner.Channelled f t →
        JobRunner.Channelled f (vs.foldl (fun t v =>
          t.store v.uuid (generatedJob graphUuid vertices edges v)) t) ∧
        TakenBefore t (vs.foldl (fun t v =>
          t.store v.uuid (generatedJob graphUuid vertices edges v)) t) := by
    intro vs
    induction vs with
    | nil => exact fun t _ ht => ⟨ht, TakenBefore.refl t⟩
    | cons v vs ih =>
        intro t hvs ht
        have hv := hvs v List.mem_cons_self
        have hstore : TakenBefore t (t.store v.uuid (generatedJob graphUuid vertices edges v)) := by
          refine takenBefore_store fun htaken => ?_
          simp only [Job.Taken, generatedJob] at htaken
          split at htaken <;> simp at htaken
        obtain ⟨hrows, hbefore⟩ := ih (t.store v.uuid (generatedJob graphUuid vertices edges v))
          (fun v' hv' => hvs v' (List.mem_cons_of_mem _ hv')) fun other child hchild => by
            rcases store_cases hchild with ⟨rfl, rfl⟩ | ⟨-, hold⟩
            · exact hv
            · exact ht other child hold
        exact ⟨hrows, hstore.trans hbefore⟩
  unfold JobTable.delay
  split
  · exact ⟨h, TakenBefore.refl _⟩
  · obtain ⟨hrows, hbefore⟩ := hfold vertices s.table hvertices h.rows
    exact ⟨⟨hrows, h.workers⟩, hbefore⟩

/-- Nobody but the runner takes a job. -/
theorem step (h : s.Channelled f) (hevent : event.Channelled f) :
    (s.step event).Channelled f ∧ TakenBefore s.table (s.step event).table := by
  have hsame : s.Channelled f ∧ TakenBefore s.table s.table := ⟨h, TakenBefore.refl _⟩
  cases event with
  | delay graphUuid vertices edges => exact h.delay hevent
  | setJobEnqueued uuid => exact hevent.elim
  | setJobPending uuid =>
      simp only [JobSystem.step, JobSystem.setJobPending]
      split
      · exact hsame
      · rename_i job hjob
        split
        · refine ⟨h.store ?_ fun _ => .inl, takenBefore_store (by simp [Job.Taken])⟩
          exact h.rows uuid job hjob
        · exact hsame
  | runjob uuid =>
      simp only [JobSystem.step, JobSystem.runjob]
      split
      · exact hsame
      · rename_i job hload
        obtain ⟨row, hrow, rfl⟩ := Option.map_eq_some_iff.mp hload
        have hchannel := h.rows uuid row hrow
        split
        · rename_i henqueued
          refine ⟨h.store ?_ fun worker hworker => ?_,
            takenBefore_store fun _ => ⟨row, hrow, .inl henqueued⟩⟩
          · exact hchannel
          · rcases List.mem_append.mp hworker with hold | hnew
            · exact .inl hold
            · refine .inr ?_
              rintro other job parentsDone rfl
              obtain ⟨rfl, rfl, -⟩ : other = uuid ∧ job = (s.table.loaded row).setStarted ∧
                  parentsDone = s.table.allDone (s.table.loaded row).dependsOn := by
                simpa using hnew
              exact hchannel
        · exact hsame
  | perform worker outcome =>
      simp only [JobSystem.step, JobSystem.perform]
      split
      · rename_i uuid job parentsDone hworker
        have hchannel := h.workers uuid job parentsDone (List.mem_of_getElem? hworker)
        obtain ⟨retry, hretry⟩ := perform_eq job outcome
        have hleft : ∀ worker' ∈ s.workers.eraseIdx worker, worker' ∈ s.workers :=
          fun _ => List.mem_of_mem_eraseIdx
        split
        all_goals
          rename_i performed heq
          obtain rfl : performed = { job with retry := retry } := by rw [← hretry, heq]
        · refine ⟨h.store ?_ fun worker' hworker' => ?_,
            takenBefore_store (by simp [Job.Taken, Job.setDone])⟩
          · exact hchannel
          · rcases List.mem_cons.mp hworker' with rfl | hold
            · exact .inr (by simp)
            · exact .inl (hleft worker' hold)
        · refine ⟨h.store ?_ fun worker' hworker' => .inl (hleft worker' hworker'),
            takenBefore_store ?_⟩
          · exact hchannel
          · cases parentsDone <;> simp [Job.Taken, Job.setPending]
        · refine ⟨h.store ?_ fun worker' hworker' => .inl (hleft worker' hworker'),
            takenBefore_store (by simp [Job.Taken, Job.setFailed])⟩
          exact hchannel
      · exact hsame
  | enqueueWaiting worker =>
      simp only [JobSystem.step, JobSystem.enqueueWaiting]
      split
      · exact ⟨h.enqueueWaiting _ fun _ => List.mem_of_mem_eraseIdx,
          takenBefore_enqueueWaiting s.table _⟩
      · exact hsame
  | abandon worker =>
      exact ⟨⟨h.rows, fun uuid job parentsDone hworker =>
        h.workers uuid job parentsDone (List.mem_of_mem_eraseIdx hworker)⟩, TakenBefore.refl _⟩
  | buttonDone uuid =>
      simp only [JobSystem.step, JobSystem.buttonDone]
      split
      · exact hsame
      · rename_i job hload
        obtain ⟨row, hrow, rfl⟩ := Option.map_eq_some_iff.mp hload
        have hstored : JobSystem.Channelled f
            { s with table := s.table.store uuid (s.table.loaded row).setDone } := by
          refine h.store ?_ fun _ => .inl
          exact h.rows uuid row hrow
        exact ⟨hstored.enqueueWaiting uuid fun _ => id,
          (takenBefore_store (by simp [Job.Taken, Job.setDone])).trans
            (takenBefore_enqueueWaiting _ uuid)⟩
  | buttonCancelled uuid =>
      simp only [JobSystem.step, JobSystem.buttonCancelled]
      split
      · exact hsame
      · rename_i job hload
        obtain ⟨row, hrow, rfl⟩ := Option.map_eq_some_iff.mp hload
        refine ⟨h.store ?_ fun _ => .inl,
          takenBefore_store (by simp [Job.Taken, Job.setCancelled])⟩
        exact h.rows uuid row hrow
  | requeue uuid =>
      simp only [JobSystem.step, JobSystem.requeue]
      split
      · exact hsame
      · rename_i job hload
        obtain ⟨row, hrow, rfl⟩ := Option.map_eq_some_iff.mp hload
        split
        · exact hsame
        · refine ⟨h.store ?_ fun _ => .inl, takenBefore_store ?_⟩
          · exact h.rows uuid row hrow
          · simp only [Job.Taken, Job.setPending]
            split <;> simp
  | unlink uuid =>
      exact ⟨⟨fun other job hjob => h.rows other job (mem_of_unlink hjob), h.workers⟩,
        fun other job hjob htaken => ⟨job, mem_of_unlink hjob, htaken⟩⟩

end JobSystem.Channelled

/-! ## The manager -/

/-- The channel of a job, if it is configured. -/
def ChannelManager.channelOf (m : ChannelManager) (channelName : Option Text) : Option Path :=
  (m.getChannelByName channelName false false).map (·.1)

variable {n : Notification} {p : Path}

theorem getChannelByName_of_channelOf {channelName : Option Text}
    (h : m.channelOf channelName = some p) :
    m.getChannelByName channelName false true = some (p, m) := by
  unfold ChannelManager.channelOf getChannelByName at h
  unfold getChannelByName
  dsimp only at h ⊢
  split
  · rename_i hroot
    rw [if_pos hroot] at h
    simpa using h
  · rename_i hroot
    rw [if_neg hroot] at h
    split
    · rename_i hhas
      rw [if_pos hhas] at h
      simpa using h
    · rename_i hhas
      rw [if_neg hhas] at h
      simp at h

theorem channelOf_congr {m' : ChannelManager} (h : m'.children = m.children)
    (channelName : Option Text) : m'.channelOf channelName = m.channelOf channelName := by
  unfold ChannelManager.channelOf getChannelByName
  simp only [h]
  split
  · rfl
  · split <;> rfl

theorem children_removeJob (m : ChannelManager) (uuid : String) :
    (m.removeJob uuid).children = m.children := by
  unfold removeJob
  split <;> rfl

theorem mem_removeJob {c : ChannelJob} (h : c ∈ (m.removeJob uuid).jobs) : c ∈ m.jobs := by
  unfold removeJob at h
  split at h
  · exact h
  · exact List.mem_of_mem_erase h

/-- A notification in a configured channel. -/
theorem notify_of_channelOf (h : m.channelOf n.channelName = some p) :
    (m.notify n).children = m.children ∧
      ∀ c ∈ (m.notify n).jobs, c ∈ m.jobs ∨ c.uuid = n.uuid ∧ c.channel = p := by
  simp only [notify, getChannelByName_of_channelOf h]
  split
  · exact ⟨rfl, fun _ => .inl⟩
  · unfold jobFor
    split
    · refine ⟨rfl, fun c hc => ?_⟩
      rcases List.mem_cons.mp hc with rfl | hold
      · exact .inr ⟨rfl, rfl⟩
      · exact .inl hold
    · dsimp only
      split
      · refine ⟨children_removeJob m n.uuid, fun c hc => ?_⟩
        rcases List.mem_cons.mp hc with rfl | hold
        · exact .inr ⟨rfl, rfl⟩
        · exact .inl (mem_removeJob hold)
      · exact ⟨rfl, fun _ => .inl⟩

/-- A configured manager has not been told of any job. -/
theorem jobs_of_configured (h : Configured m) : m.jobs = [] := by
  obtain ⟨configs, hconfigs⟩ := h
  refine simpleConfigure_rule (P := fun m => m.jobs = []) ?_ rfl hconfigs
  intro config _ m m' hm hconfig
  unfold getChannelFromConfig at hconfig
  cases hchannel : m.getChannelByName (some config.name) true false with
  | none => simp [hchannel] at hconfig
  | some found =>
      obtain ⟨p, m₁⟩ := found
      obtain ⟨children, rfl, -⟩ := getChannelByName_spec hchannel
      rw [hchannel] at hconfig
      dsimp only at hconfig
      split at hconfig
      · cases hconfig
      · cases hconfig
        exact hm

/-! ## The runner -/

/-- What the runner knows of the jobs in the database: those that are taken are running. -/
structure Tracked (f : String → Option Text) (r : QueueJobRunner) (place : ChannelJob → Place) :
    Prop where
  managed : Managed r.channelManager place
  within : Within r.channelManager.channels
  configured : ∀ uuid, (r.channelManager.channelOf (f uuid)).isSome
  fits : ∀ c ∈ r.channelManager.jobs, r.channelManager.channelOf (f c.uuid) = some c.channel
  channelled : r.jobs.Channelled f
  running : ∀ uuid, ∀ job ∈ r.jobs.table uuid, job.Taken → ∃ c, c.uuid = uuid ∧ place c = waiting 0

theorem selectJob_cases {schedule : Schedule} (h : r.selectJob uuid schedule = some n) :
    ∃ job ∈ r.jobs.table uuid,
      n.uuid = uuid ∧ n.channelName = job.channel ∧ n.state = some job.state := by
  obtain ⟨job, hjob, rfl⟩ := Option.map_eq_some_iff.mp h
  exact ⟨job, hjob, rfl, rfl, rfl⟩

/-- The rows after the runner has marked the jobs that it has been given. -/
theorem foldl_setJobEnqueued (h : s.Channelled f) (cs : List ChannelJob) :
    (cs.foldl (fun s c => s.setJobEnqueued c.uuid) s).Channelled f ∧
      ∀ uuid, ∀ job' ∈ (cs.foldl (fun s c => s.setJobEnqueued c.uuid) s).table uuid, job'.Taken →
        (∃ c ∈ cs, c.uuid = uuid) ∨ ∃ job ∈ s.table uuid, job.Taken := by
  induction cs generalizing s with
  | nil => exact ⟨h, fun uuid job hjob htaken => .inr ⟨job, hjob, htaken⟩⟩
  | cons c cs ih =>
      have hset : (s.setJobEnqueued c.uuid).Channelled f := by
        unfold JobSystem.setJobEnqueued
        split
        · exact h
        · rename_i job hjob
          refine h.store ?_ fun _ => .inl
          exact h.rows c.uuid job hjob
      refine ⟨(ih hset).1, fun uuid job' hjob' htaken => ?_⟩
      rcases (ih hset).2 uuid job' hjob' htaken with ⟨c', hc', huuid⟩ | ⟨job, hjob, htaken⟩
      · exact .inl ⟨c', List.mem_cons_of_mem _ hc', huuid⟩
      · unfold JobSystem.setJobEnqueued at hjob
        split at hjob
        · exact .inr ⟨job, hjob, htaken⟩
        · rcases store_cases hjob with ⟨rfl, -⟩ | ⟨-, hold⟩
          · exact .inl ⟨c, List.mem_cons_self, rfl⟩
          · exact .inr ⟨job, hold, htaken⟩

namespace Tracked

theorem jobs (h : Tracked f r place) (hevent : event.Channelled f) :
    Tracked f { r with jobs := r.jobs.step event } place where
  managed := h.managed
  within := h.within
  configured := h.configured
  fits := h.fits
  channelled := (h.channelled.step hevent).1
  running uuid job hjob htaken := by
    obtain ⟨old, hold, htaken⟩ := (h.channelled.step hevent).2 uuid job hjob htaken
    exact h.running uuid old hold htaken

theorem mem_jobs (h : Tracked f r place) {c : ChannelJob} (hc : place c = waiting 0) :
    c ∈ r.channelManager.jobs :=
  h.managed.known c (by simp [hc])

/-- A job that is said to be taken is accounted for. -/
theorem accounted (h : Tracked f r place) {schedule : Schedule}
    (hn : r.selectJob uuid schedule = some n) : Accounted r.channelManager (.notify n) := by
  obtain ⟨job, hjob, rfl, hname, hsame⟩ := selectJob_cases hn
  rintro _ ⟨⟩ hstate
  obtain ⟨c, huuid, hc⟩ := h.running n.uuid job hjob (by simpa [Job.Taken, hsame] using hstate)
  refine ⟨c, h.managed.find_eq_some_iff.mpr ⟨h.mem_jobs hc, huuid⟩, ?_, ?_⟩
  · rw [(h.managed.sound.sits c).running, hc]
    exact running_waiting_zero.mpr List.nil_suffix
  · have hfits := h.fits c (h.mem_jobs hc)
    rw [huuid, ← h.channelled.rows n.uuid job hjob, ← hname] at hfits
    rw [getChannelByName_of_channelOf hfits]
    rfl

/-- After a notification that a taken job is still taken, it is running. -/
theorem running_notify (h : Tracked f r place) {schedule : Schedule}
    (hn : r.selectJob uuid schedule = some n)
    (hfollows : Follows r.channelManager (.notify n) place place') :
    ∀ other, ∀ job ∈ r.jobs.table other, job.Taken →
      ∃ c : ChannelJob, c.uuid = other ∧ place' c = waiting 0 := by
  obtain ⟨row, hrow, rfl, -, hsame⟩ := selectJob_cases hn
  intro other job hjob htaken
  obtain ⟨c, rfl, hc⟩ := h.running other job hjob htaken
  unfold Follows at hfollows
  dsimp only at hfollows
  split at hfollows
  · exact ⟨c, rfl, hfollows ▸ hc⟩
  · obtain ⟨told, -, huuid, -, -, rfl⟩ := hfollows
    by_cases heq : c.uuid = n.uuid
    · -- the notification is about this job, or about the one that replaces it
      refine ⟨told, huuid.trans heq.symm, ?_⟩
      obtain rfl : row = job := Option.mem_unique hrow (heq ▸ hjob)
      have hstarted : (place told).started told = waiting 0 := by
        by_cases hsame : told = c
        · rw [hsame, hc]
          exact started_of_le (Nat.zero_le _)
        · have hidle : place told = idle := by
            by_contra hne
            exact hsame (List.inj_on_of_nodup_map h.managed.uuids (h.managed.known told hne)
              (h.mem_jobs hc) (huuid.trans heq.symm))
          rw [hidle]
          rfl
      rw [Function.update_self, hsame]
      rcases htaken with hstate | hstate <;> simpa [Place.told, hstate] using hstarted
    · have hne : c.uuid ≠ told.uuid := fun h => heq (h.trans huuid)
      refine ⟨c, rfl, ?_⟩
      rw [Function.update_of_ne fun h => hne (congrArg ChannelJob.uuid h), alone,
        if_neg fun h => hne h.1]
      exact hc

theorem processNotification (h : Tracked f r place) (uuid : String) (schedule : Schedule) :
    ∃ place', Tracked f (r.processNotification uuid schedule) place' := by
  unfold QueueJobRunner.processNotification
  split
  · rename_i n hn
    obtain ⟨place', hmanaged, hfollows⟩ := notify_follows h.managed n
    obtain ⟨job, hjob, rfl, hname, -⟩ := selectJob_cases hn
    obtain ⟨p, hp⟩ := Option.isSome_iff_exists.mp (h.configured n.uuid)
    have hchannel : n.channelName = f n.uuid := hname.trans (h.channelled.rows n.uuid job hjob)
    obtain ⟨hchildren, hjobs⟩ := notify_of_channelOf (hchannel.symm ▸ hp)
    refine ⟨place', hmanaged, h.within.notify h.managed (h.accounted hn), fun uuid => ?_,
      fun c hc => ?_, h.channelled, h.running_notify hn hfollows⟩
    · dsimp only
      rw [channelOf_congr hchildren]
      exact h.configured uuid
    · dsimp only
      rw [channelOf_congr hchildren]
      rcases hjobs c hc with hold | ⟨huuid, rfl⟩
      · exact h.fits c hold
      · exact huuid ▸ hp
  · rename_i hn
    have hnone : r.jobs.table uuid = none := Option.map_eq_none_iff.mp hn
    refine ⟨_, h.managed.removeJob uuid, h.within.removeJob uuid, fun uuid' => ?_, fun c hc => ?_,
      h.channelled, fun other job hjob htaken => ?_⟩
    · dsimp only
      rw [channelOf_congr (children_removeJob _ uuid)]
      exact h.configured uuid'
    · dsimp only
      rw [channelOf_congr (children_removeJob _ uuid)]
      exact h.fits c (mem_removeJob hc)
    · obtain ⟨c, rfl, hc⟩ := h.running other job hjob htaken
      have hne : c.uuid ≠ uuid := by
        rintro rfl
        simp [hnone] at hjob
      exact ⟨c, rfl, by simpa [Managed.cleared, hne] using hc⟩

theorem runJobs (h : Tracked f r place) (now : ℚ) : ∃ place', Tracked f (r.runJobs now) place' := by
  obtain ⟨place', hmanaged, hadvances, -, hhanded⟩ := getJobsToRun_follows h.managed now
  obtain ⟨hchannelled, htaken⟩ :=
    foldl_setJobEnqueued h.channelled (r.channelManager.getJobsToRun now).1
  have hchannelOf : ∀ channelName, (r.runJobs now).channelManager.channelOf channelName =
      r.channelManager.channelOf channelName := channelOf_congr rfl
  have haccounted : Accounted r.channelManager (.getJobsToRun now) := nofun
  refine ⟨place', hmanaged, h.within.step h.managed haccounted,
    fun uuid => hchannelOf _ ▸ h.configured uuid, fun c hc => (hchannelOf _).trans (h.fits c hc),
    hchannelled, fun uuid job hjob hjobtaken => ?_⟩
  rcases htaken uuid job hjob hjobtaken with ⟨c, hc, huuid⟩ | ⟨old, hold, holdtaken⟩
  · exact ⟨c, huuid, ((hhanded c).mp hc).2⟩
  · obtain ⟨c, huuid, hc⟩ := h.running uuid old hold holdtaken
    rcases hadvances c with heq | ⟨left, left', hleft, -, -, hlt⟩
    · exact ⟨c, huuid, heq.trans hc⟩
    · simp [show left = 0 by simpa [hc] using hleft.symm] at hlt

theorem collect (h : Tracked f r place) (uuid : String) :
    Tracked f { r with channelManager := r.channelManager.collect uuid } place := by
  have hsame : (r.channelManager.collect uuid).channels = r.channelManager.channels ∧
      (r.channelManager.collect uuid).children = r.channelManager.children ∧
      ∀ c ∈ (r.channelManager.collect uuid).jobs, c ∈ r.channelManager.jobs := by
    unfold ChannelManager.collect
    split
    · exact ⟨rfl, rfl, fun _ => id⟩
    · split
      · exact ⟨rfl, rfl, fun _ => id⟩
      · exact ⟨rfl, rfl, fun _ => List.mem_of_mem_erase⟩
  obtain ⟨hchannels, hchildren, hjobs⟩ := hsame
  refine ⟨h.managed.collect uuid, hchannels ▸ h.within, fun uuid => ?_, fun c hc => ?_,
    h.channelled, h.running⟩
  · dsimp only
    rw [channelOf_congr hchildren]
    exact h.configured uuid
  · dsimp only
    rw [channelOf_congr hchildren]
    exact h.fits c (hjobs c hc)

end Tracked

/-- Jobs are created in the channels of their uuids, and only the runner takes them. -/
def RunnerEvent.Channelled (f : String → Option Text) : RunnerEvent → Prop
  | .jobs event => event.Channelled f
  | _ => True

theorem exists_tracked_run (h : Tracked f r place) {events : List RunnerEvent}
    (hevents : ∀ event ∈ events, event.Channelled f) :
    ∃ place', Tracked f (run QueueJobRunner.step r events) place' := by
  refine invariant (I := fun r => ∃ place, Tracked f r place)
    (C := fun _ event => event.Channelled f) (fun r event hr hevent => ?_) ⟨place, h⟩
    (Meets.of_forall hevents r)
  obtain ⟨place, h⟩ := hr
  cases event with
  | jobs event => exact ⟨place, h.jobs hevent⟩
  | processNotification uuid schedule => exact h.processNotification uuid schedule
  | runJobs now => exact h.runJobs now
  | collect uuid => exact ⟨place, h.collect uuid⟩

/-- The channel of the job is this one or below it. -/
def Job.Below (m : ChannelManager) (p : Path) (job : Job) : Prop :=
  ∃ q, m.channelOf job.channel = some q ∧ p <:+ q

/-- Among the jobs of a channel and of the channels below it, there are never more enqueued or
started in the database than the capacity of the channel. -/
theorem database_capacity {m : ChannelManager} (hm : Configured m) (dbName : String)
    (hf : ∀ uuid, (m.channelOf (f uuid)).isSome) {events : List RunnerEvent}
    (hevents : ∀ event ∈ events, event.Channelled f) (p : Path) (capacity : ℤ)
    (hcapacity : ((run QueueJobRunner.step { dbName := dbName, channelManager := m }
      events).channelManager.channels.chan p).capacity = some capacity) (h0 : capacity ≠ 0)
    {uuids : Finset String} (huuids : ∀ uuid ∈ uuids,
      ∃ job ∈ (run QueueJobRunner.step { dbName := dbName, channelManager := m }
        events).jobs.table uuid, job.Taken ∧
          job.Below (run QueueJobRunner.step { dbName := dbName, channelManager := m }
            events).channelManager p) : (uuids.card : ℤ) ≤ max capacity 0 := by
  have hstart : Tracked f { dbName := dbName, channelManager := m } fun _ => idle :=
    { managed := hm.managed
      within := within_of_configured hm
      configured := hf
      fits := by simp [jobs_of_configured hm]
      channelled := ⟨fun _ _ h => (nomatch h), nofun⟩
      running := fun _ _ h => (nomatch h) }
  obtain ⟨place, h⟩ := exists_tracked_run hstart hevents
  generalize run QueueJobRunner.step { dbName := dbName, channelManager := m } events = r at *
  have hjob : ∀ uuid ∈ uuids, ∃ c ∈ (r.channelManager.channels.chan p).running, c.uuid = uuid := by
    intro uuid huuid
    obtain ⟨job, hjob, htaken, q, hq, hp⟩ := huuids uuid huuid
    obtain ⟨c, rfl, hc⟩ := h.running uuid job hjob htaken
    have hfits := h.fits c (h.mem_jobs hc)
    rw [h.channelled.rows c.uuid job hjob, hfits] at hq
    refine ⟨c, ?_, rfl⟩
    rw [(h.managed.sound.sits c).running, hc]
    exact running_waiting_zero.mpr (Option.some.inj hq ▸ hp)
  have hcard : uuids.card ≤ (r.channelManager.channels.chan p).running.card := by
    refine (Finset.card_le_card fun uuid huuid => ?_).trans
      (Finset.card_image_le (f := ChannelJob.uuid))
    obtain ⟨c, hc, huuid⟩ := hjob uuid huuid
    exact Finset.mem_image.mpr ⟨c, hc, huuid⟩
  exact (Int.ofNat_le.mpr hcard).trans (h.within p capacity hcapacity h0)

theorem database_capacity_of_two_jobs : (({"A"} : Finset String).card : ℤ) ≤ max 1 0 := by
  have hm : Configured ((simpleConfigure [{ name := rootName, capacity := some 1 }] {}).getD {}) :=
    configured_of_isSome (by decide)
  have hevents : ∀ event ∈ ([.jobs (.delay "G" [{ uuid := "A" }] []),
      .jobs (.delay "G" [{ uuid := "B" }] []), .processNotification "A" ⟨1, 0, 10, none⟩,
      .processNotification "B" ⟨2, 0, 10, none⟩, .runJobs 100, .jobs (.runjob "A"),
      .jobs (.runjob "B")] : List RunnerEvent), event.Channelled fun _ => none := by
    simp [RunnerEvent.Channelled, JobEvent.Channelled]
  refine database_capacity hm "db" (fun _ => rfl) hevents [] 1 (by decide +kernel) one_ne_zero
    fun uuid huuid => ?_
  obtain rfl := Finset.mem_singleton.mp huuid
  exact ⟨{ state := .started }, by decide +kernel, .inr rfl, [], by decide +kernel,
    List.nil_suffix⟩

end JobRunner

end Fastrak
