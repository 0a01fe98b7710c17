import Fastrak.JobRunner.ChannelName

/-!
# What the calls of the manager do

`Managed` is the agreement of a manager with a place for every job: a job that is
somewhere is known by its uuid, and no two known jobs have the same one. `Follows` says
what each call does to the places, and that is all that a call does to them.
-/

namespace Fastrak

namespace JobRunner

open Place

/-- The calls of a manager, with the removals from its weak dictionary. -/
inductive Call
  | notify (n : Notification)
  | removeJob (uuid : String)
  | removeDb (dbName : String)
  | getJobsToRun (now : ℚ)
  | collect (uuid : String)
  deriving DecidableEq

namespace ChannelManager

def step (m : ChannelManager) : Call → ChannelManager
  | .notify n => m.notify n
  | .removeJob uuid => m.removeJob uuid
  | .removeDb dbName => m.removeDb dbName
  | .getJobsToRun now => (m.getJobsToRun now).2
  | .collect uuid => m.collect uuid

/-- The jobs that a call gives to the runner. -/
def handed (m : ChannelManager) : Call → List ChannelJob
  | .getJobsToRun now => (m.getJobsToRun now).1
  | _ => []

end ChannelManager

variable {m m' : ChannelManager} {place : ChannelJob → Place} {job : ChannelJob} {p : Path}
  {uuid : String}

/-- The manager knows the jobs that are somewhere, by different uuids. -/
structure Managed (m : ChannelManager) (place : ChannelJob → Place) : Prop where
  sound : Sound m.channels place
  known : ∀ job, place job ≠ idle → job ∈ m.jobs
  uuids : (m.jobs.map (·.uuid)).Nodup
  fresh : ∀ job ∈ m.jobs, job.ident < m.nextIdent
  distinct : m.children.Distinct
  reached : ∀ job ∈ m.jobs, job.channel = [] ∨ m.children.has job.channel

namespace Managed

theorem find_eq_some_iff (h : Managed m place) :
    m.find uuid = some job ↔ job ∈ m.jobs ∧ job.uuid = uuid := by
  constructor
  · intro hfind
    exact ⟨List.mem_of_find?_eq_some hfind, by simpa using List.find?_some hfind⟩
  · rintro ⟨hjob, rfl⟩
    cases hfind : m.find job.uuid with
    | none => simpa using List.find?_eq_none.mp hfind job hjob
    | some other =>
        have hmem := List.mem_of_find?_eq_some hfind
        have huuid : other.uuid = job.uuid := by simpa using List.find?_some hfind
        rw [List.inj_on_of_nodup_map h.uuids hmem hjob huuid]

theorem find_eq_none (hfind : m.find uuid = none) (hjob : job ∈ m.jobs) : job.uuid ≠ uuid := by
  simpa using List.find?_eq_none.mp hfind job hjob

/-- A job that is not known is nowhere. -/
theorem place_of_notMem (h : Managed m place) (hjob : job ∉ m.jobs) : place job = idle := by
  by_contra hne
  exact hjob (h.known job hne)

theorem forget (h : Managed m place) (job : ChannelJob) :
    Managed (m.forget job) (Function.update place job idle) where
  sound := h.sound.remove job
  known other hother := by
    by_cases hne : other = job
    · subst hne
      simp at hother
    · rw [Function.update_of_ne hne] at hother
      exact (List.mem_erase_of_ne hne).mpr (h.known other hother)
  uuids := h.uuids.sublist (List.erase_sublist.map _)
  fresh other hother := h.fresh other (List.mem_of_mem_erase hother)
  distinct := h.distinct
  reached other hother := h.reached other (List.mem_of_mem_erase hother)

/-- The places without the jobs of this kind. -/
def cleared (kind : ChannelJob → Bool) (place : ChannelJob → Place) : ChannelJob → Place :=
  fun job => if kind job then idle else place job

theorem removeJob (h : Managed m place) (uuid : String) :
    Managed (m.removeJob uuid) (cleared (·.uuid = uuid) place) := by
  unfold ChannelManager.removeJob
  cases hfind : m.find uuid with
  | none =>
      have hplace : cleared (·.uuid = uuid) place = place := by
        funext other
        unfold cleared
        split
        · rename_i huuid
          refine (h.place_of_notMem fun hmem => ?_).symm
          exact find_eq_none hfind hmem (by simpa using huuid)
        · rfl
      rw [hplace]
      exact h
  | some job =>
      obtain ⟨hjob, rfl⟩ := h.find_eq_some_iff.mp hfind
      have hplace : cleared (·.uuid = job.uuid) place = Function.update place job idle := by
        funext other
        unfold cleared
        by_cases hne : other = job
        · simp [hne]
        · rw [Function.update_of_ne hne]
          split
          · rename_i huuid
            refine (h.place_of_notMem fun hmem => hne ?_).symm
            exact List.inj_on_of_nodup_map h.uuids hmem hjob (by simpa using huuid)
          · rfl
      rw [hplace]
      exact h.forget job

theorem foldl_forget (h : Managed m place) (jobs : List ChannelJob) :
    Managed (jobs.foldl (fun m job => m.forget job) m) (cleared (· ∈ jobs) place) := by
  induction jobs generalizing m place with
  | nil =>
      have hplace : cleared (· ∈ []) place = place := by
        funext job
        simp [cleared]
      exact hplace ▸ h
  | cons job jobs ih =>
      have hplace : cleared (· ∈ job :: jobs) place =
          cleared (· ∈ jobs) (Function.update place job idle) := by
        funext other
        by_cases hne : other = job
        · simp [cleared, hne]
        · simp [cleared, hne]
      rw [hplace]
      exact ih (h.forget job)

theorem removeDb (h : Managed m place) (dbName : String) :
    Managed (m.removeDb dbName) (cleared (·.dbName = dbName) place) := by
  have hplace : cleared (·.dbName = dbName) place =
      cleared (· ∈ m.jobs.filter (·.dbName = dbName)) place := by
    funext other
    by_cases hmem : other ∈ m.jobs
    · simp [cleared, hmem]
    · simp [cleared, h.place_of_notMem hmem]
  rw [hplace]
  exact h.foldl_forget _

theorem collect (h : Managed m place) (uuid : String) : Managed (m.collect uuid) place := by
  unfold ChannelManager.collect
  cases hfind : m.find uuid with
  | none => exact h
  | some job =>
      dsimp only
      split
      · exact h
      · rename_i hholds
        have hidle : place job = idle := by
          by_contra hne
          refine hholds (List.any_eq_true.mpr ⟨job.channel, by simp, ?_⟩)
          simpa [or_assoc] using (h.sound.sits job).holds hne
        have hsame : Function.update place job idle = place := by
          rw [← hidle, Function.update_eq_self]
        exact { h.forget job with
          sound := h.sound
          known := hsame ▸ (h.forget job).known }

/-- Other channels may have been created. -/
theorem of_children (h : Managed m place) {children : Subchannels} (hd : children.Distinct)
    (hhas : ∀ p, m.children.has p → children.has p) :
    Managed { m with children := children } place :=
  { h with
    distinct := hd
    reached := fun job hjob => (h.reached job hjob).imp_right (hhas job.channel) }

/-- A new job, which is not in any channel yet. -/
theorem newJob (h : Managed m place) {n : Notification} {channel : Path}
    (hfind : ∀ job ∈ m.jobs, job.uuid ≠ n.uuid)
    (hchannel : channel = [] ∨ m.children.has channel) :
    Managed { m with
      jobs := ChannelManager.newJob n channel m.nextIdent :: m.jobs
      nextIdent := m.nextIdent + 1 } place where
  sound := h.sound
  known job hjob := List.mem_cons_of_mem _ (h.known job hjob)
  uuids := by
    refine List.nodup_cons.mpr ⟨fun hmem => ?_, h.uuids⟩
    obtain ⟨job, hjob, huuid⟩ := List.mem_map.mp hmem
    exact hfind job hjob huuid
  fresh job hjob := by
    rcases List.mem_cons.mp hjob with rfl | hjob
    · exact Nat.lt_succ_self _
    · exact (h.fresh job hjob).trans (Nat.lt_succ_self _)
  distinct := h.distinct
  reached job hjob := by
    rcases List.mem_cons.mp hjob with rfl | hjob
    · exact hchannel
    · exact h.reached job hjob

end Managed

/-! ## Notifications -/

/-- The place that a notification of this state gives to a job. -/
def Place.told (state : Option State) (job : ChannelJob) (place : Place) : Place :=
  match state with
  | none | some .done | some .cancelled => idle
  | some .pending => pending job
  | some .enqueued | some .started => place.started job
  | some .failed => .failed
  | some .waitDependencies => place

theorem Sound.transition {s : Channels} (h : Sound s place) (state : Option State)
    (job : ChannelJob) : Sound (ChannelManager.transition state job s)
      (Function.update place job ((place job).told state job)) := by
  match state with
  | none | some .done | some .cancelled => exact h.remove job
  | some .pending => exact h.setPending job
  | some .enqueued | some .started => exact h.setRunning job
  | some .failed => exact h.setFailed job
  | some .waitDependencies => exact (Function.update_eq_self job place).symm ▸ h

/-- The places when there is no other job with the uuid of this one. -/
def alone (job : ChannelJob) (place : ChannelJob → Place) : ChannelJob → Place :=
  fun other => if other.uuid = job.uuid ∧ other ≠ job then idle else place other

theorem alone_eq_self (h : ∀ other, other.uuid = job.uuid → other ≠ job → place other = idle) :
    alone job place = place := by
  funext other
  unfold alone
  split
  · rename_i hother
    exact (h other hother.1 hother.2).symm
  · rfl

namespace ChannelManager

variable {n : Notification}

theorem getChannelByName_spec {name : Option Text} {autocreate parentFallback : Bool}
    (h : m.getChannelByName name autocreate parentFallback = some (p, m')) :
    ∃ children, m' = { m with children := children } ∧
      (m.children.Distinct → children.Distinct) ∧
      (∀ p, m.children.has p → children.has p) ∧ (p = [] ∨ children.has p) := by
  unfold getChannelByName at h
  dsimp only at h
  split at h
  · cases h
    exact ⟨m.children, rfl, id, fun _ => id, .inl rfl⟩
  · split at h
    · rename_i hhas
      cases h
      exact ⟨m.children, rfl, id, fun _ => id, .inr hhas⟩
    · split at h
      · cases h
      · cases h
        exact ⟨_, rfl, Subchannels.distinct_create _ _, fun _ => Subchannels.has_create_of _,
          .inr (Subchannels.has_create ..)⟩

@[simp] theorem uuid_newJob (n : Notification) (p : Path) (ident : ℕ) :
    (newJob n p ident).uuid = n.uuid := rfl

/-- After the removal there is no job with the uuid. -/
theorem uuid_ne_of_mem_removeJob (h : Managed m place) (hjob : job ∈ (m.removeJob uuid).jobs) :
    job.uuid ≠ uuid := by
  unfold removeJob at hjob
  cases hfind : m.find uuid with
  | none =>
      rw [hfind] at hjob
      exact Managed.find_eq_none hfind hjob
  | some other =>
      rw [hfind] at hjob
      obtain ⟨hother, rfl⟩ := h.find_eq_some_iff.mp hfind
      have hnodup : m.jobs.Nodup := h.uuids.of_map _
      obtain ⟨hne, hmem⟩ := (List.Nodup.mem_erase_iff hnodup).mp hjob
      exact fun heq => hne (List.inj_on_of_nodup_map h.uuids hmem hother heq)

/-- The job object that a notification is about. -/
theorem jobFor_spec (h : Managed m place) (hp : p = [] ∨ m.children.has p) :
    let (job, m') := jobFor n p m
    Managed m' (alone job place) ∧ job ∈ m'.jobs ∧ job.uuid = n.uuid ∧ job.seq = n.seq ∧
      job.priority = n.priority ∧ job.channel = p := by
  have hnew : newJob n p m.nextIdent ∉ m.jobs := fun hmem => (h.fresh _ hmem).false
  unfold jobFor
  cases hfind : m.find n.uuid with
  | none =>
      have hother : ∀ job ∈ m.jobs, job.uuid ≠ n.uuid := fun _ => Managed.find_eq_none hfind
      dsimp only
      rw [alone_eq_self fun other huuid _ =>
        h.place_of_notMem fun hmem => hother other hmem huuid]
      exact ⟨h.newJob hother hp, List.mem_cons_self, rfl, rfl, rfl, rfl⟩
  | some job =>
      obtain ⟨hjob, huuid⟩ := h.find_eq_some_iff.mp hfind
      dsimp only
      split
      · have hremoved := h.removeJob n.uuid
        have hident : (m.removeJob n.uuid).nextIdent = m.nextIdent := by
          simp [removeJob, hfind, forget]
        have hchildren : (m.removeJob n.uuid).children = m.children := by
          simp [removeJob, hfind, forget]
        have hplace : alone (newJob n p m.nextIdent) place =
            Managed.cleared (·.uuid = n.uuid) place := by
          funext other
          unfold alone Managed.cleared
          by_cases hne : other = newJob n p m.nextIdent
          · simp [hne, h.place_of_notMem hnew]
          · simp [hne]
        dsimp only
        rw [hident, hplace]
        exact ⟨hident ▸ hremoved.newJob (fun _ => uuid_ne_of_mem_removeJob h) (hchildren ▸ hp),
          List.mem_cons_self, rfl, rfl, rfl, rfl⟩
      · rename_i hsame
        simp only [Changed, not_or, not_not] at hsame
        rw [alone_eq_self fun other hother hne => h.place_of_notMem fun hmem =>
          hne (List.inj_on_of_nodup_map h.uuids hmem hjob hother)]
        exact ⟨h, hjob, huuid, hsame.1.symm, hsame.2.1.symm, hsame.2.2.2.symm⟩

/-- The notification contradicts what is known of its job. -/
def Refused (n : Notification) (m : ChannelManager) : Prop :=
  ∃ job ∈ m.find n.uuid, job.dbName ≠ n.dbName ∨ job.dateCreated ≠ n.dateCreated

instance (n : Notification) (m : ChannelManager) : Decidable (Refused n m) :=
  inferInstanceAs (Decidable (∃ job ∈ m.find n.uuid, _))

theorem exists_getChannelByName (name : Option Text) (m : ChannelManager) :
    ∃ p m', m.getChannelByName name false true = some (p, m') := by
  unfold getChannelByName
  dsimp only
  split
  · exact ⟨_, _, rfl⟩
  · split
    · exact ⟨_, _, rfl⟩
    · exact ⟨_, _, rfl⟩

/-- What a call does to the places of the jobs. -/
def Follows (m : ChannelManager) (call : Call) (place place' : ChannelJob → Place) : Prop :=
  match call with
  | .notify n =>
      if Refused n m then place' = place
      else
        ∃ job ∈ (m.notify n).jobs, job.uuid = n.uuid ∧ job.seq = n.seq ∧
          job.priority = n.priority ∧
          place' = Function.update (alone job place) job ((place job).told n.state job)
  | .removeJob uuid => place' = Managed.cleared (·.uuid = uuid) place
  | .removeDb dbName => place' = Managed.cleared (·.dbName = dbName) place
  | .getJobsToRun now =>
      Advances 0 place place' ∧ (m.getJobsToRun now).1.Nodup ∧
        ∀ job, job ∈ (m.getJobsToRun now).1 ↔ place job ≠ waiting 0 ∧ place' job = waiting 0
  | .collect _ => place' = place

theorem notify_follows (h : Managed m place) (n : Notification) :
    ∃ place', Managed (m.notify n) place' ∧ Follows m (.notify n) place place' := by
  obtain ⟨p, m', hchannel⟩ := exists_getChannelByName n.channelName m
  obtain ⟨children, rfl, hdistinct, hhas, hp⟩ := getChannelByName_spec hchannel
  have h' := h.of_children (hdistinct h.distinct) hhas
  unfold Follows
  dsimp only
  split
  · rename_i hrefused
    have hnotify : m.notify n = { m with children := children } := by
      simp only [notify, hchannel]
      exact if_pos hrefused
    exact ⟨place, hnotify ▸ h', rfl⟩
  · rename_i hrefused
    have hspec := jobFor_spec (n := n) h' hp
    have hnotify : m.notify n = { (jobFor n p { m with children := children }).2 with
        channels := transition n.state (jobFor n p { m with children := children }).1
          (jobFor n p { m with children := children }).2.channels } := by
      simp only [notify, hchannel]
      exact if_neg hrefused
    rw [hnotify]
    generalize jobFor n p { m with children := children } = found at *
    obtain ⟨job, m'⟩ := found
    obtain ⟨hm', hjob, huuid, hseq, hpriority, -⟩ := hspec
    have hplace : alone job place job = place job := if_neg fun h => h.2 rfl
    refine ⟨_, { hm' with
      sound := hm'.sound.transition n.state job
      known := fun other hother => ?_ }, job, hjob, huuid, hseq, hpriority, by rw [hplace]⟩
    by_cases hne : other = job
    · exact hne ▸ hjob
    · rw [Function.update_of_ne hne] at hother
      exact hm'.known other hother

theorem getJobsToRun_follows (h : Managed m place) (now : ℚ) :
    ∃ place', Managed (m.getJobsToRun now).2 place' ∧
      Follows m (.getJobsToRun now) place place' := by
  obtain ⟨place₁, h₁, hadv₁⟩ := h.sound.enqueueReady now (p := []) m.children
  have hy := Channels.getJobsToRun_yields now (h₁.split [])
  have hroot : ∀ job ∈ (m.getJobsToRun now).1, place₁ job = waiting 1 := fun job hjob =>
    (h₁.place_of_mem hy hjob).2
  have hadv := (hadv₁.mono (Nat.zero_le _)).trans (advances_passed hroot)
  refine ⟨_, { h with
    sound := h₁.yields_root hy
    known := fun job hjob => h.known job fun hidle => ?_ }, hadv, hy.chan.nodup, fun job => ?_⟩
  · rcases hadv job with heq | ⟨left, left', hleft, -⟩
    · exact hjob (heq.trans hidle)
    · simp [hidle] at hleft
  · constructor
    · intro hmem
      refine ⟨fun hzero => ?_, if_pos hmem⟩
      rcases hadv₁ job with heq | ⟨left, left', hleft, -, -, hlt⟩
      · simpa [heq, hzero] using hroot job hmem
      · simp [show left = 0 by simpa [hzero] using hleft.symm] at hlt
    · rintro ⟨hne, hzero⟩
      by_contra hmem
      have hzero₁ : place₁ job = waiting 0 := (if_neg hmem).symm.trans hzero
      rcases hadv₁ job with heq | ⟨left, left', -, hleft', hle, -⟩
      · exact hne (heq.symm.trans hzero₁)
      · simp [show left' = 0 by simpa [hzero₁] using hleft'.symm] at hle

theorem step_follows (h : Managed m place) (call : Call) :
    ∃ place', Managed (m.step call) place' ∧ Follows m call place place' := by
  cases call with
  | notify n => exact notify_follows h n
  | removeJob uuid => exact ⟨_, h.removeJob uuid, rfl⟩
  | removeDb dbName => exact ⟨_, h.removeDb dbName, rfl⟩
  | getJobsToRun now => exact getJobsToRun_follows h now
  | collect uuid => exact ⟨_, h.collect uuid, rfl⟩

theorem managed_run (h : Managed m place) (calls : List Call) :
    ∃ place', Managed (Run.run ChannelManager.step m calls) place' := by
  induction calls generalizing m place with
  | nil => exact ⟨place, h⟩
  | cons call calls ih =>
      obtain ⟨place', h', -⟩ := step_follows h call
      exact ih h'

/-! ## Calls that do not poll -/

/-- Only jobs have been moved. -/
structure Quiet (s s' : Channels) : Prop where
  etaReset : s'.etaReset = s.etaReset
  throttle : ∀ p, (s'.chan p).throttle = (s.chan p).throttle
  pauseUntil : ∀ p, (s'.chan p).pauseUntil = (s.chan p).pauseUntil

namespace Quiet

variable {s s' s'' : Channels}

theorem refl : Quiet s s := ⟨rfl, fun _ => rfl, fun _ => rfl⟩

theorem trans (h : Quiet s s') (h' : Quiet s' s'') : Quiet s s'' :=
  ⟨h'.etaReset.trans h.etaReset, fun p => (h'.throttle p).trans (h.throttle p),
    fun p => (h'.pauseUntil p).trans (h.pauseUntil p)⟩

theorem of_touched (heta : s'.etaReset = s.etaReset)
    (h : ∀ p, (s.chan p).Touched s.eta job (s'.chan p)) : Quiet s s' :=
  ⟨heta, fun p => (h p).throttle, fun p => (h p).pauseUntil⟩

theorem remove (s : Channels) (job : ChannelJob) : Quiet s (s.remove job job.channel) :=
  of_touched (Channels.etaReset_remove ..) Channels.touched_remove

theorem transition (state : Option State) (job : ChannelJob) (s : Channels) :
    Quiet s (ChannelManager.transition state job s) := by
  match state with
  | none | some .done | some .cancelled => exact remove s job
  | some .pending => exact of_touched Channels.etaReset_setPending Channels.touched_setPending
  | some .enqueued | some .started =>
      exact of_touched (Channels.etaReset_setRunning ..) (Channels.touched_setRunning _ · s)
  | some .failed => exact of_touched Channels.etaReset_setFailed Channels.touched_setFailed
  | some .waitDependencies => exact refl

theorem removeJob (m : ChannelManager) (uuid : String) :
    Quiet m.channels (m.removeJob uuid).channels := by
  unfold ChannelManager.removeJob
  split
  · exact refl
  · exact remove _ _

theorem foldl_forget (m : ChannelManager) (jobs : List ChannelJob) :
    Quiet m.channels (jobs.foldl (fun m job => m.forget job) m).channels := by
  induction jobs generalizing m with
  | nil => exact refl
  | cons job jobs ih => exact (remove m.channels job).trans (ih (m.forget job))

theorem jobFor (n : Notification) (p : Path) (m : ChannelManager) :
    Quiet m.channels (ChannelManager.jobFor n p m).2.channels := by
  unfold ChannelManager.jobFor
  split
  · exact refl
  · dsimp only
    split
    · exact removeJob m n.uuid
    · exact refl

theorem notify (n : Notification) (m : ChannelManager) :
    Quiet m.channels (m.notify n).channels := by
  obtain ⟨p, m', hchannel⟩ := exists_getChannelByName n.channelName m
  obtain ⟨children, rfl, -, -, -⟩ := getChannelByName_spec hchannel
  simp only [ChannelManager.notify, hchannel]
  split
  · exact refl
  · exact (jobFor n p { m with children := children }).trans (transition ..)

theorem collect (m : ChannelManager) (uuid : String) :
    Quiet m.channels (m.collect uuid).channels := by
  unfold ChannelManager.collect
  split
  · exact refl
  · split <;> exact refl

end Quiet

/-- A call that does not poll the channels moves jobs only. -/
theorem quiet_step (m : ChannelManager) {call : Call}
    (h : ∀ now, call ≠ .getJobsToRun now) : Quiet m.channels (m.step call).channels := by
  cases call with
  | notify n => exact .notify n m
  | removeJob uuid => exact .removeJob m uuid
  | removeDb dbName => exact .foldl_forget m _
  | getJobsToRun now => exact absurd rfl (h now)
  | collect uuid => exact .collect m uuid

/-! ## A configured manager -/

/-- The manager of the runner, before it has been told of any job. -/
def Configured (m : ChannelManager) : Prop := ∃ configs, simpleConfigure configs {} = some m

theorem managed_new : Managed {} fun _ => idle where
  sound := Sound.of_empty fun p => by
    dsimp only
    split <;> simp [Channel.contents]
  known := by simp
  uuids := List.nodup_nil
  fresh := by simp
  distinct := trivial
  reached := by simp

/-- The configuration of a channel moves no job. -/
theorem managed_of_getChannelFromConfig {config : Config} (h : Managed m place)
    (hconfig : m.getChannelFromConfig config = some m') : Managed m' place := by
  unfold getChannelFromConfig at hconfig
  cases hchannel : m.getChannelByName (some config.name) true false with
  | none => simp [hchannel] at hconfig
  | some found =>
      obtain ⟨p, m₁⟩ := found
      obtain ⟨children, rfl, hdistinct, hhas, -⟩ := getChannelByName_spec hchannel
      rw [hchannel] at hconfig
      dsimp only at hconfig
      split at hconfig
      · cases hconfig
      · cases hconfig
        have h' := h.of_children (hdistinct h.distinct) hhas
        refine { h' with sound := h'.sound.of_contents rfl fun p' => ?_ }
        rw [Channels.chan_modify]
        split <;> rfl

/-- What one configuration keeps, all of them keep. -/
theorem simpleConfigure_rule {P : ChannelManager → Prop} {configs : List Config}
    (hconfig : ∀ config ∈ configs, ∀ m m', P m → m.getChannelFromConfig config = some m' → P m')
    (h : P m) (hconfigs : simpleConfigure configs m = some m') : P m' := by
  induction configs generalizing m with
  | nil =>
      cases hconfigs
      exact h
  | cons config configs ih =>
      obtain ⟨m₁, hm₁, hrest⟩ := Option.bind_eq_some_iff.mp hconfigs
      exact ih (fun config hc => hconfig config (List.mem_cons_of_mem _ hc))
        (hconfig config List.mem_cons_self m m₁ h hm₁) hrest

theorem channels_of_getChannelFromConfig {config : Config}
    (h : m.getChannelFromConfig config = some m') :
    ∃ p, m'.channels = m.channels.modify p fun c => { c with
      capacity := config.capacity
      throttle := config.throttle
      queue := { c.queue with sequential := config.sequential } } := by
  unfold getChannelFromConfig at h
  cases hchannel : m.getChannelByName (some config.name) true false with
  | none => simp [hchannel] at h
  | some found =>
      obtain ⟨p, m₁⟩ := found
      obtain ⟨children, rfl, -, -, -⟩ := getChannelByName_spec hchannel
      rw [hchannel] at h
      dsimp only at h
      split at h
      · cases h
      · cases h
        exact ⟨p, rfl⟩

theorem Configured.etaReset (h : Configured m) : m.channels.etaReset = ∅ := by
  obtain ⟨configs, hconfigs⟩ := h
  refine simpleConfigure_rule (P := fun m => m.channels.etaReset = ∅) ?_ rfl hconfigs
  intro config _ m m' hm hconfig
  obtain ⟨p, hp⟩ := channels_of_getChannelFromConfig hconfig
  rw [hp, Channels.etaReset_modify, hm]

theorem throttled_of_simpleConfigure {configs : List Config}
    (h : ∀ config ∈ configs, 0 ≤ config.throttle) (hconfigs : simpleConfigure configs {} = some m) :
    Throttled m.channels := by
  have hchan : ∀ p, 0 ≤ (m.channels.chan p).throttle ∧ (m.channels.chan p).pauseUntil = 0 := by
    refine simpleConfigure_rule (P := fun m => ∀ p, 0 ≤ (m.channels.chan p).throttle ∧
      (m.channels.chan p).pauseUntil = 0) ?_ (fun p => ?_) hconfigs
    · intro config hmem m m' hm hconfig p'
      obtain ⟨p, hp⟩ := channels_of_getChannelFromConfig hconfig
      rw [hp, Channels.chan_modify]
      split
      · exact ⟨h config hmem, (hm p').2⟩
      · exact hm p'
    · dsimp only
      split <;> exact ⟨le_rfl, rfl⟩
  exact fun p => ⟨(hchan p).1, fun hne => absurd (hchan p).2 hne⟩

theorem simpleConfigure_eq_some {configs : List Config}
    (h : (simpleConfigure configs {}).isSome) :
    simpleConfigure configs {} = some ((simpleConfigure configs {}).getD {}) := by
  obtain ⟨m, hm⟩ := Option.isSome_iff_exists.mp h
  rw [hm, Option.getD_some]

theorem configured_of_isSome {configs : List Config} (h : (simpleConfigure configs {}).isSome) :
    Configured ((simpleConfigure configs {}).getD {}) :=
  ⟨configs, simpleConfigure_eq_some h⟩

theorem Configured.managed (h : Configured m) : Managed m fun _ => idle := by
  obtain ⟨configs, hconfigs⟩ := h
  exact simpleConfigure_rule (P := (Managed · fun _ => idle))
    (fun _ _ _ _ => managed_of_getChannelFromConfig) managed_new hconfigs

end ChannelManager

end JobRunner

end Fastrak
