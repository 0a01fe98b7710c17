import Fastrak.JobRunner.Yield

/-!
# Where a job is

A job goes through its channel and the channels above it, up to the root and from there
to Odoo. `Place` says how many of them it still has to pass: it is running in those it
has passed, and is in the queue of the next one. `Sound` is the agreement of the channels
with one place for every job, and every operation of a channel is, on the places, the
replacement of one of them.
-/

namespace Fastrak

namespace JobRunner

/-- Where a job is: in no channel, failed in its channel, or waiting to pass so many
channels, of which the root is the last one. -/
inductive Place
  | idle
  | failed
  | waiting (left : ℕ)
  deriving DecidableEq

namespace Place

/-- A job at this place is in the queue of the channel `p`. -/
def Queued (place : Place) (job : ChannelJob) (p : Path) : Prop :=
  p <:+ job.channel ∧ place = waiting (p.length + 1)

def Running (place : Place) (job : ChannelJob) (p : Path) : Prop :=
  p <:+ job.channel ∧ ∃ left, place = waiting left ∧ left ≤ p.length

def Failed (place : Place) (job : ChannelJob) (p : Path) : Prop :=
  p = job.channel ∧ place = failed

/-- The place of a job that waits in its own channel. -/
def pending (job : ChannelJob) : Place := waiting (job.channel.length + 1)

/-- What `set_running(job)` makes of the place: a job that is running in its channel stays
where it is. -/
def started (place : Place) (job : ChannelJob) : Place :=
  match place with
  | waiting left => if left ≤ job.channel.length then waiting left else waiting 0
  | _ => waiting 0

variable {job : ChannelJob} {p : Path} {left : ℕ}

theorem started_of_le (h : left ≤ job.channel.length) :
    (waiting left).started job = waiting left :=
  if_pos h

theorem started_of_lt {place : Place}
    (h : ∀ left, place = waiting left → job.channel.length < left) :
    place.started job = waiting 0 := by
  cases place with
  | waiting left => exact if_neg (not_le.mpr (h left rfl))
  | _ => rfl

@[simp] theorem queued_idle : ¬ idle.Queued job p := by simp [Queued]

@[simp] theorem running_idle : ¬ idle.Running job p := by simp [Running]

@[simp] theorem failed_idle : ¬ idle.Failed job p := by simp [Failed]

@[simp] theorem queued_failed : ¬ failed.Queued job p := by simp [Queued]

@[simp] theorem running_failed : ¬ failed.Running job p := by simp [Running]

@[simp] theorem failed_failed : failed.Failed job p ↔ p = job.channel := by simp [Failed]

@[simp] theorem failed_waiting : ¬ (waiting left).Failed job p := by simp [Failed]

theorem queued_waiting_iff :
    (waiting left).Queued job p ↔ p <:+ job.channel ∧ left = p.length + 1 := by
  simp [Queued]

theorem running_waiting_iff :
    (waiting left).Running job p ↔ p <:+ job.channel ∧ left ≤ p.length := by
  simp [Running]

@[simp] theorem queued_pending : (pending job).Queued job p ↔ p = job.channel := by
  rw [pending, queued_waiting_iff]
  constructor
  · rintro ⟨hp, hlen⟩
    exact hp.eq_of_length (by omega)
  · rintro rfl
    exact ⟨List.suffix_rfl, rfl⟩

@[simp] theorem running_pending : ¬ (pending job).Running job p := by
  rw [pending, running_waiting_iff]
  rintro ⟨hp, hlen⟩
  have := hp.length_le
  omega

@[simp] theorem failed_pending : ¬ (pending job).Failed job p := failed_waiting

@[simp] theorem queued_waiting_zero : ¬ (waiting 0).Queued job p := by
  simp [queued_waiting_iff]

@[simp] theorem running_waiting_zero : (waiting 0).Running job p ↔ p <:+ job.channel := by
  simp [running_waiting_iff]

end Place

open Place

/-- The channels have the job at this place. -/
structure Sits (s : Channels) (job : ChannelJob) (place : Place) : Prop where
  queued : ∀ p, job ∈ (s.chan p).queue.jobs ↔ place.Queued job p
  running : ∀ p, job ∈ (s.chan p).running ↔ place.Running job p
  failed : ∀ p, job ∈ (s.chan p).failed ↔ place.Failed job p
  bound : ∀ left, place = waiting left → left ≤ job.channel.length + 1

/-- The channels have every job at its place, and those with an eta apart from the
others. -/
structure Sound (s : Channels) (place : ChannelJob → Place) : Prop where
  sits : ∀ job, Sits s job (place job)
  split : ∀ p, (s.chan p).queue.Split s.eta

/-- The jobs in a channel. -/
def Channel.contents (c : Channel) :
    Finset ChannelJob × Finset ChannelJob × Finset ChannelJob × Finset ChannelJob :=
  (c.queue.etaQueue.objects, c.queue.queue.objects, c.running, c.failed)

/-- A channel has changed for one job at most. -/
structure Channel.Touched (eta : ChannelJob → Option ℚ) (job : ChannelJob) (c c' : Channel) :
    Prop where
  queue : ∀ a, a ≠ job → (a ∈ c'.queue.jobs ↔ a ∈ c.queue.jobs)
  running : ∀ a, a ≠ job → (a ∈ c'.running ↔ a ∈ c.running)
  failed : ∀ a, a ≠ job → (a ∈ c'.failed ↔ a ∈ c.failed)
  split : c.queue.Split eta → c'.queue.Split eta
  capacity : c'.capacity = c.capacity
  throttle : c'.throttle = c.throttle
  sequential : c'.queue.sequential = c.queue.sequential
  pauseUntil : c'.pauseUntil = c.pauseUntil

namespace Channel

variable {eta : ChannelJob → Option ℚ} {job : ChannelJob} {c : Channel}

theorem Touched.refl : c.Touched eta job c where
  queue _ _ := .rfl
  running _ _ := .rfl
  failed _ _ := .rfl
  split h := h
  capacity := rfl
  throttle := rfl
  sequential := rfl
  pauseUntil := rfl

theorem Touched.trans {c' c'' : Channel} (h : c.Touched eta job c')
    (h' : c'.Touched eta job c'') : c.Touched eta job c'' where
  queue a ha := (h'.queue a ha).trans (h.queue a ha)
  running a ha := (h'.running a ha).trans (h.running a ha)
  failed a ha := (h'.failed a ha).trans (h.failed a ha)
  split hc := h'.split (h.split hc)
  capacity := h'.capacity.trans h.capacity
  throttle := h'.throttle.trans h.throttle
  sequential := h'.sequential.trans h.sequential
  pauseUntil := h'.pauseUntil.trans h.pauseUntil

theorem Touched.remove : c.Touched eta job (c.remove job) where
  queue a ha := by simp [Channel.remove, ha]
  running a ha := by simp [Channel.remove, ha]
  failed a ha := by simp [Channel.remove, ha]
  split h := h.remove job
  capacity := rfl
  throttle := rfl
  sequential := rfl
  pauseUntil := rfl

end Channel

namespace Channels

variable {s : Channels} {job : ChannelJob} {p p' : Path}

/-- What `set_pending(job)` does to the channel itself. -/
theorem chan_setPending (h : job ∉ (s.chan p).queue.jobs) :
    (s.setPending job p).chan p' =
      if p' = p then { s.chan p with
          queue := (s.chan p).queue.add (s.eta job) job
          running := (s.chan p).running.erase job
          failed := (s.chan p).failed.erase job }
      else if p' <:+ p then (s.chan p').remove job else s.chan p' := by
  rw [setPending, if_neg (by simpa using h), chan_removeAbove]
  by_cases hp : p' = p
  · subst hp
    simp
  · simp [hp, chan_modify_of_ne]

theorem chan_setFailed (h : job ∉ (s.chan p).failed) :
    (s.setFailed job p).chan p' =
      if p' = p then { s.chan p with
          queue := (s.chan p).queue.remove job
          running := (s.chan p).running.erase job
          failed := insert job (s.chan p).failed }
      else if p' <:+ p then (s.chan p').remove job else s.chan p' := by
  rw [setFailed, if_neg h, chan_removeAbove]
  by_cases hp : p' = p
  · subst hp
    simp
  · simp [hp, chan_modify_of_ne]

@[simp] theorem etaReset_setPending : (s.setPending job p).etaReset = s.etaReset := by
  unfold setPending
  split
  · rfl
  · rw [etaReset_removeAbove, etaReset_modify]

@[simp] theorem etaReset_setFailed : (s.setFailed job p).etaReset = s.etaReset := by
  unfold setFailed
  split
  · rfl
  · rw [etaReset_removeAbove, etaReset_modify]

theorem eta_of_etaReset {s s' : Channels} (h : s'.etaReset = s.etaReset) : s'.eta = s.eta := by
  funext job
  rw [eta, eta, h]

theorem chan_enqueue (ys : List ChannelJob) (p p' : Path) (s : Channels) :
    (s.enqueue ys p).chan p' =
      if p' = p then { s.chan p with
        queue := ys.foldl (fun q job => q.add (s.eta job) job) (s.chan p).queue }
      else s.chan p' := by
  rw [enqueue, chan_modify]
  by_cases h : p' = p
  · subst h
    simp
  · simp [h]

theorem touched_remove (p' : Path) :
    (s.chan p').Touched s.eta job ((s.remove job p).chan p') := by
  rw [chan_remove]
  split
  · exact .remove
  · exact .refl

theorem touched_setPending (p' : Path) :
    (s.chan p').Touched s.eta job ((s.setPending job p).chan p') := by
  by_cases h : job ∈ (s.chan p).queue.jobs
  · rw [setPending, if_pos (by simpa using h)]
    exact .refl
  · rw [chan_setPending h]
    split
    · rename_i hp
      subst hp
      exact {
        queue := fun a ha => by simp [ha]
        running := fun a ha => by simp [ha]
        failed := fun a ha => by simp [ha]
        split := fun h => h.add job
        capacity := rfl
        throttle := rfl
        sequential := by simp
        pauseUntil := rfl }
    · split
      · exact .remove
      · exact .refl

theorem touched_setFailed (p' : Path) :
    (s.chan p').Touched s.eta job ((s.setFailed job p).chan p') := by
  by_cases h : job ∈ (s.chan p).failed
  · rw [setFailed, if_pos h]
    exact .refl
  · rw [chan_setFailed h]
    split
    · rename_i hp
      subst hp
      exact {
        queue := fun a ha => by simp [ha]
        running := fun a ha => by simp [ha]
        failed := fun a ha => by simp [ha]
        split := fun h => h.remove job
        capacity := rfl
        throttle := rfl
        sequential := by simp
        pauseUntil := rfl }
    · split
      · exact .remove
      · exact .refl

theorem touched_markRunning (p' : Path) :
    (s.chan p').Touched s.eta job ((s.markRunning job p).chan p') := by
  rw [markRunning, chan_modify]
  split
  · exact {
      queue := fun a ha => by simp [ha]
      running := fun a ha => by simp [ha]
      failed := fun a ha => by simp [ha]
      split := fun h => h.remove job
      capacity := rfl
      throttle := rfl
      sequential := by simp
      pauseUntil := rfl }
  · exact .refl

theorem touched_setRunning (p p' : Path) (s : Channels) :
    (s.chan p').Touched s.eta job ((s.setRunning job p).chan p') := by
  induction p generalizing s with
  | nil =>
      unfold setRunning
      split
      · exact .refl
      · exact touched_markRunning p'
  | cons name p ih =>
      unfold setRunning
      split
      · exact .refl
      · exact (touched_markRunning p').trans (ih (s.markRunning job (name :: p)))

end Channels

namespace Sits

variable {s s' : Channels} {job : ChannelJob} {place place' : Place}

/-- What another job goes through changes nothing. -/
theorem of_touched {other : ChannelJob} {eta : ChannelJob → Option ℚ} (h : Sits s other place)
    (ht : ∀ p, (s.chan p).Touched eta job (s'.chan p)) (hne : other ≠ job) :
    Sits s' other place where
  queued p := ((ht p).queue other hne).trans (h.queued p)
  running p := ((ht p).running other hne).trans (h.running p)
  failed p := ((ht p).failed other hne).trans (h.failed p)
  bound := h.bound

/-- A job that is somewhere is in its own channel. -/
theorem holds (h : Sits s job place) (hne : place ≠ idle) :
    job ∈ (s.chan job.channel).queue.jobs ∨ job ∈ (s.chan job.channel).running ∨
      job ∈ (s.chan job.channel).failed := by
  rw [h.queued, h.running, h.failed]
  cases place with
  | idle => exact absurd rfl hne
  | failed => simp
  | waiting left =>
      have := h.bound left rfl
      rw [queued_waiting_iff, running_waiting_iff]
      by_cases hle : left ≤ job.channel.length
      · exact .inr (.inl ⟨List.suffix_rfl, hle⟩)
      · exact .inl ⟨List.suffix_rfl, by omega⟩

/-- A job that a channel has not yielded stays where it is. -/
theorem of_yields {now : ℚ} {p : Path} {ys : List ChannelJob} (h : Sits s job place)
    (hs : (s.chan p).queue.Split s.eta) (hy : Channels.Yields now p s ys s') (hjob : job ∉ ys) :
    Sits s' job place := by
  refine ⟨fun p' => ?_, fun p' => ?_, fun p' => ?_, h.bound⟩ <;> by_cases hp : p' = p
  · subst hp
    simp [hy.chan.mem_jobs_iff hs, h.queued, hjob]
  · rw [hy.others p' hp, h.queued]
  · subst hp
    simp [hy.chan.running, h.running, hjob]
  · rw [hy.others p' hp, h.running]
  · subst hp
    rw [hy.chan.failed, h.failed]
  · rw [hy.others p' hp, h.failed]

theorem remove (h : Sits s job place) : Sits (s.remove job job.channel) job idle where
  queued p := by
    rw [Channels.chan_remove]
    split
    · simp [Channel.remove]
    · rename_i hp
      simp [h.queued, Queued, hp]
  running p := by
    rw [Channels.chan_remove]
    split
    · simp [Channel.remove]
    · rename_i hp
      simp [h.running, Running, hp]
  failed p := by
    rw [Channels.chan_remove]
    split
    · simp [Channel.remove]
    · rename_i hp
      have hne : p ≠ job.channel := fun heq => hp (heq ▸ List.suffix_rfl)
      simp [h.failed, Failed, hne]
  bound := by simp

theorem setPending (h : Sits s job place) :
    Sits (s.setPending job job.channel) job (pending job) := by
  by_cases hmem : job ∈ (s.chan job.channel).queue.jobs
  · have hplace : place = pending job := ((h.queued job.channel).mp hmem).2
    rw [Channels.setPending, if_pos (by simpa using hmem), ← hplace]
    exact h
  · refine ⟨fun p => ?_, fun p => ?_, fun p => ?_, by simp [pending]⟩ <;>
      rw [Channels.chan_setPending hmem] <;> split <;> rename_i hp
    · simp [hp]
    · split <;> rename_i hp'
      · simp [Channel.remove, hp]
      · simp [h.queued, Queued, hp']
    · simp
    · split <;> rename_i hp'
      · simp [Channel.remove]
      · simp [h.running, Running, hp']
    · simp
    · split <;> rename_i hp'
      · simp [Channel.remove]
      · simp [h.failed, Failed, hp]

theorem setFailed (h : Sits s job place) :
    Sits (s.setFailed job job.channel) job .failed := by
  by_cases hmem : job ∈ (s.chan job.channel).failed
  · have hplace : place = .failed := ((h.failed job.channel).mp hmem).2
    rw [Channels.setFailed, if_pos hmem, ← hplace]
    exact h
  · refine ⟨fun p => ?_, fun p => ?_, fun p => ?_, by simp⟩ <;>
      rw [Channels.chan_setFailed hmem] <;> split <;> rename_i hp
    · simp [hp]
    · split <;> rename_i hp'
      · simp [Channel.remove]
      · simp [h.queued, Queued, hp']
    · simp
    · split <;> rename_i hp'
      · simp [Channel.remove]
      · simp [h.running, Running, hp']
    · simp [hp]
    · split <;> rename_i hp'
      · simp [Channel.remove, hp]
      · simp [h.failed, Failed, hp]

/-- A job that is already running in its channel stays where it is, wherever it waits. -/
theorem setRunning_of_le {left : ℕ} (h : Sits s job (waiting left))
    (hle : left ≤ job.channel.length) : s.setRunning job job.channel = s := by
  have hmem : job ∈ (s.chan job.channel).running :=
    (h.running _).mpr (running_waiting_iff.mpr ⟨List.suffix_rfl, hle⟩)
  generalize job.channel = p at *
  cases p <;> rw [Channels.setRunning, if_pos hmem]

theorem setRunning (h : Sits s job place)
    (hplace : ∀ left, place = waiting left → job.channel.length < left) :
    Sits (s.setRunning job job.channel) job (waiting 0) := by
  have hnot : ∀ p, p <:+ job.channel → job ∉ (s.chan p).running := by
    intro p hp hmem
    obtain ⟨-, left, hleft, hle⟩ := (h.running p).mp hmem
    have := hplace left hleft
    have := hp.length_le
    omega
  refine ⟨fun p => ?_, fun p => ?_, fun p => ?_, by simp⟩ <;>
    rw [Channels.chan_setRunning _ _ _ _ hnot] <;> split <;> rename_i hp
  · simp [Channels.markRunning]
  · simp [h.queued, Queued, hp]
  · simp [Channels.markRunning, hp]
  · simp [h.running, Running, hp]
  · simp [Channels.markRunning]
  · have hne : p ≠ job.channel := fun heq => hp (heq ▸ List.suffix_rfl)
    simp [h.failed, Failed, hne]

end Sits

namespace Sound

variable {s s' : Channels} {job : ChannelJob} {place : ChannelJob → Place} {new : Place}

/-- What happens to one job replaces its place. -/
theorem of_touched (h : Sound s place) (heta : s'.etaReset = s.etaReset)
    (ht : ∀ p, (s.chan p).Touched s.eta job (s'.chan p)) (hsits : Sits s' job new) :
    Sound s' (Function.update place job new) where
  sits other := by
    by_cases hne : other = job
    · subst hne
      rw [Function.update_self]
      exact hsits
    · rw [Function.update_of_ne hne]
      exact (h.sits other).of_touched ht hne
  split p := by
    rw [Channels.eta_of_etaReset heta]
    exact (ht p).split (h.split p)

/-- Where jobs are depends on the contents of the channels only. -/
theorem of_contents (h : Sound s place) (heta : s'.etaReset = s.etaReset)
    (hcontents : ∀ p, (s'.chan p).contents = (s.chan p).contents) : Sound s' place := by
  simp only [Channel.contents, Prod.mk.injEq] at hcontents
  constructor
  · intro job
    obtain ⟨hqueued, hrunning, hfailed, hbound⟩ := h.sits job
    refine ⟨fun p => ?_, fun p => ?_, fun p => ?_, hbound⟩
    · rw [ChannelQueue.jobs, (hcontents p).1, (hcontents p).2.1]
      exact hqueued p
    · rw [(hcontents p).2.2.1]
      exact hrunning p
    · rw [(hcontents p).2.2.2]
      exact hfailed p
  · intro p
    rw [Channels.eta_of_etaReset heta]
    constructor
    · rw [(hcontents p).1]
      exact (h.split p).etaQueue
    · rw [(hcontents p).2.1]
      exact (h.split p).queue

theorem of_empty (hcontents : ∀ p, (s.chan p).contents = (∅, ∅, ∅, ∅)) :
    Sound s fun _ => idle := by
  simp only [Channel.contents, Prod.mk.injEq] at hcontents
  constructor
  · intro job
    refine ⟨fun p => ?_, fun p => ?_, fun p => ?_, by simp⟩ <;>
      simp [ChannelQueue.jobs, hcontents p]
  · intro p
    constructor <;> simp [hcontents p]

theorem remove (h : Sound s place) (job : ChannelJob) :
    Sound (s.remove job job.channel) (Function.update place job idle) :=
  h.of_touched (Channels.etaReset_remove ..) Channels.touched_remove (h.sits job).remove

theorem setPending (h : Sound s place) (job : ChannelJob) :
    Sound (s.setPending job job.channel) (Function.update place job (pending job)) :=
  h.of_touched Channels.etaReset_setPending Channels.touched_setPending (h.sits job).setPending

theorem setFailed (h : Sound s place) (job : ChannelJob) :
    Sound (s.setFailed job job.channel) (Function.update place job .failed) :=
  h.of_touched Channels.etaReset_setFailed Channels.touched_setFailed (h.sits job).setFailed

theorem setRunning (h : Sound s place) (job : ChannelJob) :
    Sound (s.setRunning job job.channel) (Function.update place job ((place job).started job)) := by
  by_cases hplace : ∀ left, place job = waiting left → job.channel.length < left
  · refine h.of_touched (Channels.etaReset_setRunning ..) (Channels.touched_setRunning _ · s) ?_
    rw [started_of_lt hplace]
    exact (h.sits job).setRunning hplace
  · obtain ⟨left, hleft, hle⟩ : ∃ left, place job = waiting left ∧ left ≤ job.channel.length := by
      simpa using hplace
    have hsits := h.sits job
    rw [hleft] at hsits
    rw [hsits.setRunning_of_le hle, hleft, started_of_le hle, ← hleft, Function.update_eq_self]
    exact h

end Sound

/-! ## Jobs on their way up -/

/-- The places when these jobs have so many channels still to pass. -/
def passed (ys : List ChannelJob) (left : ℕ) (place : ChannelJob → Place) : ChannelJob → Place :=
  fun job => if job ∈ ys then waiting left else place job

theorem ChannelQueue.jobs_foldl_add (eta : ChannelJob → Option ℚ) (ys : List ChannelJob)
    (q : ChannelQueue) :
    (ys.foldl (fun q job => q.add (eta job) job) q).jobs = ys.toFinset ∪ q.jobs := by
  induction ys generalizing q with
  | nil => simp
  | cons job ys ih => simp [ih]

theorem ChannelQueue.sequential_foldl_add (eta : ChannelJob → Option ℚ) (ys : List ChannelJob)
    (q : ChannelQueue) :
    (ys.foldl (fun q job => q.add (eta job) job) q).sequential = q.sequential := by
  induction ys generalizing q with
  | nil => rfl
  | cons job ys ih => simp [ih]

theorem ChannelQueue.Split.foldl_add {eta : ChannelJob → Option ℚ} {q : ChannelQueue}
    (h : q.Split eta) (ys : List ChannelJob) :
    (ys.foldl (fun q job => q.add (eta job) job) q).Split eta := by
  induction ys generalizing q with
  | nil => exact h
  | cons job ys ih => exact ih (h.add job)

namespace Sound

variable {s s' : Channels} {place : ChannelJob → Place} {now : ℚ} {p : Path} {name : Text}
  {ys : List ChannelJob} {job : ChannelJob}

theorem place_of_mem (h : Sound s place) (hy : Channels.Yields now p s ys s') (hjob : job ∈ ys) :
    p <:+ job.channel ∧ place job = waiting (p.length + 1) :=
  ((h.sits job).queued p).mp (ChannelQueue.ready_subset (hy.chan.wasReady job hjob))

/-- A job that is reset while a channel yields jobs waits in this channel. -/
theorem split_of_ne (h : Sound s place) (hy : Channels.Yields now p s ys s') {p' : Path}
    (hp : p' ≠ p) : (s'.chan p').queue.Split s'.eta := by
  have heta : ∀ job ∈ (s.chan p').queue.jobs, s'.eta job = s.eta job := by
    intro job hjob
    have hnot : job ∉ (s.chan p).queue.etaQueue.objects := by
      intro hmem
      have hplace := ((h.sits job).queued p').mp hjob
      have hplace' := ((h.sits job).queued p).mp (Finset.mem_union_left _ hmem)
      have hlen : p'.length = p.length := by simpa [hplace.2] using hplace'.2
      exact hp (List.suffix_of_suffix_length_le hplace.1 hplace'.1 hlen.le |>.eq_of_length hlen)
    have hiff : job ∈ s'.etaReset ↔ job ∈ s.etaReset :=
      ⟨fun hmem => (hy.ofEtaReset job hmem).resolve_right fun hmem => hnot hmem.1,
        fun hmem => hy.etaReset hmem⟩
    simp only [Channels.eta, hiff]
  rw [hy.others p' hp]
  constructor
  · intro job hjob
    rw [heta job (Finset.mem_union_left _ hjob)]
    exact (h.split p').etaQueue job hjob
  · intro job hjob
    rw [heta job (Finset.mem_union_right _ hjob)]
    exact (h.split p').queue job hjob

/-- Where a job is that a channel has yielded and that is not enqueued above it. -/
theorem marks_of_mem (h : Sound s place) (hy : Channels.Yields now p s ys s') (hjob : job ∈ ys)
    (p' : Path) :
    job ∉ (s'.chan p').queue.jobs ∧
      (job ∈ (s'.chan p').running ↔ p' <:+ job.channel ∧ p.length ≤ p'.length) ∧
      job ∉ (s'.chan p').failed := by
  obtain ⟨hsuffix, hplace⟩ := h.place_of_mem hy hjob
  have hsits := h.sits job
  rw [hplace] at hsits
  by_cases hp : p' = p
  · subst hp
    simp [hy.chan.mem_jobs_iff (h.split p'), hy.chan.running, hy.chan.failed, hsits.failed, hjob,
      hsuffix]
  · rw [hy.others p' hp, hsits.queued, hsits.running, hsits.failed, queued_waiting_iff,
      running_waiting_iff]
    have hlen : p' <:+ job.channel → p'.length ≠ p.length := fun hp' heq =>
      hp (List.suffix_of_suffix_length_le hp' hsuffix heq.le |>.eq_of_length heq)
    refine ⟨fun hq => hlen hq.1 (by omega), and_congr_right fun hp' => ?_, failed_waiting⟩
    have := hlen hp'
    omega

/-- The jobs that the root channel yields have passed all channels. -/
theorem yields_root (h : Sound s place) (hy : Channels.Yields now [] s ys s') :
    Sound s' (passed ys 0 place) where
  sits job := by
    by_cases hjob : job ∈ ys
    · have hmarks := h.marks_of_mem hy hjob
      rw [passed, if_pos hjob]
      exact {
        queued := fun p' => by simp [(hmarks p').1]
        running := fun p' => by simp [(hmarks p').2.1]
        failed := fun p' => by simp [(hmarks p').2.2]
        bound := by simp }
    · rw [passed, if_neg hjob]
      exact (h.sits job).of_yields (h.split []) hy hjob
  split p := by
    by_cases hp : p = []
    · exact hp ▸ hy.split
    · exact h.split_of_ne hy hp

/-- The jobs that a channel below `p` yields have passed it when they are enqueued. -/
theorem yields_enqueue (h : Sound s place) (hy : Channels.Yields now (name :: p) s ys s') :
    Sound (s'.enqueue ys p) (passed ys (p.length + 1) place) where
  sits job := by
    by_cases hjob : job ∈ ys
    · have hmarks := h.marks_of_mem hy hjob
      obtain ⟨hsuffix, -⟩ := h.place_of_mem hy hjob
      have hp := (List.suffix_cons name p).trans hsuffix
      have hlen : p.length + 1 ≤ job.channel.length := by simpa using hsuffix.length_le
      rw [passed, if_pos hjob]
      refine ⟨fun p' => ?_, fun p' => ?_, fun p' => ?_, by simp; omega⟩ <;>
        rw [Channels.chan_enqueue] <;> split <;> rename_i hp'
      · subst hp'
        simp [ChannelQueue.jobs_foldl_add, hjob, queued_waiting_iff, hp]
      · refine iff_of_false (hmarks p').1 fun hq => ?_
        obtain ⟨hsuffix', hlen'⟩ := queued_waiting_iff.mp hq
        have heq : p'.length = p.length := by omega
        exact hp' (List.suffix_of_suffix_length_le hsuffix' hp heq.le |>.eq_of_length heq)
      · subst hp'
        simp [(hmarks p').2.1, running_waiting_iff]
      · simp [(hmarks p').2.1, running_waiting_iff]
      · subst hp'
        simp [(hmarks p').2.2]
      · simp [(hmarks p').2.2]
    · rw [passed, if_neg hjob]
      have hsits := (h.sits job).of_yields (h.split _) hy hjob
      refine ⟨fun p' => ?_, fun p' => ?_, fun p' => ?_, hsits.bound⟩ <;>
        rw [Channels.chan_enqueue] <;> split <;> rename_i hp'
      · subst hp'
        simp [ChannelQueue.jobs_foldl_add, hjob, hsits.queued]
      · exact hsits.queued p'
      · subst hp'
        exact hsits.running p'
      · exact hsits.running p'
      · subst hp'
        exact hsits.failed p'
      · exact hsits.failed p'
  split p' := by
    have hsplit : (s'.chan p').queue.Split s'.eta := by
      by_cases hp : p' = name :: p
      · exact hp ▸ hy.split
      · exact h.split_of_ne hy hp
    rw [Channels.chan_enqueue]
    split
    · rename_i hp
      exact (hp ▸ hsplit).foldl_add ys
    · exact hsplit

end Sound

end JobRunner

end Fastrak
