import Fastrak.JobRunner.ManagerEffect
import Fastrak.Library.Run

/-!
# The capacity of a channel

The manager never has more jobs running in a channel than its capacity allows, as long as
the jobs that are said to be running are jobs that it has handed out, in their channels.
-/

namespace Fastrak

namespace JobRunner

open Run Place ChannelManager

variable {m m' : ChannelManager} {place : ChannelJob → Place} {job : ChannelJob} {p : Path}
  {s s' : Channels}

/-- A job that is said to be running has been handed out, and is still in the channel that
the notification names. -/
def Accounted (m : ChannelManager) (call : Call) : Prop :=
  ∀ n, call = .notify n → n.state = some .enqueued ∨ n.state = some .started →
    ∃ job ∈ m.find n.uuid, job ∈ (m.channels.chan []).running ∧
      (m.getChannelByName n.channelName false true).map (·.1) = some job.channel

/-- At most as many jobs are running. -/
theorem Within.of_card_le (h : Within s)
    (hcapacity : ∀ p, (s'.chan p).capacity = (s.chan p).capacity)
    (hcard : ∀ p, (s'.chan p).running.card ≤ (s.chan p).running.card) : Within s' := by
  intro p capacity hcap h0
  have := h p capacity (hcapacity p ▸ hcap) h0
  have := hcard p
  omega

theorem Within.remove (h : Within s) (job : ChannelJob) : Within (s.remove job job.channel) :=
  h.of_card_le (fun p => (Channels.touched_remove p).capacity) fun p => by
    rw [Channels.chan_remove]
    split
    · exact Finset.card_erase_le
    · exact le_rfl

theorem Within.setPending (h : Within s) (job : ChannelJob) :
    Within (s.setPending job job.channel) := by
  refine h.of_card_le (fun p => (Channels.touched_setPending p).capacity) fun p => ?_
  by_cases hmem : job ∈ (s.chan job.channel).queue.jobs
  · rw [Channels.setPending, if_pos (by simpa using hmem)]
  · rw [Channels.chan_setPending hmem]
    split
    · rename_i hp
      subst hp
      exact Finset.card_erase_le
    · split
      · exact Finset.card_erase_le
      · exact le_rfl

theorem Within.setFailed (h : Within s) (job : ChannelJob) :
    Within (s.setFailed job job.channel) := by
  refine h.of_card_le (fun p => (Channels.touched_setFailed p).capacity) fun p => ?_
  by_cases hmem : job ∈ (s.chan job.channel).failed
  · rw [Channels.setFailed, if_pos hmem]
  · rw [Channels.chan_setFailed hmem]
    split
    · rename_i hp
      subst hp
      exact Finset.card_erase_le
    · split
      · exact Finset.card_erase_le
      · exact le_rfl

/-- A job that takes the place of another one in the channels it is running in. -/
theorem Within.replace {other : ChannelJob} (h : Within s) (hchannel : job.channel = other.channel)
    (hjob : ∀ p, job ∉ (s.chan p).running)
    (hother : ∀ p, p <:+ other.channel → other ∈ (s.chan p).running) :
    Within ((s.remove other other.channel).setRunning job job.channel) := by
  have hnot : ∀ p, job ∉ ((s.remove other other.channel).chan p).running := by
    intro p hmem
    rw [Channels.chan_remove] at hmem
    split at hmem
    · exact hjob p (Finset.mem_of_mem_erase hmem)
    · exact hjob p hmem
  refine h.of_card_le (fun p => ?_) fun p => ?_
  · exact (Channels.touched_setRunning _ p _).capacity.trans (Channels.touched_remove p).capacity
  · rw [Channels.chan_setRunning _ _ _ _ fun p _ => hnot p]
    split
    · rename_i hp
      have hp' : p <:+ other.channel := hchannel ▸ hp
      rw [Channels.markRunning, Channels.chan_modify_self]
      dsimp only
      rw [Finset.card_insert_of_notMem (hnot p), Channels.chan_remove, if_pos hp',
        Channel.remove, Finset.card_erase_add_one (hother p hp')]
    · rw [Channels.chan_remove]
      split
      · exact Finset.card_erase_le
      · exact le_rfl

theorem Within.transition (h : Within s) {state : Option State} (job : ChannelJob)
    (hstate : ¬ (state = some .enqueued ∨ state = some .started)) :
    Within (ChannelManager.transition state job s) := by
  match state with
  | none | some .done | some .cancelled => exact h.remove job
  | some .pending => exact h.setPending job
  | some .enqueued | some .started => simp at hstate
  | some .failed => exact h.setFailed job
  | some .waitDependencies => exact h

theorem Within.removeJob (h : Within m.channels) (uuid : String) :
    Within (m.removeJob uuid).channels := by
  unfold ChannelManager.removeJob
  split
  · exact h
  · exact h.remove _

theorem within_foldl_forget (h : Within m.channels) (jobs : List ChannelJob) :
    Within (jobs.foldl (fun m job => m.forget job) m).channels := by
  induction jobs generalizing m with
  | nil => exact h
  | cons job jobs ih => exact ih (m := m.forget job) (h.remove job)

theorem within_jobFor (h : Within m.channels) (n : Notification) :
    Within (jobFor n p m).2.channels := by
  unfold jobFor
  split
  · exact h
  · dsimp only
    split
    · exact h.removeJob n.uuid
    · exact h

/-- The job that is said to be running has been running before, or the job that it
replaces has. -/
theorem within_transition_jobFor {n : Notification} (hm : Managed m place) (h : Within m.channels)
    (hjob : job ∈ m.find n.uuid) (hrunning : job ∈ (m.channels.chan []).running)
    (hstate : n.state = some .enqueued ∨ n.state = some .started) :
    Within (ChannelManager.transition n.state (jobFor n job.channel m).1
      (jobFor n job.channel m).2.channels) := by
  have hsits := hm.sound.sits job
  have hzero : place job = waiting 0 := by
    obtain ⟨-, left, hleft, hle⟩ := (hsits.running []).mp hrunning
    simpa [show left = 0 by simpa using hle] using hleft
  rw [hzero] at hsits
  have htransition : ∀ (job : ChannelJob) (s : Channels),
      ChannelManager.transition n.state job s = s.setRunning job job.channel := by
    intro job s
    rcases hstate with h | h <;> rw [h] <;> rfl
  rw [htransition]
  unfold jobFor
  rw [show m.find n.uuid = some job from hjob]
  dsimp only
  split
  · have hnew : newJob n job.channel m.nextIdent ∉ m.jobs := fun hmem => (hm.fresh _ hmem).false
    have hremove : m.removeJob n.uuid = m.forget job := by
      rw [ChannelManager.removeJob, show m.find n.uuid = some job from hjob]
    rw [hremove]
    refine h.replace rfl (fun p hmem => ?_) fun p hp => ?_
    · have hplace := hm.place_of_notMem hnew
      have hsits := hm.sound.sits (newJob n job.channel m.nextIdent)
      rw [hplace] at hsits
      exact running_idle ((hsits.running p).mp hmem)
    · exact (hsits.running p).mpr (running_waiting_zero.mpr hp)
  · rw [hsits.setRunning_of_le (Nat.zero_le _)]
    exact h

theorem Within.notify {n : Notification} (h : Within m.channels) (hm : Managed m place)
    (hn : Accounted m (.notify n)) : Within (m.notify n).channels := by
  obtain ⟨p, m', hchannel⟩ := exists_getChannelByName n.channelName m
  obtain ⟨children, rfl, hdistinct, hhas, hp⟩ := getChannelByName_spec hchannel
  have hm' := hm.of_children (hdistinct hm.distinct) hhas
  simp only [ChannelManager.notify, hchannel]
  split
  · exact h
  · by_cases hstate : n.state = some .enqueued ∨ n.state = some .started
    · obtain ⟨job, hjob, hrunning, hsame⟩ := hn n rfl hstate
      obtain rfl : p = job.channel := by simpa [hchannel] using hsame
      exact within_transition_jobFor hm' h hjob hrunning hstate
    · exact Within.transition (within_jobFor (m := { m with children := children }) h n) _ hstate

theorem Within.step {call : Call} (h : Within m.channels) (hm : Managed m place)
    (hcall : Accounted m call) : Within (m.step call).channels := by
  cases call with
  | notify n => exact h.notify hm hcall
  | removeJob uuid => exact h.removeJob uuid
  | removeDb dbName => exact within_foldl_forget h _
  | getJobsToRun now =>
      obtain ⟨place₁, h₁, -⟩ := hm.sound.enqueueReady now (p := []) m.children
      exact (h.enqueueReady m.children hm.sound).yields
        (Channels.getJobsToRun_yields now (h₁.split []))
  | collect uuid =>
      have hchannels : (m.collect uuid).channels = m.channels := by
        unfold ChannelManager.collect
        split
        · rfl
        · split <;> rfl
      exact (congrArg Within hchannels).mpr h

theorem within_of_configured (h : Configured m) : Within m.channels := by
  intro p capacity _ _
  have hempty : (m.channels.chan p).running = ∅ := Finset.eq_empty_of_forall_notMem fun job hjob =>
    running_idle (((h.managed.sound.sits job).running p).mp hjob)
  rw [hempty]
  exact le_max_right ..

/-- The capacity of a channel is never exceeded. A capacity of 0 is no limit. -/
theorem capacity_never_exceeded (h : Configured m) {calls : List Call}
    (hcalls : Meets ChannelManager.step Accounted m calls) (p : Path) (capacity : ℤ)
    (hcapacity : ((run ChannelManager.step m calls).channels.chan p).capacity = some capacity)
    (h0 : capacity ≠ 0) :
    (((run ChannelManager.step m calls).channels.chan p).running.card : ℤ) ≤ max capacity 0 := by
  have hinvariant : (∃ place, Managed (run ChannelManager.step m calls) place) ∧
      Within (run ChannelManager.step m calls).channels := by
    refine invariant (I := fun m => (∃ place, Managed m place) ∧ Within m.channels)
      (fun m call hm hcall => ?_) ⟨⟨_, h.managed⟩, within_of_configured h⟩ hcalls
    obtain ⟨⟨place, hm⟩, hwithin⟩ := hm
    obtain ⟨place', hm', -⟩ := step_follows hm call
    exact ⟨⟨place', hm'⟩, hwithin.step hm hcall⟩
  exact hinvariant.2 p capacity hcapacity h0

theorem capacity_never_exceeded_of_two_jobs :
    (((run ChannelManager.step
      ((simpleConfigure [{ name := rootName, capacity := some 1 }] {}).getD {})
      [.notify ⟨"db", none, "A1", 1, 0, 10, none, some .pending⟩,
        .notify ⟨"db", none, "A2", 2, 0, 10, none, some .pending⟩, .getJobsToRun 100,
        .notify ⟨"db", none, "A1", 1, 0, 10, none, some .enqueued⟩]).channels.chan
      []).running.card : ℤ) ≤ max 1 0 := by
  refine capacity_never_exceeded (configured_of_isSome (by decide)) ?_ [] 1 (by decide +kernel)
    one_ne_zero
  refine ⟨?_, ?_, nofun, ?_, trivial⟩
  · rintro n ⟨⟩ hstate
    simp at hstate
  · rintro n ⟨⟩ hstate
    simp at hstate
  · rintro n ⟨⟩ -
    exact ⟨newJob ⟨"db", none, "A1", 1, 0, 10, none, some .pending⟩ [] 0, by decide +kernel,
      by decide +kernel, by decide +kernel⟩

end JobRunner

end Fastrak
