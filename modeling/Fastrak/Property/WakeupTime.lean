import Fastrak.JobRunner.ManagerEffect
import Fastrak.JobRunner.Wakeup
import Fastrak.Library.Run

/-!
# The wakeup time misses nothing

After a poll the runner sleeps until the wakeup time of the manager, if there is one. No
poll before that time would have handed out a job.
-/

namespace Fastrak

namespace JobRunner

open Run ChannelManager

variable {m : ChannelManager} {now t : ℚ}

theorem throttled_step (h : Throttled m.channels) (call : Call) :
    Throttled (m.step call).channels := by
  by_cases hpoll : ∃ now, call = .getJobsToRun now
  · obtain ⟨now, rfl⟩ := hpoll
    exact (h.enqueueReady now (p := []) m.children).getJobsToRun now []
  · have hquiet : Quiet m.channels (m.step call).channels :=
      quiet_step m fun now heq => hpoll ⟨now, heq⟩
    intro p
    rw [Channel.Throttled, hquiet.throttle p, hquiet.pauseUntil p]
    exact h p

theorem throttled_run (h : Throttled m.channels) (calls : List Call) :
    Throttled (run ChannelManager.step m calls).channels :=
  invariant (I := fun m => Throttled m.channels) (fun _ call h _ => throttled_step h call) h
    (Meets.trivial m calls)

/-- A poll before the wakeup time of a manager that has been polled hands out nothing. -/
theorem getJobsToRun_of_before (hnow : 0 < now) (hd : m.children.Distinct)
    (h : Throttled m.channels)
    (hw : Before t (m.getJobsToRun now).2.getWakeupTime) :
    ((m.getJobsToRun now).2.getJobsToRun t).1 = [] := by
  have hroot := Channels.getJobsToRun_settled now [] _
    (h.enqueueReady now (p := []) m.children [])
  have hall := (Subchannels.enqueueReady_settled now (p := []) m.children m.channels hd h).imp
    (Q := fun p => ((m.getJobsToRun now).2.channels.chan p).Settled now)
    fun name _ p hp hset => by
      have hne : p ≠ [] := Subchannels.ne_of_cons_suffix hp
      have hchan : (m.getJobsToRun now).2.channels.chan p =
          (Subchannels.enqueueReady now m.children [] m.channels).chan p :=
        Channels.chan_getJobsToRun_of_ne _ hne
      rw [hchan]
      exact hset
  obtain ⟨queue, hseq, hqueue⟩ :=
    Subchannels.chan_enqueueReady_self t m.children [] (m.getJobsToRun now).2.channels
  refine (hroot.getJobsToRun_eq_nil hnow hqueue hseq hw fun w hw => ?_).1
  obtain ⟨hsame, hw⟩ := Subchannels.enqueueReady_of_before m.children _ w hnow hd hall hw
  rw [hqueue] at hsame
  exact ⟨congrArg Channel.queue hsame, hw⟩

/-- The runner may sleep until the wakeup time, whatever has been configured and happened
before, if no throttle is negative. -/
theorem nothing_before_wakeup_time {configs : List Config}
    (hthrottle : ∀ config ∈ configs, 0 ≤ config.throttle)
    (hconfigs : simpleConfigure configs {} = some m) (calls : List Call) (hnow : 0 < now) :
    let m' := ((run ChannelManager.step m calls).getJobsToRun now).2
    m'.getWakeupTime = 0 ∨ t < m'.getWakeupTime → (m'.getJobsToRun t).1 = [] := by
  intro m' hw
  obtain ⟨place, hm⟩ := managed_run (Configured.managed ⟨configs, hconfigs⟩) calls
  have hthrottled := throttled_run (throttled_of_simpleConfigure hthrottle hconfigs) calls
  exact getJobsToRun_of_before hnow hm.distinct hthrottled hw

theorem nothing_before_wakeup_time_of_throttled_channel :
    let m := run ChannelManager.step ((simpleConfigure [{ name := rootName, capacity := some 4 },
        { name := ['A'], capacity := some 4, throttle := 2 }] {}).getD {})
      [.notify ⟨"db", some ['A'], "A1", 1, 0, 10, none, some .pending⟩,
        .notify ⟨"db", some ['A'], "A2", 2, 0, 10, none, some .pending⟩]
    ((m.getJobsToRun 100).2.getJobsToRun 101).1 = [] := by
  intro m
  have hwakeup : (m.getJobsToRun 100).2.getWakeupTime = 102 := by decide +kernel
  exact nothing_before_wakeup_time (by decide) (simpleConfigure_eq_some (by decide)) _ (by decide)
    (.inr (hwakeup ▸ by decide))

end JobRunner

end Fastrak
