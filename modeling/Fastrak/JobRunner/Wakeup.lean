import Fastrak.JobRunner.Poll

/-!
# The wakeup time

After a poll, nothing is yielded before the wakeup time, if there is one. Below a channel
that is full or paused the jobs may well move on: the channel itself holds them back.
-/

namespace Fastrak

namespace JobRunner

variable {now t w : ℚ} {p p' : Path} {s s' : Channels}

/-- The time `t` comes before this one, where 0 is no time. -/
def Before (t w : ℚ) : Prop := w = 0 ∨ t < w

/-- A channel that has stopped yields nothing before its wakeup time, when nothing has come
into its queue, or it is full or paused anyway. -/
theorem Channel.Settled.getJobsToRun_eq_nil {c : Channel} {queue : ChannelQueue}
    {ofChildren : ℚ → ℚ} (h : c.Settled now) (hnow : 0 < now)
    (hchan : s.chan p = { c with queue }) (hseq : queue.sequential = c.queue.sequential)
    (hw : Before t (c.getWakeupTime ofChildren w))
    (hchildren : ∀ w, Before t (ofChildren w) → queue = c.queue ∧ Before t w) :
    (s.getJobsToRun t p).1 = [] ∧ Before t w := by
  have hcap : (s.chan p).hasCapacity = c.hasCapacity := by
    rw [hchan]
    simp only [hasCapacity, hseq]
  unfold getWakeupTime at hw
  by_cases hfull : c.hasCapacity = false
  · rw [if_pos hfull] at hw
    exact ⟨Channels.getJobsToRun_eq_nil (.inl (hcap.trans hfull)), hw⟩
  · rw [if_neg hfull] at hw
    by_cases hpause : c.pauseUntil = 0
    · rw [if_neg (not_not.mpr hpause)] at hw
      obtain ⟨hqueue, hw⟩ := hchildren _ hw
      have hnot : ¬ c.Paused now := by
        rintro ⟨-, heq | ⟨hne, -⟩⟩
        · have hnonneg : (0 : ℚ) ≤ c.throttle := by exact_mod_cast h.nonneg
          exact (add_pos_of_pos_of_nonneg hnow hnonneg).ne' (heq.symm.trans hpause)
        · exact hne hpause
      obtain ⟨hlater, hnone⟩ := (h.stopped.resolve_left hfull).resolve_left hnot
      obtain ⟨hw, hlt⟩ := c.queue.of_getWakeupTime (fun job hjob => hnow.trans (hlater job hjob)) hw
      refine ⟨Channels.getJobsToRun_eq_nil (.inr (.inr ?_)), hw⟩
      rw [hchan, hqueue]
      exact ChannelQueue.pop_eq_none hlt hnone
    · rw [if_pos hpause] at hw
      obtain ⟨hthrottle, hlt⟩ := h.pause hpause
      obtain ⟨hw, hlt'⟩ := of_sooner (hnow.trans hlt) hw
      refine ⟨Channels.getJobsToRun_eq_nil (.inr (.inl ?_)), hw⟩
      rw [hchan]
      exact ⟨hthrottle, hpause, hlt'⟩

namespace Subchannels

/-- The wakeup time depends on the channels only that a poll reaches. -/
theorem getWakeupTime_congr (children : Subchannels) (w : ℚ)
    (h : children.All (fun p' => s'.chan p' = s.chan p') p) :
    children.getWakeupTime s' p w = children.getWakeupTime s p w := by
  induction children generalizing p w with
  | nil => rfl
  | cons name children siblings ih ih' =>
      obtain ⟨hself, hchildren, hsiblings⟩ := h
      have hfun : children.getWakeupTime s' (name :: p) = children.getWakeupTime s (name :: p) :=
        funext fun w => ih w hchildren
      rw [getWakeupTime, getWakeupTime, ih' _ hsiblings, hself, hfun]

/-- Before the wakeup time nothing comes into the queue of `p`. -/
theorem enqueueReady_of_before (children : Subchannels) (s : Channels) (w : ℚ) (hnow : 0 < now)
    (hd : children.Distinct) (h : children.All (fun p' => (s.chan p').Settled now) p)
    (hw : Before t (children.getWakeupTime s p w)) :
    (children.enqueueReady t p s).chan p = s.chan p ∧ Before t w := by
  induction children generalizing p s w with
  | nil => exact ⟨rfl, hw⟩
  | cons name children siblings ih ih' =>
      obtain ⟨hname, hdchildren, hdsiblings⟩ := hd
      obtain ⟨hself, hchildren, hsiblings⟩ := h
      have hbeside : siblings.All (fun p' =>
          (pollChild t name children p s).chan p' = s.chan p') p :=
        hsiblings.imp fun name' hname' p' hp' _ =>
          chan_pollChild_sibling (ne_of_mem_of_not_mem hname' hname) hp'
      rw [getWakeupTime] at hw
      obtain ⟨hchan, hw⟩ := ih' (pollChild t name children p s) _ hdsiblings
        (hsiblings.imp fun name' hname' p' hp' hset => by
          rw [chan_pollChild_sibling (ne_of_mem_of_not_mem hname' hname) hp']
          exact hset)
        ((getWakeupTime_congr siblings _ hbeside).symm ▸ hw)
      obtain ⟨queue, hseq, hqueue⟩ := chan_enqueueReady_self t children (name :: p) s
      obtain ⟨hnil, hw⟩ := hself.getJobsToRun_eq_nil hnow hqueue hseq hw fun w hw => by
        obtain ⟨hsame, hw⟩ := ih s w hdchildren hchildren hw
        rw [hqueue] at hsame
        exact ⟨congrArg Channel.queue hsame, hw⟩
      refine ⟨?_, hw⟩
      rw [enqueueReady_cons, hchan, chan_pollChild_self, hnil]
      rfl

end Subchannels

end JobRunner

end Fastrak
