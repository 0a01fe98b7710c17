import Fastrak.JobRunner.ManagerEffect
import Fastrak.Library.Run

/-!
# What a poll hands out, and what it leaves

The jobs come in the order of their priority, date and sequence number, none of them
before its eta, and no job that is left ready should have come before them. A job that is
left in a queue is left there for a reason.
-/

namespace Fastrak

namespace JobRunner

open Run Place ChannelManager

variable {m : ChannelManager} {place : ChannelJob → Place} {s s' : Channels} {p : Path}
  {now limit : ℚ}

/-! ## Order -/

/-- Jobs are handed out in their order, before those that are left ready. -/
theorem handed_out_in_order (h : Configured m) (calls : List Call) (now : ℚ) :
    ((run ChannelManager.step m calls).getJobsToRun now).1.Pairwise
        (fun a b => a.sortingKeyIgnoringEta ≤ b.sortingKeyIgnoringEta) ∧
      ∀ a ∈ ((run ChannelManager.step m calls).getJobsToRun now).1,
        ∀ b ∈ (((run ChannelManager.step m calls).getJobsToRun now).2.channels.chan
            []).queue.ready now,
          a.sortingKeyIgnoringEta ≤ b.sortingKeyIgnoringEta := by
  obtain ⟨place, hm⟩ := managed_run h.managed calls
  obtain ⟨place₁, h₁, -⟩ :=
    hm.sound.enqueueReady now (p := []) (run ChannelManager.step m calls).children
  have hy := Channels.getJobsToRun_yields now (h₁.split [])
  exact ⟨hy.chan.sorted, hy.chan.least⟩

theorem handed_out_in_order_of_two_jobs :
    let m := run ChannelManager.step
      ((simpleConfigure [{ name := rootName, capacity := some 2 }] {}).getD {})
      [.notify ⟨"db", none, "A1", 1, 0, 10, none, some .pending⟩,
        .notify ⟨"db", none, "A2", 2, 0, 5, none, some .pending⟩]
    (m.getJobsToRun 100).1.Pairwise
        (fun a b => a.sortingKeyIgnoringEta ≤ b.sortingKeyIgnoringEta) ∧
      ∀ a ∈ (m.getJobsToRun 100).1,
        ∀ b ∈ ((m.getJobsToRun 100).2.channels.chan []).queue.ready 100,
          a.sortingKeyIgnoringEta ≤ b.sortingKeyIgnoringEta :=
  handed_out_in_order (configured_of_isSome (by decide)) _ 100

/-! ## The eta -/

/-- Only the eta of jobs has been reset whose eta had passed at this time. -/
def ResetBy (limit : ℚ) (s : Channels) : Prop := ∀ job ∈ s.etaReset, job.etaTime ≤ limit

theorem ResetBy.yields {ys : List ChannelJob} (h : ResetBy limit s)
    (hy : Channels.Yields now p s ys s') (hle : now ≤ limit) : ResetBy limit s' := by
  intro job hjob
  rcases hy.ofEtaReset job hjob with hjob | ⟨-, hnow⟩
  · exact h job hjob
  · exact hnow.trans hle

theorem ResetBy.enqueueReady (children : Subchannels) (h : ResetBy limit s) (hs : Sound s place)
    (hle : now ≤ limit) : ResetBy limit (children.enqueueReady now p s) := by
  induction children generalizing p s place with
  | nil => exact h
  | cons name children siblings ih ih' =>
      obtain ⟨place₁, h₁, -⟩ := hs.enqueueReady now (p := name :: p) children
      have hy := Channels.getJobsToRun_yields now (h₁.split (name :: p))
      have hchild : ResetBy limit (((children.enqueueReady now (name :: p) s).getJobsToRun now
          (name :: p)).2) := (ih h hs).yields hy hle
      exact ih' (s := Subchannels.pollChild now name children p s) hchild (h₁.yields_enqueue hy)

/-- The times at which the manager is polled are not later. -/
def PolledBy (limit : ℚ) (call : Call) : Prop := ∀ now, call = .getJobsToRun now → now ≤ limit

theorem ResetBy.step {call : Call} (h : ResetBy limit m.channels) (hm : Managed m place)
    (hcall : PolledBy limit call) : ResetBy limit (m.step call).channels := by
  by_cases hpoll : ∃ now, call = .getJobsToRun now
  · obtain ⟨now, rfl⟩ := hpoll
    have hle := hcall now rfl
    obtain ⟨place₁, h₁, -⟩ := hm.sound.enqueueReady now (p := []) m.children
    exact (h.enqueueReady m.children hm.sound hle).yields
      (Channels.getJobsToRun_yields now (h₁.split [])) hle
  · intro job hjob
    rw [(quiet_step m fun now heq => hpoll ⟨now, heq⟩).etaReset] at hjob
    exact h job hjob

/-- As long as time does not go back, no job is handed out before its eta. -/
theorem not_handed_out_before_eta (h : Configured m) {calls : List Call} {now : ℚ}
    (hcalls : ∀ call ∈ calls, PolledBy now call) {job : ChannelJob}
    (hjob : job ∈ ((run ChannelManager.step m calls).getJobsToRun now).1) (hgiven : given job.eta) :
    job.etaTime ≤ now := by
  obtain ⟨⟨place, hm⟩, hreset⟩ :
      (∃ place, Managed (run ChannelManager.step m calls) place) ∧
        ResetBy now (run ChannelManager.step m calls).channels := by
    refine invariant (C := fun _ call => PolledBy now call)
      (I := fun m => (∃ place, Managed m place) ∧ ResetBy now m.channels) ?_
      ⟨⟨_, h.managed⟩, fun job hjob => ?_⟩ (Meets.of_forall hcalls m)
    · rintro m call ⟨⟨place, hm⟩, hreset⟩ hcall
      obtain ⟨place', hm', -⟩ := step_follows hm call
      exact ⟨⟨place', hm'⟩, hreset.step hm hcall⟩
    · simp [h.etaReset] at hjob
  obtain ⟨place₁, h₁, -⟩ :=
    hm.sound.enqueueReady now (p := []) (run ChannelManager.step m calls).children
  have hreset₁ :=
    hreset.enqueueReady (p := []) (run ChannelManager.step m calls).children hm.sound le_rfl
  have hy := Channels.getJobsToRun_yields now (h₁.split [])
  have hready := hy.chan.wasReady job hjob
  simp only [ChannelQueue.ready, Finset.mem_union, Finset.mem_filter] at hready
  rcases hready with hqueue | ⟨-, hle⟩
  · have heta := (h₁.split []).queue job hqueue
    by_cases hmem : job ∈ (Subchannels.enqueueReady now
      (run ChannelManager.step m calls).children []
      (run ChannelManager.step m calls).channels).etaReset
    · exact hreset₁ job hmem
    · simp [Channels.eta, hmem, hgiven] at heta
  · exact hle

theorem not_handed_out_before_eta_of_one_job :
    (newJob ⟨"db", none, "A1", 1, 0, 10, some 105, some .pending⟩ [] 0).etaTime ≤ 106 := by
  have hm : Configured ((simpleConfigure [{ name := rootName, capacity := some 2 }] {}).getD {}) :=
    configured_of_isSome (by decide)
  have hcalls : ∀ call ∈ [.notify ⟨"db", none, "A1", 1, 0, 10, some 105, some .pending⟩,
      .getJobsToRun 100], PolledBy 106 call := by
    rintro _ (_ | ⟨_, _ | ⟨_, ⟨⟩⟩⟩) now ⟨⟩
    decide
  exact not_handed_out_before_eta hm hcalls (by decide +kernel) (by decide)

/-! ## Reasons to wait -/

/-- After a poll, a job that is still in the queue of some channel is held back there by the
capacity, a failed job, a pause or its own eta, or because the channel is sequential and
waits for the eta of a job that comes before it. -/
theorem held_back_for_reason (h : Configured m) (calls : List Call) (now : ℚ) (p : Path)
    {job : ChannelJob} :
    let m' := ((run ChannelManager.step m calls).getJobsToRun now).2
    let c := m'.channels.chan p
    job ∈ c.queue.jobs →
      c.hasCapacity = false ∨ c.Paused now ∨
        (given (m'.channels.eta job) ∧ now < job.etaTime) ∨
        (c.queue.sequential ∧ ∃ first ∈ c.queue.etaQueue.objects, now < first.etaTime ∧
          first.sortingKeyIgnoringEta < job.sortingKeyIgnoringEta) := by
  intro m' c hjob
  obtain ⟨place, hm⟩ := managed_run h.managed calls
  obtain ⟨place', hm', -⟩ := step_follows hm (.getJobsToRun now)
  have hstopped : c.Stopped now := by
    by_cases hp : p = []
    · subst hp
      exact Channels.getJobsToRun_stopped now [] _
    · obtain ⟨hsuffix, hplace⟩ := ((hm'.sound.sits job).queued p).mp hjob
      have hmem := hm'.known job (by simp [hplace])
      have hreached := (hm'.reached job hmem).resolve_left fun hnil =>
        hp (List.suffix_nil.mp (hnil ▸ hsuffix))
      have hall := Subchannels.enqueueReady_stopped (p := []) now
        (run ChannelManager.step m calls).children (run ChannelManager.step m calls).channels
        hm.distinct
      have hchan : c = (Subchannels.enqueueReady now (run ChannelManager.step m calls).children []
          (run ChannelManager.step m calls).channels).chan p :=
        Channels.chan_getJobsToRun_of_ne _ hp
      rw [hchan]
      exact hall.of_has hreached hsuffix hp
  rcases hstopped with hfull | hpaused | ⟨hlater, hqueue⟩
  · exact .inl hfull
  · exact .inr (.inl hpaused)
  · rcases Finset.mem_union.mp hjob with heta | hready
    · exact .inr (.inr (.inl ⟨(hm'.sound.split p).etaQueue job heta, hlater job heta⟩))
    · have hne : c.queue.queue.objects ≠ ∅ := Finset.ne_empty_of_mem hready
      obtain ⟨hseq, -, first, hfirst, -, hlt⟩ :=
        ChannelQueue.mustWait_iff.mp (hqueue.resolve_left hne)
      exact .inr (.inr (.inr ⟨hseq, first, hfirst, hlater first hfirst, hlt job hready⟩))

theorem held_back_for_reason_of_full_channel :
    let m := run ChannelManager.step
      ((simpleConfigure [{ name := rootName, capacity := some 1 }] {}).getD {})
      [.notify ⟨"db", none, "A1", 1, 0, 10, none, some .pending⟩,
        .notify ⟨"db", none, "A2", 2, 0, 10, none, some .pending⟩]
    let c := (m.getJobsToRun 100).2.channels.chan []
    let job := newJob ⟨"db", none, "A2", 2, 0, 10, none, some .pending⟩ [] 1
    c.hasCapacity = false ∨ c.Paused 100 ∨
      (given ((m.getJobsToRun 100).2.channels.eta job) ∧ 100 < job.etaTime) ∨
      (c.queue.sequential ∧ ∃ first ∈ c.queue.etaQueue.objects, 100 < first.etaTime ∧
        first.sortingKeyIgnoringEta < job.sortingKeyIgnoringEta) :=
  held_back_for_reason (configured_of_isSome (by decide)) _ 100 [] (by decide +kernel)

end JobRunner

end Fastrak
