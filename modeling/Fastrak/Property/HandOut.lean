import Fastrak.JobRunner.ManagerEffect
import Fastrak.Library.Run

/-!
# No job is handed out twice

Once the runner has been given a job, the manager does not give it another job with the
same uuid before a notification says that this job is pending again.
-/

namespace Fastrak

namespace JobRunner

open Run Place ChannelManager

variable {m : ChannelManager} {place place' : ChannelJob → Place} {uuid : String} {call : Call}

/-- No job with this uuid has a channel to pass. -/
def Released (uuid : String) (place : ChannelJob → Place) : Prop :=
  ∀ job : ChannelJob, job.uuid = uuid → ∀ left, place job ≠ waiting (left + 1)

/-- The call says that the job with this uuid is pending. -/
def TellsPending (uuid : String) (call : Call) : Prop :=
  ∃ n, call = .notify n ∧ n.uuid = uuid ∧ n.state = some .pending

theorem told_ne_waiting {state : Option State} {job : ChannelJob} {pl : Place}
    (hstate : state ≠ some .pending) (h : ∀ left, pl ≠ waiting (left + 1)) (left : ℕ) :
    pl.told state job ≠ waiting (left + 1) := by
  have hstarted : pl.started job ≠ waiting (left + 1) := by
    unfold started
    split
    · rename_i left'
      split
      · exact h left
      · simp
    · simp
  match state with
  | none | some .done | some .cancelled | some .failed => simp [Place.told]
  | some .pending => exact absurd rfl hstate
  | some .enqueued | some .started => exact hstarted
  | some .waitDependencies => exact h left

/-- A released job stays so until it is told to be pending. -/
theorem Released.follows (h : Released uuid place) (hf : Follows m call place place')
    (hcall : ¬ TellsPending uuid call) : Released uuid place' := by
  have hcleared : ∀ kind, Released uuid (Managed.cleared kind place) := by
    intro kind job huuid left
    unfold Managed.cleared
    split
    · simp
    · exact h job huuid left
  intro job huuid left
  cases call with
  | notify n =>
      unfold Follows at hf
      dsimp only at hf
      split at hf
      · exact hf ▸ h job huuid left
      · obtain ⟨told, -, htold, -, -, rfl⟩ := hf
        by_cases hjob : job = told
        · subst hjob
          rw [Function.update_self]
          refine told_ne_waiting (fun hpending => hcall ⟨n, rfl, ?_, hpending⟩) (h job huuid) left
          exact htold.symm.trans huuid
        · rw [Function.update_of_ne hjob, alone]
          split
          · simp
          · exact h job huuid left
  | removeJob uuid' => exact hf ▸ hcleared _ job huuid left
  | removeDb dbName => exact hf ▸ hcleared _ job huuid left
  | getJobsToRun now =>
      rcases hf.1 job with heq | ⟨left', left'', hleft', hleft'', -, hlt⟩
      · exact heq ▸ h job huuid left
      · obtain ⟨k, rfl⟩ : ∃ k, left' = k + 1 := ⟨left' - 1, by omega⟩
        exact absurd hleft' (h job huuid k)
  | collect uuid' => exact hf ▸ h job huuid left

theorem exists_released (h : Managed m place) (hreleased : Released uuid place)
    {calls : List Call} (hcalls : ∀ call ∈ calls, ¬ TellsPending uuid call) :
    ∃ place', Managed (run ChannelManager.step m calls) place' ∧ Released uuid place' := by
  induction calls generalizing m place with
  | nil => exact ⟨place, h, hreleased⟩
  | cons call calls ih =>
      obtain ⟨place', h', hf⟩ := step_follows h call
      have hcall := hcalls call List.mem_cons_self
      exact ih h' (hreleased.follows hf hcall)
        fun call hc => hcalls call (List.mem_cons_of_mem _ hc)

/-- A job that is handed out has left all channels, and no other job has its uuid. -/
theorem released_of_handed (h : Managed m place) {job : ChannelJob} (hjob : job ∈ m.handed call) :
    ∃ place', Managed (m.step call) place' ∧ Released job.uuid place' := by
  obtain ⟨place', h', hf⟩ := step_follows h call
  refine ⟨place', h', fun other huuid left hplace => ?_⟩
  cases call with
  | getJobsToRun now =>
      have hzero := ((hf.2.2 job).mp hjob).2
      have hmem := h'.known job (by simp [hzero])
      have hother := h'.known other (by simp [hplace])
      have heq : other = job := List.inj_on_of_nodup_map h'.uuids hother hmem huuid
      simp [heq, hzero] at hplace
  | _ => cases hjob

/-- Between two hand-outs of a job there is a notification that it is pending. -/
theorem handed_out_once {m : ChannelManager} (h : Configured m) {before after : List Call}
    {now : ℚ} {call : Call} {job job' : ChannelJob}
    (hjob : job ∈ (run ChannelManager.step m before).handed (.getJobsToRun now))
    (hafter : ∀ call ∈ after, ¬ TellsPending job.uuid call)
    (hjob' : job' ∈
      (run ChannelManager.step m (before ++ .getJobsToRun now :: after)).handed call) :
    job'.uuid ≠ job.uuid := by
  obtain ⟨place, hm⟩ := managed_run h.managed before
  obtain ⟨place₁, hm₁, hreleased⟩ := released_of_handed hm hjob
  obtain ⟨place₂, hm₂, hreleased₂⟩ := exists_released hm₁ hreleased hafter
  rw [run_append, run_cons] at hjob'
  obtain ⟨place₃, -, hf⟩ := step_follows hm₂ call
  intro huuid
  cases call with
  | getJobsToRun now' =>
      obtain ⟨hne, hzero⟩ := (hf.2.2 job').mp hjob'
      rcases hf.1 job' with heq | ⟨left, left', hleft, -, -, hlt⟩
      · exact hne (heq.symm.trans hzero)
      · obtain ⟨k, rfl⟩ : ∃ k, left = k + 1 := ⟨left - 1, by omega⟩
        exact hreleased₂ job' huuid k hleft
  | _ => cases hjob'

theorem handed_out_once_of_two_jobs :
    (newJob ⟨"db", none, "B1", 2, 0, 10, none, some .pending⟩ [] 1).uuid ≠
      (newJob ⟨"db", none, "A1", 1, 0, 10, none, some .pending⟩ [] 0).uuid := by
  have hm : Configured ((simpleConfigure [{ name := rootName, capacity := some 2 }] {}).getD {}) :=
    configured_of_isSome (by decide)
  have hjob : newJob ⟨"db", none, "A1", 1, 0, 10, none, some .pending⟩ [] 0 ∈
      (run ChannelManager.step
        ((simpleConfigure [{ name := rootName, capacity := some 2 }] {}).getD {})
        [.notify ⟨"db", none, "A1", 1, 0, 10, none, some .pending⟩]).handed
          (.getJobsToRun 100) := by
    decide +kernel
  have hjob' : newJob ⟨"db", none, "B1", 2, 0, 10, none, some .pending⟩ [] 1 ∈
      (run ChannelManager.step
        ((simpleConfigure [{ name := rootName, capacity := some 2 }] {}).getD {})
        ([.notify ⟨"db", none, "A1", 1, 0, 10, none, some .pending⟩] ++ .getJobsToRun 100 ::
          [.notify ⟨"db", none, "B1", 2, 0, 10, none, some .pending⟩])).handed
            (.getJobsToRun 101) := by
    decide +kernel
  refine handed_out_once hm hjob ?_ hjob'
  simp [TellsPending, newJob]

end JobRunner

end Fastrak
