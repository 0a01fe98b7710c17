import Fastrak.Property.JobDependency

/-!
# The workers and the retries of a job

A job is performed by one worker at a time, and the row of the job stays as this worker has
stored it. How often the job is started is limited by its number of retries.
-/

namespace Fastrak

namespace JobRunner

open Run JobTable JobSystem

variable {s : JobSystem} {t : JobTable} {job job' : Job} {row row' : Option Job}
  {uuid other : String} {event : JobEvent}

/-- No two workers perform the same job, and what a worker stores at the end replaces the row
that it has stored at the start, so that no update is lost. -/
theorem performed_alone {events : List JobEvent} (h : Meets JobSystem.step Orderly {} events) :
    ((run JobSystem.step {} events).workers.filterMap Worker.performs).Nodup ∧
      ∀ uuid job parentsDone,
        .performing uuid job parentsDone ∈ (run JobSystem.step {} events).workers →
          (run JobSystem.step {} events).table uuid = some job :=
  ⟨(coherent_run h).exclusive, fun uuid job parentsDone hworker =>
    ((coherent_run h).worked uuid job parentsDone hworker).1⟩

theorem performed_alone_of_one_job :
    ((run JobSystem.step {} [.delay "G" [{ uuid := "A" }] [], .setJobEnqueued "A",
        .runjob "A"]).workers.filterMap Worker.performs).Nodup ∧
      ∀ uuid job parentsDone, .performing uuid job parentsDone ∈ (run JobSystem.step {}
        [.delay "G" [{ uuid := "A" }] [], .setJobEnqueued "A", .runjob "A"]).workers →
          (run JobSystem.step {} [.delay "G" [{ uuid := "A" }] [], .setJobEnqueued "A",
            .runjob "A"]).table uuid = some job := by
  refine performed_alone ⟨⟨⟨by decide, fun _ _ => ⟨rfl, fun _ _ h => nomatch h⟩, by decide⟩,
    fun _ _ => nofun⟩, fun job hjob => ?_, True.intro, True.intro⟩
  obtain rfl := Option.some.inj hjob
  rfl

/-- The event starts the job. -/
def Starts (uuid : String) (s : JobSystem) (event : JobEvent) : Prop :=
  event = .runjob uuid ∧ (s.table uuid).any (·.state = .enqueued)

instance (uuid : String) (s : JobSystem) (event : JobEvent) : Decidable (Starts uuid s event) :=
  inferInstanceAs (Decidable (_ ∧ _))

/-- Every try of the job counts. -/
def Counts (uuid : String) (s : JobSystem) : JobEvent → Prop
  | .requeue other => other ≠ uuid
  | .perform worker outcome =>
      (∃ job parentsDone, s.workers[worker]? = some (.performing uuid job parentsDone)) →
        outcome ≠ .retryableJobError true ∧ outcome ≠ .concurrencyError
  | event => ¬ event.Delays uuid

/-- The tries that are left, after the one that is going on. -/
def triesLeft : Option Job → ℕ
  | none => 0
  | some job =>
      match job.state with
      | .waitDependencies | .pending | .enqueued => (job.maxRetries - job.retry).toNat
      | .started => (job.maxRetries - job.retry - 1).toNat
      | .done | .cancelled | .failed => 0

/-- A job that is not over has a limit, which has not been reached. -/
def Limited (row : Option Job) : Prop :=
  ∀ job ∈ row, job.state = .waitDependencies ∨ job.state.underWay →
    0 < job.maxRetries ∧ job.retry < job.maxRetries

/-- The step from one row to the other uses up this many tries. -/
def Spends (row row' : Option Job) (n : ℕ) : Prop :=
  Limited row → Limited row' ∧ triesLeft row' + n ≤ triesLeft row

theorem Spends.refl (row : Option Job) : Spends row row 0 := fun h => ⟨h, Nat.le_refl _⟩

theorem Spends.trans {row'' : Option Job} (h : Spends row row' 0) (h' : Spends row' row'' 0) :
    Spends row row'' 0 := fun hlimited =>
  ⟨(h' (h hlimited).1).1, ((h' (h hlimited).1).2.trans (h hlimited).2)⟩

theorem spends_none (row : Option Job) : Spends row none 0 :=
  fun _ => ⟨nofun, Nat.zero_le _⟩

/-- A job that is over. -/
theorem spends_of_over (row : Option Job)
    (h : job'.state = .done ∨ job'.state = .cancelled ∨ job'.state = .failed) :
    Spends row (some job') 0 := by
  intro _
  constructor
  · intro job hjob hstate
    obtain rfl := Option.some.inj hjob
    rcases h with h | h | h <;> simp [h, State.underWay] at hstate
  · rcases h with h | h | h <;> simp [triesLeft, h]

/-- A job that is still to be run. -/
theorem spends_of_unstarted
    (hstate : job.state = .waitDependencies ∨ job.state = .pending ∨ job.state = .enqueued)
    (hstate' : job'.state = .waitDependencies ∨ job'.state = .pending ∨ job'.state = .enqueued)
    (hretry : job'.retry = job.retry) (hmax : job'.maxRetries = job.maxRetries) :
    Spends (some job) (some job') 0 := by
  intro h
  constructor
  · intro other hother _
    obtain rfl := Option.some.inj hother
    rw [hmax, hretry]
    refine h job rfl ?_
    rcases hstate with h | h | h <;> simp [h, State.underWay]
  · rcases hstate with h | h | h <;> rcases hstate' with h' | h' | h' <;>
      simp [triesLeft, h, h', hretry, hmax]

theorem spends_setStarted (hstate : job.state = .enqueued) (hstate' : job'.state = .started)
    (hretry : job'.retry = job.retry) (hmax : job'.maxRetries = job.maxRetries) :
    Spends (some job) (some job') 1 := by
  intro h
  have hlimit := h job rfl (by simp [hstate, State.underWay])
  constructor
  · intro other hother _
    obtain rfl := Option.some.inj hother
    rw [hmax, hretry]
    exact hlimit
  · simp only [triesLeft, hstate, hstate', hretry, hmax]
    omega

theorem spends_postponed (hstate : job.state = .started) (hstate' : job'.state = .pending)
    (hretry : job'.retry = job.retry + 1) (hlt : job.retry + 1 < job.maxRetries)
    (hmax : job'.maxRetries = job.maxRetries) : Spends (some job) (some job') 0 := by
  intro h
  have hlimit := h job rfl (by simp [hstate, State.underWay])
  constructor
  · intro other hother _
    obtain rfl := Option.some.inj hother
    rw [hmax, hretry]
    exact ⟨hlimit.1, hlt⟩
  · simp only [triesLeft, hstate, hstate', hretry, hmax]
    omega

/-- A write on one row. -/
theorem spends_store (hjob : job ∈ t other) (h : Spends (some job) (some job') 0) (uuid : String) :
    Spends (t uuid) (t.store other job' uuid) 0 := by
  by_cases heq : uuid = other
  · subst heq
    rw [store_self, Option.mem_def.mp hjob]
    exact h
  · rw [store_of_ne heq]
    exact Spends.refl _

theorem spends_enqueueWaiting (t : JobTable) (other uuid : String) :
    Spends (t uuid) (t.enqueueWaiting other uuid) 0 := by
  cases hnew : t.enqueueWaiting other uuid with
  | none => exact spends_none _
  | some new =>
      obtain ⟨old, hold, ⟨rfl, -⟩ | ⟨⟨parent, -, hreleased⟩, rfl⟩⟩ := enqueueWaiting_cases hnew
      · exact hold ▸ Spends.refl _
      · rw [hold]
        exact spends_of_unstarted (.inl hreleased.2.2.2.2.2) (.inr (.inl rfl)) rfl rfl

theorem spends_perform (h : s.Coherent) {worker : ℕ} {outcome : Outcome}
    (hcounts : Counts uuid s (.perform worker outcome)) :
    Spends (s.table uuid) ((s.perform worker outcome).table uuid) 0 := by
  unfold JobSystem.perform
  split
  · rename_i other job parentsDone hworker
    obtain ⟨hrow, hstarted, rfl⟩ := h.worked other job parentsDone (List.mem_of_getElem? hworker)
    by_cases heq : uuid = other
    · subst heq
      obtain ⟨hretryable, hconcurrency⟩ := hcounts ⟨job, true, hworker⟩
      have hstored : ∀ job', Spends (some job) (some job') 0 →
          Spends (s.table uuid) (s.table.store uuid job' uuid) 0 :=
        fun job' hspends => spends_store hrow hspends uuid
      cases outcome with
      | success => exact hstored _ (spends_of_over _ (.inl rfl))
      | nothingToDoJob => exact hstored _ (spends_of_over _ (.inl rfl))
      | retryableJobError ignoreRetry =>
          cases ignoreRetry with
          | true => exact absurd rfl hretryable
          | false =>
              intro hlimited
              obtain ⟨hpos, -⟩ := hlimited job hrow (by simp [hstarted, State.underWay])
              have hne : job.maxRetries ≠ 0 := by omega
              by_cases hlast : job.maxRetries ≤ job.retry + 1
              · simp only [Job.perform, hne, hlast, if_true, if_false]
                exact hstored _ (spends_of_over _ (.inr (.inr rfl))) hlimited
              · simp only [Job.perform, hne, hlast, if_false]
                exact hstored _ (spends_postponed hstarted rfl rfl (by omega) rfl) hlimited
      | concurrencyError => exact absurd rfl hconcurrency
      | failure => exact hstored _ (spends_of_over _ (.inr (.inr rfl)))
    · have hne : ∀ job', s.table.store other job' uuid = s.table uuid := fun _ => store_of_ne heq
      split <;> simp only [hne] <;> exact Spends.refl _
  · exact Spends.refl _

theorem not_starts_of_ne (h : event ≠ .runjob uuid) : ¬ Starts uuid s event :=
  fun hstarts => h hstarts.1

theorem spends_step (h : s.Coherent) (horderly : s.Orderly event) (hcounts : Counts uuid s event) :
    Spends (s.table uuid) ((s.step event).table uuid) (if Starts uuid s event then 1 else 0) := by
  cases event with
  | runjob other =>
      simp only [JobSystem.step, JobSystem.runjob]
      split
      · rename_i hload
        have hnone : s.table other = none := Option.map_eq_none_iff.mp hload
        have hnot : ¬ Starts uuid s (.runjob other) := by
          rintro ⟨heq, henqueued⟩
          obtain rfl : other = uuid := by simpa using heq
          simp [hnone] at henqueued
        rw [if_neg hnot]
        exact Spends.refl _
      · rename_i job hload
        obtain ⟨row, hrow, rfl⟩ := Option.map_eq_some_iff.mp hload
        by_cases heq : uuid = other
        · subst heq
          by_cases henqueued : row.state = .enqueued
          · have hstarts : Starts uuid s (.runjob uuid) := ⟨rfl, by simp [hrow, henqueued]⟩
            rw [if_pos hstarts, state_loaded, if_pos henqueued]
            dsimp only
            rw [store_self, hrow]
            exact spends_setStarted henqueued rfl rfl rfl
          · have hnot : ¬ Starts uuid s (.runjob uuid) := by
              rintro ⟨-, hstate⟩
              simp [hrow, henqueued] at hstate
            rw [if_neg hnot, state_loaded, if_neg henqueued]
            exact Spends.refl _
        · have hnot : ¬ Starts uuid s (.runjob other) := by
            rintro ⟨hevent, -⟩
            exact heq (by simpa using hevent.symm)
          rw [if_neg hnot]
          split
          · dsimp only
            rw [store_of_ne heq]
            exact Spends.refl _
          · exact Spends.refl _
  | delay graphUuid vertices edges =>
      have hsame : (s.step (.delay graphUuid vertices edges)).table uuid = s.table uuid :=
        table_delay_of_not_delays hcounts
      rw [hsame, if_neg (not_starts_of_ne (by simp))]
      exact Spends.refl _
  | setJobEnqueued other =>
      rw [if_neg (not_starts_of_ne (by simp))]
      simp only [JobSystem.step, JobSystem.setJobEnqueued]
      split
      · exact Spends.refl _
      · rename_i job hjob
        have hpending := horderly job hjob
        refine spends_store hjob ?_ uuid
        exact spends_of_unstarted (.inr (.inl hpending)) (.inr (.inr rfl)) rfl rfl
  | setJobPending other =>
      rw [if_neg (not_starts_of_ne (by simp))]
      simp only [JobSystem.step, JobSystem.setJobPending]
      split
      · exact Spends.refl _
      · rename_i job hjob
        split
        · rename_i henqueued
          refine spends_store hjob ?_ uuid
          exact spends_of_unstarted (.inr (.inr henqueued)) (.inr (.inl rfl)) rfl rfl
        · exact Spends.refl _
  | perform worker outcome =>
      rw [if_neg (not_starts_of_ne (by simp))]
      exact spends_perform h hcounts
  | enqueueWaiting worker =>
      rw [if_neg (not_starts_of_ne (by simp))]
      simp only [JobSystem.step, JobSystem.enqueueWaiting]
      split
      · exact spends_enqueueWaiting s.table _ uuid
      · exact Spends.refl _
  | abandon worker =>
      rw [if_neg (not_starts_of_ne (by simp))]
      exact Spends.refl _
  | buttonDone other =>
      rw [if_neg (not_starts_of_ne (by simp))]
      simp only [JobSystem.step, JobSystem.buttonDone]
      split
      · exact Spends.refl _
      · rename_i job hload
        obtain ⟨row, hrow, rfl⟩ := Option.map_eq_some_iff.mp hload
        exact (spends_store hrow (spends_of_over _ (.inl rfl)) uuid).trans
          (spends_enqueueWaiting _ other uuid)
  | buttonCancelled other =>
      rw [if_neg (not_starts_of_ne (by simp))]
      simp only [JobSystem.step, JobSystem.buttonCancelled]
      split
      · exact Spends.refl _
      · rename_i job hload
        obtain ⟨row, hrow, rfl⟩ := Option.map_eq_some_iff.mp hload
        exact spends_store hrow (spends_of_over _ (.inr (.inl rfl))) uuid
  | requeue other =>
      rw [if_neg (not_starts_of_ne (by simp))]
      simp only [JobSystem.step, JobSystem.requeue]
      split
      · exact Spends.refl _
      · split
        · exact Spends.refl _
        · have hne : uuid ≠ other := Ne.symm hcounts
          dsimp only
          rw [store_of_ne hne]
          exact Spends.refl _
  | unlink other =>
      rw [if_neg (not_starts_of_ne (by simp))]
      by_cases heq : uuid = other
      · subst heq
        simpa [JobSystem.step, JobSystem.unlink] using spends_none _
      · simpa [JobSystem.step, JobSystem.unlink, heq] using Spends.refl _

/-- A job is started at most as often as it has tries left, until a user requeues it. -/
theorem started_at_most {before after : List JobEvent}
    (h : Meets JobSystem.step Orderly {} (before ++ after))
    (hcounts : Meets JobSystem.step (Counts uuid) (run JobSystem.step {} before) after)
    (hjob : (run JobSystem.step {} before).table uuid = some job)
    (hstate : job.state = .waitDependencies ∨ job.state = .pending ∨ job.state = .enqueued)
    (hpos : 0 < job.maxRetries) (hlt : job.retry < job.maxRetries) :
    (count JobSystem.step (Starts uuid) (run JobSystem.step {} before) after : ℤ) ≤
      job.maxRetries - job.retry := by
  obtain ⟨hbefore, hafter⟩ := (meets_append_iff _ _ _).mp h
  have hlimited : Limited ((run JobSystem.step {} before).table uuid) := by
    intro other hother _
    obtain rfl := Option.mem_unique hother hjob
    exact ⟨hpos, hlt⟩
  have hcount : count JobSystem.step (Starts uuid) (run JobSystem.step {} before) after ≤
      triesLeft ((run JobSystem.step {} before).table uuid) := count_le
    (I := fun s => s.Coherent ∧ Limited (s.table uuid))
    (D := fun s event => s.Orderly event ∧ Counts uuid s event)
    (f := fun s => triesLeft (s.table uuid))
    (fun s event hs he => ⟨hs.1.step he.1, (spends_step hs.1 he.1 he.2 hs.2).1⟩)
    (fun s event hs he => (spends_step hs.1 he.1 he.2 hs.2).2)
    ⟨coherent_run hbefore, hlimited⟩ (hafter.and hcounts)
  have hleft : triesLeft ((run JobSystem.step {} before).table uuid) =
      (job.maxRetries - job.retry).toNat := by
    rw [hjob]
    rcases hstate with h | h | h <;> simp [triesLeft, h]
  omega

theorem started_at_most_of_two_tries :
    (count JobSystem.step (Starts "A") (run JobSystem.step {}
      [.delay "G" [{ uuid := "A", maxRetries := 2 }] []])
        [.setJobEnqueued "A", .runjob "A", .perform 0 (.retryableJobError false),
          .setJobEnqueued "A", .runjob "A", .perform 0 (.retryableJobError false)] : ℤ) ≤
      2 - 0 := by
  have hjob : (run JobSystem.step {} [.delay "G" [{ uuid := "A", maxRetries := 2 }] []]).table
      "A" = some { maxRetries := 2 } := by
    decide +kernel
  refine started_at_most ?_ ?_ hjob (.inr (.inl rfl)) (by decide) (by decide)
  · refine ⟨⟨⟨by decide, fun _ _ => ⟨rfl, fun _ _ h => nomatch h⟩, by decide⟩, fun _ _ => nofun⟩,
      fun job hjob => ?_, True.intro, True.intro, fun job hjob => ?_, True.intro, True.intro,
      True.intro⟩ <;>
      obtain rfl := Option.some.inj hjob <;> rfl
  · simp [Meets, Counts, JobEvent.Delays]

end JobRunner

end Fastrak
