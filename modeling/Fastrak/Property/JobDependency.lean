import Fastrak.JobRunner.JobEffect
import Mathlib.Logic.Relation

/-!
# The dependencies of the jobs

A job is not run before its parents are done, and it does not wait for ever: as long as it
waits there is a job above it that is still to be run, is running, has failed or has been
cancelled.
-/

namespace Fastrak

namespace JobRunner

open Run JobTable JobSystem

variable {s : JobSystem} {p c : String} {event : JobEvent} {graphUuid : String}
  {vertices : List Vertex} {edges : List (String × String)} {rank : String → ℕ}

/-- The event creates a job with this uuid. -/
def JobEvent.Delays (uuid : String) (event : JobEvent) : Prop :=
  ∃ graphUuid vertices edges,
    event = .delay graphUuid vertices edges ∧ uuid ∈ vertices.map (·.uuid)

/-- The second job depends on the first one, as long as both exist. -/
def Depends (s : JobSystem) (p c : String) : Prop :=
  (s.table p).isSome → ∀ child ∈ s.table c, p ∈ child.dependsOn

theorem table_delay_of_not_delays (h : ¬ (JobEvent.delay graphUuid vertices edges).Delays p) :
    (s.step (.delay graphUuid vertices edges)).table p = s.table p :=
  delay_of_notMem fun vertex hvertex heq =>
    h ⟨graphUuid, vertices, edges, rfl, List.mem_map.mpr ⟨vertex, hvertex, heq⟩⟩

theorem Depends.step (h : Depends s p c) (hs : s.Coherent) (hp : ¬ event.Delays p)
    (hc : ¬ event.Delays c) : Depends (s.step event) p c := by
  by_cases hdelay : ∃ graphUuid vertices edges, event = .delay graphUuid vertices edges
  · obtain ⟨graphUuid, vertices, edges, rfl⟩ := hdelay
    intro hsome child hchild
    rw [table_delay_of_not_delays hp] at hsome
    rw [table_delay_of_not_delays hc] at hchild
    exact h hsome child hchild
  · push Not at hdelay
    intro hsome child hchild
    obtain ⟨new, hnew⟩ := Option.isSome_iff_exists.mp hsome
    obtain ⟨parent, hparent, -⟩ := hs.keeps_step hdelay p new hnew
    obtain ⟨old, hold, hkeeps⟩ := hs.keeps_step hdelay c child hchild
    have hsome : (s.table p).isSome := Option.isSome_iff_exists.mpr ⟨parent, hparent⟩
    exact hkeeps.parents p (h hsome old hold) hsome

theorem depends_delay (hfresh : Fresh s.table vertices edges) (hedge : (p, c) ∈ edges) :
    Depends (s.step (.delay graphUuid vertices edges)) p c := by
  intro hsome child hchild
  have hc := (hfresh.edges _ hedge).2
  rcases hfresh.row hchild with ⟨-, hnot⟩ | ⟨⟨vertex, -, rfl, rfl⟩, -⟩
  · exact absurd hc hnot
  · exact mem_dependsOn_generatedJob.mpr hedge

theorem coherent_run {events : List JobEvent} (h : Meets JobSystem.step Orderly {} events) :
    (run JobSystem.step {} events).Coherent :=
  invariant (I := Coherent) (fun _ _ hs he => hs.step he) coherent_empty h

/-- A job that has been delayed to come after another one keeps the link to it, and is not even
pending before that one is done. -/
theorem parents_done_first {before after : List JobEvent}
    (h : Meets JobSystem.step Orderly {} (before ++ .delay graphUuid vertices edges :: after))
    (hedge : (p, c) ∈ edges) (hafter : ∀ event ∈ after, ¬ event.Delays p ∧ ¬ event.Delays c)
    {parent child : Job}
    (hparent : (run JobSystem.step {}
      (before ++ .delay graphUuid vertices edges :: after)).table p = some parent)
    (hchild : (run JobSystem.step {}
      (before ++ .delay graphUuid vertices edges :: after)).table c = some child) :
    p ∈ child.dependsOn ∧ (child.state.underWay → parent.state = .done) := by
  have hlink : p ∈ child.dependsOn := by
    rw [run_append, run_cons] at hparent hchild
    obtain ⟨hbefore, hdelay, hmeets⟩ := (meets_append_iff _ _ _).mp h
    have hs := coherent_run hbefore
    have hdepends := invariant (I := fun s => s.Coherent ∧ Depends s p c)
      (C := fun s event => s.Orderly event ∧ ¬ event.Delays p ∧ ¬ event.Delays c)
      (fun s event hs he => ⟨hs.1.step he.1, hs.2.step hs.1 he.2.1 he.2.2⟩)
      ⟨hs.step hdelay, depends_delay hdelay.1 hedge⟩
      (hmeets.and (Meets.of_forall hafter _))
    exact hdepends.2 (by rw [hparent]; rfl) child hchild
  refine ⟨hlink, fun hstate => ?_⟩
  have hclear := (coherent_run h).clear c child hchild hstate
  exact allDone_iff.mp hclear p hlink parent hparent

theorem parents_done_first_of_two_jobs :
    ∃ parent child, (run JobSystem.step {} ([] ++ .delay "G" [{ uuid := "A" }, { uuid := "B" }]
        [("A", "B")] :: [.setJobEnqueued "A", .runjob "A", .perform 0 .success,
          .enqueueWaiting 0])).table "A" = some parent ∧
      (run JobSystem.step {} ([] ++ .delay "G" [{ uuid := "A" }, { uuid := "B" }]
        [("A", "B")] :: [.setJobEnqueued "A", .runjob "A", .perform 0 .success,
          .enqueueWaiting 0])).table "B" = some child ∧
      "A" ∈ child.dependsOn ∧ child.state.underWay ∧ parent.state = .done := by
  have hmeets : Meets JobSystem.step Orderly {} ([] ++ .delay "G" [{ uuid := "A" },
      { uuid := "B" }] [("A", "B")] :: [.setJobEnqueued "A", .runjob "A", .perform 0 .success,
        .enqueueWaiting 0]) := by
    refine ⟨⟨⟨by decide, fun _ _ => ⟨rfl, fun _ _ h => nomatch h⟩, by decide⟩, fun _ _ => nofun⟩,
      fun job hjob => ?_, True.intro, True.intro, True.intro, True.intro⟩
    obtain rfl := Option.some.inj hjob
    rfl
  have hparent : (run JobSystem.step {} ([] ++ .delay "G" [{ uuid := "A" }, { uuid := "B" }]
      [("A", "B")] :: [.setJobEnqueued "A", .runjob "A", .perform 0 .success,
        .enqueueWaiting 0])).table "A" =
      some { state := .done, graphUuid := "G", reverseDependsOn := ["B"], retry := 1 } := by
    decide +kernel
  have hchild : (run JobSystem.step {} ([] ++ .delay "G" [{ uuid := "A" }, { uuid := "B" }]
      [("A", "B")] :: [.setJobEnqueued "A", .runjob "A", .perform 0 .success,
        .enqueueWaiting 0])).table "B" =
      some { state := .pending, graphUuid := "G", dependsOn := ["A"] } := by
    decide +kernel
  obtain ⟨hlink, hdone⟩ := parents_done_first hmeets List.mem_cons_self
    (by simp [JobEvent.Delays]) hparent hchild
  exact ⟨_, _, hparent, hchild, hlink, rfl, hdone rfl⟩

/-! ## Waiting jobs -/

/-- The second job depends on the first one. -/
def Parent (t : JobTable) (p c : String) : Prop := ∃ child ∈ t c, p ∈ child.dependsOn

/-- The edges of the graphs go upwards. -/
def JobEvent.Ranked (rank : String → ℕ) : JobEvent → Prop
  | .delay _ _ edges => ∀ edge ∈ edges, rank edge.1 < rank edge.2
  | _ => True

theorem ranked_step (hs : s.Coherent) (h : ∀ p c, Parent s.table p c → rank p < rank c)
    (horderly : s.Orderly event) (hevent : event.Ranked rank) :
    ∀ p c, Parent (s.step event).table p c → rank p < rank c := by
  rintro p c ⟨child, hchild, hp⟩
  by_cases hdelay : ∃ graphUuid vertices edges, event = .delay graphUuid vertices edges
  · obtain ⟨graphUuid, vertices, edges, rfl⟩ := hdelay
    rcases horderly.1.row hchild with ⟨hold, -⟩ | ⟨⟨vertex, -, rfl, rfl⟩, -⟩
    · exact h p c ⟨child, hold, hp⟩
    · exact hevent _ (mem_dependsOn_generatedJob.mp hp)
  · push Not at hdelay
    obtain ⟨old, hold, hkeeps⟩ := hs.keeps_step hdelay c child hchild
    exact h p c ⟨old, hold, hkeeps.dependsOn p hp⟩

/-- A job above this one that is neither done nor waits itself. -/
def Blocked (t : JobTable) (uuid : String) : Prop :=
  ∃ blocker, Relation.TransGen (Parent t) blocker uuid ∧
    ∃ job ∈ t blocker, job.state ≠ .done ∧ job.state ≠ .waitDependencies

theorem blocked_of_awake {t : JobTable} (hrank : ∀ p c, Parent t p c → rank p < rank c)
    (hawake : Awake t fun _ => False) {uuid : String} {job : Job} (hjob : job ∈ t uuid)
    (hstate : job.state = .waitDependencies) : Blocked t uuid := by
  induction hn : rank uuid using Nat.strong_induction_on generalizing uuid job with
  | _ n ih =>
    subst hn
    obtain ⟨p, hp, parent, hparent, hor⟩ := hawake uuid job hjob hstate
    have hne : parent.state ≠ .done := hor.resolve_right id
    have hstep : Parent t p uuid := ⟨job, hjob, hp⟩
    by_cases hwaits : parent.state = .waitDependencies
    · obtain ⟨blocker, hpath, hblocker⟩ := ih _ (hrank p uuid hstep) hparent hwaits rfl
      exact ⟨blocker, hpath.tail hstep, hblocker⟩
    · exact ⟨p, .single hstep, parent, hparent, hne, hwaits⟩

/-- No job waits for ever: while no worker is about to release others, above each waiting job
there is one that has still to be run, is running, has failed or has been cancelled. -/
theorem waiting_job_is_blocked {events : List JobEvent}
    (hrank : ∀ event ∈ events, event.Ranked rank)
    (h : Meets JobSystem.step (fun s event => s.Orderly event ∧ s.Releases event) {} events)
    (hfinished : ∀ uuid, ¬ (run JobSystem.step {} events).Finishes uuid) {uuid : String} {job : Job}
    (hjob : (run JobSystem.step {} events).table uuid = some job)
    (hstate : job.state = .waitDependencies) :
    Blocked (run JobSystem.step {} events).table uuid := by
  have hmeets := h.and (Meets.of_forall (D := fun event => event.Ranked rank) hrank _)
  have hempty : Coherent {} ∧ Awake ({} : JobSystem).table ({} : JobSystem).Finishes ∧
      ∀ p c, Parent ({} : JobSystem).table p c → rank p < rank c :=
    ⟨coherent_empty, fun _ _ h => (nomatch h), fun _ _ ⟨_, h, _⟩ => (nomatch h)⟩
  obtain ⟨-, hawake, hranked⟩ := invariant
    (I := fun s => s.Coherent ∧ Awake s.table s.Finishes ∧
      ∀ p c, Parent s.table p c → rank p < rank c)
    (fun s event hs he => ⟨hs.1.step he.1.1, hs.1.awake_step hs.2.1 he.1.1 he.1.2,
      ranked_step hs.1 hs.2.2 he.1.1 he.2⟩) hempty hmeets
  refine blocked_of_awake hranked (fun uuid job hjob hstate => ?_) hjob hstate
  obtain ⟨p, hp, parent, hparent, hor⟩ := hawake uuid job hjob hstate
  exact ⟨p, hp, parent, hparent, hor.imp_right (hfinished p)⟩

theorem waiting_job_is_blocked_of_two_jobs :
    Blocked (run JobSystem.step {} [.delay "G" [{ uuid := "A" }, { uuid := "B" }] [("A", "B")],
      .setJobEnqueued "A", .runjob "A", .perform 0 .failure]).table "B" := by
  have hrank : ∀ event ∈ ([.delay "G" [{ uuid := "A" }, { uuid := "B" }] [("A", "B")],
      .setJobEnqueued "A", .runjob "A", .perform 0 .failure] : List JobEvent),
        event.Ranked fun uuid => if uuid = "A" then 0 else 1 := by
    simp [JobEvent.Ranked]
  have hjob : (run JobSystem.step {} [.delay "G" [{ uuid := "A" }, { uuid := "B" }] [("A", "B")],
      .setJobEnqueued "A", .runjob "A", .perform 0 .failure]).table "B" =
      some { state := .waitDependencies, graphUuid := "G", dependsOn := ["A"] } := by
    decide +kernel
  refine waiting_job_is_blocked hrank ?_ ?_ hjob rfl
  · refine ⟨⟨⟨⟨by decide, fun _ _ => ⟨rfl, fun _ _ h => nomatch h⟩, by decide⟩,
      fun _ _ => nofun⟩, True.intro⟩,
      ⟨fun job hjob => ?_, True.intro⟩, ⟨True.intro, True.intro⟩, ⟨True.intro, True.intro⟩,
      True.intro⟩
    obtain rfl := Option.some.inj hjob
    rfl
  · intro uuid
    have hworkers : (run JobSystem.step {} [.delay "G" [{ uuid := "A" }, { uuid := "B" }]
        [("A", "B")], .setJobEnqueued "A", .runjob "A", .perform 0 .failure]).workers = [] := by
      decide +kernel
    rw [Finishes, hworkers]
    exact List.not_mem_nil

end JobRunner

end Fastrak
