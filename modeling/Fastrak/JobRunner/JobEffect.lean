import Fastrak.JobRunner.JobSystem

/-!
# What the transactions keep

Every transaction stores a job, releases the children of one, deletes one or delays a
graph. For each of these four there is a lemma that says when it keeps an invariant, and
every step is made of them.
-/

namespace Fastrak

namespace JobRunner

open JobTable

variable {t : JobTable} {job job' : Job} {uuid other : String} {F F' : String → Prop}
  {graphUuid : String} {vertices : List Vertex} {edges : List (String × String)}

/-- The job is to be run, or is running. -/
def State.underWay : State → Bool
  | .pending | .enqueued | .started => true
  | _ => false

/-- The row keeps the links of the old one to the jobs that exist. -/
structure Keeps (t : JobTable) (job job' : Job) : Prop where
  graphUuid : job'.graphUuid = job.graphUuid
  dependsOn : ∀ p ∈ job'.dependsOn, p ∈ job.dependsOn
  parents : ∀ p ∈ job.dependsOn, (t p).isSome → p ∈ job'.dependsOn
  children : ∀ p ∈ job.reverseDependsOn, (t p).isSome → p ∈ job'.reverseDependsOn

/-- A job that is stored with another state. -/
theorem Keeps.state (t : JobTable) (job : Job) (state : State) (retry : ℤ) :
    Keeps t job { job with state := state, retry := retry } where
  graphUuid := rfl
  dependsOn _ hp := hp
  parents _ hp _ := hp
  children _ hp _ := hp

theorem Keeps.trans {job'' : Job} (h : Keeps t job job') (h' : Keeps t job' job'') :
    Keeps t job job'' where
  graphUuid := h'.graphUuid.trans h.graphUuid
  dependsOn p hp := h.dependsOn p (h'.dependsOn p hp)
  parents p hp hsome := h'.parents p (h.parents p hp hsome) hsome
  children p hp hsome := h'.children p (h.children p hp hsome) hsome

/-- A job that is loaded and stored with another state. -/
theorem Keeps.loaded (t : JobTable) (job : Job) (state : State) (retry : ℤ) :
    Keeps t job { t.loaded job with state := state, retry := retry } where
  graphUuid := rfl
  dependsOn _ hp := (List.mem_filter.mp hp).1
  parents _ hp hsome := List.mem_filter.mpr ⟨hp, hsome⟩
  children _ hp hsome := List.mem_filter.mpr ⟨hp, hsome⟩

/-- A row that is left after another one has been deleted. -/
theorem mem_of_unlink (h : job ∈ Function.update t uuid none other) : job ∈ t other := by
  by_cases heq : other = uuid
  · subst heq
    simp at h
  · rwa [Function.update_of_ne heq] at h

/-! ## The parents of a job that is under way are done -/

/-- The parents of a job that is under way are done. -/
def Clear (t : JobTable) : Prop :=
  ∀ uuid, ∀ job ∈ t uuid, job.state.underWay → t.allDone job.dependsOn

theorem allDone_store {uuids : List String} (hjob : job ∈ t uuid)
    (hdone : job.state = .done → job'.state = .done) (h : t.allDone uuids) :
    (t.store uuid job').allDone uuids := by
  refine allDone_iff.mpr fun p hp parent hparent => ?_
  rcases store_cases hparent with ⟨rfl, rfl⟩ | ⟨-, hold⟩
  · exact hdone (allDone_iff.mp h p hp job hjob)
  · exact allDone_iff.mp h p hp parent hold

theorem Clear.store (h : Clear t) (hjob : job ∈ t uuid) (hkeeps : Keeps t job job')
    (hdone : job.state = .done → job'.state = .done)
    (hready : job'.state.underWay → job.state.underWay ∨ t.allDone job'.dependsOn) :
    Clear (t.store uuid job') := by
  intro other child hchild hstate
  refine allDone_store hjob hdone ?_
  rcases store_cases hchild with ⟨rfl, rfl⟩ | ⟨-, hold⟩
  · rcases hready hstate with hold | hall
    · have hall := allDone_iff.mp (h other job hjob hold)
      exact allDone_iff.mpr fun p hp => hall p (hkeeps.dependsOn p hp)
    · exact hall
  · exact h other child hold hstate

theorem Clear.unlink (h : Clear t) (uuid : String) : Clear (Function.update t uuid none) := by
  intro other child hchild hstate
  have hall := allDone_iff.mp (h other child (mem_of_unlink hchild) hstate)
  exact allDone_iff.mpr fun p hp parent hparent => hall p hp parent (mem_of_unlink hparent)

/-! ## The links between the jobs -/

/-- The parents of a job know it, and are in the graph of the job. -/
def Linked (t : JobTable) : Prop :=
  ∀ uuid, ∀ job ∈ t uuid, ∀ p ∈ job.dependsOn, ∀ parent ∈ t p,
    uuid ∈ parent.reverseDependsOn ∧ parent.graphUuid = job.graphUuid ∧ job.graphUuid.isSome

/-- Where every row keeps the links of an old one, the links are kept. -/
theorem Linked.of_keeps {t' : JobTable} (h : Linked t)
    (hkeeps : ∀ uuid, ∀ job' ∈ t' uuid, ∃ job ∈ t uuid, Keeps t job job') : Linked t' := by
  intro uuid job' hjob' p hp parent' hparent'
  obtain ⟨job, hjob, hkeepsjob⟩ := hkeeps uuid job' hjob'
  obtain ⟨parent, hparent, hkeepsparent⟩ := hkeeps p parent' hparent'
  obtain ⟨hknown, hgraph, hsome⟩ := h uuid job hjob p (hkeepsjob.dependsOn p hp) parent hparent
  refine ⟨hkeepsparent.children uuid hknown ?_, ?_, ?_⟩
  · rw [Option.mem_def.mp hjob]
    rfl
  · rw [hkeepsparent.graphUuid, hgraph, hkeepsjob.graphUuid]
  · rw [hkeepsjob.graphUuid]
    exact hsome

theorem keeps_store (hjob : job ∈ t uuid) (hkeeps : Keeps t job job') :
    ∀ other, ∀ new ∈ t.store uuid job' other, ∃ old ∈ t other, Keeps t old new := by
  intro other new hnew
  rcases store_cases hnew with ⟨rfl, rfl⟩ | ⟨-, hold⟩
  · exact ⟨job, hjob, hkeeps⟩
  · exact ⟨new, hold, Keeps.state t new new.state new.retry⟩

theorem keeps_unlink (uuid : String) : ∀ other, ∀ new ∈ Function.update t uuid none other,
    ∃ old ∈ t other, Keeps t old new := by
  intro other new hnew
  exact ⟨new, mem_of_unlink hnew, Keeps.state t new new.state new.retry⟩

theorem keeps_enqueueWaiting (t t' : JobTable) (uuid : String) : ∀ other,
    ∀ new ∈ t.enqueueWaiting uuid other, ∃ old ∈ t other, Keeps t' old new := by
  intro other new hnew
  obtain ⟨old, hold, ⟨rfl, -⟩ | ⟨-, rfl⟩⟩ := enqueueWaiting_cases hnew
  · exact ⟨new, hold, Keeps.state t' new new.state new.retry⟩
  · exact ⟨old, hold, Keeps.state t' old .pending old.retry⟩

/-! ## The release of the children of a job -/

/-- A done job is not released. -/
theorem state_of_enqueueWaiting (h : job' ∈ t.enqueueWaiting uuid other) (hjob : job ∈ t other)
    (hstate : job.state ≠ .waitDependencies) : job' = job := by
  obtain ⟨old, hold, ⟨rfl, -⟩ | ⟨⟨parent, -, hreleased⟩, rfl⟩⟩ := enqueueWaiting_cases h
  · exact Option.mem_unique hold hjob
  · obtain rfl := Option.mem_unique hold hjob
    exact absurd hreleased.2.2.2.2.2 hstate

theorem allDone_enqueueWaiting {uuids : List String} (h : t.allDone uuids) (uuid : String) :
    (t.enqueueWaiting uuid).allDone uuids := by
  refine allDone_iff.mpr fun p hp parent hparent => ?_
  obtain ⟨old, hold, -⟩ := enqueueWaiting_cases hparent
  have hdone := allDone_iff.mp h p hp old hold
  obtain rfl := state_of_enqueueWaiting hparent hold (by simp [hdone])
  exact hdone

/-- The parents that exist are the parents in the graph of the job. -/
theorem Linked.mem_parents (h : Linked t) (hjob : job ∈ t uuid) {p : String}
    (hp : p ∈ job.dependsOn) {parent : Job} (hparent : parent ∈ t p) :
    parent ∈ t.parents job.graphUuid job :=
  List.mem_filter.mpr ⟨List.mem_filterMap.mpr ⟨p, hp, hparent⟩,
    by simpa using (h uuid job hjob p hp parent hparent).2.1⟩

theorem Clear.enqueueWaiting (h : Clear t) (hlinked : Linked t) (uuid : String) :
    Clear (t.enqueueWaiting uuid) := by
  intro other child hchild hstate
  refine allDone_enqueueWaiting ?_ uuid
  obtain ⟨job, hjob, ⟨rfl, -⟩ | ⟨⟨parent, -, hreleased⟩, rfl⟩⟩ := enqueueWaiting_cases hchild
  · exact h other child hjob hstate
  · obtain ⟨-, -, hgraph, -, hdone, -⟩ := hreleased
    refine allDone_iff.mpr fun p hp row hrow => hdone row ?_
    exact hgraph ▸ hlinked.mem_parents hjob hp hrow

/-! ## No job is forgotten -/

/-- A waiting job has a parent that is not done, or that is about to release its children. -/
def Awake (t : JobTable) (finishing : String → Prop) : Prop :=
  ∀ uuid, ∀ job ∈ t uuid, job.state = .waitDependencies →
    ∃ p ∈ job.dependsOn, ∃ parent ∈ t p, parent.state ≠ .done ∨ finishing p

theorem Awake.store (h : Awake t F) (hjob : job ∈ t uuid) (hF : ∀ p, F p → F' p)
    (hdone : job'.state = .done → job.state = .done ∨ F' uuid)
    (hwait : job'.state = .waitDependencies →
      job.state = .waitDependencies ∧ job'.dependsOn = job.dependsOn ∨
        ¬ t.allDone job'.dependsOn) : Awake (t.store uuid job') F' := by
  have hparents : ∀ p, ∀ parent ∈ t p, parent.state ≠ .done ∨ F p →
      ∃ parent ∈ t.store uuid job' p, parent.state ≠ .done ∨ F' p := by
    intro p parent hparent hor
    by_cases hp : p = uuid
    · subst hp
      obtain rfl := Option.mem_unique hparent hjob
      refine ⟨job', store_self, ?_⟩
      rcases hor with hne | hf
      · exact or_iff_not_imp_left.mpr fun hd => (hdone (not_not.mp hd)).resolve_left hne
      · exact .inr (hF p hf)
    · exact ⟨parent, Option.mem_def.mpr ((store_of_ne hp).trans hparent), hor.imp_right (hF p)⟩
  have hstill : ∀ other, ∀ child ∈ t other, child.state = .waitDependencies →
      ∃ p ∈ child.dependsOn, ∃ parent ∈ t.store uuid job' p, parent.state ≠ .done ∨ F' p := by
    intro other child hchild hstate
    obtain ⟨p, hp, parent, hparent, hor⟩ := h other child hchild hstate
    exact ⟨p, hp, hparents p parent hparent hor⟩
  intro other child hchild hstate
  rcases store_cases hchild with ⟨rfl, rfl⟩ | ⟨-, hold⟩
  · rcases hwait hstate with ⟨hold, heq⟩ | hnone
    · rw [heq]
      exact hstill other job hjob hold
    · rw [allDone_iff] at hnone
      push Not at hnone
      obtain ⟨p, hp, parent, hparent, hne⟩ := hnone
      exact ⟨p, hp, hparents p parent hparent (.inl hne)⟩
  · exact hstill other child hold hstate

/-- Nobody waits for a done job alone. -/
theorem Awake.unlink (h : Awake t F) (hdone : ∀ job ∈ t uuid, job.state = .done) (hF : ¬ F uuid) :
    Awake (Function.update t uuid none) F := by
  intro other child hchild hstate
  obtain ⟨p, hp, parent, hparent, hor⟩ := h other child (mem_of_unlink hchild) hstate
  have hne : p ≠ uuid := by
    rintro rfl
    exact hor.elim (fun hne => hne (hdone parent hparent)) hF
  refine ⟨p, hp, parent, ?_, hor⟩
  rwa [Function.update_of_ne hne]

/-- After the release of the children of a job nobody waits for it any more. -/
theorem Awake.enqueueWaiting (h : Awake t F) (hlinked : Linked t)
    (hF : ∀ p, F p → p ≠ uuid → F' p) : Awake (t.enqueueWaiting uuid) F' := by
  have hrow : ∀ p, ∀ parent ∈ t p, ∃ parent' ∈ t.enqueueWaiting uuid p,
      parent.state ≠ .done → parent'.state ≠ .done := by
    intro p parent hparent
    obtain ⟨new, hnew⟩ : ∃ new, t.enqueueWaiting uuid p = some new := by
      rw [← Option.isSome_iff_exists, isSome_enqueueWaiting, Option.mem_def.mp hparent]
      rfl
    refine ⟨new, hnew, fun hne => ?_⟩
    obtain ⟨old, hold, ⟨rfl, -⟩ | ⟨-, rfl⟩⟩ := enqueueWaiting_cases hnew
    · exact Option.mem_unique hold hparent ▸ hne
    · simp
  intro other child hchild hstate
  obtain ⟨old, hold, ⟨rfl, hkept⟩ | ⟨-, rfl⟩⟩ := enqueueWaiting_cases hchild
  · obtain ⟨p, hp, parent, hparent, hor⟩ := h other child hold hstate
    by_cases hwitness : parent.state ≠ .done ∨ p ≠ uuid
    · obtain ⟨parent', hparent', hne⟩ := hrow p parent hparent
      refine ⟨p, hp, parent', hparent', ?_⟩
      rcases hor with hnot | hf
      · exact .inl (hne hnot)
      · exact hwitness.imp hne (hF p hf)
    · push Not at hwitness
      obtain ⟨-, rfl⟩ := hwitness
      -- the child has not been released, so one of its parents is not done
      obtain ⟨hknown, hgraph, hsome⟩ := hlinked other child hold p hp parent hparent
      have hne : ∃ row ∈ t.parents parent.graphUuid child, row.state ≠ .done := by
        by_contra hdone
        push Not at hdone
        have hmem := hlinked.mem_parents hold hp hparent
        rw [← hgraph] at hmem hsome
        exact hkept parent hparent ⟨hknown, hsome, hgraph.symm, List.ne_nil_of_mem hmem, hdone,
          hstate⟩
      obtain ⟨row, hmem, hne⟩ := hne
      obtain ⟨p', hp', hmem⟩ := List.mem_filterMap.mp (List.mem_filter.mp hmem).1
      obtain ⟨row', hrow', hne'⟩ := hrow p' row hmem
      exact ⟨p', hp', row', hrow', .inl (hne' hne)⟩
  · simp at hstate

/-! ## New jobs -/

/-- No job has this uuid or refers to it. -/
def Unmentioned (t : JobTable) (uuid : String) : Prop :=
  t uuid = none ∧ ∀ other, ∀ job ∈ t other, uuid ∉ job.dependsOn ∧ uuid ∉ job.reverseDependsOn

/-- A graph of new jobs. -/
structure Fresh (t : JobTable) (vertices : List Vertex) (edges : List (String × String)) :
    Prop where
  nodup : (vertices.map (·.uuid)).Nodup
  unmentioned : ∀ vertex ∈ vertices, Unmentioned t vertex.uuid
  edges : ∀ edge ∈ edges, edge.1 ∈ vertices.map (·.uuid) ∧ edge.2 ∈ vertices.map (·.uuid)

theorem mem_dependsOn_generatedJob {vertex : Vertex} {p : String} :
    p ∈ (generatedJob graphUuid vertices edges vertex).dependsOn ↔ (p, vertex.uuid) ∈ edges := by
  simp [generatedJob]

theorem mem_reverseDependsOn_generatedJob {vertex : Vertex} {p : String} :
    p ∈ (generatedJob graphUuid vertices edges vertex).reverseDependsOn ↔
      (vertex.uuid, p) ∈ edges := by
  simp [generatedJob]

/-- A generated job is pending if it depends on no other job. -/
theorem state_generatedJob (graphUuid : String) (vertices : List Vertex)
    (edges : List (String × String)) (vertex : Vertex) :
    (generatedJob graphUuid vertices edges vertex).state = .pending ∧
        (generatedJob graphUuid vertices edges vertex).dependsOn = [] ∨
      (generatedJob graphUuid vertices edges vertex).state = .waitDependencies ∧
        (generatedJob graphUuid vertices edges vertex).dependsOn ≠ [] := by
  by_cases h : ∃ edge ∈ edges, edge.2 = vertex.uuid
  · obtain ⟨edge, hedge, heq⟩ := h
    refine .inr ⟨if_pos ⟨edge, hedge, heq⟩, List.ne_nil_of_mem (a := edge.1) ?_⟩
    rw [mem_dependsOn_generatedJob, ← heq]
    exact hedge
  · refine .inl ⟨if_neg h, List.eq_nil_iff_forall_not_mem.mpr fun p hp => h ?_⟩
    exact ⟨(p, vertex.uuid), mem_dependsOn_generatedJob.mp hp, rfl⟩

section Delay

variable (hfresh : Fresh t vertices edges)

include hfresh

theorem Fresh.row {uuid : String} (h : job ∈ t.delay graphUuid vertices edges uuid) :
    job ∈ t uuid ∧ uuid ∉ vertices.map (·.uuid) ∨
      (∃ vertex ∈ vertices, vertex.uuid = uuid ∧
        job = generatedJob graphUuid vertices edges vertex) ∧ ∀ edge ∈ edges, edge.1 ≠ edge.2 := by
  rcases delay_cases hfresh.nodup h with hold | hnew
  · refine .inl ⟨hold, fun hmem => ?_⟩
    obtain ⟨vertex, hvertex, rfl⟩ := List.mem_map.mp hmem
    simp [(hfresh.unmentioned vertex hvertex).1] at hold
  · exact .inr hnew

/-- An old job has old parents. -/
theorem Fresh.parent (hjob : job ∈ t uuid) {p : String} (hp : p ∈ job.dependsOn) {parent : Job}
    (h : parent ∈ t.delay graphUuid vertices edges p) : parent ∈ t p := by
  rcases hfresh.row h with ⟨hold, -⟩ | ⟨⟨vertex, hvertex, rfl, -⟩, -⟩
  · exact hold
  · exact absurd hp ((hfresh.unmentioned vertex hvertex).2 uuid job hjob).1

/-- A new job has new parents. -/
theorem Fresh.parent_generatedJob {vertex : Vertex} {p : String}
    (hp : p ∈ (generatedJob graphUuid vertices edges vertex).dependsOn) {parent : Job}
    (h : parent ∈ t.delay graphUuid vertices edges p) :
    ∃ vertex' ∈ vertices, vertex'.uuid = p ∧
      parent = generatedJob graphUuid vertices edges vertex' := by
  have hedge := (hfresh.edges _ (mem_dependsOn_generatedJob.mp hp)).1
  rcases hfresh.row h with ⟨-, hnot⟩ | ⟨hnew, -⟩
  · exact absurd hedge hnot
  · exact hnew

theorem Clear.delay (h : Clear t) : Clear (t.delay graphUuid vertices edges) := by
  intro uuid job hjob hstate
  rcases hfresh.row hjob with ⟨hold, -⟩ | ⟨⟨vertex, -, rfl, rfl⟩, -⟩
  · refine allDone_iff.mpr fun p hp parent hparent => ?_
    exact allDone_iff.mp (h uuid job hold hstate) p hp parent (hfresh.parent hold hp hparent)
  · rcases state_generatedJob graphUuid vertices edges vertex with ⟨-, hnil⟩ | ⟨hwait, -⟩
    · rw [hnil]
      rfl
    · simp [hwait, State.underWay] at hstate

theorem Linked.delay (h : Linked t) : Linked (t.delay graphUuid vertices edges) := by
  intro uuid job hjob p hp parent hparent
  rcases hfresh.row hjob with ⟨hold, -⟩ | ⟨⟨vertex, hvertex, rfl, rfl⟩, hloop⟩
  · exact h uuid job hold p hp parent (hfresh.parent hold hp hparent)
  · obtain ⟨vertex', hvertex', rfl, rfl⟩ := hfresh.parent_generatedJob hp hparent
    have hedge := mem_dependsOn_generatedJob.mp hp
    have hlength : vertices.length ≠ 1 := by
      intro hone
      obtain ⟨v, rfl⟩ := List.length_eq_one_iff.mp hone
      obtain rfl := List.mem_singleton.mp hvertex
      obtain rfl := List.mem_singleton.mp hvertex'
      exact hloop _ hedge rfl
    refine ⟨mem_reverseDependsOn_generatedJob.mpr hedge, rfl, ?_⟩
    simp [generatedJob, hlength]

theorem Awake.delay (h : Awake t F) : Awake (t.delay graphUuid vertices edges) F := by
  have hrow : ∀ p, ∀ parent ∈ t p, parent ∈ t.delay graphUuid vertices edges p := by
    intro p parent hparent
    have hnot : ∀ vertex ∈ vertices, vertex.uuid ≠ p := by
      rintro vertex hvertex rfl
      simp [(hfresh.unmentioned vertex hvertex).1] at hparent
    exact Option.mem_def.mpr ((delay_of_notMem hnot).trans hparent)
  intro uuid job hjob hstate
  rcases hfresh.row hjob with ⟨hold, -⟩ | ⟨⟨vertex, -, rfl, rfl⟩, hloop⟩
  · obtain ⟨p, hp, parent, hparent, hor⟩ := h uuid job hold hstate
    exact ⟨p, hp, parent, hrow p parent hparent, hor⟩
  · rcases state_generatedJob graphUuid vertices edges vertex with ⟨hpending, -⟩ | ⟨-, hne⟩
    · simp [hpending] at hstate
    · obtain ⟨p, hp⟩ := List.exists_mem_of_ne_nil _ hne
      have hedge := (hfresh.edges _ (mem_dependsOn_generatedJob.mp hp)).1
      obtain ⟨vertex', hvertex', rfl⟩ := List.mem_map.mp hedge
      refine ⟨vertex'.uuid, hp, _, delay_of_mem hfresh.nodup hloop hvertex', .inl ?_⟩
      rcases state_generatedJob graphUuid vertices edges vertex' with ⟨h, -⟩ | ⟨h, -⟩ <;> simp [h]

end Delay

/-! ## The steps of the system -/

namespace JobSystem

/-- No worker performs the job. -/
def Idle (s : JobSystem) (uuid : String) : Prop := ∀ worker ∈ s.workers, worker.performs ≠ some uuid

/-- A condition on the events: uuids are new, the runner only takes pending jobs, users do not
touch a job while it is performed, and what is done is not undone. -/
def Orderly (s : JobSystem) : JobEvent → Prop
  | .delay _ vertices edges =>
      Fresh s.table vertices edges ∧ ∀ vertex ∈ vertices, s.Idle vertex.uuid
  | .setJobEnqueued uuid => ∀ job ∈ s.table uuid, job.state = .pending
  | .buttonDone uuid | .unlink uuid => s.Idle uuid
  | .buttonCancelled uuid | .requeue uuid =>
      s.Idle uuid ∧ ∀ job ∈ s.table uuid, job.state ≠ .done
  | _ => True

/-- What holds in every state of an orderly run. While a job is performed its row stays as
it was stored when it started. -/
structure Coherent (s : JobSystem) : Prop where
  clear : Clear s.table
  linked : Linked s.table
  worked : ∀ uuid job parentsDone, .performing uuid job parentsDone ∈ s.workers →
    s.table uuid = some job ∧ job.state = .started ∧ parentsDone = true
  exclusive : (s.workers.filterMap Worker.performs).Nodup

/-- The worker has stored this job as done. -/
def Finishes (s : JobSystem) (uuid : String) : Prop := .finishing uuid ∈ s.workers

variable {s : JobSystem}

theorem Idle.of_state (h : s.Coherent) (hjob : job ∈ s.table uuid) (hstate : job.state ≠ .started) :
    s.Idle uuid := by
  rintro (⟨other, job', parentsDone⟩ | other) hworker hperforms
  · obtain rfl : other = uuid := by simpa [Worker.performs] using hperforms
    obtain ⟨hrow, hstarted, -⟩ := h.worked other job' parentsDone hworker
    obtain rfl := Option.mem_unique hjob hrow
    exact hstate hstarted
  · simp [Worker.performs] at hperforms

/-- A write on a row that no worker works on. -/
theorem Coherent.table (h : s.Coherent) {t : JobTable} (hclear : Clear t) (hlinked : Linked t)
    (hrows : ∀ uuid, ¬ s.Idle uuid → t uuid = s.table uuid) : Coherent { s with table := t } where
  clear := hclear
  linked := hlinked
  worked uuid job parentsDone hworker := by
    have hbusy : ¬ s.Idle uuid := fun hidle => hidle _ hworker rfl
    obtain ⟨hrow, hrest⟩ := h.worked uuid job parentsDone hworker
    exact ⟨(hrows uuid hbusy).trans hrow, hrest⟩
  exclusive := h.exclusive

/-- Fewer workers. -/
theorem Coherent.workers (h : s.Coherent) {workers : List Worker}
    (hworkers : workers.Sublist s.workers) : Coherent { s with workers := workers } where
  clear := h.clear
  linked := h.linked
  worked uuid job parentsDone hworker := h.worked uuid job parentsDone (hworkers.subset hworker)
  exclusive := h.exclusive.sublist (hworkers.filterMap _)

theorem Coherent.store (h : s.Coherent) (hidle : s.Idle uuid) (hjob : job ∈ s.table uuid)
    (hkeeps : Keeps s.table job job') (hdone : job.state = .done → job'.state = .done)
    (hready : job'.state.underWay → job.state.underWay ∨ s.table.allDone job'.dependsOn) :
    Coherent { s with table := s.table.store uuid job' } := by
  refine h.table (h.clear.store hjob hkeeps hdone hready)
    (h.linked.of_keeps (keeps_store hjob hkeeps)) fun other hbusy => store_of_ne ?_
  rintro rfl
  exact hbusy hidle

/-- A release does not change a job that is performed. -/
theorem Coherent.release (h : s.Coherent) (uuid : String) :
    Coherent { s with table := s.table.enqueueWaiting uuid } := by
  refine h.table (h.clear.enqueueWaiting h.linked uuid)
    (h.linked.of_keeps (keeps_enqueueWaiting s.table s.table uuid)) fun other hbusy => ?_
  have hworker : ∃ worker ∈ s.workers, worker.performs = some other := by
    unfold Idle at hbusy
    push Not at hbusy
    exact hbusy
  obtain ⟨⟨other', job, parentsDone⟩ | other', hworker, hperforms⟩ := hworker
  · obtain rfl : other' = other := by simpa [Worker.performs] using hperforms
    obtain ⟨hrow, hstarted, -⟩ := h.worked other' job parentsDone hworker
    obtain ⟨new, hnew⟩ : ∃ new, s.table.enqueueWaiting uuid other' = some new := by
      rw [← Option.isSome_iff_exists, isSome_enqueueWaiting, hrow]
      rfl
    rw [hnew, hrow, state_of_enqueueWaiting hnew hrow (by simp [hstarted])]
  · simp [Worker.performs] at hperforms

/-- When a worker has left, no worker performs its job. -/
theorem Coherent.idle_eraseIdx (h : s.Coherent) {worker : ℕ} {parentsDone : Bool}
    (hworker : s.workers[worker]? = some (.performing uuid job parentsDone)) :
    Idle { s with workers := s.workers.eraseIdx worker } uuid :=
  fun _ hother => Table.ne_of_mem_eraseIdx h.exclusive hworker rfl hother

theorem Coherent.finishing (h : s.Coherent) (uuid : String) :
    Coherent { s with workers := .finishing uuid :: s.workers } where
  clear := h.clear
  linked := h.linked
  worked other job parentsDone hworker :=
    h.worked other job parentsDone ((List.mem_cons.mp hworker).resolve_left nofun)
  exclusive := h.exclusive

theorem Coherent.runjob (h : s.Coherent) (uuid : String) : (s.runjob uuid).Coherent := by
  unfold JobSystem.runjob
  split
  · exact h
  · rename_i job hload
    obtain ⟨row, hrow, rfl⟩ := Option.map_eq_some_iff.mp hload
    split
    · rename_i henqueued
      have henqueued : row.state = .enqueued := henqueued
      have hidle : s.Idle uuid := Idle.of_state h hrow (by simp [henqueued])
      have hall : s.table.allDone row.dependsOn :=
        h.clear uuid row hrow (by simp [henqueued, State.underWay])
      have hloaded : s.table.allDone (s.table.loaded row).dependsOn :=
        allDone_iff.mpr fun p hp => allDone_iff.mp hall p (List.mem_filter.mp hp).1
      have hstored := h.store hidle hrow (Keeps.loaded s.table row .started row.retry)
        (by simp [henqueued]) fun _ => .inr hloaded
      refine ⟨hstored.clear, hstored.linked, fun other job parentsDone hworker => ?_, ?_⟩
      · rcases List.mem_append.mp hworker with hold | hnew
        · exact hstored.worked other job parentsDone hold
        · obtain ⟨rfl, rfl, rfl⟩ : other = uuid ∧ job = (s.table.loaded row).setStarted ∧
              parentsDone = s.table.allDone (s.table.loaded row).dependsOn := by
            simpa using hnew
          exact ⟨store_self, rfl, hloaded⟩
      · rw [List.filterMap_append]
        refine List.nodup_append.mpr ⟨h.exclusive, List.nodup_singleton _, ?_⟩
        rintro other hold _ hnew rfl
        obtain ⟨worker, hworker, hperforms⟩ := List.mem_filterMap.mp hold
        obtain rfl : other = uuid := by simpa [Worker.performs] using hnew
        exact hidle worker hworker hperforms
    · exact h

/-- A performed job is the same but for its retries. -/
theorem perform_eq (job : Job) (outcome : Outcome) :
    ∃ retry, (job.perform outcome).2 = { job with retry := retry } := by
  unfold Job.perform
  split
  · exact ⟨_, rfl⟩
  · exact ⟨_, rfl⟩
  · exact ⟨_, rfl⟩
  · dsimp only
    split
    · exact ⟨_, rfl⟩
    · split <;> exact ⟨_, rfl⟩
  · exact ⟨_, rfl⟩
  · exact ⟨_, rfl⟩

theorem Coherent.perform (h : s.Coherent) (worker : ℕ) (outcome : Outcome) :
    (s.perform worker outcome).Coherent := by
  unfold JobSystem.perform
  split
  · rename_i uuid job parentsDone hworker
    obtain ⟨hrow, hstarted, rfl⟩ :=
      h.worked uuid job parentsDone (List.mem_of_getElem? hworker)
    have hleft := h.workers (List.eraseIdx_sublist s.workers worker)
    have hidle := h.idle_eraseIdx hworker
    have hstore : ∀ state retry, Coherent
        { table := s.table.store uuid { job with state := state, retry := retry }
          workers := s.workers.eraseIdx worker } := fun state retry =>
      hleft.store hidle hrow (Keeps.state s.table job state retry) (by simp [hstarted])
        fun _ => .inl (by simp [hstarted, State.underWay])
    obtain ⟨retry, hretry⟩ := perform_eq job outcome
    split
    all_goals
      rename_i performed heq
      obtain rfl : performed = { job with retry := retry } := by rw [← hretry, heq]
    · exact (hstore .done retry).finishing uuid
    · exact hstore .pending retry
    · exact hstore .failed retry
  · exact h

theorem Coherent.step (h : s.Coherent) {event : JobEvent} (horderly : s.Orderly event) :
    (s.step event).Coherent := by
  cases event with
  | delay graphUuid vertices edges =>
      obtain ⟨hfresh, hidle⟩ := horderly
      refine h.table (h.clear.delay hfresh) (h.linked.delay hfresh) fun uuid hbusy => ?_
      refine delay_of_notMem fun vertex hvertex heq => hbusy ?_
      exact heq ▸ hidle vertex hvertex
  | setJobEnqueued uuid =>
      simp only [JobSystem.step, JobSystem.setJobEnqueued]
      split
      · exact h
      · rename_i job hjob
        have hpending := horderly job hjob
        exact h.store (Idle.of_state h hjob (by simp [hpending])) hjob
          (Keeps.state s.table job .enqueued job.retry) (by simp [hpending])
          fun _ => .inl (by simp [hpending, State.underWay])
  | setJobPending uuid =>
      simp only [JobSystem.step, JobSystem.setJobPending]
      split
      · exact h
      · rename_i job hjob
        split
        · rename_i henqueued
          exact h.store (Idle.of_state h hjob (by simp [henqueued])) hjob
            (Keeps.state s.table job .pending job.retry) (by simp [henqueued])
            fun _ => .inl (by simp [henqueued, State.underWay])
        · exact h
  | runjob uuid => exact h.runjob uuid
  | perform worker outcome => exact h.perform worker outcome
  | enqueueWaiting worker =>
      simp only [JobSystem.step, JobSystem.enqueueWaiting]
      split
      · rename_i uuid hworker
        exact (h.release uuid).workers (List.eraseIdx_sublist s.workers worker)
      · exact h
  | abandon worker => exact h.workers (List.eraseIdx_sublist s.workers worker)
  | buttonDone uuid =>
      simp only [JobSystem.step, JobSystem.buttonDone]
      split
      · exact h
      · rename_i job hload
        obtain ⟨row, hrow, rfl⟩ := Option.map_eq_some_iff.mp hload
        exact (h.store horderly hrow (Keeps.loaded s.table row .done row.retry) (fun _ => rfl)
          (by simp [State.underWay])).release uuid
  | buttonCancelled uuid =>
      simp only [JobSystem.step, JobSystem.buttonCancelled]
      split
      · exact h
      · rename_i job hload
        obtain ⟨row, hrow, rfl⟩ := Option.map_eq_some_iff.mp hload
        exact h.store horderly.1 hrow (Keeps.loaded s.table row .cancelled row.retry)
          (fun hdone => absurd hdone (horderly.2 row hrow)) nofun
  | requeue uuid =>
      simp only [JobSystem.step, JobSystem.requeue]
      split
      · exact h
      · rename_i job hload
        obtain ⟨row, hrow, rfl⟩ := Option.map_eq_some_iff.mp hload
        split
        · exact h
        · refine h.store horderly.1 hrow (Keeps.loaded s.table row _ _)
            (fun hdone => absurd hdone (horderly.2 row hrow)) fun hready => .inr ?_
          cases hall : s.table.allDone (s.table.loaded row).dependsOn with
          | true => exact hall
          | false => simp [Job.setPending, hall, State.underWay] at hready
  | unlink uuid =>
      refine h.table (h.clear.unlink uuid)
        (h.linked.of_keeps (keeps_unlink uuid)) fun other hbusy => Function.update_of_ne ?_ ..
      rintro rfl
      exact hbusy horderly

/-- No worker is killed before it has released the children of its job, and only jobs whose
children have been released are deleted. -/
def Releases (s : JobSystem) : JobEvent → Prop
  | .abandon worker => ∀ uuid, s.workers[worker]? ≠ some (.finishing uuid)
  | .unlink uuid => (∀ job ∈ s.table uuid, job.state = .done) ∧ ¬ s.Finishes uuid
  | _ => True

/-- Another worker finishes its job all the same. -/
theorem Finishes.eraseIdx {worker : ℕ} {leaving : Worker} (h : s.Finishes uuid)
    (hworker : s.workers[worker]? = some leaving) (hne : .finishing uuid ≠ leaving) :
    Finishes { s with workers := s.workers.eraseIdx worker } uuid :=
  Table.mem_eraseIdx_of_ne hworker hne h

theorem Coherent.awake_perform (h : s.Coherent) (hawake : Awake s.table s.Finishes) (worker : ℕ)
    (outcome : Outcome) :
    Awake (s.perform worker outcome).table (s.perform worker outcome).Finishes := by
  unfold JobSystem.perform
  split
  · rename_i uuid job parentsDone hworker
    obtain ⟨hrow, hstarted, rfl⟩ :=
      h.worked uuid job parentsDone (List.mem_of_getElem? hworker)
    split
    · refine hawake.store hrow (fun p hp => ?_) (fun _ => .inr List.mem_cons_self) nofun
      exact List.mem_cons_of_mem _ (hp.eraseIdx hworker nofun)
    · exact hawake.store hrow (fun p hp => hp.eraseIdx hworker nofun) nofun nofun
    · exact hawake.store hrow (fun p hp => hp.eraseIdx hworker nofun) nofun nofun
  · exact hawake

theorem Coherent.awake_step (h : s.Coherent) (hawake : Awake s.table s.Finishes)
    {event : JobEvent} (horderly : s.Orderly event) (hreleases : s.Releases event) :
    Awake (s.step event).table (s.step event).Finishes := by
  cases event with
  | delay graphUuid vertices edges => exact hawake.delay horderly.1
  | setJobEnqueued uuid =>
      simp only [JobSystem.step, JobSystem.setJobEnqueued]
      split
      · exact hawake
      · rename_i job hjob
        exact hawake.store hjob (fun _ hp => hp) nofun nofun
  | setJobPending uuid =>
      simp only [JobSystem.step, JobSystem.setJobPending]
      split
      · exact hawake
      · rename_i job hjob
        split
        · exact hawake.store hjob (fun _ hp => hp) nofun nofun
        · exact hawake
  | runjob uuid =>
      simp only [JobSystem.step, JobSystem.runjob]
      split
      · exact hawake
      · rename_i job hload
        obtain ⟨row, hrow, rfl⟩ := Option.map_eq_some_iff.mp hload
        split
        · exact hawake.store hrow (fun _ hp => List.mem_append_left _ hp) nofun nofun
        · exact hawake
  | perform worker outcome => exact h.awake_perform hawake worker outcome
  | enqueueWaiting worker =>
      simp only [JobSystem.step, JobSystem.enqueueWaiting]
      split
      · rename_i uuid hworker
        refine hawake.enqueueWaiting h.linked fun p hp hne => hp.eraseIdx hworker ?_
        simpa using hne
      · exact hawake
  | abandon worker =>
      cases hworker : s.workers[worker]? with
      | none =>
          have hsame : s.workers.eraseIdx worker = s.workers :=
            List.eraseIdx_of_length_le (List.getElem?_eq_none_iff.mp hworker)
          simpa [JobSystem.step, hsame] using hawake
      | some leaving =>
          intro uuid job hjob hstate
          obtain ⟨p, hp, parent, hparent, hor⟩ := hawake uuid job hjob hstate
          refine ⟨p, hp, parent, hparent, hor.imp_right fun hf => hf.eraseIdx hworker ?_⟩
          rintro rfl
          exact hreleases p hworker
  | buttonDone uuid =>
      simp only [JobSystem.step, JobSystem.buttonDone]
      split
      · exact hawake
      · rename_i job hload
        obtain ⟨row, hrow, rfl⟩ := Option.map_eq_some_iff.mp hload
        have hkeeps := Keeps.loaded s.table row .done row.retry
        refine Awake.enqueueWaiting (F := fun p => s.Finishes p ∨ p = uuid) ?_
          (h.linked.of_keeps (keeps_store hrow hkeeps)) fun p hp hne => hp.resolve_right hne
        exact hawake.store hrow (fun _ hp => .inl hp) (fun _ => .inr (.inr rfl)) nofun
  | buttonCancelled uuid =>
      simp only [JobSystem.step, JobSystem.buttonCancelled]
      split
      · exact hawake
      · rename_i job hload
        obtain ⟨row, hrow, rfl⟩ := Option.map_eq_some_iff.mp hload
        exact hawake.store hrow (fun _ hp => hp) nofun nofun
  | requeue uuid =>
      simp only [JobSystem.step, JobSystem.requeue]
      split
      · exact hawake
      · rename_i job hload
        obtain ⟨row, hrow, rfl⟩ := Option.map_eq_some_iff.mp hload
        split
        · exact hawake
        · cases hall : s.table.allDone (s.table.loaded row).dependsOn with
          | true => exact hawake.store hrow (fun _ hp => hp) nofun nofun
          | false =>
              refine hawake.store hrow (fun _ hp => hp) nofun fun _ => .inr ?_
              simp [Job.setPending, hall]
  | unlink uuid => exact hawake.unlink hreleases.1 hreleases.2

/-- The links to the jobs that exist are kept by all that does not create jobs. -/
theorem Coherent.keeps_step (h : s.Coherent) {event : JobEvent}
    (hevent : ∀ graphUuid vertices edges, event ≠ .delay graphUuid vertices edges) :
    ∀ uuid, ∀ new ∈ (s.step event).table uuid, ∃ old ∈ s.table uuid, Keeps s.table old new := by
  have hsame : ∀ uuid, ∀ new ∈ s.table uuid, ∃ old ∈ s.table uuid, Keeps s.table old new :=
    fun _ new hnew => ⟨new, hnew, Keeps.state s.table new new.state new.retry⟩
  cases event with
  | delay graphUuid vertices edges => exact absurd rfl (hevent graphUuid vertices edges)
  | setJobEnqueued uuid =>
      simp only [JobSystem.step, JobSystem.setJobEnqueued]
      split
      · exact hsame
      · rename_i job hjob
        exact keeps_store hjob (Keeps.state s.table job .enqueued job.retry)
  | setJobPending uuid =>
      simp only [JobSystem.step, JobSystem.setJobPending]
      split
      · exact hsame
      · rename_i job hjob
        split
        · exact keeps_store hjob (Keeps.state s.table job .pending job.retry)
        · exact hsame
  | runjob uuid =>
      simp only [JobSystem.step, JobSystem.runjob]
      split
      · exact hsame
      · rename_i job hload
        obtain ⟨row, hrow, rfl⟩ := Option.map_eq_some_iff.mp hload
        split
        · exact keeps_store hrow (Keeps.loaded s.table row .started row.retry)
        · exact hsame
  | perform worker outcome =>
      simp only [JobSystem.step, JobSystem.perform]
      split
      · rename_i uuid job parentsDone hworker
        obtain ⟨hrow, -, -⟩ := h.worked uuid job parentsDone (List.mem_of_getElem? hworker)
        obtain ⟨retry, hretry⟩ := perform_eq job outcome
        split
        all_goals
          rename_i performed heq
          obtain rfl : performed = { job with retry := retry } := by rw [← hretry, heq]
          exact keeps_store hrow (Keeps.state s.table job _ retry)
      · exact hsame
  | enqueueWaiting worker =>
      simp only [JobSystem.step, JobSystem.enqueueWaiting]
      split
      · exact keeps_enqueueWaiting s.table s.table _
      · exact hsame
  | abandon worker => exact hsame
  | buttonDone uuid =>
      simp only [JobSystem.step, JobSystem.buttonDone]
      split
      · exact hsame
      · rename_i job hload
        obtain ⟨row, hrow, rfl⟩ := Option.map_eq_some_iff.mp hload
        intro other new hnew
        obtain ⟨stored, hstored, hkeeps⟩ := keeps_enqueueWaiting _ s.table uuid other new hnew
        obtain ⟨old, hold, hkeepsold⟩ :=
          keeps_store hrow (Keeps.loaded s.table row .done row.retry) other stored hstored
        exact ⟨old, hold, hkeepsold.trans hkeeps⟩
  | buttonCancelled uuid =>
      simp only [JobSystem.step, JobSystem.buttonCancelled]
      split
      · exact hsame
      · rename_i job hload
        obtain ⟨row, hrow, rfl⟩ := Option.map_eq_some_iff.mp hload
        exact keeps_store hrow (Keeps.loaded s.table row .cancelled row.retry)
  | requeue uuid =>
      simp only [JobSystem.step, JobSystem.requeue]
      split
      · exact hsame
      · rename_i job hload
        obtain ⟨row, hrow, rfl⟩ := Option.map_eq_some_iff.mp hload
        split
        · exact hsame
        · exact keeps_store hrow (Keeps.loaded s.table row _ _)
  | unlink uuid => exact keeps_unlink uuid

theorem coherent_empty : Coherent {} where
  clear := nofun
  linked := nofun
  worked := nofun
  exclusive := List.nodup_nil

end JobSystem

end JobRunner

end Fastrak
