import Mathlib.Data.List.Nodup
import Mathlib.Logic.Function.Basic
import Mathlib.Data.Int.Notation
import Mathlib.Data.Nat.Notation
import Mathlib.Order.Basic
import Fastrak.Library.Text

/-!
# Jobs and their table

A job is stored as a row of a table, and most of the code reads the whole row, changes the
job in memory and writes the whole row back. A job knows by their uuids the jobs that it
depends on and the jobs that depend on it; what is read back of them are the rows that
exist, so a dependency on a deleted job is dropped when the job is stored again.
-/

namespace Fastrak

namespace JobRunner

/-- The states of a job. -/
inductive State
  | waitDependencies
  | pending
  | enqueued
  | started
  | done
  | cancelled
  | failed
  deriving DecidableEq

structure Job where
  state : State := .pending
  graphUuid : Option String := none
  dependsOn : List String := []
  reverseDependsOn : List String := []
  retry : ℤ := 0
  /-- No limit if it is 0. -/
  maxRetries : ℤ := 5
  channel : Option Text := none
  deriving DecidableEq

/-- How the method of a job ends, or the transaction that it runs in. -/
inductive Outcome
  | success
  | nothingToDoJob
  | retryableJobError (ignoreRetry : Bool)
  /-- An `OperationalError` that is retried: two transactions were in conflict. -/
  | concurrencyError
  | failure
  deriving DecidableEq

/-- What becomes of a job that has been performed. -/
inductive Ending
  | done
  | postponed
  | failed
  deriving DecidableEq

namespace Job

/-- `set_pending(reset_retry)` of a job whose parents are all done, or are not. -/
def setPending (parentsDone resetRetry : Bool) (job : Job) : Job :=
  { job with
    state := if parentsDone then .pending else .waitDependencies
    retry := if resetRetry then 0 else job.retry }

def setStarted (job : Job) : Job := { job with state := .started }

def setDone (job : Job) : Job := { job with state := .done }

def setCancelled (job : Job) : Job := { job with state := .cancelled }

def setFailed (job : Job) : Job := { job with state := .failed }

/-- `perform()`, and what `runjob` makes of the exceptions. -/
def perform (outcome : Outcome) (job : Job) : Ending × Job :=
  let job := { job with retry := job.retry + 1 }
  match outcome with
  | .success | .nothingToDoJob => (.done, job)
  | .retryableJobError true => (.postponed, { job with retry := job.retry - 1 })
  | .retryableJobError false =>
      if job.maxRetries = 0 then (.postponed, job)
      else if job.maxRetries ≤ job.retry then (.failed, job)
      else (.postponed, job)
  | .concurrencyError => (.postponed, job)
  | .failure => (.failed, job)

end Job

/-- The rows of the jobs that exist, by uuid. -/
abbrev JobTable := String → Option Job

namespace JobTable

/-- The job in memory, with its dependencies on the jobs that exist. -/
def loaded (t : JobTable) (job : Job) : Job :=
  { job with
    dependsOn := job.dependsOn.filter fun uuid => (t uuid).isSome
    reverseDependsOn := job.reverseDependsOn.filter fun uuid => (t uuid).isSome }

/-- `Job.load(env, uuid)` -/
def load (t : JobTable) (uuid : String) : Option Job := (t uuid).map t.loaded

/-- `store()`: the row is created where it does not exist. -/
def store (uuid : String) (job : Job) (t : JobTable) : JobTable := Function.update t uuid (some job)

/-- The jobs with these uuids that exist are all done. -/
def allDone (t : JobTable) (uuids : List String) : Bool :=
  uuids.all fun uuid => (t uuid).all (·.state = .done)

/-- The parents of a job that exist, in the graph of another one. -/
def parents (t : JobTable) (graphUuid : Option String) (job : Job) : List Job :=
  (job.dependsOn.filterMap t).filter (·.graphUuid = graphUuid)

/-- The query of `enqueue_waiting` finds the child of the job: it waits, and all its parents
in the graph of the job are done. -/
def Released (t : JobTable) (job : Job) (uuid : String) (child : Job) : Prop :=
  uuid ∈ job.reverseDependsOn ∧ job.graphUuid.isSome ∧ child.graphUuid = job.graphUuid ∧
    t.parents job.graphUuid child ≠ [] ∧
    (∀ parent ∈ t.parents job.graphUuid child, parent.state = .done) ∧
    child.state = .waitDependencies

instance (t : JobTable) (job : Job) (uuid : String) (child : Job) :
    Decidable (t.Released job uuid child) :=
  inferInstanceAs (Decidable (_ ∧ _ ∧ _ ∧ _ ∧ _ ∧ _))

/-- `enqueue_waiting()` of the job with this uuid. -/
def enqueueWaiting (uuid : String) (t : JobTable) : JobTable := fun childUuid =>
  (t childUuid).map fun child =>
    if ∃ job ∈ t uuid, t.Released job childUuid child then { child with state := .pending }
    else child

/-- A job to be created: a vertex of the graph that is delayed. -/
structure Vertex where
  uuid : String
  maxRetries : ℤ := 5
  channel : Option Text := none
  deriving DecidableEq

/-- The generated job of a vertex, after `add_depends` for every edge. -/
def generatedJob (graphUuid : String) (vertices : List Vertex) (edges : List (String × String))
    (vertex : Vertex) : Job where
  state := if ∃ edge ∈ edges, edge.2 = vertex.uuid then .waitDependencies else .pending
  graphUuid := if vertices.length = 1 then none else some graphUuid
  dependsOn := (edges.filter fun edge => edge.2 = vertex.uuid).map (·.1)
  reverseDependsOn := (edges.filter fun edge => edge.1 = vertex.uuid).map (·.2)
  maxRetries := vertex.maxRetries
  channel := vertex.channel

/-- `delay()` of a connected graph. A job cannot depend on itself. -/
def delay (graphUuid : String) (vertices : List Vertex) (edges : List (String × String))
    (t : JobTable) : JobTable :=
  if ∃ edge ∈ edges, edge.1 = edge.2 then t
  else vertices.foldl (fun t vertex =>
    t.store vertex.uuid (generatedJob graphUuid vertices edges vertex)) t

end JobTable

variable {t : JobTable} {job job' : Job} {uuid other : String}

namespace JobTable

theorem allDone_iff {uuids : List String} :
    t.allDone uuids ↔ ∀ uuid ∈ uuids, ∀ job ∈ t uuid, job.state = .done := by
  simp [allDone, Option.all_eq_true]

@[simp] theorem state_loaded : (t.loaded job).state = job.state := rfl

@[simp] theorem store_self : t.store uuid job uuid = some job := Function.update_self ..

theorem store_of_ne (h : other ≠ uuid) : t.store uuid job other = t other :=
  Function.update_of_ne h ..

/-- A row after a job has been stored is this job or an old row. -/
theorem store_cases (h : t.store uuid job other = some job') :
    other = uuid ∧ job' = job ∨ other ≠ uuid ∧ t other = some job' := by
  by_cases hne : other = uuid
  · subst hne
    exact .inl ⟨rfl, by simpa using h.symm⟩
  · rw [store_of_ne hne] at h
    exact .inr ⟨hne, h⟩

/-- A row after the release is an old row, or the row of a child that has been released. -/
theorem enqueueWaiting_cases (h : t.enqueueWaiting uuid other = some job') :
    ∃ job, t other = some job ∧
      (job' = job ∧ (∀ parent ∈ t uuid, ¬ t.Released parent other job) ∨
        (∃ parent ∈ t uuid, t.Released parent other job) ∧
          job' = { job with state := .pending }) := by
  obtain ⟨job, hjob, rfl⟩ := Option.map_eq_some_iff.mp h
  refine ⟨job, hjob, ?_⟩
  split
  · rename_i hreleased
    exact .inr ⟨hreleased, rfl⟩
  · rename_i hkept
    exact .inl ⟨rfl, fun parent hparent h => hkept ⟨parent, hparent, h⟩⟩

@[simp] theorem isSome_enqueueWaiting :
    (t.enqueueWaiting uuid other).isSome = (t other).isSome :=
  Option.isSome_map ..

theorem foldl_store_of_notMem {vertices : List Vertex} (f : Vertex → Job)
    (h : ∀ vertex ∈ vertices, vertex.uuid ≠ uuid) :
    vertices.foldl (fun t vertex => t.store vertex.uuid (f vertex)) t uuid = t uuid := by
  induction vertices generalizing t with
  | nil => rfl
  | cons vertex vertices ih =>
      rw [List.foldl_cons, ih fun v hv => h v (List.mem_cons_of_mem _ hv)]
      exact store_of_ne (h vertex List.mem_cons_self).symm

theorem foldl_store_of_mem {vertices : List Vertex} (f : Vertex → Job)
    (hnodup : (vertices.map (·.uuid)).Nodup) {vertex : Vertex} (h : vertex ∈ vertices) :
    vertices.foldl (fun t vertex => t.store vertex.uuid (f vertex)) t vertex.uuid =
      some (f vertex) := by
  induction vertices generalizing t with
  | nil => cases h
  | cons v vertices ih =>
      obtain ⟨hv, hnodup⟩ := List.nodup_cons.mp hnodup
      rcases List.mem_cons.mp h with rfl | h
      · rw [List.foldl_cons, foldl_store_of_notMem]
        · exact store_self
        · intro v hmem heq
          exact hv (List.mem_map.mpr ⟨v, hmem, heq⟩)
      · exact ih hnodup h

theorem delay_of_notMem {graphUuid : String} {vertices : List Vertex}
    {edges : List (String × String)} (h : ∀ vertex ∈ vertices, vertex.uuid ≠ uuid) :
    t.delay graphUuid vertices edges uuid = t uuid := by
  unfold delay
  split
  · rfl
  · exact foldl_store_of_notMem _ h

theorem delay_of_mem {graphUuid : String} {vertices : List Vertex} {edges : List (String × String)}
    (hnodup : (vertices.map (·.uuid)).Nodup) (hloop : ∀ edge ∈ edges, edge.1 ≠ edge.2)
    {vertex : Vertex} (h : vertex ∈ vertices) :
    t.delay graphUuid vertices edges vertex.uuid =
      some (generatedJob graphUuid vertices edges vertex) := by
  rw [delay, if_neg fun ⟨edge, hedge, heq⟩ => hloop edge hedge heq]
  exact foldl_store_of_mem _ hnodup h

/-- A row after a graph has been delayed is a generated job or an old row. -/
theorem delay_cases {graphUuid : String} {vertices : List Vertex} {edges : List (String × String)}
    (hnodup : (vertices.map (·.uuid)).Nodup)
    (h : t.delay graphUuid vertices edges uuid = some job) :
    t uuid = some job ∨ (∃ vertex ∈ vertices, vertex.uuid = uuid ∧
      job = generatedJob graphUuid vertices edges vertex) ∧ ∀ edge ∈ edges, edge.1 ≠ edge.2 := by
  by_cases hmem : ∃ vertex ∈ vertices, vertex.uuid = uuid
  · obtain ⟨vertex, hvertex, rfl⟩ := hmem
    by_cases hloop : ∃ edge ∈ edges, edge.1 = edge.2
    · rw [delay, if_pos hloop] at h
      exact .inl h
    · push Not at hloop
      rw [delay_of_mem hnodup hloop hvertex] at h
      exact .inr ⟨⟨vertex, hvertex, rfl, (Option.some.inj h).symm⟩, hloop⟩
  · rw [delay_of_notMem fun v hv heq => hmem ⟨v, hv, heq⟩] at h
    exact .inl h

end JobTable

end JobRunner

end Fastrak
