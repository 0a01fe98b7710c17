import Fastrak.JobRunner.Graph
import Fastrak.Library.Worklist

/-!
# Delayables

A delayable is a job, a chain or a group, each with a graph of its own; the numbers of the
delayables stand for the objects. `delay` connects the graphs of all that can be reached from
the object it is called on, to one graph of jobs: an edge between two delayables becomes the
edges from the tails of the one to the heads of the other. The head of a chain gives its tails,
and the tail of a chain its heads.
-/

namespace Fastrak

namespace JobRunner

open Worklist

inductive Shape
  | job
  /-- `__head`, and the delayables of the chain that follow; the last one is `__tail`. -/
  | chain (head : ℕ) (rest : List ℕ)
  | group (delayables : List ℕ)
  deriving DecidableEq

structure Delayable where
  shape : Shape
  graph : Graph ℕ

/-- What is constructed, and connected by `on_done`. -/
inductive Construction
  | delayable
  | chain (head : ℕ) (rest : List ℕ)
  | group (delayables : List ℕ)
  | onDone (parent : ℕ) (delayables : List ℕ)

namespace Shape

/-- The delayables that the shape is made of. -/
def parts : Shape → List ℕ
  | job => []
  | chain head rest => head :: rest
  | group delayables => delayables

/-- The vertices of the graph of a new object with this number. -/
def ownVertices (i : ℕ) : Shape → List ℕ
  | job => [i]
  | chain head rest => head :: rest
  | group delayables => delayables

/-- The vertices that `on_done` connects. -/
def lastVertices (i : ℕ) : Shape → List ℕ
  | job => [i]
  | chain head rest => [rest.getLastD head]
  | group delayables => delayables

end Shape

/-- The loop of `DelayableChain.__init__`. -/
def link : ℕ → List ℕ → Graph ℕ → Graph ℕ
  | _, [], graph => graph
  | head, neighbour :: rest, graph => link neighbour rest (graph.addEdge head neighbour)

namespace Delayable

def ofJob (i : ℕ) : Delayable := ⟨.job, Graph.empty.addVertex i⟩

def ofChain (head : ℕ) (rest : List ℕ) : Delayable :=
  ⟨.chain head rest, link head rest (Graph.empty.addVertex head)⟩

def ofGroup (delayables : List ℕ) : Delayable :=
  ⟨.group delayables.dedup, delayables.foldl (fun graph v => graph.addVertex v) Graph.empty⟩

/-- `on_done(*delayables)` -/
def onDone (i : ℕ) (delayables : List ℕ) (o : Delayable) : Delayable :=
  { o with graph := (o.shape.lastVertices i).foldl (fun graph parent =>
      delayables.foldl (fun graph child => graph.addEdge parent child) graph) o.graph }

end Delayable

/-- The objects, by number. -/
abbrev Delayables := List Delayable

namespace Delayables

/-- One construction. The delayables that it takes exist. -/
def step (os : Delayables) : Construction → Delayables
  | .delayable => os ++ [.ofJob os.length]
  | .chain head rest =>
      if ∀ i ∈ head :: rest, i < os.length then os ++ [.ofChain head rest] else os
  | .group delayables =>
      if ∀ i ∈ delayables, i < os.length then os ++ [.ofGroup delayables] else os
  | .onDone parent delayables =>
      if ∀ i ∈ delayables, i < os.length then os.modify parent (Delayable.onDone parent delayables)
      else os

/-- `_graph` -/
def graph (os : Delayables) (i : ℕ) : Graph ℕ := (os[i]?.map (·.graph)).getD Graph.empty

def shape (os : Delayables) (i : ℕ) : Option Shape := os[i]?.map (·.shape)

mutual

/-- `_head()`, at most `n` calls deep. -/
def heads (os : Delayables) : ℕ → ℕ → List ℕ
  | 0, _ => []
  | n + 1, i =>
      match os.shape i with
      | some .job => [i]
      | some (.chain head _) => os.tails n head
      | some (.group delayables) => delayables.flatMap fun node => os.heads n node
      | none => []

/-- `_tail()`, at most `n` calls deep. -/
def tails (os : Delayables) : ℕ → ℕ → List ℕ
  | 0, _ => []
  | n + 1, i =>
      match os.shape i with
      | some .job => [i]
      | some (.chain head rest) => os.heads n (rest.getLastD head)
      | some (.group delayables) => delayables.flatMap fun node => os.tails n node
      | none => []

end

/-- `_head()`. An object is made of objects with smaller numbers. -/
def head (os : Delayables) (i : ℕ) : List ℕ := os.heads (i + 1) i

/-- `_tail()` -/
def tail (os : Delayables) (i : ℕ) : List ℕ := os.tails (i + 1) i

/-- `_merge_graph(graph)` -/
def mergeGraph (os : Delayables) (graph merged : Graph ℕ) : Graph ℕ :=
  graph.entries.foldl (fun merged entry =>
    (os.tail entry.1).foldl (fun merged tail => merged.update tail (entry.2.flatMap os.head))
      merged) merged

/-- `_connect_graphs()` of the graph of the object `start`. -/
def connectGraphs (os : Delayables) (start : ℕ) : Graph ℕ :=
  loop (fun current => (os.graph current).vertices)
    (fun current merged => (os.graph current).vertices.foldl
      (fun merged vertex => os.mergeGraph (os.graph vertex) merged) merged)
    (1 + ((List.range os.length).map fun i => (os.graph i).vertices.length).sum) [] [start]
    (os.mergeGraph (os.graph start) Graph.empty)

end Delayables

end JobRunner

end Fastrak
