import Mathlib.Data.Finset.Insert
import Mathlib.Data.Int.Notation
import Fastrak.Library.DirectedGraph

/-!
# Graphs of jobs

A graph has for each of its vertices the set of the vertices that depend on it. Python
enumerates a set in an order of its own: the lists here are in that order, and the sort
takes the root vertices in any order.
-/

namespace Fastrak

namespace JobRunner

universe u

structure Graph (V : Type u) where
  entries : List (V × List V)
  nodup_vertices : (entries.map Prod.fst).Nodup
  nodup_children : ∀ entry ∈ entries, entry.2.Nodup

namespace Graph

variable {V : Type u}

def empty : Graph V := ⟨[], List.nodup_nil, by simp⟩

/-- `vertices()` -/
def vertices (g : Graph V) : List V := g.entries.map Prod.fst

/-- `edges()` -/
def edges (g : Graph V) : List (V × V) :=
  g.entries.flatMap fun entry => entry.2.map (entry.1, ·)

theorem nodup_edges (g : Graph V) : g.edges.Nodup := by
  refine List.nodup_flatMap.mpr ⟨fun entry hentry => ?_, ?_⟩
  · exact (g.nodup_children entry hentry).map fun _ _ h => (Prod.mk.inj h).2
  · refine (List.pairwise_map.mp g.nodup_vertices).imp fun {a b} hne => ?_
    rw [Function.onFun_apply, List.disjoint_left]
    rintro edge ha hb
    obtain ⟨c, -, rfl⟩ := List.mem_map.mp ha
    obtain ⟨d, -, heq⟩ := List.mem_map.mp hb
    exact hne (Prod.mk.inj heq).1.symm

variable [DecidableEq V]

/-- The set that the graph has for the vertex. -/
def children (g : Graph V) (v : V) : List V := (g.entries.lookup v).getD []

def Edge (g : Graph V) (parent child : V) : Prop := child ∈ g.children parent

instance (g : Graph V) (parent child : V) : Decidable (g.Edge parent child) :=
  inferInstanceAs (Decidable (_ ∈ _))

/-- Every child is a vertex. -/
def Closed (g : Graph V) : Prop := ∀ p c, g.Edge p c → c ∈ g.vertices

/-- `add_vertex(vertex)` -/
def addVertex (v : V) (g : Graph V) : Graph V :=
  if h : v ∈ g.vertices then g
  else
    { entries := g.entries ++ [(v, [])]
      nodup_vertices := by
        rw [List.map_append, List.nodup_append]
        refine ⟨g.nodup_vertices, List.nodup_singleton v, fun a ha b hb heq => h ?_⟩
        obtain rfl : b = v := by simpa using hb
        exact heq ▸ ha
      nodup_children := by
        intro entry hentry
        rcases List.mem_append.mp hentry with hentry | hentry
        · exact g.nodup_children entry hentry
        · obtain rfl : entry = (v, []) := by simpa using hentry
          exact List.nodup_nil }

/-- `_graph[parent].update(children)` -/
def insertChildren (parent : V) (children : List V) (g : Graph V) : Graph V where
  entries := g.entries.map fun entry =>
    if entry.1 = parent then (entry.1, children ∪ entry.2) else entry
  nodup_vertices := by
    have hsame : (g.entries.map fun entry =>
        if entry.1 = parent then (entry.1, children ∪ entry.2) else entry).map Prod.fst =
        g.entries.map Prod.fst := by
      rw [List.map_map]
      refine List.map_congr_left fun entry _ => ?_
      rw [Function.comp_apply]
      split <;> rfl
    rw [hsame]
    exact g.nodup_vertices
  nodup_children := by
    intro entry hentry
    obtain ⟨entry, hmem, rfl⟩ := List.mem_map.mp hentry
    split
    · exact (g.nodup_children entry hmem).union _
    · exact g.nodup_children entry hmem

/-- `_graph.setdefault(parent, set()).update(children)` -/
def update (parent : V) (children : List V) (g : Graph V) : Graph V :=
  (g.addVertex parent).insertChildren parent children

/-- `add_edge(parent, child)` -/
def addEdge (parent child : V) (g : Graph V) : Graph V :=
  (g.addVertex child).update parent [child]

/-- `root_vertices()`: they do not depend on any other. -/
def rootVertices (g : Graph V) : List V :=
  g.vertices.filter fun v => ∀ entry ∈ g.entries, v ∉ entry.2

/-- `depends_per_node` -/
def dependsPerNode (g : Graph V) : V → ℤ :=
  g.edges.foldl (fun depends edge => Function.update depends edge.2 (depends edge.2 + 1))
    fun _ => 0

/-- The loop of `topological_sort` over the children of the vertex that is yielded. -/
def resolve : List V → (V → ℤ) × List V → (V → ℤ) × List V
  | [], s => s
  | node :: nodes, (depends, queue) =>
      let depends := Function.update depends node (depends node - 1)
      resolve nodes (depends, if depends node = 0 then queue ++ [node] else queue)

/-- The loop of `topological_sort` over the queue, for at most `n` rounds. -/
def sortLoop (g : Graph V) : ℕ → (V → ℤ) × List V → List V
  | 0, _ => []
  | _, (_, []) => []
  | n + 1, (depends, vertex :: queue) =>
      vertex :: g.sortLoop n (resolve (g.children vertex) (depends, queue))

/-- `topological_sort()`, from the root vertices in the order of the queue. -/
def topologicalSort (g : Graph V) (queue : List V) : List V :=
  g.sortLoop g.vertices.length (g.dependsPerNode, queue)

/-- `search()` of `paths`, where the path so far is `before ++ [vertex]` and `seen` the set of
its vertices; at most `n` calls deep. -/
def search (g : Graph V) : ℕ → List V → V → Finset V → List (List V)
  | 0, _, _, _ => []
  | n + 1, before, vertex, seen =>
      let path := before ++ [vertex]
      let deadEnd := ∀ neighbour ∈ g.children vertex, neighbour ∈ seen
      ((g.children vertex).flatMap fun neighbour =>
        if neighbour ∈ seen then [] else g.search n path neighbour (insert neighbour seen)) ++
      if deadEnd then [path] else []

/-- `paths(vertex)`. It raises a `KeyError` if there is no such vertex. -/
def paths (g : Graph V) (v : V) : Option (List (List V)) :=
  if v ∈ g.vertices then some (g.search g.vertices.length [] v {v}) else none

/-- The paths that `__repr__` writes, a line for each. -/
def reprPaths (g : Graph V) : List (List V) :=
  g.rootVertices.flatMap fun v => (g.paths v).getD []

/-- The line of a path, with the texts of its vertices. -/
def reprLine (vertexRepr : V → String) (path : List V) : String :=
  " → ".intercalate (path.map vertexRepr)

/-- `__repr__()` -/
def reprText (vertexRepr : V → String) (g : Graph V) : String :=
  "\n".intercalate (g.reprPaths.map (reprLine vertexRepr))

section Edges

variable {g : Graph V} {v w p c : V} {cs : List V}

/-- The entry of a vertex has its children. -/
theorem mem_entries_iff : (v, cs) ∈ g.entries ↔ v ∈ g.vertices ∧ g.children v = cs := by
  constructor
  · intro h
    refine ⟨List.mem_map_of_mem h, ?_⟩
    obtain ⟨before, after, heq⟩ := List.append_of_mem h
    have hnodup := g.nodup_vertices
    rw [heq, List.map_append, List.map_cons, List.nodup_append] at hnodup
    have hlookup : g.entries.lookup v = some cs := by
      refine List.lookup_eq_some_iff.mpr ⟨before, after, heq, fun entry hentry => ?_⟩
      have hne := hnodup.2.2 entry.1 (List.mem_map_of_mem hentry) v List.mem_cons_self
      simpa using hne.symm
    rw [children, hlookup]
    rfl
  · rintro ⟨hv, rfl⟩
    obtain ⟨entry, hentry, rfl⟩ := List.mem_map.mp hv
    have hsome : (g.entries.lookup entry.1).isSome :=
      List.lookup_isSome_iff.mpr ⟨entry, hentry, by simp⟩
    obtain ⟨cs, hcs⟩ := Option.isSome_iff_exists.mp hsome
    obtain ⟨before, after, heq, -⟩ := List.lookup_eq_some_iff.mp hcs
    rw [children, hcs, Option.getD_some, heq]
    exact List.mem_append_right _ List.mem_cons_self

theorem Edge.parent_mem (h : g.Edge p c) : p ∈ g.vertices := by
  unfold Edge children at h
  cases hlookup : g.entries.lookup p with
  | none => simp [hlookup] at h
  | some cs =>
      obtain ⟨before, after, heq, -⟩ := List.lookup_eq_some_iff.mp hlookup
      have hentry : (p, cs) ∈ g.entries := by
        rw [heq]
        exact List.mem_append_right _ List.mem_cons_self
      exact (mem_entries_iff.mp hentry).1

theorem edge_iff : g.Edge p c ↔ ∃ cs, (p, cs) ∈ g.entries ∧ c ∈ cs := by
  constructor
  · intro h
    exact ⟨_, mem_entries_iff.mpr ⟨h.parent_mem, rfl⟩, h⟩
  · rintro ⟨cs, hentry, hc⟩
    rwa [Edge, (mem_entries_iff.mp hentry).2]

theorem mem_edges_iff : (p, c) ∈ g.edges ↔ g.Edge p c := by
  rw [edge_iff]
  simp only [edges, List.mem_flatMap, List.mem_map, Prod.mk.injEq]
  constructor
  · rintro ⟨⟨parent, cs⟩, hentry, child, hchild, rfl, rfl⟩
    exact ⟨cs, hentry, hchild⟩
  · rintro ⟨cs, hentry, hc⟩
    exact ⟨(p, cs), hentry, c, hc, rfl, rfl⟩

theorem children_nodup (g : Graph V) (v : V) : (g.children v).Nodup := by
  by_cases h : v ∈ g.vertices
  · exact g.nodup_children _ (mem_entries_iff.mpr ⟨h, rfl⟩)
  · have hnil : g.children v = [] :=
      List.eq_nil_iff_forall_not_mem.mpr fun c (hc : g.Edge v c) => h hc.parent_mem
    rw [hnil]
    exact List.nodup_nil

theorem mem_rootVertices_iff : v ∈ g.rootVertices ↔ v ∈ g.vertices ∧ ∀ p, ¬ g.Edge p v := by
  simp only [rootVertices, List.mem_filter, decide_eq_true_eq, and_congr_right_iff, edge_iff]
  intro _
  constructor
  · rintro h p ⟨cs, hentry, hv⟩
    exact h (p, cs) hentry hv
  · rintro h ⟨p, cs⟩ hentry hv
    exact h p ⟨cs, hentry, hv⟩

section Update

theorem mem_vertices_addVertex_iff : w ∈ (g.addVertex v).vertices ↔ w = v ∨ w ∈ g.vertices := by
  unfold addVertex
  split
  · rename_i h
    exact ⟨.inr, fun hw => hw.elim (fun heq => heq ▸ h) id⟩
  · rw [vertices, List.map_append, List.mem_append, or_comm]
    simp [vertices]

theorem edge_addVertex_iff : (g.addVertex v).Edge p c ↔ g.Edge p c := by
  unfold addVertex
  split
  · rfl
  · rw [edge_iff, edge_iff]
    refine exists_congr fun cs => ⟨?_, fun h => ⟨List.mem_append_left _ h.1, h.2⟩⟩
    rintro ⟨hentry, hc⟩
    rcases List.mem_append.mp hentry with hentry | hentry
    · exact ⟨hentry, hc⟩
    · obtain ⟨rfl, rfl⟩ : p = v ∧ cs = [] := by simpa using hentry
      simp at hc

theorem vertices_insertChildren : (g.insertChildren v cs).vertices = g.vertices := by
  rw [vertices, insertChildren, List.map_map]
  refine List.map_congr_left fun entry _ => ?_
  rw [Function.comp_apply]
  split <;> rfl

theorem edge_insertChildren_iff :
    (g.insertChildren v cs).Edge p c ↔ g.Edge p c ∨ p = v ∧ v ∈ g.vertices ∧ c ∈ cs := by
  rw [edge_iff, edge_iff]
  simp only [insertChildren, List.mem_map]
  constructor
  · rintro ⟨cs', ⟨⟨p', old⟩, hentry, heq⟩, hc⟩
    dsimp only at heq
    split at heq
    · rename_i hparent
      obtain ⟨rfl, rfl⟩ := Prod.mk.inj heq
      rcases List.mem_union_iff.mp hc with hc | hc
      · exact .inr ⟨hparent, hparent ▸ List.mem_map_of_mem hentry, hc⟩
      · exact .inl ⟨old, hentry, hc⟩
    · obtain ⟨rfl, rfl⟩ := Prod.mk.inj heq
      exact .inl ⟨old, hentry, hc⟩
  · rintro (⟨old, hentry, hc⟩ | ⟨rfl, hv, hc⟩)
    · by_cases hparent : p = v
      · exact ⟨cs ∪ old, ⟨(p, old), hentry, by simp [hparent]⟩, List.mem_union_right _ hc⟩
      · exact ⟨old, ⟨(p, old), hentry, by simp [hparent]⟩, hc⟩
    · obtain ⟨⟨p, old⟩, hentry, rfl⟩ := List.mem_map.mp hv
      exact ⟨cs ∪ old, ⟨(p, old), hentry, by simp⟩, List.mem_union_left hc _⟩

theorem mem_vertices_update_iff : w ∈ (g.update v cs).vertices ↔ w = v ∨ w ∈ g.vertices := by
  rw [update, vertices_insertChildren, mem_vertices_addVertex_iff]

theorem edge_update_iff : (g.update v cs).Edge p c ↔ g.Edge p c ∨ p = v ∧ c ∈ cs := by
  rw [update, edge_insertChildren_iff, edge_addVertex_iff, mem_vertices_addVertex_iff]
  simp

theorem closed_empty : Closed (empty : Graph V) := by
  intro p c h
  obtain ⟨cs, hentry, -⟩ := edge_iff.mp h
  simp [empty] at hentry

theorem Closed.addVertex (h : g.Closed) (v : V) : (g.addVertex v).Closed := fun p c hedge =>
  mem_vertices_addVertex_iff.mpr (.inr (h p c (edge_addVertex_iff.mp hedge)))

theorem Closed.addEdge (h : g.Closed) (v w : V) : (g.addEdge v w).Closed := by
  intro p c hedge
  rw [Graph.addEdge, mem_vertices_update_iff]
  rcases edge_update_iff.mp hedge with hedge | ⟨-, hc⟩
  · exact .inr (h.addVertex w p c hedge)
  · obtain rfl : c = w := by simpa using hc
    exact .inr (mem_vertices_addVertex_iff.mpr (.inl rfl))

end Update

end Edges

end Graph

end JobRunner

end Fastrak
