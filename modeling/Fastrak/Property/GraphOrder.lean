import Mathlib.Data.Int.Cast.Lemmas
import Fastrak.JobRunner.Graph

/-!
# The order of a graph

`topological_sort` yields exactly the vertices that no cycle leads to, each once and after all
its parents, whatever the order of the root vertices. While it runs, `depends_per_node` counts
the parents of a vertex that have not been yielded, and the vertices without such a parent are
those that have been yielded or stand in the queue.
-/

namespace Fastrak

namespace JobRunner

namespace Graph

open DirectedGraph Relation

universe u

variable {V : Type u} [DecidableEq V] {g : Graph V} {depends : V → ℤ} {done queue : List V}
  {v w : V}

/-- The parents of the vertex that are not done. -/
def waitsFor (g : Graph V) (done : List V) (v : V) : List V :=
  g.vertices.filter fun p => v ∈ g.children p ∧ p ∉ done

/-- What holds whenever `topological_sort` looks at its queue. -/
structure Sorting (g : Graph V) (done queue : List V) (depends : V → ℤ) : Prop where
  nodup : (done ++ queue).Nodup
  subset : done ++ queue ⊆ g.vertices
  counts : ∀ v, depends v = (g.waitsFor done v).length
  ready : ∀ v ∈ g.vertices, v ∈ done ++ queue ↔ depends v = 0
  first : ParentsFirst g.Edge done

theorem mem_waitsFor_iff {p : V} : p ∈ g.waitsFor done v ↔ g.Edge p v ∧ p ∉ done := by
  simp only [waitsFor, List.mem_filter, Bool.decide_and, Bool.and_eq_true, decide_eq_true_eq]
  exact ⟨fun h => h.2, fun h => ⟨h.1.parent_mem, h⟩⟩

theorem nodup_waitsFor : (g.waitsFor done v).Nodup := List.Nodup.filter _ g.nodup_vertices

theorem waitsFor_eq_nil_iff : g.waitsFor done v = [] ↔ ∀ p, g.Edge p v → p ∈ done := by
  rw [List.eq_nil_iff_forall_not_mem]
  simp only [mem_waitsFor_iff, not_and, not_not]

/-- A vertex that is done is no more waited for. -/
theorem length_waitsFor_append (hw : w ∉ done) :
    ((g.waitsFor (done ++ [w]) v).length : ℤ) =
      (g.waitsFor done v).length - if g.Edge w v then 1 else 0 := by
  have herase : g.waitsFor (done ++ [w]) v = (g.waitsFor done v).erase w := by
    rw [nodup_waitsFor.erase_eq_filter, waitsFor, waitsFor, List.filter_filter]
    refine List.filter_congr fun p _ => ?_
    by_cases hp : p = w <;> simp [hp]
  rw [herase, List.length_erase]
  by_cases hedge : g.Edge w v
  · have hmem : w ∈ g.waitsFor done v := mem_waitsFor_iff.mpr ⟨hedge, hw⟩
    have hpos := List.length_pos_of_mem hmem
    rw [if_pos hmem, if_pos hedge]
    omega
  · have hnot : w ∉ g.waitsFor done v := fun h => hedge (mem_waitsFor_iff.mp h).1
    rw [if_neg hnot, if_neg hedge, sub_zero]

/-- The loop over the children lowers their counts and takes those that reach zero. -/
theorem resolve_eq {nodes : List V} (hnodup : nodes.Nodup) :
    resolve nodes (depends, queue) =
      (fun v => depends v - if v ∈ nodes then 1 else 0,
        queue ++ nodes.filter fun v => depends v = 1) := by
  induction nodes generalizing depends queue with
  | nil => simp [resolve]
  | cons node nodes ih =>
      obtain ⟨hnode, hnodup⟩ := List.nodup_cons.mp hnodup
      rw [resolve, ih hnodup, Prod.mk.injEq]
      constructor
      · funext v
        by_cases hv : v = node
        · subst hv
          simp [hnode]
        · simp [hv]
      · have hsame : (nodes.filter fun v =>
            Function.update depends node (depends node - 1) v = 1) =
            nodes.filter fun v => depends v = 1 := by
          refine List.filter_congr fun v hv => ?_
          rw [Function.update_of_ne (ne_of_mem_of_not_mem hv hnode)]
        rw [hsame, Function.update_self, List.filter_cons]
        by_cases hone : depends node = 1
        · simp [hone]
        · have hzero : depends node - 1 ≠ 0 := fun h => hone (by omega)
          simp [hone, hzero]

/-- One round of the loop keeps what holds at the queue. -/
theorem Sorting.step (hclosed : g.Closed) (h : Sorting g done (v :: queue) depends) :
    Sorting g (done ++ [v]) (resolve (g.children v) (depends, queue)).2
      (resolve (g.children v) (depends, queue)).1 := by
  have hv : v ∈ g.vertices := h.subset (by simp)
  have hnodup := h.nodup
  have hdone : v ∉ done := by
    intro hmem
    exact (List.nodup_append.mp hnodup).2.2 v hmem v List.mem_cons_self rfl
  have hparents : ∀ p, g.Edge p v → p ∈ done := by
    have hzero : depends v = 0 := (h.ready v hv).mp (by simp)
    rw [h.counts v] at hzero
    exact waitsFor_eq_nil_iff.mp (List.length_eq_zero_iff.mp (by omega))
  rw [resolve_eq (g.children_nodup v)]
  dsimp only
  set released := (g.children v).filter fun w => depends w = 1 with hreleased
  have hnew : ∀ w, w ∈ released ↔ g.Edge v w ∧ depends w = 1 := by
    simp [hreleased, Edge]
  have hlist : done ++ [v] ++ (queue ++ released) = done ++ v :: queue ++ released := by simp
  refine ⟨?_, ?_, fun w => ?_, fun w hw => ?_, h.first.append_singleton hparents⟩
  · rw [hlist, List.nodup_append]
    refine ⟨hnodup, (g.children_nodup v).filter _, fun a ha b hb heq => ?_⟩
    subst heq
    have hzero := (h.ready a (h.subset ha)).mp ha
    have hone := ((hnew a).mp hb).2
    omega
  · rw [hlist]
    refine List.append_subset.mpr ⟨h.subset, fun w hw => ?_⟩
    exact hclosed v w ((hnew w).mp hw).1
  · rw [length_waitsFor_append hdone, h.counts w]
    rfl
  · rw [hlist, List.mem_append, h.ready w hw, hnew]
    by_cases hedge : g.Edge v w
    · have hpos : 0 < depends w := by
        rw [h.counts w]
        exact_mod_cast List.length_pos_of_mem (mem_waitsFor_iff.mpr ⟨hedge, hdone⟩)
      have hchild : w ∈ g.children v := hedge
      rw [if_pos hchild]
      constructor
      · rintro (hzero | ⟨-, hone⟩) <;> omega
      · intro hone
        exact .inr ⟨hedge, by omega⟩
    · have hchild : w ∉ g.children v := hedge
      rw [if_neg hchild, sub_zero]
      exact or_iff_left fun hboth => hedge hboth.1

/-- The loop ends with an empty queue: there are at most as many rounds as vertices. -/
theorem Sorting.loop (hclosed : g.Closed) (h : Sorting g done queue depends) {n : ℕ}
    (hn : g.vertices.length ≤ done.length + n) :
    ∃ depends', Sorting g (done ++ g.sortLoop n (depends, queue)) [] depends' := by
  induction n generalizing done queue depends with
  | zero =>
      have hlength := (h.nodup.subperm h.subset).length_le
      rw [List.length_append] at hlength
      obtain rfl : queue = [] := List.length_eq_zero_iff.mp (by omega)
      exact ⟨depends, by simpa [sortLoop] using h⟩
  | succ n ih =>
      cases queue with
      | nil => exact ⟨depends, by simpa [sortLoop] using h⟩
      | cons v queue =>
          have hlength : g.vertices.length ≤ (done ++ [v]).length + n := by
            rw [List.length_append, List.length_singleton]
            omega
          have hrest := ih (h.step hclosed) hlength
          rw [List.append_assoc] at hrest
          exact hrest

theorem foldl_depends (edges : List (V × V)) :
    edges.foldl (fun depends edge => Function.update depends edge.2 (depends edge.2 + 1))
        depends v =
      depends v + (edges.filter fun edge => edge.2 = v).length := by
  induction edges generalizing depends with
  | nil => simp
  | cons edge edges ih =>
      rw [List.foldl_cons, ih, List.filter_cons]
      by_cases hv : edge.2 = v
      · subst hv
        rw [Function.update_self, if_pos (by simp), List.length_cons]
        push_cast
        omega
      · rw [Function.update_of_ne (Ne.symm hv), if_neg (by simpa using hv)]

theorem dependsPerNode_eq (g : Graph V) (v : V) :
    g.dependsPerNode v = (g.waitsFor [] v).length := by
  rw [dependsPerNode, foldl_depends, zero_add]
  have hperm : ((g.edges.filter fun edge => edge.2 = v).map Prod.fst).Perm (g.waitsFor [] v) := by
    refine (List.perm_ext_iff_of_nodup ?_ nodup_waitsFor).mpr fun p => ?_
    · refine ((nodup_edges g).filter _).map_on fun a ha b hb heq => ?_
      have hav : a.2 = v := by simpa using (List.mem_filter.mp ha).2
      have hbv : b.2 = v := by simpa using (List.mem_filter.mp hb).2
      exact Prod.ext heq (hav.trans hbv.symm)
    · simp [mem_waitsFor_iff, mem_edges_iff]
  rw [← hperm.length_eq, List.length_map]

/-- At the start the root vertices are in the queue. -/
theorem sorting_rootVertices (g : Graph V) (hqueue : queue.Perm g.rootVertices) :
    Sorting g [] queue g.dependsPerNode where
  nodup := hqueue.nodup_iff.mpr (g.nodup_vertices.filter _)
  subset := fun _ hv => (mem_rootVertices_iff.mp (hqueue.mem_iff.mp hv)).1
  counts := dependsPerNode_eq g
  ready v hv := by
    rw [List.nil_append, hqueue.mem_iff, mem_rootVertices_iff, dependsPerNode_eq,
      Nat.cast_eq_zero, List.length_eq_zero_iff, waitsFor_eq_nil_iff]
    simp [hv]
  first := .nil

/-- `topological_sort` yields the vertices that no cycle leads to, each once and after all its
parents. -/
theorem topologicalSort_spec (hclosed : g.Closed) (hqueue : queue.Perm g.rootVertices) :
    (g.topologicalSort queue).Nodup ∧ ParentsFirst g.Edge (g.topologicalSort queue) ∧
      ∀ v, v ∈ g.topologicalSort queue ↔ v ∈ g.vertices ∧ Founded g.Edge v := by
  obtain ⟨depends, h⟩ :=
    (sorting_rootVertices g hqueue).loop hclosed (n := g.vertices.length) (by simp)
  have hnodup := h.nodup
  have hsubset := h.subset
  have hready := h.ready
  have hfirst := h.first
  rw [List.nil_append] at hfirst
  rw [List.append_nil, List.nil_append] at hnodup hsubset
  simp only [List.append_nil, List.nil_append, h.counts, Nat.cast_eq_zero,
    List.length_eq_zero_iff, waitsFor_eq_nil_iff] at hready
  refine ⟨hnodup, hfirst, fun v => ⟨fun hv => ⟨hsubset hv, hfirst.founded hv⟩, fun hv => ?_⟩⟩
  exact mem_of_founded (fun _ _ => Edge.parent_mem) (fun v hv => (hready v hv).mpr) hv.2 hv.1

theorem topologicalSort_spec_of_three_vertices :
    (((empty.addEdge 1 2).addEdge 2 3).addEdge 1 3 |>.topologicalSort [1]).Nodup ∧
      ParentsFirst (((empty.addEdge 1 2).addEdge 2 3).addEdge 1 3).Edge
        (((empty.addEdge 1 2).addEdge 2 3).addEdge 1 3 |>.topologicalSort [1]) ∧
      ∀ v, v ∈ (((empty.addEdge 1 2).addEdge 2 3).addEdge 1 3 |>.topologicalSort [1]) ↔
        v ∈ (((empty.addEdge 1 2).addEdge 2 3).addEdge 1 3).vertices ∧
          Founded (((empty.addEdge 1 2).addEdge 2 3).addEdge 1 3).Edge v := by
  have hroots : [1].Perm (((empty.addEdge 1 2).addEdge 2 3).addEdge 1 3).rootVertices := by
    decide +kernel
  exact topologicalSort_spec (((closed_empty.addEdge 1 2).addEdge 2 3).addEdge 1 3) hroots

end Graph

end JobRunner

end Fastrak
