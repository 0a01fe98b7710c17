import Fastrak.JobRunner.Graph

/-!
# The paths of a graph

`paths` finds the maximal cycle-free paths from a vertex, each once: those that cannot be
continued to a vertex that is not on them. The text of a graph without a cycle has a line for
each path from a root vertex to a vertex without children, and every edge is on a line.
-/

namespace Fastrak

namespace JobRunner

namespace Graph

open DirectedGraph Relation

universe u

variable {V : Type u} [DecidableEq V] {g : Graph V} {before path : List V} {v w p c : V}
  {seen : Finset V}

/-- `path` starts with `before` and goes on from `v` as far as it can without a cycle. -/
structure Continues (g : Graph V) (before : List V) (v : V) (path : List V) (rest : List V) :
    Prop where
  eq : path = before ++ v :: rest
  chain : (v :: rest).IsChain g.Edge
  nodup : path.Nodup
  maximal : ∀ last ∈ (v :: rest).getLast?, ∀ c, g.Edge last c → c ∈ path

/-- A maximal cycle-free path from `v`. -/
structure MaximalPath (g : Graph V) (v : V) (path : List V) : Prop where
  head : path.head? = some v
  chain : path.IsChain g.Edge
  nodup : path.Nodup
  maximal : ∀ last ∈ path.getLast?, ∀ c, g.Edge last c → c ∈ path

theorem Continues.of_deadEnd (hnodup : (before ++ [v]).Nodup)
    (hdead : ∀ c, g.Edge v c → c ∈ before ++ [v]) : g.Continues before v (before ++ [v]) [] where
  eq := rfl
  chain := List.isChain_singleton v
  nodup := hnodup
  maximal last hlast c hc := by
    obtain rfl : v = last := by simpa using hlast
    exact hdead c hc

theorem Continues.cons {rest : List V} (h : g.Continues (before ++ [v]) w path rest)
    (hw : g.Edge v w) : g.Continues before v path (w :: rest) where
  eq := by rw [h.eq, List.append_assoc, List.singleton_append]
  chain := List.isChain_cons_cons.mpr ⟨hw, h.chain⟩
  nodup := h.nodup
  maximal := by
    rw [List.getLast?_cons_cons]
    exact h.maximal

/-- A path ends at the vertex, or goes on over one of its children. -/
theorem Continues.cases {rest : List V} (h : g.Continues before v path rest) :
    (path = before ++ [v] ∧ ∀ c, g.Edge v c → c ∈ before ++ [v]) ∨
      ∃ w rest', g.Edge v w ∧ w ∉ before ++ [v] ∧ g.Continues (before ++ [v]) w path rest' := by
  cases rest with
  | nil =>
      refine .inl ⟨h.eq, fun c hc => ?_⟩
      rw [← h.eq]
      exact h.maximal v (by simp) c hc
  | cons w rest =>
      obtain ⟨hw, hchain⟩ := List.isChain_cons_cons.mp h.chain
      have heq : path = before ++ [v] ++ w :: rest := by
        rw [h.eq, List.append_assoc, List.singleton_append]
      have hnot : w ∉ before ++ [v] := by
        intro hmem
        have hnodup := h.nodup
        rw [heq, List.nodup_append] at hnodup
        exact hnodup.2.2 w hmem w List.mem_cons_self rfl
      refine .inr ⟨w, rest, hw, hnot, heq, hchain, h.nodup, ?_⟩
      have hmaximal := h.maximal
      rwa [List.getLast?_cons_cons] at hmaximal

omit [DecidableEq V] in
/-- There is room below a path that can go on: its vertices are vertices of the graph. -/
theorem length_lt_of_nodup (hnodup : (before ++ [v]).Nodup)
    (hsubset : before ++ [v] ⊆ g.vertices) : before.length < g.vertices.length := by
  have hlength := (hnodup.subperm hsubset).length_le
  rw [List.length_append, List.length_singleton] at hlength
  omega

/-- What the search finds from a path. -/
theorem mem_search_iff (hclosed : g.Closed) {n : ℕ} (hn : g.vertices.length ≤ before.length + n)
    (hnodup : (before ++ [v]).Nodup) (hsubset : before ++ [v] ⊆ g.vertices)
    (hseen : ∀ w, w ∈ seen ↔ w ∈ before ++ [v]) :
    path ∈ g.search n before v seen ↔ ∃ rest, g.Continues before v path rest := by
  induction n generalizing before v seen with
  | zero => exact absurd (length_lt_of_nodup hnodup hsubset) (by omega)
  | succ n ih =>
      -- the search from a child that has not been seen
      have hnext : ∀ w, g.Edge v w → w ∉ before ++ [v] →
          (path ∈ g.search n (before ++ [v]) w (insert w seen) ↔
            ∃ rest, g.Continues (before ++ [v]) w path rest) := by
        intro w hw hnot
        refine ih ?_ ?_ ?_ fun u => ?_
        · rw [List.length_append, List.length_singleton]
          omega
        · exact List.nodup_append.mpr ⟨hnodup, List.nodup_singleton w, by
            intro a ha b hb heq
            obtain rfl : b = w := by simpa using hb
            exact hnot (heq ▸ ha)⟩
        · exact List.append_subset.mpr ⟨hsubset, by simpa using hclosed v w hw⟩
        · rw [Finset.mem_insert, hseen, List.mem_append (t := [w]), List.mem_singleton, or_comm]
      rw [search, List.mem_append, List.mem_flatMap]
      constructor
      · rintro (⟨w, hw, hpath⟩ | hpath)
        · by_cases hold : w ∈ seen
          · simp [hold] at hpath
          · rw [if_neg hold] at hpath
            obtain ⟨rest, h⟩ := (hnext w hw fun h => hold ((hseen w).mpr h)).mp hpath
            exact ⟨w :: rest, h.cons hw⟩
        · split at hpath
          · rename_i hdead
            obtain rfl : path = before ++ [v] := by simpa using hpath
            exact ⟨[], .of_deadEnd hnodup fun c hc => (hseen c).mp (hdead c hc)⟩
          · simp at hpath
      · rintro ⟨rest, h⟩
        rcases h.cases with ⟨rfl, hdead⟩ | ⟨w, rest', hw, hnot, h⟩
        · right
          have hdead' : ∀ c ∈ g.children v, c ∈ seen := fun c hc => (hseen c).mpr (hdead c hc)
          rw [if_pos hdead']
          exact List.mem_singleton.mpr rfl
        · left
          refine ⟨w, hw, ?_⟩
          rw [if_neg fun h => hnot ((hseen w).mp h)]
          exact (hnext w hw hnot).mpr ⟨rest', h⟩

theorem exists_of_mem_search {n : ℕ} (h : path ∈ g.search n before v seen) :
    ∃ rest, path = before ++ v :: rest := by
  induction n generalizing before v seen with
  | zero => simp [search] at h
  | succ n ih =>
      rw [search, List.mem_append, List.mem_flatMap] at h
      rcases h with ⟨w, -, h⟩ | h
      · split at h
        · simp at h
        · obtain ⟨rest, rfl⟩ := ih h
          exact ⟨w :: rest, by rw [List.append_assoc, List.singleton_append]⟩
      · split at h
        · exact ⟨[], by simpa using h⟩
        · simp at h

theorem nodup_search (n : ℕ) (before : List V) (v : V) (seen : Finset V) :
    (g.search n before v seen).Nodup := by
  induction n generalizing before v seen with
  | zero => exact List.nodup_nil
  | succ n ih =>
      rw [search, List.nodup_append]
      refine ⟨List.nodup_flatMap.mpr ⟨fun w _ => ?_, ?_⟩, ?_, fun a ha b hb heq => ?_⟩
      · split
        · exact List.nodup_nil
        · exact ih ..
      · -- paths over different children differ behind the vertex
        refine (g.children_nodup v).imp fun {w w'} hne => ?_
        rw [Function.onFun_apply, List.disjoint_left]
        intro a ha hb
        split at ha
        · simp at ha
        · split at hb
          · simp at hb
          · obtain ⟨rest, rfl⟩ := exists_of_mem_search ha
            obtain ⟨rest', heq⟩ := exists_of_mem_search hb
            exact hne (List.cons.inj (List.append_cancel_left heq)).1
      · split
        · exact List.nodup_singleton _
        · exact List.nodup_nil
      · split at hb
        · rename_i hdead
          obtain ⟨w, hw, ha⟩ := List.mem_flatMap.mp ha
          simp [hdead w hw] at ha
        · simp at hb

theorem maximalPath_iff : g.MaximalPath v path ↔ ∃ rest, g.Continues [] v path rest := by
  constructor
  · rintro ⟨hhead, hchain, hnodup, hmaximal⟩
    obtain ⟨rest, rfl⟩ := List.head?_eq_some_iff.mp hhead
    exact ⟨rest, rfl, hchain, hnodup, hmaximal⟩
  · rintro ⟨rest, rfl, hchain, hnodup, hmaximal⟩
    exact ⟨rfl, hchain, hnodup, hmaximal⟩

theorem mem_search_nil_iff (hclosed : g.Closed) (hv : v ∈ g.vertices) :
    path ∈ g.search g.vertices.length [] v {v} ↔ g.MaximalPath v path := by
  rw [maximalPath_iff]
  exact mem_search_iff hclosed (by simp) (by simp) (by simpa using hv) (by simp)

/-- `paths` finds the maximal cycle-free paths from a vertex, each once. -/
theorem paths_spec (hclosed : g.Closed) (hv : v ∈ g.vertices) :
    ∃ found, g.paths v = some found ∧ found.Nodup ∧
      ∀ path, path ∈ found ↔ g.MaximalPath v path :=
  ⟨_, if_pos hv, nodup_search .., fun _ => mem_search_nil_iff hclosed hv⟩

theorem paths_spec_of_three_vertices :
    ∃ found, ((empty.addEdge 1 2).addEdge 2 3 |>.addEdge 3 1 |>.addEdge 1 3).paths 1 = some found ∧
      found.Nodup ∧ ∀ path, path ∈ found ↔
        ((empty.addEdge 1 2).addEdge 2 3 |>.addEdge 3 1 |>.addEdge 1 3).MaximalPath 1 path :=
  paths_spec ((((closed_empty.addEdge 1 2).addEdge 2 3).addEdge 3 1).addEdge 1 3) (by decide)

theorem mem_reprPaths_iff (hclosed : g.Closed) :
    path ∈ g.reprPaths ↔ ∃ root ∈ g.rootVertices, g.MaximalPath root path := by
  rw [reprPaths, List.mem_flatMap]
  refine exists_congr fun root => and_congr_right fun hroot => ?_
  have hvertex := (mem_rootVertices_iff.mp hroot).1
  rw [paths, if_pos hvertex, Option.getD_some, mem_search_nil_iff hclosed hvertex]

theorem nodup_reprPaths (hclosed : g.Closed) : g.reprPaths.Nodup := by
  refine List.nodup_flatMap.mpr ⟨fun root hroot => ?_, ?_⟩
  · rw [paths, if_pos (mem_rootVertices_iff.mp hroot).1]
    exact nodup_search ..
  · refine (g.nodup_vertices.filter _).imp_of_mem fun {a b} ha hb hne => ?_
    rw [Function.onFun_apply, List.disjoint_left, paths, paths,
      if_pos (mem_rootVertices_iff.mp ha).1, if_pos (mem_rootVertices_iff.mp hb).1]
    intro path hpa hpb
    have hheada := ((mem_search_nil_iff hclosed (mem_rootVertices_iff.mp ha).1).mp hpa).head
    have hheadb := ((mem_search_nil_iff hclosed (mem_rootVertices_iff.mp hb).1).mp hpb).head
    exact hne (Option.some.inj (hheada.symm.trans hheadb))

/-- Without a cycle, a path that cannot be continued ends at a vertex without children. -/
theorem maximalPath_iff_of_acyclic (h : Acyclic g.Edge) :
    g.MaximalPath v path ↔ path.head? = some v ∧ path.IsChain g.Edge ∧
      ∀ last ∈ path.getLast?, ∀ c, ¬ g.Edge last c := by
  constructor
  · rintro ⟨hhead, hchain, -, hmaximal⟩
    refine ⟨hhead, hchain, fun last hlast c hc => ?_⟩
    obtain ⟨front, rfl⟩ := List.getLast?_eq_some_iff.mp hlast
    have hlonger : (front ++ [last] ++ [c]).IsChain g.Edge := by
      rw [List.append_assoc]
      exact List.isChain_append_cons_cons.mpr ⟨hchain, hc, List.isChain_singleton c⟩
    have hnodup := h.nodup hlonger
    exact (List.nodup_append.mp hnodup).2.2 c (hmaximal last hlast c hc) c (by simp) rfl
  · rintro ⟨hhead, hchain, hleaf⟩
    exact ⟨hhead, hchain, h.nodup hchain, fun last hlast c hc => absurd hc (hleaf last hlast c)⟩

/-- Every edge is on a path from a root vertex to a vertex without children. -/
theorem exists_mem_reprPaths (hclosed : g.Closed) (h : Acyclic g.Edge) (hedge : g.Edge p c) :
    ∃ path ∈ g.reprPaths, [p, c] <:+: path := by
  obtain ⟨root, above, hno, hroot, hhead, habove⟩ :=
    exists_path_from_root h (fun _ _ => Edge.parent_mem) hedge.parent_mem
  obtain ⟨below, hbelow, hleaf⟩ :=
    exists_path_to_leaf h hclosed (hclosed p c hedge)
  refine ⟨above ++ p :: c :: below, ?_, above, below, by simp⟩
  rw [mem_reprPaths_iff hclosed]
  refine ⟨root, mem_rootVertices_iff.mpr ⟨hroot, hno⟩,
    (maximalPath_iff_of_acyclic h).mpr ⟨?_, ?_, fun last hlast => hleaf last ?_⟩⟩
  · rw [List.append_cons, List.head?_append, hhead]
    rfl
  · exact List.isChain_append_cons_cons.mpr ⟨habove, hedge, hbelow⟩
  · rwa [List.getLast?_append_cons, List.getLast?_cons_cons] at hlast

/-- The text of a graph without a cycle: the lines of the paths from a root vertex to a vertex
without children, no path twice, and each edge on one of them. -/
theorem reprText_spec (vertexRepr : V → String) (hclosed : g.Closed) (h : Acyclic g.Edge) :
    ∃ paths : List (List V),
      g.reprText vertexRepr = "\n".intercalate (paths.map (reprLine vertexRepr)) ∧
      paths.Nodup ∧
      (∀ path, path ∈ paths ↔ path.IsChain g.Edge ∧
        (∃ root ∈ g.vertices, path.head? = some root ∧ ∀ p, ¬ g.Edge p root) ∧
        ∀ last ∈ path.getLast?, ∀ c, ¬ g.Edge last c) ∧
      ∀ p c, g.Edge p c → ∃ path ∈ paths, [p, c] <:+: path := by
  refine ⟨g.reprPaths, rfl, nodup_reprPaths hclosed, fun path => ?_,
    fun _ _ => exists_mem_reprPaths hclosed h⟩
  simp only [mem_reprPaths_iff hclosed, mem_rootVertices_iff, maximalPath_iff_of_acyclic h]
  constructor
  · rintro ⟨root, ⟨hroot, hno⟩, hhead, hchain, hleaf⟩
    exact ⟨hchain, ⟨root, hroot, hhead, hno⟩, hleaf⟩
  · rintro ⟨hchain, ⟨root, hroot, hhead, hno⟩, hleaf⟩
    exact ⟨root, ⟨hroot, hno⟩, hhead, hchain, hleaf⟩

theorem reprText_spec_of_three_vertices :
    ∃ paths : List (List ℕ),
      ((empty.addEdge 1 2).addEdge 2 3).reprText toString =
        "\n".intercalate (paths.map (reprLine toString)) ∧
      paths.Nodup ∧ ∃ path ∈ paths, [2, 3] <:+: path := by
  have hedges : ((empty.addEdge 1 2).addEdge 2 3).edges = [(2, 3), (1, 2)] := by decide +kernel
  have hlt : ∀ p c, ((empty.addEdge 1 2).addEdge 2 3).Edge p c → p < c := by
    intro p c h
    have hmem := mem_edges_iff.mpr h
    rw [hedges] at hmem
    simp only [List.mem_cons, Prod.mk.injEq, List.not_mem_nil, or_false] at hmem
    omega
  have hedge : ((empty.addEdge 1 2).addEdge 2 3).Edge 2 3 := by decide +kernel
  obtain ⟨paths, htext, hnodup, -, hon⟩ :=
    reprText_spec toString ((closed_empty.addEdge 1 2).addEdge 2 3) (acyclic_of_lt hlt)
  exact ⟨paths, htext, hnodup, hon 2 3 hedge⟩

/-- Two paths can have the same text. -/
example : ((empty.addEdge 1 2).addEdge 1 3).reprText (fun _ => "partner().write()") =
    "partner().write() → partner().write()\npartner().write() → partner().write()" := by
  decide +kernel

end Graph

end JobRunner

end Fastrak
