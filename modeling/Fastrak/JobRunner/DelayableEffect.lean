import Fastrak.JobRunner.Delayable
import Fastrak.Library.Run

/-!
# What the constructions keep

The graph of an object has the parts of the object among its vertices, and in the graph of a
chain each part has an edge to the next one. The parts are older than the object, so `_head`
and `_tail` end.
-/

namespace Fastrak

namespace JobRunner

open Run Worklist Relation

/-- The object with the number `i`, among `n` objects. -/
structure Delayable.Wired (n i : ℕ) (o : Delayable) : Prop where
  closed : o.graph.Closed
  bounded : ∀ v ∈ o.graph.vertices, v < n
  own : o.shape.ownVertices i ⊆ o.graph.vertices
  older : ∀ v ∈ o.shape.parts, v < i
  linked : ∀ head rest, o.shape = .chain head rest → (head :: rest).IsChain o.graph.Edge

namespace Graph

variable {g : Graph ℕ} {v w p c i head : ℕ} {children rest : List ℕ}

@[simp] theorem vertices_empty {V : Type*} : (empty : Graph V).vertices = [] := rfl

theorem mem_vertices_addEdge_iff :
    w ∈ (g.addEdge v c).vertices ↔ w = v ∨ w = c ∨ w ∈ g.vertices := by
  rw [addEdge, mem_vertices_update_iff, mem_vertices_addVertex_iff]

theorem edge_addEdge_iff : (g.addEdge v w).Edge p c ↔ g.Edge p c ∨ p = v ∧ c = w := by
  rw [addEdge, edge_update_iff, edge_addVertex_iff, List.mem_singleton]

theorem Closed.link (h : g.Closed) : (link head rest g).Closed := by
  induction rest generalizing head g with
  | nil => exact h
  | cons n rest ih => exact ih (h.addEdge head n)

theorem mem_vertices_link_iff (hhead : head ∈ g.vertices) :
    w ∈ (link head rest g).vertices ↔ w ∈ rest ∨ w ∈ g.vertices := by
  induction rest generalizing head g with
  | nil => simp [link]
  | cons n rest ih =>
      rw [link, ih (mem_vertices_addEdge_iff.mpr (.inr (.inl rfl))), mem_vertices_addEdge_iff,
        List.mem_cons]
      constructor
      · rintro (h | rfl | rfl | h)
        · exact .inl (.inr h)
        · exact .inr hhead
        · exact .inl (.inl rfl)
        · exact .inr h
      · rintro ((rfl | h) | h)
        · exact .inr (.inr (.inl rfl))
        · exact .inl h
        · exact .inr (.inr (.inr h))

theorem Edge.link (h : g.Edge p c) : (link head rest g).Edge p c := by
  induction rest generalizing head g with
  | nil => exact h
  | cons n rest ih => exact ih (edge_addEdge_iff.mpr (.inl h))

theorem isChain_link : (head :: rest).IsChain (link head rest g).Edge := by
  induction rest generalizing head g with
  | nil => exact List.isChain_singleton head
  | cons n rest ih =>
      refine List.isChain_cons_cons.mpr ⟨?_, ih⟩
      have hfirst : (g.addEdge head n).Edge head n := edge_addEdge_iff.mpr (.inr ⟨rfl, rfl⟩)
      rw [JobRunner.link]
      exact hfirst.link

theorem mem_vertices_foldl_addVertex_iff :
    w ∈ (children.foldl (fun g v => g.addVertex v) g).vertices ↔
      w ∈ children ∨ w ∈ g.vertices := by
  induction children generalizing g with
  | nil => simp
  | cons v children ih =>
      rw [List.foldl_cons, ih, mem_vertices_addVertex_iff, List.mem_cons, or_left_comm, or_assoc]

theorem Closed.foldl_addVertex (h : g.Closed) :
    (children.foldl (fun g v => g.addVertex v) g).Closed := by
  induction children generalizing g with
  | nil => exact h
  | cons v children ih => exact ih (h.addVertex v)

end Graph

variable {os : Delayables} {n m i j : ℕ} {o : Delayable}

theorem Shape.lastVertices_subset (s : Shape) : s.lastVertices i ⊆ s.ownVertices i := by
  cases s with
  | job => exact fun _ h => h
  | chain head rest =>
      intro v hv
      obtain rfl : v = rest.getLastD head := by simpa [lastVertices] using hv
      exact List.getLastD_mem_cons
  | group delayables => exact fun _ h => h

namespace Delayable

theorem Wired.mono (h : Wired n i o) (hn : n ≤ m) : Wired m i o :=
  { h with bounded := fun v hv => (h.bounded v hv).trans_le hn }

theorem Wired.addEdge (h : Wired n i o) {v w : ℕ} (hv : v < n) (hw : w < n) :
    Wired n i { o with graph := o.graph.addEdge v w } where
  closed := h.closed.addEdge v w
  bounded u hu := by
    rcases Graph.mem_vertices_addEdge_iff.mp hu with rfl | rfl | hu
    · exact hv
    · exact hw
    · exact h.bounded u hu
  own u hu := Graph.mem_vertices_addEdge_iff.mpr (.inr (.inr (h.own hu)))
  older := h.older
  linked head rest hshape :=
    (h.linked head rest hshape).imp fun _ _ hedge => Graph.edge_addEdge_iff.mpr (.inl hedge)

theorem Wired.foldl_addEdge (h : Wired n i o) {v : ℕ} (hv : v < n) {delayables : List ℕ}
    (hn : ∀ w ∈ delayables, w < n) :
    Wired n i { o with graph := delayables.foldl (fun g w => g.addEdge v w) o.graph } := by
  induction delayables generalizing o with
  | nil => exact h
  | cons w delayables ih =>
      rw [List.forall_mem_cons] at hn
      exact ih (h.addEdge hv hn.1) hn.2

theorem Wired.onDone (h : Wired n i o) {delayables : List ℕ} (hn : ∀ v ∈ delayables, v < n) :
    Wired n i (o.onDone i delayables) := by
  have hparents : ∀ parents : List ℕ, (∀ v ∈ parents, v < n) → ∀ o, Wired n i o →
      Wired n i { o with graph := parents.foldl (fun g v =>
        delayables.foldl (fun g w => g.addEdge v w) g) o.graph } := by
    intro parents
    induction parents with
    | nil => exact fun _ _ ho => ho
    | cons v parents ih =>
        intro hlt o ho
        rw [List.forall_mem_cons] at hlt
        exact ih hlt.2 _ (ho.foldl_addEdge hlt.1 hn)
  exact hparents _ (fun v hv => h.bounded v (h.own (o.shape.lastVertices_subset hv))) o h

theorem wired_ofJob (i : ℕ) : Wired (i + 1) i (ofJob i) where
  closed := Graph.closed_empty.addVertex i
  bounded v hv := by
    obtain rfl : v = i := by simpa [ofJob, Graph.mem_vertices_addVertex_iff] using hv
    exact Nat.lt_succ_self v
  own v hv := by
    obtain rfl : v = i := List.mem_singleton.mp hv
    exact Graph.mem_vertices_addVertex_iff.mpr (.inl rfl)
  older := by simp [ofJob, Shape.parts]
  linked := by simp [ofJob]

theorem wired_ofChain {head : ℕ} {rest : List ℕ} (h : ∀ v ∈ head :: rest, v < i) :
    Wired (i + 1) i (ofChain head rest) where
  closed := (Graph.closed_empty.addVertex head).link
  bounded v hv := by
    have hvertices : v ∈ rest ∨ v = head := by
      simpa [ofChain, Graph.mem_vertices_link_iff (Graph.mem_vertices_addVertex_iff.mpr (.inl rfl)),
        Graph.mem_vertices_addVertex_iff] using hv
    exact (h v (List.mem_cons.mpr hvertices.symm)).trans (Nat.lt_succ_self i)
  own v hv := by
    rw [ofChain, Graph.mem_vertices_link_iff (Graph.mem_vertices_addVertex_iff.mpr (.inl rfl)),
      Graph.mem_vertices_addVertex_iff]
    rcases List.mem_cons.mp hv with rfl | hv
    · exact .inr (.inl rfl)
    · exact .inl hv
  older := h
  linked head' rest' heq := by
    obtain ⟨rfl, rfl⟩ := Shape.chain.inj heq
    exact Graph.isChain_link

theorem wired_ofGroup {delayables : List ℕ} (h : ∀ v ∈ delayables, v < i) :
    Wired (i + 1) i (ofGroup delayables) where
  closed := Graph.closed_empty.foldl_addVertex
  bounded v hv := by
    have hvertices : v ∈ delayables := by
      simpa [ofGroup, Graph.mem_vertices_foldl_addVertex_iff] using hv
    exact (h v hvertices).trans (Nat.lt_succ_self i)
  own v hv :=
    Graph.mem_vertices_foldl_addVertex_iff.mpr (.inl (List.mem_dedup.mp hv))
  older v hv := h v (List.mem_dedup.mp hv)
  linked := by simp [ofGroup]

end Delayable

namespace Delayables

/-- Every object is wired. -/
def Wired (os : Delayables) : Prop :=
  ∀ (i : ℕ) (o : Delayable), os[i]? = some o → o.Wired os.length i

theorem Wired.append (h : os.Wired) (ho : o.Wired (os.length + 1) os.length) :
    Wired (os ++ [o]) := by
  intro i o' hi
  rw [List.length_append, List.length_singleton]
  rw [List.getElem?_append] at hi
  split at hi
  · exact (h i o' hi).mono (Nat.le_succ _)
  · obtain ⟨hi, rfl⟩ : i - os.length = 0 ∧ o = o' := by simpa [List.getElem?_singleton] using hi
    obtain rfl : i = os.length := by omega
    exact ho

theorem Wired.step (h : os.Wired) (c : Construction) : Wired (os.step c) := by
  cases c with
  | delayable => exact h.append (Delayable.wired_ofJob _)
  | chain head rest =>
      simp only [Delayables.step]
      split
      · rename_i hold
        exact h.append (Delayable.wired_ofChain hold)
      · exact h
  | group delayables =>
      simp only [Delayables.step]
      split
      · rename_i hold
        exact h.append (Delayable.wired_ofGroup hold)
      · exact h
  | onDone parent delayables =>
      simp only [Delayables.step]
      split
      · rename_i hold
        intro i o hi
        rw [List.length_modify]
        rw [List.getElem?_modify] at hi
        obtain ⟨o', ho', rfl⟩ := Option.map_eq_some_iff.mp hi
        split
        · rename_i heq
          subst heq
          exact (h parent o' ho').onDone hold
        · exact h i o' ho'
      · exact h

theorem wired_run (cs : List Construction) : Wired (run step [] cs) :=
  invariant (I := Wired) (fun _ c h _ => h.step c) (by simp [Wired]) (Meets.trivial [] cs)

section Ends

variable {s : Shape} {first : ℕ} {rest delayables : List ℕ}

theorem Wired.exists_of_shape (h : os.Wired) (hs : os.shape i = some s) :
    ∃ o : Delayable, o.shape = s ∧ os.graph i = o.graph ∧ o.Wired os.length i := by
  obtain ⟨o, ho, rfl⟩ := Option.map_eq_some_iff.mp hs
  exact ⟨o, rfl, by rw [graph, ho, Option.map_some, Option.getD_some], h i o ho⟩

theorem Wired.older (h : os.Wired) (hs : os.shape i = some s) : ∀ v ∈ s.parts, v < i := by
  obtain ⟨o, rfl, -, ho⟩ := h.exists_of_shape hs
  exact ho.older

/-- The depth of the calls does not matter where it is large enough. -/
theorem Wired.ends_eq (h : os.Wired) (hn : i < n) (hm : i < m) :
    os.heads n i = os.heads m i ∧ os.tails n i = os.tails m i := by
  induction i using Nat.strong_induction_on generalizing n m with
  | _ i ih =>
      cases n with
      | zero => omega
      | succ n =>
          cases m with
          | zero => omega
          | succ m =>
              rw [heads, heads, tails, tails]
              cases hs : os.shape i with
              | none => exact ⟨rfl, rfl⟩
              | some s =>
                  have hpart : ∀ v ∈ s.parts, os.heads n v = os.heads m v ∧
                      os.tails n v = os.tails m v := by
                    intro v hv
                    have hlt := h.older hs v hv
                    exact ih v hlt (by omega) (by omega)
                  cases s with
                  | job => exact ⟨rfl, rfl⟩
                  | chain first rest =>
                      exact ⟨(hpart first List.mem_cons_self).2,
                        (hpart _ List.getLastD_mem_cons).1⟩
                  | group delayables =>
                      exact ⟨List.flatMap_congr fun v hv => (hpart v hv).1,
                        List.flatMap_congr fun v hv => (hpart v hv).2⟩

theorem head_job (hs : os.shape i = some .job) : os.head i = [i] := by
  rw [head, heads, hs]

theorem tail_job (hs : os.shape i = some .job) : os.tail i = [i] := by
  rw [tail, tails, hs]

theorem Wired.head_chain (h : os.Wired) (hs : os.shape i = some (.chain first rest)) :
    os.head i = os.tail first := by
  rw [head, heads, hs]
  exact (h.ends_eq (h.older hs first List.mem_cons_self) (Nat.lt_succ_self first)).2

theorem Wired.tail_chain (h : os.Wired) (hs : os.shape i = some (.chain first rest)) :
    os.tail i = os.head (rest.getLastD first) := by
  rw [tail, tails, hs]
  exact (h.ends_eq (h.older hs _ List.getLastD_mem_cons) (Nat.lt_succ_self _)).1

theorem Wired.mem_head_group_iff (h : os.Wired) (hs : os.shape i = some (.group delayables)) :
    j ∈ os.head i ↔ ∃ v ∈ delayables, j ∈ os.head v := by
  rw [head, heads, hs, List.mem_flatMap]
  refine exists_congr fun v => and_congr_right fun hv => ?_
  rw [(h.ends_eq (h.older hs v hv) (Nat.lt_succ_self v)).1, head]

theorem Wired.mem_tail_group_iff (h : os.Wired) (hs : os.shape i = some (.group delayables)) :
    j ∈ os.tail i ↔ ∃ v ∈ delayables, j ∈ os.tail v := by
  rw [tail, tails, hs, List.mem_flatMap]
  refine exists_congr fun v => and_congr_right fun hv => ?_
  rw [(h.ends_eq (h.older hs v hv) (Nat.lt_succ_self v)).2, tail]

end Ends

section Merge

variable {g merged : Graph ℕ} {p c w : ℕ}

theorem edge_foldl_update_iff {tails heads : List ℕ} :
    (tails.foldl (fun merged tail => merged.update tail heads) merged).Edge p c ↔
      merged.Edge p c ∨ p ∈ tails ∧ c ∈ heads := by
  induction tails generalizing merged with
  | nil => simp
  | cons tail tails ih =>
      rw [List.foldl_cons, ih, Graph.edge_update_iff, List.mem_cons]
      tauto

theorem mem_vertices_foldl_update_iff {tails heads : List ℕ} :
    w ∈ (tails.foldl (fun merged tail => merged.update tail heads) merged).vertices ↔
      w ∈ merged.vertices ∨ w ∈ tails := by
  induction tails generalizing merged with
  | nil => simp
  | cons tail tails ih =>
      rw [List.foldl_cons, ih, Graph.mem_vertices_update_iff, List.mem_cons]
      tauto

/-- The edges that an object's graph stands for. -/
def Joins (os : Delayables) (g : Graph ℕ) (p c : ℕ) : Prop :=
  ∃ v w, g.Edge v w ∧ p ∈ os.tail v ∧ c ∈ os.head w

theorem edge_mergeGraph_iff :
    (os.mergeGraph g merged).Edge p c ↔ merged.Edge p c ∨ os.Joins g p c := by
  have hfold : ∀ entries : List (ℕ × List ℕ),
      (entries.foldl (fun merged entry => (os.tail entry.1).foldl (fun merged tail =>
        merged.update tail (entry.2.flatMap os.head)) merged) merged).Edge p c ↔
      merged.Edge p c ∨ ∃ entry ∈ entries, p ∈ os.tail entry.1 ∧ ∃ w ∈ entry.2, c ∈ os.head w := by
    intro entries
    induction entries generalizing merged with
    | nil => simp
    | cons entry entries ih =>
        rw [List.foldl_cons, ih, edge_foldl_update_iff, List.mem_flatMap, or_assoc]
        simp
  rw [mergeGraph, hfold]
  refine or_congr_right ⟨?_, ?_⟩
  · rintro ⟨⟨v, children⟩, hentry, hp, w, hw, hc⟩
    exact ⟨v, w, Graph.edge_iff.mpr ⟨children, hentry, hw⟩, hp, hc⟩
  · rintro ⟨v, w, hedge, hp, hc⟩
    obtain ⟨children, hentry, hw⟩ := Graph.edge_iff.mp hedge
    exact ⟨(v, children), hentry, hp, w, hw, hc⟩

theorem mem_vertices_mergeGraph_iff :
    w ∈ (os.mergeGraph g merged).vertices ↔
      w ∈ merged.vertices ∨ ∃ v ∈ g.vertices, w ∈ os.tail v := by
  have hfold : ∀ entries : List (ℕ × List ℕ),
      w ∈ (entries.foldl (fun merged entry => (os.tail entry.1).foldl (fun merged tail =>
        merged.update tail (entry.2.flatMap os.head)) merged) merged).vertices ↔
      w ∈ merged.vertices ∨ ∃ entry ∈ entries, w ∈ os.tail entry.1 := by
    intro entries
    induction entries generalizing merged with
    | nil => simp
    | cons entry entries ih =>
        rw [List.foldl_cons, ih, mem_vertices_foldl_update_iff, or_assoc]
        simp
  rw [mergeGraph, hfold]
  refine or_congr_right ⟨?_, ?_⟩
  · rintro ⟨entry, hentry, hw⟩
    exact ⟨entry.1, List.mem_map_of_mem hentry, hw⟩
  · rintro ⟨v, hv, hw⟩
    obtain ⟨entry, hentry, rfl⟩ := List.mem_map.mp hv
    exact ⟨entry, hentry, hw⟩

end Merge

section Connect

variable {start p c w : ℕ} {s : Shape}

/-- The objects whose graphs are visited. -/
def Reached (os : Delayables) (start i : ℕ) : Prop :=
  ReflTransGen (fun i v => v ∈ (os.graph i).vertices) start i

theorem Wired.vertices_subset (h : os.Wired) (i : ℕ) :
    (os.graph i).vertices ⊆ List.range os.length := by
  intro v hv
  rw [graph] at hv
  cases ho : os[i]? with
  | none => simp [ho] at hv
  | some o =>
      rw [ho, Option.map_some, Option.getD_some] at hv
      exact List.mem_range.mpr ((h i o ho).bounded v hv)

/-- The graphs of all objects that are reached have been merged, and no others. -/
theorem Wired.exists_connectGraphs_eq (h : os.Wired) (hstart : start < os.length) :
    ∃ visited : List ℕ, os.connectGraphs start = visited.foldl (fun merged current =>
        (os.graph current).vertices.foldl
          (fun merged vertex => os.mergeGraph (os.graph vertex) merged) merged)
        (os.mergeGraph (os.graph start) Graph.empty) ∧
      ∀ i, i ∈ visited ↔ os.Reached start i := by
  obtain ⟨visited, heq, -, hvisited⟩ := loop_spec
    (fun current merged => (os.graph current).vertices.foldl
      (fun merged vertex => os.mergeGraph (os.graph vertex) merged) merged)
    (List.nodup_range (n := os.length)) h.vertices_subset (List.mem_range.mpr hstart) le_rfl
    (os.mergeGraph (os.graph start) Graph.empty)
  exact ⟨visited, heq, hvisited⟩

/-- What every merge adds, the merges of all visited objects add. -/
theorem foldl_mergeGraph_iff {P : Graph ℕ → Prop} {Q : Graph ℕ → Prop}
    (hmerge : ∀ g merged, P (os.mergeGraph g merged) ↔ P merged ∨ Q g) (visited : List ℕ)
    (merged : Graph ℕ) :
    P (visited.foldl (fun merged current => (os.graph current).vertices.foldl
        (fun merged vertex => os.mergeGraph (os.graph vertex) merged) merged) merged) ↔
      P merged ∨ ∃ current ∈ visited, ∃ v ∈ (os.graph current).vertices, Q (os.graph v) := by
  have hinner : ∀ (vs : List ℕ) (merged : Graph ℕ),
      P (vs.foldl (fun merged vertex => os.mergeGraph (os.graph vertex) merged) merged) ↔
        P merged ∨ ∃ v ∈ vs, Q (os.graph v) := by
    intro vs
    induction vs with
    | nil => simp
    | cons v vs ih =>
        intro merged
        rw [List.foldl_cons, ih, hmerge, or_assoc]
        simp
  induction visited generalizing merged with
  | nil => simp
  | cons current visited ih =>
      refine (ih _).trans ?_
      rw [hinner, or_assoc]
      simp

theorem Wired.connectGraphs_iff (h : os.Wired) (hstart : start < os.length)
    {P : Graph ℕ → Prop} {Q : Graph ℕ → Prop}
    (hmerge : ∀ g merged, P (os.mergeGraph g merged) ↔ P merged ∨ Q g) (hempty : ¬ P Graph.empty) :
    P (os.connectGraphs start) ↔ ∃ i, os.Reached start i ∧ Q (os.graph i) := by
  obtain ⟨visited, heq, hvisited⟩ := h.exists_connectGraphs_eq hstart
  rw [heq, foldl_mergeGraph_iff hmerge, hmerge, or_iff_right hempty]
  constructor
  · rintro (hq | ⟨current, hcurrent, v, hv, hq⟩)
    · exact ⟨start, .refl, hq⟩
    · exact ⟨v, ((hvisited current).mp hcurrent).tail hv, hq⟩
  · rintro ⟨i, hi, hq⟩
    rcases hi.cases_tail with rfl | ⟨current, hcurrent, hv⟩
    · exact .inl hq
    · exact .inr ⟨current, (hvisited current).mpr hcurrent, i, hv, hq⟩

/-- An edge of the connected graph stands for an edge in a visited graph. -/
theorem Wired.edge_connectGraphs_iff (h : os.Wired) (hstart : start < os.length) :
    (os.connectGraphs start).Edge p c ↔ ∃ i, os.Reached start i ∧ os.Joins (os.graph i) p c :=
  h.connectGraphs_iff hstart (P := fun g => g.Edge p c) (Q := fun g => os.Joins g p c)
    (fun _ _ => edge_mergeGraph_iff) (by simp [Graph.Edge, Graph.children, Graph.empty])

theorem Wired.reached_part (h : os.Wired) (hi : os.Reached start i) (hs : os.shape i = some s)
    {v : ℕ} (hv : v ∈ s.ownVertices i) : os.Reached start v := by
  obtain ⟨o, rfl, hgraph, ho⟩ := h.exists_of_shape hs
  exact hi.tail (hgraph ▸ ho.own hv)

/-- The heads and the tails of an object that is reached are jobs that are reached. -/
theorem Wired.reached_ends (h : os.Wired) (hi : os.Reached start i)
    (hj : j ∈ os.head i ∨ j ∈ os.tail i) : os.Reached start j ∧ os.shape j = some .job := by
  induction i using Nat.strong_induction_on with
  | _ i ih =>
      cases hs : os.shape i with
      | none => simp [head, heads, tail, tails, hs] at hj
      | some s =>
          have hpart : ∀ v ∈ s.parts, os.Reached start v → j ∈ os.head v ∨ j ∈ os.tail v →
              os.Reached start j ∧ os.shape j = some .job :=
            fun v hv hreached => ih v (h.older hs v hv) hreached
          cases s with
          | job =>
              rw [head_job hs, tail_job hs, or_self, List.mem_singleton] at hj
              subst hj
              exact ⟨hi, hs⟩
          | chain first rest =>
              have hfirst : first ∈ first :: rest := List.mem_cons_self
              have hlast : rest.getLastD first ∈ first :: rest := List.getLastD_mem_cons
              rw [h.head_chain hs, h.tail_chain hs] at hj
              rcases hj with hj | hj
              · exact hpart first hfirst (h.reached_part hi hs hfirst) (.inr hj)
              · exact hpart _ hlast (h.reached_part hi hs hlast) (.inl hj)
          | group delayables =>
              rw [h.mem_head_group_iff hs, h.mem_tail_group_iff hs] at hj
              rcases hj with ⟨v, hv, hj⟩ | ⟨v, hv, hj⟩
              · exact hpart v hv (h.reached_part hi hs hv) (.inl hj)
              · exact hpart v hv (h.reached_part hi hs hv) (.inr hj)

/-- The vertices of the connected graph are the jobs that are reached. -/
theorem Wired.mem_vertices_connectGraphs_iff (h : os.Wired) (hstart : start < os.length) :
    w ∈ (os.connectGraphs start).vertices ↔ os.Reached start w ∧ os.shape w = some .job := by
  have hiff := h.connectGraphs_iff hstart (P := fun g => w ∈ g.vertices)
    (Q := fun g => ∃ v ∈ g.vertices, w ∈ os.tail v) (fun _ _ => mem_vertices_mergeGraph_iff)
    (by simp)
  refine hiff.trans ⟨?_, fun hw => ⟨w, hw.1, w, ?_, ?_⟩⟩
  · rintro ⟨i, hi, v, hv, hw⟩
    exact h.reached_ends (hi.tail hv) (.inr hw)
  · obtain ⟨o, ho, hgraph, hwired⟩ := h.exists_of_shape hw.2
    rw [hgraph]
    exact hwired.own (by simp [ho, Shape.ownVertices])
  · rw [tail_job hw.2]
    exact List.mem_singleton.mpr rfl

theorem Wired.closed_graph (h : os.Wired) (i : ℕ) : (os.graph i).Closed := by
  rw [graph]
  cases ho : os[i]? with
  | none => exact Graph.closed_empty
  | some o => exact (h i o ho).closed

theorem Wired.closed_connectGraphs (h : os.Wired) (hstart : start < os.length) :
    (os.connectGraphs start).Closed := by
  intro p c hedge
  obtain ⟨i, hi, v, w, hvw, -, hc⟩ := (h.edge_connectGraphs_iff hstart).mp hedge
  have hw : os.Reached start w := hi.tail (h.closed_graph i v w hvw)
  exact (h.mem_vertices_connectGraphs_iff hstart).mpr (h.reached_ends hw (.inl hc))

end Connect

end Delayables

end JobRunner

end Fastrak
