import Mathlib.Data.Set.Finite.Basic
import Mathlib.Data.List.Chain
import Mathlib.Logic.Relation

/-!
# Directed graphs

A directed graph is the relation `r` from the parents to their children, and the list
`vertices` has every vertex that is a parent. A vertex is *founded* if no cycle leads to it.
These are the vertices that an order can hold where every parent stands before its children
(`ParentsFirst.founded`), and an order that cannot be continued holds all of them
(`mem_of_founded`).

In a graph without a cycle every vertex lies on a path from a vertex without parents to a
vertex without children (`exists_path_from_root`, `exists_path_to_leaf`).
-/

namespace Fastrak

namespace DirectedGraph

open Relation

universe u

variable {V : Type u} {r : V → V → Prop} {vertices order : List V} {v w : V}

/-- No cycle leads to the vertex. -/
def Founded (r : V → V → Prop) (v : V) : Prop :=
  ∀ c, ReflTransGen r c v → ¬ TransGen r c c

/-- No vertex lies on a cycle. -/
def Acyclic (r : V → V → Prop) : Prop := ∀ v, ¬ TransGen r v v

/-- The parents of every vertex of the order stand before it. -/
def ParentsFirst (r : V → V → Prop) (order : List V) : Prop :=
  ∀ before v after, order = before ++ v :: after → ∀ p, r p v → p ∈ before

theorem Founded.parent (h : Founded r v) (hwv : r w v) : Founded r w :=
  fun c hc => h c (hc.tail hwv)

theorem Acyclic.founded (h : Acyclic r) (v : V) : Founded r v := fun c _ => h c

/-- There is no cycle where every edge leads upwards. -/
theorem acyclic_of_lt [Preorder V] (h : ∀ p c, r p c → p < c) : Acyclic r := by
  intro v hv
  have hlt : ∀ w, TransGen r v w → v < w := by
    intro w hw
    induction hw with
    | single hvw => exact h v _ hvw
    | tail _ hwu ih => exact ih.trans (h _ _ hwu)
  exact lt_irrefl v (hlt v hv)

/-- A relation with finitely many parents is well founded below a founded vertex. -/
theorem Founded.acc (hparents : ∀ p v, r p v → p ∈ vertices) (h : Founded r v)
    (hv : v ∈ vertices) : Acc r v := by
  let F := {v : V // v ∈ vertices ∧ Founded r v}
  have hfinite : Finite F :=
    Set.Finite.to_subtype
      ((List.finite_toSet vertices).subset fun v (hv : v ∈ vertices ∧ Founded r v) => hv.1)
  let above : F → F → Prop := fun a b => TransGen r a.1 b.1
  have : IsTrans F above := ⟨fun _ _ _ => TransGen.trans⟩
  have : Std.Irrefl above := ⟨fun a => a.2.2 a.1 .refl⟩
  have hwf : WellFounded above := Finite.wellFounded_of_trans_of_irrefl above
  suffices ∀ a : F, Acc r a.1 from this ⟨v, hv, h⟩
  intro a
  induction a using hwf.induction with
  | _ a ih =>
      refine Acc.intro a.1 fun p hp => ?_
      exact ih ⟨p, hparents p a.1 hp, a.2.2.parent hp⟩ (TransGen.single hp)

section ParentsFirst

theorem ParentsFirst.nil : ParentsFirst r [] := by
  intro before v after h
  simp at h

theorem ParentsFirst.append_singleton (h : ParentsFirst r order) (hv : ∀ p, r p v → p ∈ order) :
    ParentsFirst r (order ++ [v]) := by
  intro before w after heq p hp
  rcases List.eq_nil_or_concat' after with rfl | ⟨after, last, rfl⟩
  · obtain ⟨rfl, hwv⟩ := List.append_inj' heq rfl
    obtain rfl : v = w := by simpa using hwv
    exact hv p hp
  · rw [← List.cons_append, ← List.append_assoc] at heq
    exact h before w after (List.append_inj' heq rfl).1 p hp

/-- All ancestors of a vertex stand before it. -/
theorem ParentsFirst.ancestor (h : ParentsFirst r order) {c : V} (hc : TransGen r c v)
    {before after : List V} (heq : order = before ++ v :: after) : c ∈ before := by
  induction hc generalizing before after with
  | single hcv => exact h before _ after heq c hcv
  | @tail b v _ hbv ih =>
      obtain ⟨first, rest, rfl⟩ := List.append_of_mem (h before v after heq b hbv)
      have hcb : c ∈ first := ih (by rw [heq, List.append_assoc, List.cons_append])
      exact List.mem_append_left _ hcb

theorem ParentsFirst.founded (h : ParentsFirst r order) (hv : v ∈ order) : Founded r v := by
  intro c hcv hcycle
  have hc : c ∈ order := by
    rcases reflTransGen_iff_eq_or_transGen.mp hcv with rfl | hcv
    · exact hv
    · obtain ⟨before, after, rfl⟩ := List.append_of_mem hv
      exact List.mem_append_left _ (h.ancestor hcv rfl)
  -- at its first place in the order, the vertex would stand before itself
  obtain ⟨before, after, heq, hnot⟩ := List.eq_append_cons_of_mem hc
  exact hnot (h.ancestor hcycle heq)

/-- An order to which no vertex with all its parents in it is left to be added. -/
theorem mem_of_founded (hparents : ∀ p v, r p v → p ∈ vertices)
    (hclosed : ∀ v ∈ vertices, (∀ p, r p v → p ∈ order) → v ∈ order)
    (h : Founded r v) (hv : v ∈ vertices) : v ∈ order := by
  induction h.acc hparents hv with
  | intro v _ ih =>
      refine hclosed v hv fun p hp => ?_
      exact ih p hp (h.parent hp) (hparents p v hp)

end ParentsFirst

section Paths

/-- A path in a graph without a cycle meets no vertex twice. -/
theorem Acyclic.nodup (h : Acyclic r) {path : List V} (hpath : path.IsChain r) : path.Nodup := by
  have htrans : path.IsChain (TransGen r) := hpath.imp fun _ _ => TransGen.single
  refine (List.isChain_iff_pairwise.mp htrans).imp fun {a b} hab heq => ?_
  subst heq
  exact h a hab

theorem Acyclic.swap (h : Acyclic r) : Acyclic (Function.swap r) :=
  fun v hv => h v (transGen_swap.mp hv)

/-- Upwards from every vertex to one without parents. -/
theorem exists_path_from_root (h : Acyclic r) (hparents : ∀ p v, r p v → p ∈ vertices)
    (hv : v ∈ vertices) :
    ∃ root above, (∀ p, ¬ r p root) ∧ root ∈ vertices ∧
      (above ++ [v]).head? = some root ∧ (above ++ [v]).IsChain r := by
  induction (h.founded v).acc hparents hv with
  | intro v _ ih =>
      by_cases hroot : ∃ p, r p v
      · obtain ⟨p, hp⟩ := hroot
        obtain ⟨root, above, hno, hmem, hhead, hchain⟩ := ih p hp (hparents p v hp)
        refine ⟨root, above ++ [p], hno, hmem, ?_, ?_⟩
        · rw [List.head?_append, hhead]
          rfl
        · rw [List.append_assoc]
          exact List.isChain_append_cons_cons.mpr ⟨hchain, hp, List.isChain_singleton v⟩
      · exact ⟨v, [], fun p hp => hroot ⟨p, hp⟩, hv, rfl, List.isChain_singleton v⟩

/-- Downwards from every vertex to one without children. -/
theorem exists_path_to_leaf (h : Acyclic r) (hchildren : ∀ v c, r v c → c ∈ vertices)
    (hv : v ∈ vertices) :
    ∃ below, (v :: below).IsChain r ∧
      ∀ leaf ∈ (v :: below).getLast?, ∀ c, ¬ r leaf c := by
  have hacc : Acc (Function.swap r) v :=
    (h.swap.founded v).acc (fun c v hvc => hchildren v c hvc) hv
  induction hacc with
  | intro v _ ih =>
      by_cases hleaf : ∃ c, r v c
      · obtain ⟨c, hc⟩ := hleaf
        obtain ⟨below, hchain, hlast⟩ := ih c hc (hchildren v c hc)
        refine ⟨c :: below, List.isChain_cons_cons.mpr ⟨hc, hchain⟩, ?_⟩
        rwa [List.getLast?_cons_cons]
      · refine ⟨[], List.isChain_singleton v, fun leaf heq c hc => hleaf ⟨c, ?_⟩⟩
        obtain rfl : v = leaf := by simpa using heq
        exact hc

end Paths

end DirectedGraph

end Fastrak
