import Mathlib.Algebra.BigOperators.Group.List.Basic
import Mathlib.Algebra.Ring.Nat
import Mathlib.Data.List.Nodup
import Mathlib.Logic.Relation

/-!
# Worklists

The loop takes a vertex from the queue, does something with it and puts the next ones into the
queue, unless it has seen the vertex before. It visits each vertex that can be reached from the
first one, once (`loop_spec`). A round takes one vertex out of the queue, and only the first
visit of a vertex puts others in, so the number of rounds is bounded by the number of edges.
-/

namespace Fastrak

namespace Worklist

open Relation

universe u v

variable {V : Type u} {β : Type v} [DecidableEq V]

/-- The loop, for at most `n` rounds. -/
def loop (next : V → List V) (act : V → β → β) : ℕ → List V → List V → β → β
  | 0, _, _, b => b
  | _, _, [], b => b
  | n + 1, seen, v :: queue, b =>
      if v ∈ seen then loop next act n seen queue b
      else loop next act n (seen ++ [v]) (queue ++ next v) (act v b)

variable {next : V → List V} {vertices seen queue : List V} {v w : V} {n : ℕ}

/-- The edges that the loop may still follow. -/
def left (next : V → List V) (vertices seen : List V) : ℕ :=
  ((vertices.filter (· ∉ seen)).map fun v => (next v).length).sum

theorem left_append (hnodup : vertices.Nodup) (hv : v ∈ vertices) (hseen : v ∉ seen) :
    left next vertices (seen ++ [v]) + (next v).length = left next vertices seen := by
  have hmem : v ∈ vertices.filter (· ∉ seen) := by simp [hv, hseen]
  have herase : vertices.filter (· ∉ seen ++ [v]) = (vertices.filter (· ∉ seen)).erase v := by
    rw [(hnodup.filter _).erase_eq_filter, List.filter_filter]
    refine List.filter_congr fun w _ => ?_
    by_cases hw : w = v <;> simp [hw]
  have hperm := (List.perm_cons_erase hmem).map fun v => (next v).length
  rw [left, left, herase, hperm.sum_eq, List.map_cons, List.sum_cons, Nat.add_comm]

/-- What a run of the loop does with the vertices that it visits. -/
theorem exists_loop_eq (act : V → β → β) (hnodup : vertices.Nodup) (hnext : ∀ v, next v ⊆ vertices)
    (hqueue : queue ⊆ vertices) (hn : queue.length + left next vertices seen ≤ n)
    (hclosed : ∀ v ∈ seen, ∀ w ∈ next v, w ∈ seen ∨ w ∈ queue) (hseen : seen.Nodup) (b : β) :
    ∃ new : List V, loop next act n seen queue b = new.foldl (fun b v => act v b) b ∧
      (seen ++ new).Nodup ∧ queue ⊆ seen ++ new ∧
      (∀ v ∈ seen ++ new, next v ⊆ seen ++ new) ∧
      ∀ w ∈ new, ∃ v ∈ queue, ReflTransGen (fun v w => w ∈ next v) v w := by
  induction n generalizing seen queue b with
  | zero =>
      obtain rfl : queue = [] := List.length_eq_zero_iff.mp (by omega)
      exact ⟨[], by simp [loop], by simpa using hseen, by simp,
        by simpa [List.subset_def] using hclosed, by simp⟩
  | succ n ih =>
      cases queue with
      | nil =>
          exact ⟨[], by simp [loop], by simpa using hseen, by simp,
            by simpa [List.subset_def] using hclosed, by simp⟩
      | cons v queue =>
          rw [List.length_cons] at hn
          obtain ⟨hv, hrest⟩ := List.cons_subset.mp hqueue
          by_cases hold : v ∈ seen
          · have hclosed' : ∀ u ∈ seen, ∀ w ∈ next u, w ∈ seen ∨ w ∈ queue := by
              intro u hu w hw
              refine (hclosed u hu w hw).elim .inl fun hmem => ?_
              rcases List.mem_cons.mp hmem with rfl | hmem
              · exact .inl hold
              · exact .inr hmem
            obtain ⟨new, heq, hnew, hsub, hnext', hreach⟩ :=
              ih hrest (by omega) hclosed' hseen b
            refine ⟨new, by rw [loop, if_pos hold, heq], hnew, ?_, hnext', fun w hw => ?_⟩
            · exact List.cons_subset.mpr ⟨List.mem_append_left _ hold, hsub⟩
            · obtain ⟨u, hu, huw⟩ := hreach w hw
              exact ⟨u, List.mem_cons_of_mem _ hu, huw⟩
          · have hleft : left next vertices (seen ++ [v]) + (next v).length =
                left next vertices seen := left_append hnodup hv hold
            have hclosed' : ∀ u ∈ seen ++ [v], ∀ w ∈ next u,
                w ∈ seen ++ [v] ∨ w ∈ queue ++ next v := by
              intro u hu w hw
              rcases List.mem_append.mp hu with hu | hu
              · rcases hclosed u hu w hw with hmem | hmem
                · exact .inl (List.mem_append_left _ hmem)
                · rcases List.mem_cons.mp hmem with rfl | hmem
                  · exact .inl (by simp)
                  · exact .inr (List.mem_append_left _ hmem)
              · obtain rfl : u = v := by simpa using hu
                exact .inr (List.mem_append_right _ hw)
            have hseen' : (seen ++ [v]).Nodup := by
              rw [List.nodup_append]
              refine ⟨hseen, List.nodup_singleton v, fun a ha c hc heq => hold ?_⟩
              obtain rfl : c = v := by simpa using hc
              exact heq ▸ ha
            obtain ⟨new, heq, hnew, hsub, hnext', hreach⟩ :=
              ih (List.append_subset.mpr ⟨hrest, hnext v⟩)
                (by rw [List.length_append]; omega) hclosed' hseen' (act v b)
            rw [List.append_assoc, List.singleton_append] at hnew hsub hnext'
            refine ⟨v :: new, by rw [loop, if_neg hold, heq, List.foldl_cons], hnew, ?_, hnext',
              fun w hw => ?_⟩
            · exact List.cons_subset.mpr
                ⟨by simp, fun u hu => hsub (List.mem_append_left _ hu)⟩
            · rcases List.mem_cons.mp hw with rfl | hw
              · exact ⟨w, List.mem_cons_self, .refl⟩
              · obtain ⟨u, hu, huw⟩ := hreach w hw
                rcases List.mem_append.mp hu with hu | hu
                · exact ⟨u, List.mem_cons_of_mem _ hu, huw⟩
                · exact ⟨v, List.mem_cons_self, .head hu huw⟩

/-- The loop does its work once for each vertex that can be reached. -/
theorem loop_spec (act : V → β → β) (hnodup : vertices.Nodup) (hnext : ∀ v, next v ⊆ vertices)
    (hv : v ∈ vertices) (hn : 1 + (vertices.map fun v => (next v).length).sum ≤ n) (b : β) :
    ∃ visited : List V, loop next act n [] [v] b = visited.foldl (fun b v => act v b) b ∧
      visited.Nodup ∧ ∀ w, w ∈ visited ↔ ReflTransGen (fun v w => w ∈ next v) v w := by
  have hsingle : [v] ⊆ vertices := by simpa using hv
  have hbound : [v].length + left next vertices [] ≤ n := by simpa [left] using hn
  obtain ⟨visited, heq, hvisited, hsub, hclosed, hreach⟩ :=
    exists_loop_eq act hnodup hnext hsingle hbound (by simp) List.nodup_nil b
  rw [List.nil_append] at hvisited hsub hclosed
  refine ⟨visited, heq, hvisited, fun w => ⟨fun hw => ?_, fun hvw => ?_⟩⟩
  · simpa using hreach w hw
  · induction hvw with
    | refl => exact hsub (by simp)
    | tail _ hnext ih => exact hclosed _ ih hnext

end Worklist

end Fastrak
