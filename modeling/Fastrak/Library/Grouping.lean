import Mathlib.Algebra.BigOperators.Group.List.Basic
import Mathlib.Algebra.Ring.Nat
import Mathlib.Data.List.Dedup
import Mathlib.Order.Lattice

/-!
# Rows with a key

A sum over rows is the sum of the sums over its groups, one for each key
(`sum_map_groups`). In rows sorted by key, those of the least key are a first part that
can be split off (`takeWhile_eq_filter`, `dropWhile_eq_filter`).
-/

namespace Fastrak

namespace Grouping

universe u v w

variable {α : Type u} {κ : Type v} {M : Type w}

section Sums

variable [DecidableEq κ] [AddCommMonoid M]

/-- A sum, split into the rows that satisfy `p` and the others. -/
theorem sum_filter_add_sum_filter_not (p : α → Prop) [DecidablePred p] (f : α → M)
    (l : List α) :
    ((l.filter fun a => p a).map f).sum + ((l.filter fun a => ¬ p a).map f).sum =
      (l.map f).sum := by
  induction l with
  | nil => simp
  | cons a l ih =>
      by_cases h : p a
      · simp [h, ← ih, add_assoc]
      · simp [h, ← ih, add_left_comm]

theorem sum_map_ite_of_nodup {keys : List κ} (hnd : keys.Nodup) (k : κ) (c : M) :
    (keys.map fun k' => if k = k' then c else 0).sum = if k ∈ keys then c else 0 := by
  induction keys with
  | nil => simp
  | cons k' keys ih =>
      obtain ⟨hk', hnd⟩ := List.nodup_cons.mp hnd
      rw [List.map_cons, List.sum_cons, ih hnd]
      by_cases h : k = k'
      · subst h
        simp [hk']
      · simp [h]

/-- The sums over the groups of the keys are the sum over the rows with such a key. -/
theorem sum_map_groups {keys : List κ} (hnd : keys.Nodup) (key : α → κ) (f : α → M)
    (l : List α) :
    (keys.map fun k => ((l.filter fun a => key a = k).map f).sum).sum =
      ((l.filter fun a => key a ∈ keys).map f).sum := by
  induction l with
  | nil => simp
  | cons a l ih =>
      have hsplit : (keys.map fun k => (((a :: l).filter fun a => key a = k).map f).sum) =
          keys.map fun k => (if key a = k then f a else 0) +
            ((l.filter fun a => key a = k).map f).sum := by
        refine List.map_congr_left fun k _ => ?_
        by_cases h : key a = k
        · simp [h]
        · simp [h]
      rw [hsplit, List.sum_map_add, sum_map_ite_of_nodup hnd, ih]
      by_cases h : key a ∈ keys
      · simp [h]
      · simp [h]

/-- The keys may leave groups out whose sum is zero. -/
theorem sum_map_groups_of_zero {keys : List κ} (hnd : keys.Nodup) (key : α → κ) (f : α → M)
    (l : List α)
    (hzero : ∀ k ∉ keys, ((l.filter fun a => key a = k).map f).sum = 0) :
    (keys.map fun k => ((l.filter fun a => key a = k).map f).sum).sum = (l.map f).sum := by
  let rest := ((l.map key).dedup).filter fun k => k ∉ keys
  have hrest : rest.Nodup := (List.nodup_dedup _).filter _
  have hnone : (l.filter fun a => key a ∉ keys) = l.filter fun a => key a ∈ rest := by
    refine List.filter_congr fun a ha => ?_
    have hmem : key a ∈ l.map key := List.mem_map_of_mem ha
    simp [rest, hmem]
  have hsum : ((l.filter fun a => key a ∉ keys).map f).sum = 0 := by
    rw [hnone, ← sum_map_groups hrest]
    refine List.sum_eq_zero fun c hc => ?_
    obtain ⟨k, hk, rfl⟩ := List.mem_map.mp hc
    exact hzero k (of_decide_eq_true (List.mem_filter.mp hk).2)
  rw [sum_map_groups hnd, ← sum_filter_add_sum_filter_not (fun a => key a ∈ keys) f l, hsum,
    add_zero]

end Sums

section Counts

variable [DecidableEq κ]

omit [DecidableEq κ] in
theorem sum_map_ite_eq_countP (p : α → Prop) [DecidablePred p] (l : List α) :
    (l.map fun a => if p a then 1 else 0).sum = l.countP fun a => p a := by
  induction l with
  | nil => rfl
  | cons a l ih =>
      simp only [List.map_cons, List.sum_cons, ih, List.countP_cons, decide_eq_true_iff,
        Nat.add_comm]

/-- Double counting: for each key its rows, or for each row how often its key is there. -/
theorem sum_map_countP (keys : List κ) (key : α → κ) (l : List α) :
    (keys.map fun k => l.countP fun a => key a = k).sum =
      (l.map fun a => keys.count (key a)).sum := by
  induction l with
  | nil => simp
  | cons a l ih =>
      have hcount : (keys.countP fun k => key a = k) = keys.count (key a) :=
        List.countP_congr fun k _ => by rw [decide_eq_true_iff, beq_iff_eq, eq_comm]
      simp only [List.countP_cons, decide_eq_true_iff, List.sum_map_add, ih,
        sum_map_ite_eq_countP, hcount, List.map_cons, List.sum_cons, Nat.add_comm]

end Counts

section Sorted

variable [LinearOrder κ] {key : α → κ} {l : List α} {k : κ}

theorem takeWhile_eq_filter (hs : l.Pairwise fun a b => key a ≤ key b)
    (hk : ∀ a ∈ l, k ≤ key a) :
    (l.takeWhile fun a => key a = k) = l.filter fun a => key a = k := by
  induction l with
  | nil => rfl
  | cons a l ih =>
      obtain ⟨ha, hs⟩ := List.pairwise_cons.mp hs
      by_cases h : key a = k
      · have htail := ih hs fun b hb => hk b (List.mem_cons_of_mem a hb)
        simp [h, htail]
      · have hlt : ∀ b ∈ l, key b ≠ k := fun b hb heq =>
          h (le_antisymm (heq ▸ ha b hb) (hk a List.mem_cons_self))
        have hnil : (l.filter fun a => key a = k) = [] := by
          simpa [List.filter_eq_nil_iff] using hlt
        simp [h, hnil]

theorem dropWhile_eq_filter (hs : l.Pairwise fun a b => key a ≤ key b)
    (hk : ∀ a ∈ l, k ≤ key a) :
    (l.dropWhile fun a => key a = k) = l.filter fun a => ¬ key a = k := by
  induction l with
  | nil => rfl
  | cons a l ih =>
      obtain ⟨ha, hs⟩ := List.pairwise_cons.mp hs
      by_cases h : key a = k
      · have htail := ih hs fun b hb => hk b (List.mem_cons_of_mem a hb)
        simp only [decide_not] at htail
        simp [h, htail]
      · have hlt : ∀ b ∈ l, key b ≠ k := fun b hb heq =>
          h (le_antisymm (heq ▸ ha b hb) (hk a List.mem_cons_self))
        have hall : (l.filter fun a => ¬ key a = k) = l := by
          simpa [List.filter_eq_self] using hlt
        simp only [decide_not] at hall
        simp [h, hall]

end Sorted

end Grouping

end Fastrak
