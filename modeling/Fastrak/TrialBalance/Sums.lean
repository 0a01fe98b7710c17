import Fastrak.TrialBalance.Merge

/-!
# The sums of the report as sums over the ledger

The rows of a query are the groups of the lines it selects, so the sum over the rows of a
code is the sum over the lines of the accounts with this code.
-/

namespace Fastrak

namespace TrialBalance

open Grouping

universe u v

variable {κ : Type u} {δ : Type v}

/-! ## From rows to lines -/

namespace Ledger

/-- `f` is the column of the rows that adds up `g`. -/
def AddsUp (f : Row κ → ℚ) (g : MoveLine δ → ℚ) : Prop :=
  ∀ (a : Account κ) (ls : List (MoveLine δ)),
    f { code := a.code, name := a.name, debit := (ls.map (·.debit)).sum,
        credit := (ls.map (·.credit)).sum } = (ls.map g).sum

theorem addsUp_debit : AddsUp (κ := κ) (δ := δ) (·.debit) (·.debit) := fun _ _ => rfl

theorem addsUp_credit : AddsUp (κ := κ) (δ := δ) (·.credit) (·.credit) := fun _ _ => rfl

section Groups

variable [DecidableEq δ] (L : Ledger κ δ) (h : δ → ParentState → Prop)
  [∀ t s, Decidable (h t s)]

/-- The sum over the lines of the accounts with a code. -/
def sumOver [DecidableEq κ] (g : MoveLine δ → ℚ) (code : κ) : ℚ :=
  ((L.accounts.filter fun a => a.code = code).map fun a =>
    (((L.linesOf a).filter fun l => h l.date l.parentState).map g).sum).sum

variable {f : Row κ → ℚ} {g : MoveLine δ → ℚ}

theorem sum_groupsOf (hfg : AddsUp f g) (a : Account κ) :
    ((L.groupsOf h a).map f).sum =
      (((L.linesOf a).filter fun l => h l.date l.parentState).map g).sum := by
  rw [groupsOf, List.map_map]
  have hrow : ∀ s : δ × ParentState, (f ∘ fun s : δ × ParentState =>
      let group := (L.linesOf a).filter fun l => (l.date, l.parentState) = s
      ({ code := a.code, name := a.name, debit := (group.map (·.debit)).sum,
         credit := (group.map (·.credit)).sum } : Row κ)) s =
      (((L.linesOf a).filter fun l => (l.date, l.parentState) = s).map g).sum :=
    fun s => hfg a _
  rw [funext hrow, sum_map_groups ((List.nodup_dedup _).filter _)]
  congr 2
  refine List.filter_congr fun l hl => ?_
  have hmem : (l.date, l.parentState) ∈ (L.linesOf a).map fun l => (l.date, l.parentState) :=
    List.mem_map_of_mem (f := fun l => (l.date, l.parentState)) hl
  simp [List.mem_filter, List.mem_dedup, hmem]

theorem code_of_mem_groupsOf {a : Account κ} {r : Row κ} (hr : r ∈ L.groupsOf h a) :
    r.code = a.code := by
  obtain ⟨s, -, rfl⟩ := List.mem_map.mp hr
  rfl

theorem linesOf_ne_nil_of_mem_groupsOf {a : Account κ} {r : Row κ} (hr : r ∈ L.groupsOf h a) :
    L.linesOf a ≠ [] := by
  intro hnil
  rw [groupsOf, hnil] at hr
  simp at hr

theorem sum_column_groupsHaving [DecidableEq κ] (hfg : AddsUp f g) (code : κ) :
    (column f code (L.groupsHaving h)).sum = L.sumOver h g code := by
  rw [column, sumOver, groupsHaving]
  induction L.accounts with
  | nil => rfl
  | cons a accounts ih =>
      rw [List.flatMap_cons, List.filter_append, List.map_append, List.sum_append, ih]
      by_cases hc : a.code = code
      · have hall : ((L.groupsOf h a).filter fun r => r.code = code) = L.groupsOf h a :=
          List.filter_eq_self.mpr fun r hr =>
            decide_eq_true ((L.code_of_mem_groupsOf h hr).trans hc)
        rw [hall, L.sum_groupsOf h hfg]
        simp [hc]
      · have hnone : ((L.groupsOf h a).filter fun r => r.code = code) = [] :=
          List.filter_eq_nil_iff.mpr fun r hr heq =>
            hc ((L.code_of_mem_groupsOf h hr).symm.trans (of_decide_eq_true heq))
        rw [hnone]
        simp [hc]

theorem sum_groupsHaving (hfg : AddsUp f g) :
    ((L.groupsHaving h).map f).sum =
      (L.accounts.map fun a =>
        (((L.linesOf a).filter fun l => h l.date l.parentState).map g).sum).sum := by
  rw [groupsHaving]
  induction L.accounts with
  | nil => rfl
  | cons a accounts ih =>
      rw [List.flatMap_cons, List.map_append, List.sum_append, ih, L.sum_groupsOf h hfg,
        List.map_cons, List.sum_cons]

end Groups

end Ledger

/-! ## Results of the queries -/

section Results

variable [LinearOrder κ] [DecidableEq δ] {L : Ledger κ δ} {h : δ → ParentState → Prop}
  [∀ t s, Decidable (h t s)] {rows : List (Row κ)} {allAccount : List (TotalRow κ)}

theorem sum_column_result (hr : IsResult Row.code (L.groupsHaving h) rows) {f : Row κ → ℚ}
    {g : MoveLine δ → ℚ} (hfg : Ledger.AddsUp f g) (code : κ) :
    (column f code rows).sum = L.sumOver h g code := by
  rw [← L.sum_column_groupsHaving h hfg]
  exact ((hr.1.filter _).map f).sum_eq

/-- Every row belongs to an account with lines. -/
theorem ahead_of_result (hr : IsResult Row.code (L.groupsHaving h) rows)
    (ha : IsResult TotalRow.code L.totals allAccount) : Ahead allAccount rows where
  sorted := hr.2
  account r hmem := by
    obtain ⟨a, ha', hra⟩ := List.mem_flatMap.mp (hr.1.mem_iff.mp hmem)
    have hne := L.linesOf_ne_nil_of_mem_groupsOf h hra
    refine ⟨_, ha.1.mem_iff.mpr (List.mem_map_of_mem ha'), ?_,
      (L.code_of_mem_groupsOf h hra).symm⟩
    simp [hne]

end Results

end TrialBalance

end Fastrak
