import Fastrak.TrialBalance.Sums
import Mathlib.Tactic.Linarith

/-!
# The trial balance is complete and balances

For every result of the three queries: the merge gives each code with a sum that is not
zero one line, with the sums of the ledger over all accounts of the code. And where every
posted move balances and has one date and one state, the summary row balances. In floats the
columns are the same sums, one rounded step after the other, and two sides of one total may
differ in their last digit.
-/

namespace Fastrak

namespace TrialBalance

open Grouping Ledger

universe u v

variable {κ : Type u} {δ : Type v}

/-- The totals are the two parts of the net. -/
theorem totalColumns_spec (ar : Arithmetic) (td tc : ℚ) :
    0 ≤ (totalColumns ar td tc).1 ∧ 0 ≤ (totalColumns ar td tc).2 ∧
      ((totalColumns ar td tc).1 = 0 ∨ (totalColumns ar td tc).2 = 0) ∧
      (totalColumns ar td tc).1 - (totalColumns ar td tc).2 = ar.sub td tc := by
  rw [totalColumns]
  generalize ar.sub td tc = net
  rcases lt_trichotomy 0 net with h | h | h
  · simp [h, h.le]
  · simp [← h]
  · have hneg : ¬ 0 < net := not_lt.mpr h.le
    simp [h, hneg, h.le]

theorem not_displayed_iff {a : Amounts} :
    ¬ a.Displayed ↔ a .initD = 0 ∧ a .initC = 0 ∧ a .filterD = 0 ∧ a .filterC = 0 := by
  rw [Amounts.Displayed, not_or, not_or, not_or, not_not, not_not, not_not, not_not]

/-- The rows that the report reads are ordered as those of the database. -/
theorem Ahead.fetch [LinearOrder κ] {pending : List (TotalRow κ)} {rows : List (Row κ)}
    (ar : Arithmetic) (h : Ahead pending rows) : Ahead pending (rows.map (Row.fetch ar)) where
  sorted := List.pairwise_map.mpr h.sorted
  account r hr := by
    obtain ⟨r', hr', rfl⟩ := List.mem_map.mp hr
    exact h.account r' hr'

theorem fetch_exact (rows : List (Row κ)) : rows.map (Row.fetch .exact) = rows :=
  List.map_id rows

section Report

variable [LinearOrder κ] [LinearOrder δ] {L : Ledger κ δ} {dateFrom dateTo : δ}
  {initAcc filterAcc : List (Row κ)} {allAccount : List (TotalRow κ)}

/-- In any arithmetic, the lines are made of the rows of their codes, and the summary row adds
them up one after the other. -/
theorem accountTrialBl_merged (ar : Arithmetic)
    (hi : IsResult Row.code (L.groupsHaving (IsInit dateFrom)) initAcc)
    (hf : IsResult Row.code (L.groupsHaving (IsFilter dateFrom dateTo)) filterAcc)
    (ha : IsResult TotalRow.code L.totals allAccount) :
    ∃ lines, Merged ar (initAcc.map (Row.fetch ar)) (filterAcc.map (Row.fetch ar)) lines ∧
      accountTrialBl ar initAcc filterAcc allAccount =
        (fun c => ar.sum (lines.map (·.amounts c)), lines) := by
  obtain ⟨lines, hm, hfold⟩ := foldl_step ha.2 ((ahead_of_result hi ha).fetch ar)
    ((ahead_of_result hf ha).fetch ar) 0 (fun _ => ar.round_zero) []
  exact ⟨lines, hm, congrArg (fun m : Merge κ => (m.sums, m.lines)) hfold⟩

/-- In exact arithmetic the amounts of a code are the sums of the ledger. -/
theorem rowFor_exact (hi : IsResult Row.code (L.groupsHaving (IsInit dateFrom)) initAcc)
    (hf : IsResult Row.code (L.groupsHaving (IsFilter dateFrom dateTo)) filterAcc) (code : κ) :
    rowFor .exact initAcc filterAcc code .initD = L.sumOver (IsInit dateFrom) (·.debit) code ∧
    rowFor .exact initAcc filterAcc code .initC = L.sumOver (IsInit dateFrom) (·.credit) code ∧
    rowFor .exact initAcc filterAcc code .filterD =
      L.sumOver (IsFilter dateFrom dateTo) (·.debit) code ∧
    rowFor .exact initAcc filterAcc code .filterC =
      L.sumOver (IsFilter dateFrom dateTo) (·.credit) code := by
  simp only [rowFor, finalRow, Arithmetic.exact_sum]
  exact ⟨sum_column_result hi addsUp_debit code, sum_column_result hi addsUp_credit code,
    sum_column_result hf addsUp_debit code, sum_column_result hf addsUp_credit code⟩

/-- One line for each code, with the sums of the ledger; a code is left out only if its
sums are zero; and the summary row adds the lines up. -/
theorem trial_balance_is_complete (L : Ledger κ δ) (dateFrom dateTo : δ)
    (hi : IsResult Row.code (L.groupsHaving (IsInit dateFrom)) initAcc)
    (hf : IsResult Row.code (L.groupsHaving (IsFilter dateFrom dateTo)) filterAcc)
    (ha : IsResult TotalRow.code L.totals allAccount) :
    let summary := (accountTrialBl .exact initAcc filterAcc allAccount).1
    let lines := (accountTrialBl .exact initAcc filterAcc allAccount).2
    (lines.map (·.code)).Nodup ∧
    (∀ line ∈ lines,
      line.amounts .initD = L.sumOver (IsInit dateFrom) (·.debit) line.code ∧
      line.amounts .initC = L.sumOver (IsInit dateFrom) (·.credit) line.code ∧
      line.amounts .filterD = L.sumOver (IsFilter dateFrom dateTo) (·.debit) line.code ∧
      line.amounts .filterC = L.sumOver (IsFilter dateFrom dateTo) (·.credit) line.code ∧
      0 ≤ line.amounts .totalD ∧ 0 ≤ line.amounts .totalC ∧
      (line.amounts .totalD = 0 ∨ line.amounts .totalC = 0) ∧
      line.amounts .totalD - line.amounts .totalC =
        line.amounts .initD + line.amounts .filterD -
          line.amounts .initC - line.amounts .filterC) ∧
    (∀ code ∉ lines.map (·.code),
      L.sumOver (IsInit dateFrom) (·.debit) code = 0 ∧
      L.sumOver (IsInit dateFrom) (·.credit) code = 0 ∧
      L.sumOver (IsFilter dateFrom dateTo) (·.debit) code = 0 ∧
      L.sumOver (IsFilter dateFrom dateTo) (·.credit) code = 0) ∧
    ∀ c : Column, summary c = (lines.map (·.amounts c)).sum := by
  obtain ⟨lines, hm, heq⟩ := accountTrialBl_merged .exact hi hf ha
  rw [fetch_exact, fetch_exact] at hm
  have hsums (code : κ) := rowFor_exact hi hf code
  rw [heq]
  refine ⟨hm.nodup, fun line hline => ?_, fun code hcode => ?_,
    fun c => Arithmetic.exact_sum _⟩
  · obtain ⟨hD, hC, hor, hnet⟩ := totalColumns_spec .exact
      (rowFor .exact initAcc filterAcc line.code .initD +
        rowFor .exact initAcc filterAcc line.code .filterD)
      (rowFor .exact initAcc filterAcc line.code .initC +
        rowFor .exact initAcc filterAcc line.code .filterC)
    rw [hm.amounts line hline]
    obtain ⟨hiD, hiC, hfD, hfC⟩ := hsums line.code
    exact ⟨hiD, hiC, hfD, hfC, hD, hC, hor, hnet.trans (sub_add_eq_sub_sub _ _ _)⟩
  · obtain ⟨h₁, h₂, h₃, h₄⟩ := not_displayed_iff.mp (mt (hm.complete code) hcode)
    obtain ⟨hiD, hiC, hfD, hfC⟩ := hsums code
    exact ⟨hiD.symm.trans h₁, hiC.symm.trans h₂, hfD.symm.trans h₃, hfC.symm.trans h₄⟩

end Report

/-- Two accounts of one code, an account without lines, and a posted move in each of the
two periods. -/
def sampleLedger : Ledger ℕ ℕ where
  accounts := [⟨1, 100, "Bank"⟩, ⟨2, 100, "Bank"⟩, ⟨3, 200, "Sales"⟩, ⟨4, 300, "Empty"⟩]
  lines :=
    [⟨1, some 1, 5, .posted, 30, 0⟩, ⟨1, some 3, 5, .posted, 0, 30⟩, ⟨1, none, 5, .posted, 0, 0⟩,
      ⟨2, some 2, 12, .posted, 20, 0⟩, ⟨2, some 3, 12, .posted, 0, 20⟩,
      ⟨3, some 2, 12, .draft, 7, 0⟩]
  nodup_id := by decide
  exists_account := by decide
  amounts_of_none := by decide +kernel

theorem trial_balance_is_complete_of_two_companies :
    let lines := (accountTrialBl .exact (sampleLedger.groupsHaving (IsInit 10))
      (sampleLedger.groupsHaving (IsFilter 10 20)) sampleLedger.totals).2
    lines.map (·.code) = [100, 200] ∧ (lines.map (·.code)).Nodup :=
  ⟨by decide +kernel, (trial_balance_is_complete sampleLedger 10 20
    ⟨.refl _, by decide +kernel⟩ ⟨.refl _, by decide +kernel⟩ ⟨.refl _, by decide +kernel⟩).1⟩

/-! ## The balance -/

/-- The lines of a posted move share its date and its state, and they balance. -/
structure Balanced (L : Ledger κ δ) : Prop where
  same : ∀ l ∈ L.lines, l.parentState = .posted → ∀ l' ∈ L.lines, l'.moveId = l.moveId →
    l'.date = l.date ∧ l'.parentState = l.parentState
  balanced : ∀ l ∈ L.lines, l.parentState = .posted →
    ((L.lines.filter fun l' => l'.moveId = l.moveId).map (·.debit)).sum =
      ((L.lines.filter fun l' => l'.moveId = l.moveId).map (·.credit)).sum

section Lines

variable {L : Ledger κ δ} (h : δ → ParentState → Prop) [∀ t s, Decidable (h t s)]

/-- The lines that a query selects. -/
def selected (L : Ledger κ δ) : List (MoveLine δ) :=
  L.lines.filter fun l => h l.date l.parentState

variable {h}

/-- The sum of the rows is the sum of the lines: each line has one account. -/
theorem sum_result [LE κ] [DecidableEq δ] {rows : List (Row κ)}
    (hr : IsResult Row.code (L.groupsHaving h) rows) {f : Row κ → ℚ} {g : MoveLine δ → ℚ}
    (hfg : AddsUp f g)
    (hnone : ∀ l ∈ L.lines, l.accountId = none → g l = 0) :
    (rows.map f).sum = ((selected h L).map g).sum := by
  have hkeys : (L.accounts.map fun a => some a.id).Nodup := by
    have hn := L.nodup_id.map (Option.some_injective ℕ)
    rwa [List.map_map] at hn
  rw [(hr.1.map f).sum_eq, L.sum_groupsHaving h hfg,
    ← sum_map_groups_of_zero hkeys (·.accountId) g (selected h L), List.map_map]
  · congr 1
    refine List.map_congr_left fun a _ => ?_
    simp only [selected, linesOf, Function.comp_apply, List.filter_filter, Bool.and_comm]
  · intro k hk
    refine List.sum_eq_zero fun c hc => ?_
    obtain ⟨l, hl, rfl⟩ := List.mem_map.mp hc
    obtain ⟨hl, hlk⟩ := List.mem_filter.mp hl
    have hmem : l ∈ L.lines := (List.mem_filter.mp hl).1
    have hlk : l.accountId = k := of_decide_eq_true hlk
    cases k with
    | none => exact hnone l hmem hlk
    | some i =>
        obtain ⟨a, ha, rfl⟩ := List.mem_map.mp (L.exists_account l hmem i hlk)
        exact absurd (List.mem_map_of_mem (f := fun a : Account κ => some a.id) ha) hk

/-- A move is selected as a whole or not at all. -/
theorem Balanced.sum_selected (hb : Balanced L) (hposted : ∀ t s, h t s → s = .posted) :
    ((selected h L).map (·.debit)).sum = ((selected h L).map (·.credit)).sum := by
  have hkeys := List.nodup_dedup ((selected h L).map (·.moveId))
  have hout : ∀ g : MoveLine δ → ℚ, ∀ m ∉ ((selected h L).map (·.moveId)).dedup,
      (((selected h L).filter fun l => l.moveId = m).map g).sum = 0 := by
    intro g m hm
    have hnil : ((selected h L).filter fun l => l.moveId = m) = [] := by
      refine List.filter_eq_nil_iff.mpr fun l hl heq => hm ?_
      rw [List.mem_dedup, ← of_decide_eq_true heq]
      exact List.mem_map_of_mem hl
    rw [hnil]
    rfl
  rw [← sum_map_groups_of_zero hkeys (·.moveId) _ (selected h L) (hout _),
    ← sum_map_groups_of_zero hkeys (·.moveId) _ (selected h L) (hout _)]
  congr 1
  refine List.map_congr_left fun m hm => ?_
  obtain ⟨l, hl, rfl⟩ := List.mem_map.mp (List.mem_dedup.mp hm)
  obtain ⟨hmem, hsel⟩ := List.mem_filter.mp hl
  have hsel := of_decide_eq_true hsel
  have hpost := hposted _ _ hsel
  have hwhole : ((selected h L).filter fun l' => l'.moveId = l.moveId) =
      L.lines.filter fun l' => l'.moveId = l.moveId := by
    rw [selected, List.filter_filter]
    refine List.filter_congr fun l' hl' => ?_
    by_cases hid : l'.moveId = l.moveId
    · obtain ⟨hdate, hstate⟩ := hb.same l hmem hpost l' hl' hid
      simp [hid, hdate, hstate, hsel]
    · simp [hid]
  rw [hwhole]
  exact hb.balanced l hmem hpost

end Lines

section Report

variable [LinearOrder κ] [LinearOrder δ] {L : Ledger κ δ} {dateFrom dateTo : δ}
  {initAcc filterAcc : List (Row κ)} {allAccount : List (TotalRow κ)}
  {lines : List (ReportLine κ)}

/-- The merge takes every row once. -/
theorem Merged.sum_column (hm : Merged .exact initAcc filterAcc lines) (rows : List (Row κ))
    {c : Column} {f : Row κ → ℚ}
    (hrow : ∀ k, rowFor .exact initAcc filterAcc k c = (column f k rows).sum)
    (hshown : ∀ a : Amounts, ¬ a.Displayed → a c = 0) :
    (lines.map (·.amounts c)).sum = (rows.map f).sum := by
  rw [← sum_map_groups_of_zero hm.nodup (·.code) f rows, List.map_map]
  · congr 1
    refine List.map_congr_left fun line hline => ?_
    rw [hm.amounts line hline]
    exact hrow line.code
  · intro k hk
    exact (hrow k).symm.trans (hshown _ (mt (hm.complete k) hk))

/-- The columns of a query balance. -/
theorem Merged.sum_debit_eq_sum_credit (hm : Merged .exact initAcc filterAcc lines)
    (hb : Balanced L) {h : δ → ParentState → Prop} [∀ t s, Decidable (h t s)]
    (hposted : ∀ t s, h t s → s = .posted) {rows : List (Row κ)}
    (hr : IsResult Row.code (L.groupsHaving h) rows) {d c : Column}
    (hd : ∀ k, rowFor .exact initAcc filterAcc k d = (column (·.debit) k rows).sum)
    (hc : ∀ k, rowFor .exact initAcc filterAcc k c = (column (·.credit) k rows).sum)
    (hshown : ∀ a : Amounts, ¬ a.Displayed → a d = 0 ∧ a c = 0) :
    (lines.map (·.amounts d)).sum = (lines.map (·.amounts c)).sum := by
  have hdebit : ∀ l ∈ L.lines, l.accountId = none → l.debit = 0 := fun l hl hn =>
    (L.amounts_of_none l hl hn).1
  have hcredit : ∀ l ∈ L.lines, l.accountId = none → l.credit = 0 := fun l hl hn =>
    (L.amounts_of_none l hl hn).2
  rw [hm.sum_column rows hd fun a h => (hshown a h).1,
    hm.sum_column rows hc fun a h => (hshown a h).2,
    sum_result hr addsUp_debit hdebit, sum_result hr addsUp_credit hcredit]
  exact hb.sum_selected hposted

/-- The totals of the lines differ by what the other columns differ by. -/
theorem Merged.sum_totals (hm : Merged .exact initAcc filterAcc lines) :
    (lines.map (·.amounts .totalD)).sum +
        ((lines.map (·.amounts .initC)).sum + (lines.map (·.amounts .filterC)).sum) =
      (lines.map (·.amounts .totalC)).sum +
        ((lines.map (·.amounts .initD)).sum + (lines.map (·.amounts .filterD)).sum) := by
  simp only [← List.sum_map_add]
  congr 1
  refine List.map_congr_left fun line hline => ?_
  have hspec := (totalColumns_spec .exact
    (rowFor .exact initAcc filterAcc line.code .initD +
      rowFor .exact initAcc filterAcc line.code .filterD)
    (rowFor .exact initAcc filterAcc line.code .initC +
      rowFor .exact initAcc filterAcc line.code .filterC)).2.2.2
  rw [hm.amounts line hline]
  simp only [rowFor, finalRow, Arithmetic.exact_add, Arithmetic.exact_sub] at hspec ⊢
  linarith

/-- In exact arithmetic, the summary row balances, column by column. -/
theorem trial_balance_balances (L : Ledger κ δ) (hb : Balanced L) (dateFrom dateTo : δ)
    (hi : IsResult Row.code (L.groupsHaving (IsInit dateFrom)) initAcc)
    (hf : IsResult Row.code (L.groupsHaving (IsFilter dateFrom dateTo)) filterAcc)
    (ha : IsResult TotalRow.code L.totals allAccount) :
    let summary := (accountTrialBl .exact initAcc filterAcc allAccount).1
    summary .initD = summary .initC ∧ summary .filterD = summary .filterC ∧
      summary .totalD = summary .totalC := by
  obtain ⟨lines, hm, heq⟩ := accountTrialBl_merged .exact hi hf ha
  rw [fetch_exact, fetch_exact] at hm
  have hinit : (lines.map (·.amounts .initD)).sum = (lines.map (·.amounts .initC)).sum :=
    hm.sum_debit_eq_sum_credit hb (fun _ _ h => h.2) hi (fun _ => Arithmetic.exact_sum _)
      (fun _ => Arithmetic.exact_sum _)
      fun a h => ⟨(not_displayed_iff.mp h).1, (not_displayed_iff.mp h).2.1⟩
  have hfilter : (lines.map (·.amounts .filterD)).sum = (lines.map (·.amounts .filterC)).sum :=
    hm.sum_debit_eq_sum_credit hb (fun _ _ h => h.2) hf (fun _ => Arithmetic.exact_sum _)
      (fun _ => Arithmetic.exact_sum _)
      fun a h => (not_displayed_iff.mp h).2.2
  have hnet := hm.sum_totals
  rw [heq]
  simp only [Arithmetic.exact_sum]
  exact ⟨hinit, hfilter, by linarith⟩

theorem trial_balance_balances_for_two_companies :
    let summary := (accountTrialBl .exact (sampleLedger.groupsHaving (IsInit 10))
      (sampleLedger.groupsHaving (IsFilter 10 20)) sampleLedger.totals).1
    summary .totalD = 50 ∧ summary .totalC = 50 ∧ summary .initD = summary .initC :=
  ⟨by decide +kernel, by decide +kernel, (trial_balance_balances sampleLedger
    ⟨by decide, by decide +kernel⟩ 10 20 ⟨.refl _, by decide +kernel⟩
    ⟨.refl _, by decide +kernel⟩ ⟨.refl _, by decide +kernel⟩).1⟩

end Report

/-- A posted move with two debits and one credit. -/
def splitDebit : Ledger ℕ ℕ where
  accounts := [⟨1, 100, "Bank"⟩, ⟨2, 200, "Cash"⟩, ⟨3, 300, "Sales"⟩]
  lines :=
    [⟨1, some 1, 5, .posted, 33.35, 0⟩, ⟨1, some 2, 5, .posted, 66.7, 0⟩,
      ⟨1, some 3, 5, .posted, 0, 100.05⟩]
  nodup_id := by decide
  exists_account := by decide
  amounts_of_none := by decide +kernel

/-- As floats, 33.35 and 66.7 add up to more than 100.05. -/
theorem float_trial_balance_is_off :
    Balanced splitDebit ∧
      let initAcc := splitDebit.groupsHaving (IsInit 10)
      let filterAcc := splitDebit.groupsHaving (IsFilter 10 20)
      IsResult Row.code (splitDebit.groupsHaving (IsInit 10)) initAcc ∧
      IsResult Row.code (splitDebit.groupsHaving (IsFilter 10 20)) filterAcc ∧
      IsResult TotalRow.code splitDebit.totals splitDebit.totals ∧
      let summary := (accountTrialBl .double initAcc filterAcc splitDebit.totals).1
      summary .initC < summary .initD ∧ summary .totalC < summary .totalD :=
  ⟨⟨by decide, by decide +kernel⟩, ⟨.refl _, by decide +kernel⟩, ⟨.refl _, by decide +kernel⟩,
    ⟨.refl _, by decide +kernel⟩, by decide +kernel, by decide +kernel⟩

end TrialBalance

end Fastrak
