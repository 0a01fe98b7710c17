import Fastrak.TrialBalance.Report
import Mathlib.Algebra.BigOperators.Group.List.Lemmas
import Mathlib.Algebra.Group.Pi.Basic

/-!
# What the merge makes of two sorted results

At an account the rows of its code are at both cursors or not there at all, because every
row belongs to an account that is still to come. The first account of a code takes all
rows of the code; the others of that code find none, and are not displayed.
-/

namespace Fastrak

namespace TrialBalance

open Grouping

universe u

variable {κ : Type u}

section Rows

variable [DecidableEq κ] (ar : Arithmetic) {code : κ} {rows : List (Row κ)}

theorem addRows_cons {r : Row κ} (hr : r.code = code) (d c : ℚ) :
    addRows ar code (r :: rows) d c =
      ((((r :: rows).takeWhile fun r => r.code = code).map (·.debit)).foldl ar.add d,
        (((r :: rows).takeWhile fun r => r.code = code).map (·.credit)).foldl ar.add c,
        (r :: rows).dropWhile fun r => r.code = code) := by
  induction rows generalizing r d c with
  | nil => simp [addRows, hr]
  | cons r' rows ih =>
      rw [addRows]
      by_cases h : r'.code = code
      · rw [if_neg (not_not.mpr h), ih h]
        simp [hr, h]
      · rw [if_pos h]
        simp [hr, h]

theorem takeRows_eq (code : κ) (rows : List (Row κ)) :
    takeRows ar code rows =
      (ar.sum ((rows.takeWhile fun r => r.code = code).map (·.debit)),
        ar.sum ((rows.takeWhile fun r => r.code = code).map (·.credit)),
        rows.dropWhile fun r => r.code = code) := by
  cases rows with
  | nil => rfl
  | cons r rows =>
      rw [takeRows]
      by_cases h : r.code = code
      · rw [if_pos h, addRows_cons ar h]
        rfl
      · simp [h, Arithmetic.sum]

/-- The amounts of a code, in the order of the rows. -/
def column (f : Row κ → ℚ) (code : κ) (rows : List (Row κ)) : List ℚ :=
  (rows.filter fun r => r.code = code).map f

/-- The rows of the other codes. -/
def others (code : κ) (rows : List (Row κ)) : List (Row κ) :=
  rows.filter fun r => ¬ r.code = code

/-- The amounts of the line of a code. -/
def rowFor (init filter : List (Row κ)) (code : κ) : Amounts :=
  finalRow ar (ar.sum (column (·.debit) code init)) (ar.sum (column (·.credit) code init))
    (ar.sum (column (·.debit) code filter)) (ar.sum (column (·.credit) code filter))

theorem column_others (f : Row κ → ℚ) (code k : κ) (rows : List (Row κ)) :
    column f k (others code rows) = if k = code then [] else column f k rows := by
  rw [column, others, List.filter_filter]
  by_cases h : k = code
  · subst h
    simp
  · rw [if_neg h, column]
    congr 1
    refine List.filter_congr fun r _ => ?_
    by_cases hr : r.code = k
    · simp [hr, h]
    · simp [hr]

theorem finalRow_zero : finalRow ar 0 0 0 0 = 0 := by
  funext c
  cases c <;> simp [finalRow, totalColumns]

theorem rowFor_others (init filter : List (Row κ)) (code k : κ) :
    rowFor ar (others code init) (others code filter) k =
      if k = code then 0 else rowFor ar init filter k := by
  simp only [rowFor, column_others]
  by_cases h : k = code
  · simp only [h, if_true]
    exact finalRow_zero ar
  · simp only [h, if_false]

variable {ar}

theorem rowFor_of_not_displayed {init filter : List (Row κ)} {code : κ}
    (h : ¬ (rowFor ar init filter code).Displayed) : rowFor ar init filter code = 0 := by
  simp only [Amounts.Displayed, rowFor, finalRow, not_or, not_not] at h
  obtain ⟨h₁, h₂, h₃, h₄⟩ := h
  rw [rowFor, h₁, h₂, h₃, h₄, finalRow_zero]

theorem zero_not_displayed : ¬ (0 : Amounts).Displayed := by
  simp [Amounts.Displayed]

end Rows

section Sorted

variable [LinearOrder κ] {ar : Arithmetic} {init filter rows : List (Row κ)}
  {pending : List (TotalRow κ)}

/-- The rows are ordered by code, and each belongs to an account that is to come. -/
structure Ahead (pending : List (TotalRow κ)) (rows : List (Row κ)) : Prop where
  sorted : rows.Pairwise fun r r' => r.code ≤ r'.code
  account : ∀ r ∈ rows, ∃ x ∈ pending, (x.credit ≠ none ∨ x.debit ≠ none) ∧ x.code = r.code

namespace Ahead

variable {x : TotalRow κ}

theorem eq_nil (h : Ahead [] rows) : rows = [] := by
  refine List.eq_nil_iff_forall_not_mem.mpr fun r hr => ?_
  obtain ⟨x, hx, -⟩ := h.account r hr
  cases hx

/-- An account without lines has no rows. -/
theorem of_skipped (h : Ahead (x :: pending) rows) (hx : ¬ (x.credit ≠ none ∨ x.debit ≠ none)) :
    Ahead pending rows where
  sorted := h.sorted
  account r hr := by
    obtain ⟨y, hy, hya, hyc⟩ := h.account r hr
    rcases List.mem_cons.mp hy with rfl | hy
    · exact absurd hya hx
    · exact ⟨y, hy, hya, hyc⟩

theorem le (h : Ahead (x :: pending) rows)
    (hp : (x :: pending).Pairwise fun x y => x.code ≤ y.code) : ∀ r ∈ rows, x.code ≤ r.code := by
  intro r hr
  obtain ⟨y, hy, -, hyc⟩ := h.account r hr
  rcases List.mem_cons.mp hy with rfl | hy
  · exact hyc.le
  · exact hyc ▸ (List.pairwise_cons.mp hp).1 y hy

theorem others (h : Ahead (x :: pending) rows) : Ahead pending (others x.code rows) where
  sorted := h.sorted.filter _
  account r hr := by
    obtain ⟨hr, hne⟩ := List.mem_filter.mp hr
    obtain ⟨y, hy, hya, hyc⟩ := h.account r hr
    rcases List.mem_cons.mp hy with rfl | hy
    · exact absurd hyc.symm (of_decide_eq_true hne)
    · exact ⟨y, hy, hya, hyc⟩

theorem takeRows_eq (h : Ahead (x :: pending) rows)
    (hp : (x :: pending).Pairwise fun x y => x.code ≤ y.code) :
    takeRows ar x.code rows =
      (ar.sum (column (·.debit) x.code rows), ar.sum (column (·.credit) x.code rows),
        TrialBalance.others x.code rows) := by
  rw [TrialBalance.takeRows_eq, takeWhile_eq_filter h.sorted (h.le hp),
    dropWhile_eq_filter h.sorted (h.le hp)]
  rfl

end Ahead

/-- The lines made of the two results. -/
structure Merged (ar : Arithmetic) (init filter : List (Row κ)) (lines : List (ReportLine κ)) :
    Prop where
  nodup : (lines.map (·.code)).Nodup
  amounts : ∀ line ∈ lines, line.amounts = rowFor ar init filter line.code
  displayed : ∀ line ∈ lines, line.amounts.Displayed
  complete : ∀ code, (rowFor ar init filter code).Displayed → code ∈ lines.map (·.code)

theorem Merged.nil : Merged ar ([] : List (Row κ)) [] [] where
  nodup := List.nodup_nil
  amounts := by simp
  displayed := by simp
  complete code h := by
    have hzero : rowFor ar [] [] code = 0 := finalRow_zero ar
    rw [hzero] at h
    exact absurd h zero_not_displayed

/-- The lines of the other codes, and that of the code in front of them if it is displayed. -/
theorem Merged.cons (account : String) {code : κ} {lines : List (ReportLine κ)}
    (h : Merged ar (others code init) (others code filter) lines) :
    Merged ar init filter
      (if (rowFor ar init filter code).Displayed then
        { code, account, amounts := rowFor ar init filter code } :: lines else lines) := by
  have hne : ∀ line ∈ lines, line.code ≠ code := by
    rintro line hline rfl
    have hd := h.displayed line hline
    rw [h.amounts line hline, rowFor_others, if_pos rfl] at hd
    exact zero_not_displayed hd
  have hamounts : ∀ line ∈ lines, line.amounts = rowFor ar init filter line.code := by
    intro line hline
    rw [h.amounts line hline, rowFor_others, if_neg (hne line hline)]
  have hcomplete : ∀ k ≠ code, (rowFor ar init filter k).Displayed → k ∈ lines.map (·.code) := by
    intro k hk hd
    refine h.complete k ?_
    rwa [rowFor_others, if_neg hk]
  by_cases hd : (rowFor ar init filter code).Displayed
  · rw [if_pos hd]
    refine ⟨?_, ?_, ?_, ?_⟩
    · refine List.nodup_cons.mpr ⟨fun hmem => ?_, h.nodup⟩
      obtain ⟨line, hline, heq⟩ := List.mem_map.mp hmem
      exact hne line hline heq
    · intro line hline
      rcases List.mem_cons.mp hline with rfl | hline
      · rfl
      · exact hamounts line hline
    · intro line hline
      rcases List.mem_cons.mp hline with rfl | hline
      · exact hd
      · exact h.displayed line hline
    · intro k hk
      by_cases hkc : k = code
      · subst hkc
        exact List.mem_cons_self
      · exact List.mem_cons_of_mem _ (hcomplete k hkc hk)
  · rw [if_neg hd]
    refine ⟨h.nodup, hamounts, h.displayed, fun k hk => ?_⟩
    by_cases hkc : k = code
    · exact absurd (hkc ▸ hk) hd
    · exact hcomplete k hkc hk

/-- The loop, from any state of the cursors. A row that is not displayed is zero, and adding it
leaves the sums, which are rounded, as they are. -/
theorem foldl_step (hp : pending.Pairwise fun x y => x.code ≤ y.code)
    (hi : Ahead pending init) (hf : Ahead pending filter) (sums : Amounts)
    (hsums : ∀ c, ar.round (sums c) = sums c) (shown : List (ReportLine κ)) :
    ∃ lines, Merged ar init filter lines ∧
      pending.foldl (Merge.step ar) { init, filter, sums, lines := shown } =
        { init := [], filter := [],
          sums := fun c => (lines.map (·.amounts c)).foldl ar.add (sums c),
          lines := shown ++ lines } := by
  induction pending generalizing init filter sums shown with
  | nil =>
      rw [hi.eq_nil, hf.eq_nil]
      exact ⟨[], .nil, by simp⟩
  | cons x pending ih =>
      have hp' := (List.pairwise_cons.mp hp).2
      rw [List.foldl_cons, Merge.step]
      by_cases hx : x.credit ≠ none ∨ x.debit ≠ none
      · rw [if_pos hx]
        dsimp only
        rw [hi.takeRows_eq hp, hf.takeRows_eq hp]
        obtain ⟨lines, hm, hfold⟩ := ih hp' hi.others hf.others
          (fun c => ar.add (sums c) (rowFor ar init filter x.code c)) (fun c => ar.round_round _)
          (if (rowFor ar init filter x.code).Displayed then shown ++
            [{ code := x.code, account := x.name, amounts := rowFor ar init filter x.code }]
            else shown)
        refine ⟨_, hm.cons x.name, hfold.trans ?_⟩
        by_cases hd : (rowFor ar init filter x.code).Displayed
        · simp [hd]
        · have hzero : ∀ c, ar.add (sums c) (rowFor ar init filter x.code c) = sums c := by
            intro c
            rw [rowFor_of_not_displayed hd]
            exact ar.add_zero_of_round_eq (hsums c)
          simp only [hzero, if_neg hd]
      · rw [if_neg hx]
        exact ih hp' (hi.of_skipped hx) (hf.of_skipped hx) sums hsums shown

end Sorted

end TrialBalance

end Fastrak
