import Fastrak.Property.GroupInvoiceTotal

/-!
# The discounts of the wizard

In percent mode the wizard takes a part of the residual of each invoice, rounded to a whole
number. The constraint on the percentage compares it with zero and with 100 in one chain that
nothing satisfies, and rounding may exceed what is left, so that the discount stays within
the residual under a condition on each invoice only.
-/

namespace Fastrak

open Transaction Run Rounding

variable {δ : Type} [LinearOrder δ] {s t : GroupInvoices δ}

/-- A line without a tax adds its amount to the total, in piastres, as the accounting application
computes it. -/
def Accounting.AddsUntaxedLines (ac : Accounting) : Prop :=
  ∀ lines (line : InvoiceLine), line.taxIds = [] →
    ac.amountTotal (lines ++ [line]) =
      ac.amountTotal lines + roundHalfUp (line.quantity * line.priceUnit) 2

theorem Accounting.sample_addsUntaxedLines : Accounting.sample.AddsUntaxedLines := by
  intro lines line _
  simp [Accounting.sample]

namespace GroupInvoice

variable {st : Settings} {ac : Accounting} {id : ℕ} {w : DiscountWizard}

/-! ## The rounds of the loop -/

/-- An invoice, as a round of the loop finds it, and the discount that the round applies. -/
structure AppliedDiscount where
  invoice : Move
  discount : ℚ

/-- The discounts that a call applies to a list of invoices, in order. -/
def appliedDiscounts (st : Settings) (ac : Accounting) (id : ℕ) (w : DiscountWizard)
    (s : GroupInvoices δ) : List ℕ → List AppliedDiscount
  | [] => []
  | inv :: invs =>
      match s.invoice? inv with
      | none => []
      | some m =>
          let discount := targetDiscountAmount st ac w m
          match getDiscountServiceLine st discount with
          | .error _ => []
          | .ok line =>
              ⟨m, discount⟩ :: appliedDiscounts st ac id w
                (discounted st.arithmetic s id inv line discount) invs

theorem appliedDiscounts_cons {inv : ℕ} {m : Move} {line : InvoiceLine}
    (hm : s.invoice? inv = some m)
    (hline : getDiscountServiceLine st (targetDiscountAmount st ac w m) = .ok line)
    (invs : List ℕ) :
    appliedDiscounts st ac id w s (inv :: invs) =
      ⟨m, targetDiscountAmount st ac w m⟩ :: appliedDiscounts st ac id w
        (discounted st.arithmetic s id inv line (targetDiscountAmount st ac w m)) invs := by
  simp only [appliedDiscounts, hm, hline]

theorem discount_eq_of_mem {invs : List ℕ} {r : AppliedDiscount}
    (hr : r ∈ appliedDiscounts st ac id w s invs) :
    r.discount = targetDiscountAmount st ac w r.invoice := by
  induction invs generalizing s with
  | nil => cases hr
  | cons inv invs ih =>
      rw [appliedDiscounts] at hr
      split at hr
      · cases hr
      · dsimp only at hr
        split at hr
        · cases hr
        · rcases List.mem_cons.mp hr with rfl | hr
          · rfl
          · exact ih hr

theorem group?_discounted (ar : Arithmetic) {g : GroupInvoice δ} (hg : s.group? id = some g)
    (inv : ℕ) (line : InvoiceLine) (discount : ℚ) :
    (discounted ar s id inv line discount).group? id = some (g.addDiscount ar discount) := by
  rw [discounted, GroupInvoices.group?_modifyGroup, if_pos rfl, GroupInvoices.group?_modifyMove,
    hg]
  rfl

theorem invoice?_discounted (ar : Arithmetic) (inv : ℕ) (line : InvoiceLine) (discount : ℚ)
    (j : ℕ) :
    (discounted ar s id inv line discount).invoice? j =
      if inv = j then (s.invoice? j).map (·.addLine line) else s.invoice? j := by
  rw [discounted, GroupInvoices.invoice?_modifyGroup, GroupInvoices.invoice?_modifyMove]

/-- On a list of different invoices every round finds the invoice as it was at first. -/
theorem forall_appliedDiscounts_iff {invs : List ℕ} {u : PUnit} {P : Move → Prop}
    (hnodup : invs.Nodup) (h : (updateInvoices st ac id w invs).run s = .ok u t) :
    (∀ r ∈ appliedDiscounts st ac id w s invs, P r.invoice) ↔
      ∀ inv ∈ invs, ∀ m, s.invoice? inv = some m → P m := by
  induction invs generalizing s with
  | nil => simp [appliedDiscounts]
  | cons inv invs ih =>
      obtain ⟨m, line, hm, hline, h⟩ := updateInvoices_cons_run_ok h
      obtain ⟨hnotMem, hnodup⟩ := List.nodup_cons.mp hnodup
      rw [appliedDiscounts_cons hm hline, List.forall_mem_cons, List.forall_mem_cons,
        ih hnodup h]
      refine and_congr (by simp [hm]) (forall₂_congr fun j hj => ?_)
      rw [invoice?_discounted, if_neg (by rintro rfl; exact hnotMem hj)]

/-- The total discount grows by the discounts that are applied, one after the other. -/
theorem updateInvoices_totalDiscount {invs : List ℕ} {g : GroupInvoice δ} {u : PUnit}
    (hg : s.group? id = some g) (h : (updateInvoices st ac id w invs).run s = .ok u t) :
    ∃ g', t.group? id = some g' ∧ g'.totalDiscount =
      ((appliedDiscounts st ac id w s invs).map (·.discount)).foldl st.arithmetic.add
        g.totalDiscount := by
  induction invs generalizing s g with
  | nil =>
      cases h
      exact ⟨g, hg, by simp [appliedDiscounts]⟩
  | cons inv invs ih =>
      obtain ⟨m, line, hm, hline, h⟩ := updateInvoices_cons_run_ok h
      obtain ⟨g', hg', htotal⟩ := ih (group?_discounted _ hg inv line _) h
      refine ⟨g', hg', ?_⟩
      rw [htotal, appliedDiscounts_cons hm hline, List.map_cons, List.foldl_cons]
      rfl

/-- A discount that leaves something to pay leaves the total as large as what is paid. -/
theorem total_addLine_nonneg (hac : ac.AddsUntaxedLines) {m : Move} {discount : ℚ}
    (hd : discount ∈ decimals 2) {line : InvoiceLine}
    (hline : getDiscountServiceLine st discount = .ok line) (hpaid : 0 ≤ m.reconciled)
    (hle : discount ≤ ac.residual (some m)) :
    0 ≤ ac.total (some (m.addLine line)) := by
  obtain ⟨product, -, rfl⟩ := getDiscountServiceLine_eq_ok hline
  have htotal := hac m.invoiceLineIds
    { productId := some product.id, name := "Invoice Discount", quantity := 1,
      priceUnit := -discount, costCentersId := product.costCentersId } rfl
  rw [one_mul, roundHalfUp_of_mem_decimals (neg_mem hd)] at htotal
  simp only [Accounting.residual, Accounting.total, Option.map_some, Option.getD_some,
    Move.addLine] at hle ⊢
  rw [htotal]
  linarith

/-- No total becomes negative while no discount exceeds the residual. -/
theorem updateInvoices_total_nonneg (hac : ac.AddsUntaxedLines)
    (hw : w.discountType = .percent) {invs : List ℕ} {u : PUnit}
    (hpaid : ∀ inv m, s.invoice? inv = some m → 0 ≤ m.reconciled)
    (hle : ∀ r ∈ appliedDiscounts st ac id w s invs, r.discount ≤ ac.residual (some r.invoice))
    (h : (updateInvoices st ac id w invs).run s = .ok u t) {j : ℕ}
    (hj : 0 ≤ ac.total (s.invoice? j)) : 0 ≤ ac.total (t.invoice? j) := by
  induction invs generalizing s with
  | nil =>
      cases h
      exact hj
  | cons inv invs ih =>
      obtain ⟨m, line, hm, hline, h⟩ := updateInvoices_cons_run_ok h
      rw [appliedDiscounts_cons hm hline, List.forall_mem_cons] at hle
      refine ih (fun k m' hm' => ?_) hle.2 h ?_
      · rw [invoice?_discounted] at hm'
        split at hm'
        · obtain ⟨m₀, hm₀, rfl⟩ := Option.map_eq_some_iff.mp hm'
          exact hpaid k m₀ hm₀
        · exact hpaid k m' hm'
      · rw [invoice?_discounted]
        split
        · next heq =>
            rw [← heq, hm, Option.map_some]
            have hd : targetDiscountAmount st ac w m ∈ decimals 2 :=
              targetDiscountAmount_mem_decimals (fun h => absurd (hw.symm.trans h) (by decide)) m
            exact total_addLine_nonneg hac hd hline (hpaid inv m hm) hle.1
        · exact hj

/-! ## One discount -/

def percentageOf (ar : Arithmetic) (residual percentage : ℚ) : ℚ :=
  ar.round (ar.round residual * ar.round (percentage / 100))

/-- The percentage of the residual, rounded to an even number at a tie, is between zero and
the residual. -/
def StaysWithin (ar : Arithmetic) (residual percentage : ℚ) : Prop :=
  -(1 / 2) ≤ percentageOf ar residual percentage ∧
    (percentageOf ar residual percentage < ⌊residual⌋ + 1 / 2 ∨
      percentageOf ar residual percentage = ⌊residual⌋ + 1 / 2 ∧ ⌊residual⌋ % 2 = 0)

instance (ar : Arithmetic) (residual percentage : ℚ) :
    Decidable (StaysWithin ar residual percentage) :=
  inferInstanceAs (Decidable (_ ∧ (_ ∨ _ ∧ _)))

theorem targetDiscountAmount_eq_intCast (hw : w.discountType = .percent) (m : Move) :
    ∃ n : ℤ, targetDiscountAmount st ac w m = n := by
  rw [targetDiscountAmount, hw]
  exact ⟨_, rfl⟩

theorem targetDiscountAmount_within_iff (hw : w.discountType = .percent) (m : Move) :
    0 ≤ targetDiscountAmount st ac w m ∧ targetDiscountAmount st ac w m ≤ ac.residual (some m) ↔
      StaysWithin st.arithmetic (ac.residual (some m)) w.discountPercentage := by
  simp only [targetDiscountAmount, hw]
  rw [Int.cast_nonneg_iff, halfEven_nonneg_iff, ← Int.le_floor, halfEven_le_iff, StaysWithin]
  rfl

/-! ## A call -/

/-- Every discount is between zero and the residual of its invoice, no total becomes
negative, and the total discount of the group invoice grows by the discounts: exactly, where
it was a whole number of at most fifteen digits. -/
structure AppliesWithinResiduals (st : Settings) (ac : Accounting) (id : ℕ)
    (w : DiscountWizard) (s t : GroupInvoices δ) (g : GroupInvoice δ) : Prop where
  between : ∀ r ∈ appliedDiscounts st ac id w s (w.targetInvoices g),
    0 ≤ r.discount ∧ r.discount ≤ ac.residual (some r.invoice)
  total_nonneg : ∀ inv, 0 ≤ ac.total (s.invoice? inv) → 0 ≤ ac.total (t.invoice? inv)
  totalDiscount : ∃ g', t.group? id = some g' ∧
    let discounts := (appliedDiscounts st ac id w s (w.targetInvoices g)).map (·.discount)
    g'.totalDiscount = discounts.foldl st.arithmetic.add g.totalDiscount ∧
      ∀ n : ℤ, g.totalDiscount = n → |g.totalDiscount| + discounts.sum ≤ 10 ^ 15 →
        g'.totalDiscount = g.totalDiscount + discounts.sum

/-- A group invoice with one line, of an invoice of 100. -/
def generatedGroup : GroupInvoices ℕ :=
  run (step .sample .sample) { invoices := [onCreditInvoice 0] } [.create 1 0 10, .generate [0]]

/-- The group invoice after a discount of the given percentage. -/
def discountedBy (percentage : ℚ) : GroupInvoices ℕ :=
  step .sample .sample generatedGroup (.discount 0 { discountPercentage := percentage })

/-- A call that changes the total of the invoice has returned. -/
theorem discountedBy_run {percentage : ℚ}
    (h : Accounting.sample.total ((discountedBy percentage).invoice? 0) ≠
      Accounting.sample.total (generatedGroup.invoice? 0)) :
    (updateGroupInvoice .sample .sample 0 { discountPercentage := percentage }).run
      generatedGroup = .ok ⟨⟩ (discountedBy percentage) := by
  refine (step_cases .sample .sample generatedGroup
    (.discount 0 { discountPercentage := percentage })).resolve_left fun heq => h ?_
  rw [discountedBy, heq]

end GroupInvoice

end Fastrak
