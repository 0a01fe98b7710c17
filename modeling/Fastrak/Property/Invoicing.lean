import Fastrak.Property.InvoiceCharge

/-!
# Which orders can be invoiced

`_check_cost_center` looks at the categories of the service lines. `_prepare_invoice` also
reads the cost center of the discount product, the one service line of type `shipping`, the
one tax of type `code`, and divides by the percent tax.
-/

namespace Fastrak

open Transaction

variable {st : Settings} {o : Order}

theorem chargedDiscount_ne_none_iff :
    o.chargedDiscount ≠ none ↔ o.discountAmount ≠ 0 ∧ o.shippingFees ≠ 0 := by
  unfold Order.chargedDiscount
  split <;> simp_all

/-- The factor that a price is divided by, in floats. -/
def taxFactor (percent : ℚ) : ℚ := Arithmetic.double.add (Arithmetic.double.div percent 100) 1

theorem taxFactor_mono {percent percent' : ℚ} (h : percent ≤ percent') :
    taxFactor percent ≤ taxFactor percent' :=
  Arithmetic.double.mono (add_le_add_left
    (Arithmetic.double.mono (div_le_div_of_nonneg_right h (by norm_num))) 1)

/-- The floats next to -100 are so far from it that their quotients by 100 are not rounded
to -1. -/
theorem taxFactor_eq_zero_iff {percent : ℚ} (hpercent : Double.round percent = percent) :
    taxFactor percent = 0 ↔ percent = -100 := by
  constructor
  · intro hzero
    by_contra hne
    have hgrid : percent ≤ -64 → ∃ n : ℤ, percent = n * 2 ^ (-46 : ℤ) := by
      intro hle
      have hlarge : (2 : ℚ) ^ (6 : ℤ) ≤ |percent| := by
        rw [abs_of_neg (by linarith)]
        norm_num
        linarith
      exact Double.exists_eq_mul_zpow hpercent (Double.le_exponent hlarge)
    rcases lt_or_gt_of_ne hne with hlt | hgt
    · obtain ⟨n, hn⟩ := hgrid (by linarith)
      have hnext : percent ≤ -100 - 2 ^ (-46 : ℤ) := by
        have hint : n ≤ -100 * 2 ^ 46 - 1 := by
          refine Int.le_sub_one_iff.mpr ?_
          have hrat : (n : ℚ) < -100 * 2 ^ 46 := by
            rw [hn] at hlt
            norm_num at hlt ⊢
            linarith
          exact_mod_cast hrat
        have hrat : (n : ℚ) ≤ -100 * 2 ^ 46 - 1 := by exact_mod_cast hint
        rw [hn]
        norm_num at hrat ⊢
        linarith
      have hneg : taxFactor (-100 - 2 ^ (-46 : ℤ)) < 0 := by decide +kernel
      exact absurd hzero ((taxFactor_mono hnext).trans_lt hneg).ne
    · have hnext : -100 + 2 ^ (-46 : ℤ) ≤ percent := by
        by_contra hno
        obtain ⟨n, hn⟩ := hgrid (by norm_num at hno ⊢; linarith)
        have hint : -100 * 2 ^ 46 + 1 ≤ n := by
          refine Int.add_one_le_iff.mpr ?_
          have hrat : -100 * 2 ^ 46 < (n : ℚ) := by
            rw [hn] at hgt
            norm_num at hgt ⊢
            linarith
          exact_mod_cast hrat
        have hrat : -100 * 2 ^ 46 + 1 ≤ (n : ℚ) := by exact_mod_cast hint
        rw [hn] at hno
        norm_num at hrat hno
        linarith
      have hpos : 0 < taxFactor (-100 + 2 ^ (-46 : ℤ)) := by decide +kernel
      exact absurd hzero (hpos.trans_le (taxFactor_mono hnext)).ne'
  · rintro rfl
    decide +kernel

theorem hasTaxRate_iff (har : st.arithmetic = .double) {percent : ℚ}
    (htax : st.percentTaxes = [percent]) (hpercent : Double.round percent = percent) :
    st.HasTaxRate ↔ percent ≠ -100 := by
  rw [ne_eq, ← taxFactor_eq_zero_iff hpercent]
  simp [Settings.HasTaxRate, Settings.taxPercentage, Settings.taxRate, taxFactor, htax, har]

/-- An order that passes `_check_cost_center` can be invoiced if and only if it has one
shipping line at most, its discount can be charged, and the taxes can be read. -/
theorem checked_order_is_invoiced_iff (har : st.arithmetic = .double)
    {vatProduct discountProduct : Product} {percent : ℚ}
    (hcheck : checkCostCenter o = .ok ⟨⟩)
    (hvat : st.mainVatServices = [vatProduct])
    (hproduct : st.mainDiscountServices = [discountProduct])
    (htax : st.percentTaxes = [percent]) (hpercent : Double.round percent = percent)
    (hjournal : st.saleJournals ≠ []) :
    (∃ m, prepareInvoice st o = .ok m) ↔
      o.shippingLines.length ≤ 1 ∧
        (o.discountAmount ≠ 0 ∧ o.shippingFees ≠ 0 → discountProduct.costCentersId ≠ none) ∧
        st.codeTaxes.length ≤ 1 ∧ percent ≠ -100 := by
  rw [← hasTaxRate_iff har htax hpercent, ← chargedDiscount_ne_none_iff]
  constructor
  · rintro ⟨m, hm⟩
    obtain ⟨⟨-, h⟩, -⟩ := prepareInvoice_eq_ok_iff.mp hm
    refine ⟨h.shippingLines, fun hne => ?_, h.codeTaxes, h.hasTaxRate⟩
    obtain ⟨product, hsingle, hcenter⟩ := h.discountProduct hne
    obtain rfl : discountProduct = product := List.singleton_inj.mp (hproduct.symm.trans hsingle)
    exact hcenter
  · rintro ⟨hshipping, hdiscount, hcode, hrate⟩
    refine ⟨_, prepareInvoice_eq_ok_iff.mpr ⟨⟨hjournal, ?_⟩, rfl⟩⟩
    exact
      { costCenter := checkCostCenter_eq_ok_iff.mp hcheck
        discountProduct := fun hne => ⟨discountProduct, hproduct, hdiscount hne⟩
        hasTaxRate := hrate
        shippingLines := hshipping
        mainVatServices := by rw [hvat]; exact le_rfl
        codeTaxes := hcode }

/-- A company whose discount product has a category without a cost center. -/
def Settings.withoutDiscountCenter : Settings :=
  { Settings.withVat with
    products :=
      [{ id := 1, name := "Shipping", isMainServiceProduct := true, costCentersId := some 1 },
       { id := 2, name := "VAT", isMainVatService := true, costCentersId := some 1 },
       { id := 3, name := "Discount", isMainDiscountService := true }] }

/-- The check passes, and the discount line then reads `None.id`. -/
theorem checked_order_is_not_invoiced :
    checkCostCenter (createdOrder 100 10 0) = .ok ⟨⟩ ∧
      Settings.withoutDiscountCenter.mainVatServices.length = 1 ∧
      Settings.withoutDiscountCenter.mainDiscountServices.length = 1 ∧
      Settings.withoutDiscountCenter.percentTaxes = [14] ∧
      Settings.withoutDiscountCenter.saleJournals ≠ [] ∧
      prepareInvoice .withoutDiscountCenter (createdOrder 100 10 0) =
        .error "'NoneType' object has no attribute 'id'" :=
  ⟨rfl, rfl, rfl, rfl, by decide, by decide +kernel⟩

theorem created_order_is_invoiced_iff :
    (∃ m, prepareInvoice .withVat (createdOrder 100 10 0) = .ok m) ↔
      (createdOrder 100 10 0).shippingLines.length ≤ 1 ∧
        ((createdOrder 100 10 0).discountAmount ≠ 0 ∧
          (createdOrder 100 10 0).shippingFees ≠ 0 → some 1 ≠ none) ∧
        Settings.withVat.codeTaxes.length ≤ 1 ∧ (14 : ℚ) ≠ -100 :=
  @checked_order_is_invoiced_iff .withVat _ rfl _ _ _ rfl rfl rfl rfl (by decide +kernel)
    (by decide)

end Fastrak
