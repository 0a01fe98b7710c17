import Fastrak.Property.InvoiceCharge

/-!
# The split of the price into net and tax

With the VAT calculation the shipping line and the discount line of an order are net, and
the VAT line is what is left of the fees. Each net price is rounded twice, to fifteen and
then to two decimals, so that the VAT line differs from the tax on the net lines by what
these roundings move.
-/

namespace Fastrak

open Transaction Rounding

variable {st : Settings} {o : Order}

/-! ## Exact arithmetic -/

namespace Settings.Exact

variable (hst : st.Exact)

include hst

theorem taxPercentage_eq : st.taxPercentage = st.taxRate / 100 + 1 := by
  rw [taxPercentage, hst.arithmetic, Arithmetic.exact_add, Arithmetic.exact_div]

theorem amountAfterTax_eq (amount : ℚ) :
    st.amountAfterTax amount =
      roundHalfEven (roundAway (amount / (st.taxRate / 100 + 1)) (1 / 10 ^ 15)) 2 := by
  rw [amountAfterTax, hst.floatRoundUp, hst.taxPercentage_eq, hst.arithmetic,
    Arithmetic.exact_round, Arithmetic.exact_div]

theorem netPrice_mem_decimals {amount : ℚ} (h : amount ∈ decimals 2) :
    st.netPrice amount ∈ decimals 2 := by
  unfold netPrice
  split
  · rw [hst.amountAfterTax_eq]
    exact roundHalfEven_mem_decimals _ _
  · exact h

theorem netPrice_zero : st.netPrice 0 = 0 := by
  have h : roundHalfEven 0 2 = 0 := roundHalfEven_of_mem_decimals (zero_mem _)
  simp [netPrice, hst.amountAfterTax_eq, roundAway_zero, h]

theorem abs_amountAfterTax_sub_le (amount : ℚ) :
    |st.amountAfterTax amount - amount / (st.taxRate / 100 + 1)| ≤ 1 / 200 + 1 / 10 ^ 15 := by
  have hprecision : (0 : ℚ) < 1 / 10 ^ 15 := by positivity
  have haway := abs_roundAway_sub_lt hprecision (amount / (st.taxRate / 100 + 1))
  have heven := abs_roundHalfEven_sub_le
    (roundAway (amount / (st.taxRate / 100 + 1)) (1 / 10 ^ 15)) 2
  have htriangle := abs_sub_le (st.amountAfterTax amount)
    (roundAway (amount / (st.taxRate / 100 + 1)) (1 / 10 ^ 15)) (amount / (st.taxRate / 100 + 1))
  rw [hst.amountAfterTax_eq] at htriangle ⊢
  linarith

/-- The price is recalculated whatever was calculated before: a sum of prices with two
decimals and what is left of the fees are not changed by rounding, so that the test for
equality never fails. -/
theorem getVatRecalculatedPrice_eq {lines : List InvoiceLine} (hfees : o.shippingFees ∈ decimals 2)
    (hfound : priceOfLine "Shipping Fees" lines + priceOfLine "Invoice Discount" lines ∈ decimals 2)
    (price : ℚ) :
    getVatRecalculatedPrice st o price lines =
      o.shippingFees -
        (priceOfLine "Shipping Fees" lines + priceOfLine "Invoice Discount" lines) := by
  unfold getVatRecalculatedPrice
  rw [hst.arithmetic]
  generalize priceOfLine "Shipping Fees" lines = found,
    priceOfLine "Invoice Discount" lines = less at hfound ⊢
  have hsum : roundHalfEven (found + less) 2 = found + less :=
    roundHalfEven_of_mem_decimals hfound
  have hleft : roundHalfEven (o.shippingFees - (found + less)) 2 =
      o.shippingFees - (found + less) :=
    roundHalfEven_of_mem_decimals (sub_mem hfees hfound)
  simp [hsum, hleft]

theorem netDiscount_chargedDiscount (hpos : 0 < o.shippingFees) :
    netDiscount st o.chargedDiscount = st.netPrice o.discountAmount := by
  unfold Order.chargedDiscount
  split
  · rfl
  · next hno =>
      have hzero : o.discountAmount = 0 := by
        by_contra hne
        exact hno ⟨hne, hpos.ne'⟩
      rw [hzero, hst.netPrice_zero]
      rfl

/-- The lines of an order whose one service line has the name: their base is the difference of
two net prices, and the VAT line is what is left of the fees. -/
theorem netLines_of_line {line : ServiceLine} (hline : o.serviceLineIds = [line])
    (hdescription : line.description = "Shipping Fees")
    (hamount : line.amount = o.shippingFees + o.discountAmount)
    (hfees : o.shippingFees ∈ decimals 2) (hpos : 0 < o.shippingFees)
    (hdiscount : o.discountAmount ∈ decimals 2) (hok : Invoiceable st o o.chargedDiscount) :
    charged (netLines st o o.chargedDiscount) =
        st.netPrice (o.shippingFees + o.discountAmount) - st.netPrice o.discountAmount ∧
      ∀ price, getVatRecalculatedPrice st o price (netLines st o o.chargedDiscount) =
        o.shippingFees -
          (st.netPrice (o.shippingFees + o.discountAmount) - st.netPrice o.discountAmount) := by
  have hservices : netServices st o = st.netPrice (o.shippingFees + o.discountAmount) := by
    simp [netServices, hline, hamount]
  have hshipping : priceOfLine "Shipping Fees" (netLines st o o.chargedDiscount) =
      st.netPrice (o.shippingFees + o.discountAmount) := by
    rw [priceOfLine_netLines hok]
    simp [Order.foundLine, hline, hdescription, hamount]
  have hless : priceOfLine "Invoice Discount" (netLines st o o.chargedDiscount) =
      -st.netPrice o.discountAmount := by
    rw [priceOfLine_netLines hok, hst.netDiscount_chargedDiscount hpos]
    simp [Order.foundLine, hline, hdescription]
  have hfound : priceOfLine "Shipping Fees" (netLines st o o.chargedDiscount) +
      priceOfLine "Invoice Discount" (netLines st o o.chargedDiscount) =
        st.netPrice (o.shippingFees + o.discountAmount) - st.netPrice o.discountAmount := by
    rw [hshipping, hless, sub_eq_add_neg]
  have hdecimals := sub_mem (hst.netPrice_mem_decimals (add_mem hfees hdiscount))
    (hst.netPrice_mem_decimals hdiscount)
  constructor
  · rw [charged_netLines hok, hservices, hst.netDiscount_chargedDiscount hpos]
  · intro price
    rw [hst.getVatRecalculatedPrice_eq hfees (hfound ▸ hdecimals) price, hfound]

end Settings.Exact

/-- The order has the one service line of the create endpoint without insurance. -/
structure Order.HasShippingLine (o : Order) : Prop where
  shippingLine : ∃ line, o.serviceLineIds = [line] ∧ line.serviceType = .shipping ∧
    line.description = "Shipping Fees" ∧ line.amount = o.shippingFees + o.discountAmount

theorem Order.HasShippingLine.shippingAmount_eq (h : o.HasShippingLine) :
    o.shippingAmount = o.shippingFees + o.discountAmount := by
  obtain ⟨line, hline, htype, -, hamount⟩ := h.shippingLine
  simp [Order.shippingAmount, Order.shippingLines, hline, htype, hamount]

/-- The two net prices move the base by a piastre at most, and the VAT line, which is the
complement of the base, by as much on the gross price. -/
theorem abs_complement_sub_le (hst : st.Exact) {percent : ℚ} (htax : st.percentTaxes = [percent])
    (hrate : 0 < percent) (fees discount : ℚ) :
    |fees - (st.amountAfterTax (fees + discount) - st.amountAfterTax discount) -
        percent / 100 * (st.amountAfterTax (fees + discount) - st.amountAfterTax discount)| ≤
      (1 + percent / 100) * (1 / 100 + 2 / 10 ^ 15) := by
  have hrate' : st.taxRate = percent := by rw [Settings.taxRate, htax]; rfl
  have hpos : (0 : ℚ) < percent / 100 + 1 := by positivity
  have hgross := hst.abs_amountAfterTax_sub_le (fees + discount)
  have hdiscount := hst.abs_amountAfterTax_sub_le discount
  rw [hrate'] at hgross hdiscount
  set net := st.amountAfterTax (fees + discount)
  set netDiscount := st.amountAfterTax discount
  have herror : fees - (net - netDiscount) - percent / 100 * (net - netDiscount) =
      (percent / 100 + 1) * ((netDiscount - discount / (percent / 100 + 1)) -
        (net - (fees + discount) / (percent / 100 + 1))) := by
    field_simp
    ring
  rw [herror, abs_mul, abs_of_pos hpos, add_comm 1 (percent / 100)]
  refine mul_le_mul_of_nonneg_left ?_ (by positivity)
  calc |netDiscount - discount / (percent / 100 + 1) -
        (net - (fees + discount) / (percent / 100 + 1))|
      ≤ |netDiscount - discount / (percent / 100 + 1)| +
        |net - (fees + discount) / (percent / 100 + 1)| := abs_sub _ _
    _ ≤ 1 / 200 + 1 / 10 ^ 15 + (1 / 200 + 1 / 10 ^ 15) := add_le_add hdiscount hgross
    _ = 1 / 100 + 2 / 10 ^ 15 := by norm_num

/-- With the VAT calculation, the invoice of an order of whole piastres has the recalculated
price in its VAT line, the net lines and this price add up to the shipping fees, and the
price is the tax on the net lines up to `(1 + r) * (0.01 + 2e-15)`. -/
theorem vat_line_completes_net_lines {m : Move} {percent : ℚ} (hst : st.Exact)
    (hvat : st.activateVatCalculation) (htax : st.percentTaxes = [percent]) (hrate : 0 < percent)
    (hfees : o.shippingFees ∈ decimals 2) (hpos : 0 < o.shippingFees)
    (hdiscount : o.discountAmount ∈ decimals 2) (hline : o.HasShippingLine)
    (hm : prepareInvoice st o = .ok m) :
    ∃ net vat, m.invoiceLineIds = net ++ [vat] ∧
      o.shippingAmount ≠ o.discountAmount ∧
      (∀ price, getVatRecalculatedPrice st o price net = vat.priceUnit) ∧
      charged net + vat.priceUnit = o.shippingFees ∧
      |vat.priceUnit - percent / 100 * charged net| ≤
        (1 + percent / 100) * (1 / 100 + 2 / 10 ^ 15) := by
  obtain ⟨⟨-, hok⟩, rfl⟩ := prepareInvoice_eq_ok_iff.mp hm
  have hne : o.shippingAmount ≠ o.discountAmount := by
    rw [hline.shippingAmount_eq]
    exact (lt_add_of_pos_left _ hpos).ne'
  obtain ⟨line, hlines, -, hdescription, hamount⟩ := hline.shippingLine
  obtain ⟨hnet, hprice⟩ :=
    hst.netLines_of_line hlines hdescription hamount hfees hpos hdiscount hok
  have hvatPrice : (vatLine st o (netLines st o o.chargedDiscount)).priceUnit =
      o.shippingFees -
        (st.netPrice (o.shippingFees + o.discountAmount) - st.netPrice o.discountAmount) := by
    rw [vatLine, vatPrice, if_pos hne, hprice]
  refine ⟨_, _, rfl, hne, fun price => ?_, ?_, ?_⟩
  · rw [hprice, hvatPrice]
  · rw [hnet, hvatPrice, add_sub_cancel]
  · rw [hnet, hvatPrice, Settings.netPrice, Settings.netPrice, if_pos hvat, if_pos hvat]
    exact abs_complement_sub_le hst htax hrate _ _

/-- The small company with the tax, in exact arithmetic. -/
def Settings.withExactVat : Settings := Settings.withVat.withExactArithmetic

theorem Settings.withExactVat_exact : Settings.withExactVat.Exact := ⟨rfl, fun _ => rfl⟩

theorem createdOrder_prepareInvoice_withExactVat (shippingFees discountAmount insurance : ℚ) :
    ∃ m, prepareInvoice .withExactVat (createdOrder shippingFees discountAmount insurance) = .ok m ∧
      m.moveType = .outInvoice :=
  ⟨_, prepareInvoice_eq_ok_iff.mpr ⟨⟨by decide, createdOrder_invoiceable .withExactVat rfl
    ⟨by decide, by decide +kernel⟩ (by decide) shippingFees discountAmount insurance⟩, rfl⟩, rfl⟩

theorem vat_line_completes_net_lines_of_createdOrder :
    ∃ m, prepareInvoice .withExactVat (createdOrder 100 10 0) = .ok m ∧
      ∃ net vat, m.invoiceLineIds = net ++ [vat] ∧
        (createdOrder 100 10 0).shippingAmount ≠ 10 ∧
        (∀ price, getVatRecalculatedPrice .withExactVat (createdOrder 100 10 0) price net =
          vat.priceUnit) ∧
        charged net + vat.priceUnit = 100 ∧
        |vat.priceUnit - 14 / 100 * charged net| ≤ (1 + 14 / 100) * (1 / 100 + 2 / 10 ^ 15) := by
  obtain ⟨m, hm, -⟩ := createdOrder_prepareInvoice_withExactVat 100 10 0
  exact ⟨m, hm, vat_line_completes_net_lines Settings.withExactVat_exact rfl rfl (by decide +kernel)
    (mem_decimals_iff.mpr ⟨10000, by norm_num [createdOrder]⟩) (by decide +kernel)
    (mem_decimals_iff.mpr ⟨1000, by norm_num [createdOrder]⟩) ⟨_, rfl, rfl, rfl, rfl⟩ hm⟩

end Fastrak
