import Fastrak.ElectronicInvoice.Report
import Fastrak.Property.VatSplit

/-!
# The electronic invoice and the invoice

The report computes the untaxed amount, the discount and the VAT of an order with a formula of
its own, to five decimals. The invoice has two net prices to two decimals, and a VAT line that
is what is left of the fees after the line that it finds by the name "Shipping Fees".
-/

namespace Fastrak

open Transaction Rounding

variable {o : Order}

/-- The service line of the order is one line of the main service, with the fees before the
discount. -/
structure Order.HasMainServiceLine (o : Order) (line : ServiceLine) : Prop where
  serviceLineIds : o.serviceLineIds = [line]
  isMainService : line.isMainService
  amount : line.amount = o.shippingFees + o.discountAmount

/-- The VAT line of the invoice finds the line. -/
structure Order.FindsServiceLine (o : Order) (line : ServiceLine) : Prop where
  description : line.description = "Shipping Fees"
  serviceType : line.serviceType = .shipping ∨ o.discountAmount ≠ 0

namespace Order.HasMainServiceLine

variable {line : ServiceLine} {st : Settings} {m : Move} (h : o.HasMainServiceLine line)

include h

theorem shippingAmount_ne (hpos : 0 < o.shippingFees) (hfinds : o.FindsServiceLine line) :
    o.shippingAmount ≠ o.discountAmount := by
  by_cases htype : line.serviceType = .shipping
  · have hamount : o.shippingAmount = o.shippingFees + o.discountAmount := by
      simp [Order.shippingAmount, Order.shippingLines, h.serviceLineIds, htype, h.amount]
    rw [hamount]
    exact (lt_add_of_pos_left _ hpos).ne'
  · have hzero : o.shippingAmount = 0 := by
      simp [Order.shippingAmount, Order.shippingLines, h.serviceLineIds, htype]
    rw [hzero]
    exact ((hfinds.serviceType.resolve_left htype)).symm

theorem netServices_eq :
    netServices st o = st.netPrice (o.shippingFees + o.discountAmount) := by
  simp [netServices, h.serviceLineIds, h.amount]

/-- The invoice of such an order: the net base is the difference of two net prices, and the
VAT line that finds the line has what is left of the fees. -/
theorem invoice_lines (hst : st.Exact) (hfees : o.shippingFees ∈ decimals 2)
    (hpos : 0 < o.shippingFees) (hdiscount : o.discountAmount ∈ decimals 2)
    (hm : prepareInvoice st o = .ok m) :
    ∃ net vat, m.invoiceLineIds = net ++ [vat] ∧
      charged net =
        st.netPrice (o.shippingFees + o.discountAmount) - st.netPrice o.discountAmount ∧
      (o.FindsServiceLine line → vat.priceUnit = o.shippingFees - charged net) := by
  obtain ⟨⟨-, hok⟩, rfl⟩ := prepareInvoice_eq_ok_iff.mp hm
  have hnet : charged (netLines st o o.chargedDiscount) =
      st.netPrice (o.shippingFees + o.discountAmount) - st.netPrice o.discountAmount := by
    rw [charged_netLines hok, h.netServices_eq, hst.netDiscount_chargedDiscount hpos]
  refine ⟨_, _, rfl, hnet, fun hfinds => ?_⟩
  obtain ⟨-, hprice⟩ := hst.netLines_of_line h.serviceLineIds hfinds.description h.amount hfees
    hpos hdiscount hok
  rw [vatLine, vatPrice, if_pos (h.shippingAmount_ne hpos hfinds), hprice, hnet]

end Order.HasMainServiceLine

namespace ElectronicInvoice

variable {ι : Type} [DecidableEq ι] {st : ReportSettings} {b : Books ι} {invoice : Document ι}
  {line : ServiceLine} {m : Move}

theorem abs_floatRepr_sub_le (x : ℚ) : |floatRepr x - x| ≤ 1 / 2 / 10 ^ 5 :=
  abs_roundHalfEven_sub_le x 5

/-- What is reported of the invoice of such an order. -/
theorem getInvoiceAmounts_of_order (hline : o.HasMainServiceLine line)
    (hnonneg : 0 ≤ o.discountAmount) (htype : invoice.move.moveType = .outInvoice)
    (horder : getOrderObject b (some invoice.id) = [o]) :
    getInvoiceAmounts st b invoice = .ok
      (floatRepr ((o.shippingFees + o.discountAmount) / (114 / 100)),
        floatRepr (((o.shippingFees + o.discountAmount) / (114 / 100) -
          o.discountAmount / (114 / 100)) * (14 / 100)),
        some (floatRepr (o.discountAmount / (114 / 100)))) := by
  have hreported : getReportedOrders b invoice = .ok [o] := by
    rw [getReportedOrders, htype, horder]
    rfl
  have hmain : [o].flatMap (·.mainServiceLines) = [line] := by
    simp [Order.mainServiceLines, hline.serviceLineIds, hline.isMainService]
  have hfactor : (1.14 : ℚ) = 114 / 100 := by norm_num
  have hdiscount : (if o.discountAmount ≠ 0 then o.discountAmount / (114 / 100)
      else o.discountAmount) = o.discountAmount / (114 / 100) := by
    split
    · rfl
    · next hzero => rw [not_not.mp hzero, zero_div]
  have habs : |o.discountAmount / (114 / 100)| = o.discountAmount / (114 / 100) :=
    abs_of_nonneg (div_nonneg hnonneg (by norm_num))
  rw [getInvoiceAmounts, hreported]
  change getOrderAmounts [o] = _
  rw [getOrderAmounts, hmain]
  simp only [single, pure_bind, Option.map_some, Option.getD_some, hfactor, hdiscount, habs,
    hline.amount]
  rfl

/-- The report agrees with the order and with its invoice: the amounts add up to the fees within
the five decimals they are written with, the net amount is the base of the invoice up to a
piastre, and so is the VAT when the VAT line finds the service line. -/
theorem report_agrees_with_invoice (hst : st.toSettings.Exact) (hvat : st.activateVatCalculation)
    (htax : st.percentTaxes = [14]) (hfees : o.shippingFees ∈ decimals 2)
    (hpos : 0 < o.shippingFees) (hdiscount : o.discountAmount ∈ decimals 2)
    (hnonneg : 0 ≤ o.discountAmount) (hline : o.HasMainServiceLine line)
    (hm : prepareInvoice st.toSettings o = .ok m)
    (htype : invoice.move.moveType = .outInvoice)
    (horder : getOrderObject b (some invoice.id) = [o]) :
    ∃ untaxed vat discount net vatLine,
      getInvoiceAmounts st b invoice = .ok (untaxed, vat, some discount) ∧
      m.invoiceLineIds = net ++ [vatLine] ∧
      |untaxed - discount + vat - o.shippingFees| ≤ 15 / 10 ^ 6 ∧
      |untaxed - discount - charged net| ≤ 101 / 10 ^ 4 ∧
      (o.FindsServiceLine line → |vat - vatLine.priceUnit| ≤ 101 / 10 ^ 4) := by
  obtain ⟨net, vatLine, hlines, hnet, hprice⟩ :=
    hline.invoice_lines hst hfees hpos hdiscount hm
  have hrate : st.taxRate / 100 + 1 = 114 / 100 := by
    rw [Settings.taxRate, htax]
    norm_num
  have hgross := hst.abs_amountAfterTax_sub_le (o.shippingFees + o.discountAmount)
  have hless := hst.abs_amountAfterTax_sub_le o.discountAmount
  rw [hrate] at hgross hless
  rw [Settings.netPrice, Settings.netPrice, if_pos hvat, if_pos hvat] at hnet
  -- the two roundings of the net prices, and the three of what is reported
  obtain ⟨hgross, hgross'⟩ := abs_le.mp hgross
  obtain ⟨hless, hless'⟩ := abs_le.mp hless
  obtain ⟨huntaxed, huntaxed'⟩ :=
    abs_le.mp (abs_floatRepr_sub_le ((o.shippingFees + o.discountAmount) / (114 / 100)))
  obtain ⟨hreported, hreported'⟩ := abs_le.mp (abs_floatRepr_sub_le
    (((o.shippingFees + o.discountAmount) / (114 / 100) - o.discountAmount / (114 / 100)) *
      (14 / 100)))
  obtain ⟨hdisc, hdisc'⟩ := abs_le.mp (abs_floatRepr_sub_le (o.discountAmount / (114 / 100)))
  refine ⟨_, _, _, net, vatLine, getInvoiceAmounts_of_order hline hnonneg htype horder, hlines,
    abs_le.mpr ⟨?_, ?_⟩, abs_le.mpr ⟨?_, ?_⟩,
    fun hfinds => (hprice hfinds).symm ▸ abs_le.mpr ⟨?_, ?_⟩⟩
  all_goals linarith

/-! ## An example -/

/-- The small company with a value added tax, and its report. -/
def ReportSettings.sample : ReportSettings :=
  { Settings.withExactVat with amountUntaxed := fun _ => 0, amountTax := fun _ => 0 }

theorem ReportSettings.sample_exact : ReportSettings.sample.toSettings.Exact :=
  Settings.withExactVat_exact

def documentOf (m : Move) : Document ℕ := { id := 0, move := m, invoiceDate := some 0 }

/-- The books with an order and its invoice. -/
def booksOf (o : Order) (m : Move) : Books ℕ where
  documents := [documentOf m]
  orders := [(some 0, o)]

theorem report_agrees_with_invoice_of_createdOrder :
    ∃ m, prepareInvoice ReportSettings.sample.toSettings (createdOrder 100 10 0) = .ok m ∧
      ∃ untaxed vat discount net vatLine,
        getInvoiceAmounts .sample (booksOf (createdOrder 100 10 0) m) (documentOf m) =
            .ok (untaxed, vat, some discount) ∧
          m.invoiceLineIds = net ++ [vatLine] ∧
          |untaxed - discount + vat - (createdOrder 100 10 0).shippingFees| ≤ 15 / 10 ^ 6 ∧
          |untaxed - discount - charged net| ≤ 101 / 10 ^ 4 ∧
          |vat - vatLine.priceUnit| ≤ 101 / 10 ^ 4 := by
  obtain ⟨m, hm, htype⟩ := createdOrder_prepareInvoice_withExactVat 100 10 0
  have hm : prepareInvoice ReportSettings.sample.toSettings (createdOrder 100 10 0) = .ok m := hm
  have horder : getOrderObject (booksOf (createdOrder 100 10 0) m) (some (documentOf m).id) =
      [createdOrder 100 10 0] := by
    simp [getOrderObject, booksOf, documentOf]
  have hline : (createdOrder 100 10 0).HasMainServiceLine (shippingLine (100 + 10)) :=
    ⟨rfl, rfl, rfl⟩
  obtain ⟨untaxed, vat, discount, net, vatLine, hreport, hlines, hsum, hbase, hvat⟩ :=
    report_agrees_with_invoice (b := booksOf (createdOrder 100 10 0) m)
      ReportSettings.sample_exact rfl rfl (mem_decimals_iff.mpr ⟨10000, by norm_num [createdOrder]⟩)
      (by decide +kernel) (mem_decimals_iff.mpr ⟨1000, by norm_num [createdOrder]⟩)
      (by decide +kernel) hline hm htype horder
  exact ⟨m, hm, untaxed, vat, discount, net, vatLine, hreport, hlines, hsum, hbase,
    hvat ⟨rfl, .inl rfl⟩⟩

/-- An order whose line has been given another description in the form. -/
def renamedOrder : Order :=
  { createdOrder 100 0 0 with
    serviceLineIds := [{ shippingLine 100 with description := "Delivery" }] }

theorem renamedOrder_invoiceable :
    Settings.withExactVat.saleJournals ≠ [] ∧
      Invoiceable .withExactVat renamedOrder renamedOrder.chargedDiscount where
  left := by decide
  right :=
    { costCenter := by decide
      discountProduct := fun _ => ⟨_, rfl, by decide⟩
      hasTaxRate := ⟨by decide, by decide +kernel⟩
      shippingLines := by decide
      mainVatServices := by decide
      codeTaxes := by decide }

/-- The VAT line does not find the line, and has the whole fees as its price. -/
theorem renamed_line_reported_apart :
    ∃ line m untaxed vat discount net vatLine, renamedOrder.HasMainServiceLine line ∧
      prepareInvoice .withExactVat renamedOrder = .ok m ∧
      getInvoiceAmounts .sample (booksOf renamedOrder m) (documentOf m) =
        .ok (untaxed, vat, some discount) ∧
      m.invoiceLineIds = net ++ [vatLine] ∧ ¬ |vat - vatLine.priceUnit| ≤ 101 / 10 ^ 4 := by
  have hm := prepareInvoice_eq_ok_iff.mpr ⟨renamedOrder_invoiceable, rfl⟩
  have hline : renamedOrder.HasMainServiceLine
      { shippingLine 100 with description := "Delivery" } :=
    ⟨rfl, rfl, by decide +kernel⟩
  refine ⟨_, _, _, _, _, _, _, hline, hm, getInvoiceAmounts_of_order hline (by decide +kernel) rfl
    (by simp [getOrderObject, booksOf, documentOf]), rfl, by decide +kernel⟩

end ElectronicInvoice

end Fastrak
