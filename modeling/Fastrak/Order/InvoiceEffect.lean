import Fastrak.Order.Invoice

/-!
# What the invoice lines are

The functions of `Order.Invoice` raise for what is missing or found twice. Each is given
here by what it needs and by the value it then returns, which is the same for every
configuration.
-/

namespace Fastrak

open Transaction Rounding

namespace Settings

variable (st : Settings)

/-- The rate of the percent tax, in percent, zero without one. -/
def taxRate : ℚ := st.percentTaxes.head?.getD 0

/-- What a net price is multiplied with to give the gross price. -/
def taxPercentage : ℚ := st.arithmetic.add (st.arithmetic.div st.taxRate 100) 1

/-- There is at most one percent tax, and it does not take the whole price away. -/
def HasTaxRate : Prop := st.percentTaxes.length ≤ 1 ∧ st.taxPercentage ≠ 0

/-- The net amount of `_get_amount_after_tax`. -/
def amountAfterTax (amount : ℚ) : ℚ :=
  st.arithmetic.round
    (roundHalfEven (st.floatRoundUp (st.arithmetic.div amount st.taxPercentage)) 2)

/-- The tax on a net amount of `_get_amount_after_tax`. -/
def taxOn (amount : ℚ) : ℚ :=
  st.arithmetic.mul (st.amountAfterTax amount) (st.arithmetic.div st.taxRate 100)

/-- The price of a line that charges `amount`. -/
def netPrice (amount : ℚ) : ℚ :=
  if st.activateVatCalculation then st.amountAfterTax amount else amount

end Settings

section Values

variable (st : Settings)

/-- The invoice line of a service line. -/
def ServiceLine.invoiceLine (line : ServiceLine) : InvoiceLine where
  productId := line.product.map (·.id)
  name := line.description
  quantity := 1
  priceUnit := st.netPrice line.amount
  costCentersId := line.costCenter

def discountLine (product : Product) (discountAmount : ℚ) : InvoiceLine where
  productId := some product.id
  name := "Invoice Discount"
  quantity := 1
  priceUnit := -st.netPrice discountAmount
  costCentersId := product.costCentersId

/-- The amount of the service line of type `shipping`, zero without one. -/
def Order.shippingAmount (o : Order) : ℚ := (o.shippingLines.head?.map (·.amount)).getD 0

/-- The price of the VAT line, next to the other lines of the invoice. -/
def vatPrice (o : Order) (lines : List InvoiceLine) : ℚ :=
  if o.shippingAmount ≠ o.discountAmount then
    getVatRecalculatedPrice st o (st.taxOn o.shippingFees) lines
  else 0

def vatLine (o : Order) (lines : List InvoiceLine) : InvoiceLine where
  productId := st.mainVatServices.head?.map (·.id)
  name := (st.mainVatServices.head?.map (·.name)).getD ""
  quantity := 0
  priceUnit := vatPrice st o lines
  taxIds := [st.codeTaxes.head?]

/-- The discount line, if there is one; what is found twice is never charged. -/
def discountLines (discount : Option ℚ) : List InvoiceLine :=
  match discount, st.mainDiscountServices with
  | some amount, product :: _ => [discountLine st product amount]
  | _, _ => []

/-- The lines that charge the services and the discount, without the VAT line. -/
def netLines (o : Order) (discount : Option ℚ) : List InvoiceLine :=
  o.serviceLineIds.map (ServiceLine.invoiceLine st) ++ discountLines st discount

/-- All lines of an invoice. -/
def chargedLines (o : Order) (discount : Option ℚ) : List InvoiceLine :=
  netLines st o discount ++ [vatLine st o (netLines st o discount)]

/-- What the lines of an invoice need. -/
structure Invoiceable (o : Order) (discount : Option ℚ) : Prop where
  costCenter : ∀ line ∈ o.serviceLineIds, line.costCenter ≠ none
  discountProduct : discount ≠ none →
    ∃ product, st.mainDiscountServices = [product] ∧ product.costCentersId ≠ none
  hasTaxRate : st.HasTaxRate
  shippingLines : o.shippingLines.length ≤ 1
  mainVatServices : st.mainVatServices.length ≤ 1
  codeTaxes : st.codeTaxes.length ≤ 1

theorem discountLines_of_singleton {st : Settings} {product : Product}
    (h : st.mainDiscountServices = [product]) (amount : ℚ) :
    discountLines st (some amount) = [discountLine st product amount] := by
  unfold discountLines
  rw [h]

end Values

/-! ## When they return -/

section Ok

variable {st : Settings} {o : Order}

theorem taxAmount_eq_ok_iff {r : ℚ} :
    taxAmount st = .ok r ↔ st.percentTaxes.length ≤ 1 ∧ st.taxRate = r := by
  simp only [taxAmount, except_bind_ok_iff, except_pure_eq_ok_iff, single_eq_ok_iff,
    Settings.taxRate]
  constructor
  · rintro ⟨_, ⟨hlen, rfl⟩, rfl⟩
    exact ⟨hlen, rfl⟩
  · rintro ⟨hlen, rfl⟩
    exact ⟨_, ⟨hlen, rfl⟩, rfl⟩

theorem getAmountAfterTax_eq_ok_iff {amount a : ℚ} :
    getAmountAfterTax st amount = .ok a ↔ st.HasTaxRate ∧ st.amountAfterTax amount = a := by
  simp only [getAmountAfterTax, except_bind_ok_iff, except_pure_eq_ok_iff, taxAmount_eq_ok_iff,
    Amount.operand_rat, raiseIf_eq_ok_iff, Settings.HasTaxRate, Settings.amountAfterTax]
  constructor
  · rintro ⟨_, ⟨hlen, rfl⟩, _, rfl, _, hne, rfl⟩
    exact ⟨⟨hlen, hne⟩, rfl⟩
  · rintro ⟨⟨hlen, hne⟩, rfl⟩
    exact ⟨_, ⟨hlen, rfl⟩, _, rfl, ⟨⟩, hne, rfl⟩

/-- The price of a line, with the switch of the VAT calculation in front. -/
theorem netPrice_bind_eq_ok_iff {β : Type} {amount : ℚ} {f : ℚ → Except String β} {b : β} :
    (if st.activateVatCalculation = true then getAmountAfterTax st amount >>= f
      else pure amount >>= f) = .ok b ↔
      (st.activateVatCalculation → st.HasTaxRate) ∧ f (st.netPrice amount) = .ok b := by
  cases h : st.activateVatCalculation with
  | true =>
      simp only [if_true, except_bind_ok_iff, getAmountAfterTax_eq_ok_iff, Settings.netPrice, h]
      constructor
      · rintro ⟨_, ⟨htax, rfl⟩, hf⟩
        exact ⟨fun _ => htax, hf⟩
      · rintro ⟨htax, hf⟩
        exact ⟨_, ⟨htax trivial, rfl⟩, hf⟩
  | false => simp [Settings.netPrice, h]

theorem checkCostCenter_eq_ok_iff {u : Unit} :
    checkCostCenter o = .ok u ↔ ∀ line ∈ o.serviceLineIds, line.costCenter ≠ none := by
  simp only [checkCostCenter, forM_eq_ok_iff, raiseIf_eq_ok_iff, ne_eq]

theorem getBolServiceLine_eq_ok_iff (line : ServiceLine) (il : InvoiceLine) :
    getBolServiceLine st line = .ok il ↔
      ((st.activateVatCalculation → st.HasTaxRate) ∧ line.costCenter ≠ none) ∧
        line.invoiceLine st = il := by
  rw [getBolServiceLine, netPrice_bind_eq_ok_iff]
  simp only [except_bind_ok_iff, except_pure_eq_ok_iff, raiseIf_eq_ok_iff, exists_and_left,
    exists_const, and_assoc]
  rfl

theorem getBolServiceLines_eq_ok_iff {lines : List InvoiceLine} :
    getBolServiceLines st o = .ok lines ↔
      (∀ line ∈ o.serviceLineIds,
        (st.activateVatCalculation → st.HasTaxRate) ∧ line.costCenter ≠ none) ∧
      o.serviceLineIds.map (ServiceLine.invoiceLine st) = lines :=
  mapM_eq_ok_iff getBolServiceLine_eq_ok_iff o.serviceLineIds

theorem getDiscountServiceLine_eq_ok_iff {discountAmount : ℚ} {il : InvoiceLine} :
    getDiscountServiceLine st discountAmount = .ok il ↔
      ∃ product, st.mainDiscountServices = [product] ∧ product.costCentersId ≠ none ∧
        (st.activateVatCalculation → st.HasTaxRate) ∧
        discountLine st product discountAmount = il := by
  rw [getDiscountServiceLine, except_bind_ok_iff]
  constructor
  · rintro ⟨product | product, hproduct, h⟩
    · cases h
    · simp only [Amount.operand_rat] at h
      rw [netPrice_bind_eq_ok_iff] at h
      simp only [except_bind_ok_iff, except_pure_eq_ok_iff, raiseIf_eq_ok_iff] at h
      obtain ⟨htax, _, hne, rfl⟩ := h
      exact ⟨product, eq_singleton_of_single hproduct, hne, htax, rfl⟩
  · rintro ⟨product, hproduct, hne, htax, rfl⟩
    refine ⟨some product, by rw [hproduct]; rfl, ?_⟩
    simp only [Amount.operand_rat]
    rw [netPrice_bind_eq_ok_iff]
    simp only [except_bind_ok_iff, except_pure_eq_ok_iff, raiseIf_eq_ok_iff]
    exact ⟨htax, ⟨⟩, hne, rfl⟩

theorem getBolVatLine_eq_ok_iff {lines : List InvoiceLine} {il : InvoiceLine} :
    getBolVatLine st o lines = .ok il ↔
      st.HasTaxRate ∧ o.shippingLines.length ≤ 1 ∧ st.mainVatServices.length ≤ 1 ∧
        st.codeTaxes.length ≤ 1 ∧ vatLine st o lines = il := by
  simp only [getBolVatLine, getTaxLines, except_bind_ok_iff, except_pure_eq_ok_iff,
    taxAmount_eq_ok_iff, getAmountAfterTax_eq_ok_iff, single_eq_ok_iff]
  constructor
  · rintro ⟨_, ⟨-, rfl⟩, _, ⟨htax, rfl⟩, _, ⟨hlines, rfl⟩, _, ⟨hvat, rfl⟩, _, ⟨hcode, rfl⟩, rfl⟩
    exact ⟨htax, hlines, hvat, hcode, rfl⟩
  · rintro ⟨htax, hlines, hvat, hcode, rfl⟩
    exact ⟨_, ⟨htax.1, rfl⟩, _, ⟨htax, rfl⟩, _, ⟨hlines, rfl⟩, _, ⟨hvat, rfl⟩, _, ⟨hcode, rfl⟩, rfl⟩

theorem invoiceServiceLines_eq_ok_iff {discount : Option ℚ} {lines : List InvoiceLine} :
    invoiceServiceLines st o discount = .ok lines ↔
      Invoiceable st o discount ∧ chargedLines st o discount = lines := by
  rw [invoiceServiceLines, except_bind_ok_iff]
  simp only [getBolServiceLines_eq_ok_iff]
  cases discount with
  | none =>
      simp only [except_bind_ok_iff, except_pure_eq_ok_iff, getBolVatLine_eq_ok_iff, chargedLines,
        netLines, discountLines, List.append_nil]
      constructor
      · rintro ⟨_, ⟨hlines, rfl⟩, _, rfl, _, ⟨htax, hship, hvat, hcode, rfl⟩, rfl⟩
        exact ⟨⟨fun line hl => (hlines line hl).2, fun h => absurd rfl h, htax, hship, hvat, hcode⟩,
          rfl⟩
      · rintro ⟨h, rfl⟩
        exact ⟨_, ⟨fun line hl => ⟨fun _ => h.hasTaxRate, h.costCenter line hl⟩, rfl⟩, _, rfl, _,
          ⟨h.hasTaxRate, h.shippingLines, h.mainVatServices, h.codeTaxes, rfl⟩, rfl⟩
  | some amount =>
      simp only [except_bind_ok_iff, except_pure_eq_ok_iff, getBolVatLine_eq_ok_iff,
        getDiscountServiceLine_eq_ok_iff, chargedLines, netLines]
      constructor
      · rintro ⟨_, ⟨hlines, rfl⟩, _, ⟨product, hproduct, hne, -, rfl⟩, _, rfl, _,
          ⟨htax, hship, hvat, hcode, rfl⟩, rfl⟩
        refine ⟨⟨fun line hl => (hlines line hl).2, fun _ => ⟨product, hproduct, hne⟩, htax, hship,
          hvat, hcode⟩, ?_⟩
        rw [discountLines_of_singleton hproduct]
      · rintro ⟨h, rfl⟩
        obtain ⟨product, hproduct, hne⟩ := h.discountProduct (Option.some_ne_none amount)
        rw [discountLines_of_singleton hproduct]
        exact ⟨_, ⟨fun line hl => ⟨fun _ => h.hasTaxRate, h.costCenter line hl⟩, rfl⟩, _,
          ⟨product, hproduct, hne, fun _ => h.hasTaxRate, rfl⟩, _, rfl, _,
          ⟨h.hasTaxRate, h.shippingLines, h.mainVatServices, h.codeTaxes, rfl⟩, rfl⟩

theorem prepareInvoice_eq_ok_iff {m : Move} :
    prepareInvoice st o = .ok m ↔
      (st.saleJournals ≠ [] ∧ Invoiceable st o o.chargedDiscount) ∧
        { moveType := .outInvoice, ref := o.orderId, partnerId := some o.customer,
          journalId := limitOne st.saleJournals,
          invoiceLineIds := chargedLines st o o.chargedDiscount,
          onCreditInvoice := o.paymentMethod = .onCredit } = m := by
  simp only [prepareInvoice, except_bind_ok_iff, except_pure_eq_ok_iff, raiseIf_eq_ok_iff,
    invoiceServiceLines_eq_ok_iff, limitOne, List.head?_eq_none_iff]
  constructor
  · rintro ⟨_, hjournal, _, ⟨h, rfl⟩, rfl⟩
    exact ⟨⟨hjournal, h⟩, rfl⟩
  · rintro ⟨⟨hjournal, h⟩, rfl⟩
    exact ⟨⟨⟩, hjournal, _, ⟨h, rfl⟩, rfl⟩

end Ok

end Fastrak
