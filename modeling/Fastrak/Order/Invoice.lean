import Fastrak.Order.Value
import Fastrak.Library.Rounding

/-!
# Invoice lines of an order

The lines `_prepare_invoice` and the invoice rebuild of the update endpoint
charge: one line for each service line, a discount line, and a VAT line whose
price is the amount that is left of the shipping fees. All of this reads the
order and the settings and writes nothing, so it is given in `Except`.
-/

namespace Fastrak

open Transaction Rounding

variable {V : Type} [Amount V] (st : Settings)

/-- `_get_tax_line_object().amount`: the rate of the percent tax, in percent. -/
def taxAmount : Except String ℚ := do
  return (← single "account.tax" st.percentTaxes).getD 0

/-- `_get_tax_lines()`: the id of the `code` tax. -/
def getTaxLines : Except String (Option ℕ) := single "account.tax" st.codeTaxes

/-- `_get_amount_after_tax(amount)`: the net amount, up to two decimals. The arithmetic rounds
what `round` gives once more: a float has no two decimals. -/
def getAmountAfterTax (amount : V) : Except String ℚ := do
  let ar := st.arithmetic
  let taxPercentage := ar.add (ar.div (← taxAmount st) 100) 1
  let amount ← Amount.operand st (Amount.unsupported "/" · "float") amount
  raiseIf (taxPercentage = 0) "float division by zero"
  return ar.round (roundHalfEven (st.floatRoundUp (ar.div amount taxPercentage)) 2)

/-- The cost center of the product's category, if there is one. -/
def ServiceLine.costCenter (line : ServiceLine) : Option ℕ :=
  line.product.bind (·.costCentersId)

/-- `line_category.name`. -/
def ServiceLine.categoryName (line : ServiceLine) : String :=
  (line.product.map (·.categoryName)).getD ""

/-- The message of a service line whose product category has no cost center. -/
def missingCostCenter (line : ServiceLine) : String :=
  "Missing Cost Center in Product Category : (" ++ line.categoryName ++ ")"

/-- `_check_cost_center`. -/
def checkCostCenter (o : Order) : Except String Unit :=
  o.serviceLineIds.forM fun line =>
    raiseIf (line.costCenter = none) (missingCostCenter line)

/-- One round of the loop of `_get_bol_service_lines`. -/
def getBolServiceLine (line : ServiceLine) : Except String InvoiceLine := do
  let priceUnit ←
    if st.activateVatCalculation then getAmountAfterTax st line.amount
    else pure line.amount
  raiseIf (line.costCenter = none) (missingCostCenter line)
  return { productId := line.product.map (·.id), name := line.description,
           quantity := 1, priceUnit, costCentersId := line.costCenter }

/-- `_get_bol_service_lines()`. -/
def getBolServiceLines (o : Order) : Except String (List InvoiceLine) :=
  o.serviceLineIds.mapM (getBolServiceLine st)

/-- `_get_discount_service_line(discount_amount)`. A category without a cost
center leaves `cost_center` at `None`, which has no `id`. -/
def getDiscountServiceLine (discountAmount : V) : Except String InvoiceLine := do
  match ← single "product.product" st.mainDiscountServices with
  | none => throw "Missing Discount Service"
  | some product =>
      let priceUnit ←
        if st.activateVatCalculation then getAmountAfterTax st discountAmount
        else Amount.operand st (Amount.unsupportedUnary "-") discountAmount
      raiseIf (product.costCentersId = none) "'NoneType' object has no attribute 'id'"
      return { productId := some product.id, name := "Invoice Discount", quantity := 1,
               priceUnit := -priceUnit, costCentersId := product.costCentersId }

/-- The price of the first invoice line with the given name, zero without one. -/
def priceOfLine (name : String) (lines : List InvoiceLine) : ℚ :=
  ((lines.find? (·.name = name)).map (·.priceUnit)).getD 0

/-- `_get_vat_recalculated_price(original_vat_price, invoice_service_lines)`. -/
def getVatRecalculatedPrice (o : Order) (originalVatPrice : ℚ)
    (invoiceServiceLines : List InvoiceLine) : ℚ :=
  let shippingAmt := priceOfLine "Shipping Fees" invoiceServiceLines
  let discountAmt := priceOfLine "Invoice Discount" invoiceServiceLines
  let ar := st.arithmetic
  let baseAmt := ar.round (roundHalfEven (ar.add shippingAmt discountAmt) 2)
  let finalAmount := ar.round (roundHalfEven (ar.sub o.shippingFees baseAmt) 2)
  if ar.add baseAmt finalAmount = o.shippingFees then finalAmount else originalVatPrice

/-- The service lines of type `shipping`. -/
def Order.shippingLines (o : Order) : List ServiceLine :=
  o.serviceLineIds.filter (·.serviceType = .shipping)

/-- `_get_bol_vat_line(invoice_service_lines)`. -/
def getBolVatLine (o : Order) (invoiceServiceLines : List InvoiceLine) :
    Except String InvoiceLine := do
  let taxPercentage := st.arithmetic.div (← taxAmount st) 100
  let priceUnit := st.arithmetic.mul (← getAmountAfterTax st o.shippingFees) taxPercentage
  let shippingLine ← single "bill.of.loading.line" o.shippingLines
  let price :=
    if (shippingLine.map (·.amount)).getD 0 ≠ o.discountAmount then
      getVatRecalculatedPrice st o priceUnit invoiceServiceLines
    else 0
  let vatServiceProduct ← single "product.product" st.mainVatServices
  return { productId := vatServiceProduct.map (·.id),
           name := (vatServiceProduct.map (·.name)).getD "",
           quantity := 0, priceUnit := price, taxIds := [← getTaxLines st] }

/-- The lines of the invoice, with the discount line when one is charged. -/
def invoiceServiceLines (o : Order) (discount : Option V) :
    Except String (List InvoiceLine) := do
  let lines ← getBolServiceLines st o
  let lines ← match discount with
    | some amount => do pure (lines ++ [← getDiscountServiceLine st amount])
    | none => pure lines
  return lines ++ [← getBolVatLine st o lines]

/-- The discount `_prepare_invoice` charges: the order's own, when there is both
a discount and a shipping fee. -/
def Order.chargedDiscount (o : Order) : Option ℚ :=
  if o.discountAmount ≠ 0 ∧ o.shippingFees ≠ 0 then some o.discountAmount else none

/-- `_prepare_invoice()`. -/
def prepareInvoice (o : Order) : Except String Move := do
  let journal := limitOne st.saleJournals
  raiseIf (journal = none) st.missingJournal
  let lines ← invoiceServiceLines st o o.chargedDiscount
  return { moveType := .outInvoice, ref := o.orderId, partnerId := some o.customer,
           journalId := journal, invoiceLineIds := lines,
           onCreditInvoice := o.paymentMethod = .onCredit }

end Fastrak
