import Fastrak.Library.Text
import Fastrak.Withdraw.Operation

/-!
# The electronic invoice report

`action_print_electronic_invoice` writes one row for each posted invoice and credit note of a
range of dates. It reads the invoice, the order that it is the invoice of, and for a credit
note the order of the invoice whose name it finds in the reference. A field of several records
cannot be read, and one of no record is empty.

Dates are days. What `float_repr` writes is given as a number. The limits of the file format
are left out.
-/

namespace Fastrak

open Transaction Rounding

/-- `line.product_id.is_main_service_product` -/
def ServiceLine.isMainService (line : ServiceLine) : Bool :=
  line.product.any (·.isMainServiceProduct)

/-- The service lines that charge the main service. -/
def Order.mainServiceLines (o : Order) : List ServiceLine :=
  o.serviceLineIds.filter (·.isMainService)

namespace ElectronicInvoice

variable {ι : Type} [DecidableEq ι]

/-- An account move with what only the report reads of it. -/
structure Document (ι : Type) where
  id : ι
  move : Move
  invoiceDate : Option ℤ
  narration : String := ""

/-- The account moves, and the orders with their `invoice_id`. -/
structure Books (ι : Type) where
  documents : List (Document ι)
  orders : List (Option ι × Order)

structure ReportSettings extends WithdrawSettings where
  defaultCode : ℕ → Option String := fun _ => none
  /-- `strftime('%Y-%m-%d')` -/
  dateText : ℤ → String := fun _ => ""
  amountUntaxed : Move → ℚ
  amountTax : Move → ℚ

structure Wizard where
  fromDate : ℤ
  toDate : ℤ

/-! ## The reference of a credit note -/

/-- `((invoice.ref.split(':')[-1]).strip()).split(',')` -/
def originalInvoice (ref : Text) : List Text := (Text.strip (Text.afterLast ':' ref)).splitOn ','

/-- Its first entry. -/
def referenceDocumentCode (ref : Text) : Text :=
  (originalInvoice ref).head (List.splitOn_ne_nil _ _)

/-! ## Lookups -/

/-- `search([('invoice_id', '=', invoice.id)])`; the id of no invoice is `False`. -/
def getOrderObject (b : Books ι) (invoice : Option ι) : List Order :=
  (b.orders.filter fun o => o.1 = invoice).map (·.2)

/-- `search([('name', '=', inv_name), ('move_type', '=', 'out_invoice')])`; a list of names finds
the invoices with one of them. -/
def getInvoiceObject (b : Books ι) (names : List Text) : List (Document ι) :=
  b.documents.filter fun d => d.move.name.toList ∈ names ∧ d.move.moveType = .outInvoice

variable (st : ReportSettings)

/-- `line.product_id.is_main_service_product` or `line.product_id.is_main_withdraw_charge` -/
def IsShippingLine (line : InvoiceLine) : Prop :=
  line.productId.any fun id =>
    id ∈ st.mainServiceProducts.map (·.id) ∨ id ∈ st.withdrawCharges.map (·.id)

instance : DecidablePred (IsShippingLine st) := fun _ => inferInstanceAs (Decidable (_ = true))

def getInvoiceShippingLine (invoice : Move) : List InvoiceLine :=
  invoice.invoiceLineIds.filter fun line => IsShippingLine st line

/-! ## Amounts -/

/-- The number that the text `float_repr(amount, 5)` is of. -/
def floatRepr (amount : ℚ) : ℚ := roundHalfEven amount 5

/-- The orders whose amounts are reported. An empty reference is `False`. -/
def getReportedOrders (b : Books ι) (invoice : Document ι) : Except String (List Order) :=
  match invoice.move.moveType with
  | .outRefund => do
      raiseIf (invoice.move.ref = "") "'bool' object has no attribute 'split'"
      let original ← single "account.move"
        (getInvoiceObject b (originalInvoice invoice.move.ref.toList))
      return getOrderObject b (original.map (·.id))
  | .outInvoice => return getOrderObject b (some invoice.id)
  | .entry => return []

/-- The untaxed amount, the VAT and the discount, all texts; without a discount there is the
number zero. -/
abbrev Amounts := ℚ × ℚ × Option ℚ

/-- `line_untaxed`, `final_vat` and `discount` of the orders of an invoice. -/
def getOrderAmounts (orders : List Order) : Except String Amounts := do
  let shpLine := orders.flatMap (·.mainServiceLines)
  let discountAmount := ((← single "fastrak.bill.of.loading" orders).map (·.discountAmount)).getD 0
  let discount := if discountAmount ≠ 0 then discountAmount / 1.14 else discountAmount
  let amount := ((← single "bill.of.loading.line" shpLine).map (·.amount)).getD 0
  let lineUntaxed := amount / 1.14
  let lineDiscountRemoved := lineUntaxed - discount
  let finalVat := lineDiscountRemoved * (14 / 100)
  return (floatRepr lineUntaxed, floatRepr finalVat, some (floatRepr |discount|))

/-- `_get_invoice_amounts(invoice)` -/
def getInvoiceAmounts (b : Books ι) (invoice : Document ι) : Except String Amounts := do
  match ← getReportedOrders b invoice with
  | [] =>
      return (floatRepr (st.amountUntaxed invoice.move), floatRepr (st.amountTax invoice.move),
        none)
  | orders => getOrderAmounts orders

/-! ## Rows -/

def columnsList : List String :=
  ["State", "DocumentType", "CustomerCode", "CustomerName", "DateTimeIssued",
    "TaxpayerActivityCode", "DocumentCode", "ExtraDiscountAmount", "ReferenceDocumentCodes",
    "PosDeviceSerialNo", "ReferenceSalesReceiptCode", "Notes", "PurchaseOrderReference",
    "PurchaseOrderDescription", "SalesOrderReference", "SalesOrderDescription",
    "ProformaInvoiceNumber", "BankName", "BankAddress", "BankAccountNo", "BankAccountIBAN",
    "SwiftCode", "PaymentTerms", "Approach", "Packaging", "DateValidity", "ExportPort",
    "CountryOfOrigin", "GrossWeight", "NetWeight", "DeliveryTerms", "ItemCode", "Description",
    "UnitTypeCode", "Quantity", "CurrencyCode", "AmountSold", "CurrencyExchangeRate",
    "TaxableDiscountValueType", "TaxableDiscountValue", "ValueDifference",
    "NonTaxableDiscountAmount", "TotalTaxableFees", "TaxTypeCode", "TaxSubTypeCode", "ValueType",
    "Value"]

/-- What is written in a cell: a text, the text of an amount, a number, or `False`. -/
inductive Cell where
  | text (t : Text)
  | amount (q : ℚ)
  | number (q : ℚ)
  | empty
  deriving DecidableEq

def Cell.ofString (s : String) : Cell := .text s.toList

def Cell.ofOption {α : Type} (f : α → Cell) (x : Option α) (default : Cell) : Cell :=
  (x.map f).getD default

/-- The cells of a row that are not the same in every row. -/
structure Row where
  moveType : MoveType
  customer : Option ℕ
  customerName : Option String
  dateTimeIssued : String
  documentCode : String
  referenceDocumentCode : Text
  notes : String
  grossWeight : ℚ
  itemCode : Option String
  description : Text
  amountSold : ℚ
  taxableDiscountValue : Option ℚ
  value : ℚ
  deriving DecidableEq

def Row.cells (r : Row) : List Cell :=
  [.text [], .ofString (if r.moveType = .outInvoice then "Invoice" else "CreditNote"),
    .ofOption (fun id : ℕ => .number id) r.customer .empty,
    .ofOption .ofString r.customerName .empty,
    .ofString r.dateTimeIssued, .ofString "5229", .ofString r.documentCode, .text [],
    .text r.referenceDocumentCode, .text [], .text [], .ofString r.notes] ++
  List.replicate 16 (.text []) ++
  [if r.grossWeight = 0 then .text [] else .number r.grossWeight, .text [], .text [],
    .ofOption .ofString r.itemCode .empty, .text r.description, .ofString "EA", .number 1,
    .ofString "EGP", .amount r.amountSold, .number 1, .ofString "Amount",
    .ofOption .amount r.taxableDiscountValue (.text []), .text [], .text [], .text [],
    .ofString "T1", .ofString "V009", .ofString "Amount", .amount r.value]

/-- The row of one invoice. -/
def printRow (b : Books ι) (invoice : Document ι) : Except String Row := do
  let shippingLine := getInvoiceShippingLine st invoice.move
  let (lineAmount, vatAmount, discountAmount) ← getInvoiceAmounts st b invoice
  let some date := invoice.invoiceDate | throw "'bool' object has no attribute 'strftime'"
  let order ← single "fastrak.bill.of.loading" (getOrderObject b (some invoice.id))
  let product ← single "product.product" (shippingLine.filterMap (·.productId)).dedup
  let name := ((← single "account.move.line" shippingLine).map (·.name)).getD "False"
  return {
    moveType := invoice.move.moveType
    customer := invoice.move.partnerId
    customerName := invoice.move.partnerId.map st.displayName
    dateTimeIssued := st.dateText date
    documentCode := invoice.move.name
    referenceDocumentCode := if invoice.move.moveType = .outRefund then
        referenceDocumentCode invoice.move.ref.toList
      else []
    notes := invoice.narration
    grossWeight := (order.map (·.weight)).getD 0
    itemCode := product.bind st.defaultCode
    description := Text.afterLast '-' name.toList
    amountSold := lineAmount
    taxableDiscountValue := discountAmount
    value := vatAmount }

/-- `selection_criteria` -/
def IsSelected (w : Wizard) (d : Document ι) : Prop :=
  (d.move.moveType = .outInvoice ∨ d.move.moveType = .outRefund) ∧ d.move.state = .posted ∧
    d.invoiceDate.any (fun date => w.fromDate ≤ date ∧ date ≤ w.toDate)

instance (w : Wizard) : DecidablePred (IsSelected (ι := ι) w) :=
  fun _ => inferInstanceAs (Decidable (_ ∧ _))

/-- `action_print_electronic_invoice()`: the rows of the file. -/
def actionPrintElectronicInvoice (b : Books ι) (w : Wizard) : Except String (List Row) :=
  (b.documents.filter fun d => IsSelected w d).mapM (printRow st b)

end ElectronicInvoice

end Fastrak
