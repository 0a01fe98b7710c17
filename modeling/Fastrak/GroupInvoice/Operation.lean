import Fastrak.Order.Environment
import Fastrak.Library.Rounding
import Fastrak.Library.Run
import Fastrak.Library.Table

/-!
# Group invoices and the operations on them

A group invoice collects the unpaid on-credit invoices of a customer in a range of dates.
The records are the invoices, each with the day it was created on, and the group
invoices; a line of a group invoice is the invoice it is for. References are positions in
the two tables, and a deleted group invoice leaves its position empty.

Every operation is a transaction that is rolled back when it raises.
-/

namespace Fastrak

open Transaction Run

universe u

/-- The search compares `create_date` with the two dates by whole days. -/
structure DatedMove (δ : Type) where
  createDate : δ
  move : Move

structure GroupInvoice (δ : Type) [LE δ] where
  customer : ℕ
  fromDate : δ
  toDate : δ
  /-- `_check_from_and_to_date` -/
  fromDate_le_toDate : fromDate ≤ toDate
  /-- The invoices of the lines. -/
  invoiceIds : List ℕ := []
  totalDiscount : ℚ := 0

def GroupInvoice.addDiscount {δ : Type} [LE δ] (ar : Arithmetic) (discount : ℚ)
    (g : GroupInvoice δ) : GroupInvoice δ :=
  { g with totalDiscount := ar.add g.totalDiscount discount }

structure GroupInvoices (δ : Type) [LE δ] where
  invoices : List (DatedMove δ)
  groups : List (Option (GroupInvoice δ)) := []

namespace GroupInvoices

variable {δ : Type} [LinearOrder δ]

def group? (s : GroupInvoices δ) (id : ℕ) : Option (GroupInvoice δ) := (s.groups[id]?).join

def invoice? (s : GroupInvoices δ) (id : ℕ) : Option Move := (s.invoices[id]?).map (·.move)

def modifyGroup (id : ℕ) (f : GroupInvoice δ → GroupInvoice δ) (s : GroupInvoices δ) :
    GroupInvoices δ :=
  { s with groups := s.groups.modify id (Option.map f) }

def modifyMove (id : ℕ) (f : Move → Move) (s : GroupInvoices δ) : GroupInvoices δ :=
  { s with invoices := s.invoices.modify id fun r => { r with move := f r.move } }

end GroupInvoices

namespace GroupInvoice

variable {δ : Type} [LinearOrder δ] (st : Settings) (ac : Accounting)

abbrev Tx (δ : Type) [LE δ] := EStateM String (GroupInvoices δ)

/-! ## Generating the lines -/

/-- The domain of the search in `_get_customer_credit_invoices`. -/
def IsCustomerCreditInvoice (g : GroupInvoice δ) (r : DatedMove δ) : Prop :=
  r.move.partnerId = some g.customer ∧ g.fromDate ≤ r.createDate ∧ r.createDate ≤ g.toDate ∧
    r.move.onCreditInvoice ∧ r.move.state = .posted ∧ ac.paymentState r.move = .notPaid

instance (g : GroupInvoice δ) (r : DatedMove δ) : Decidable (g.IsCustomerCreditInvoice ac r) :=
  inferInstanceAs (Decidable (_ ∧ _ ∧ _ ∧ _ ∧ _ ∧ _))

def searchCustomerInvoices (s : GroupInvoices δ) (g : GroupInvoice δ) : List ℕ :=
  (List.range s.invoices.length).filter fun i =>
    (s.invoices[i]?).any fun r => g.IsCustomerCreditInvoice ac r

/-- `_check_not_in_old_group_invoice(inv)`, called on the group invoice `id`. -/
def CheckNotInOldGroupInvoice (s : GroupInvoices δ) (id : ℕ) (g : GroupInvoice δ) (inv : ℕ) :
    Prop :=
  ∀ old ∈ List.range s.groups.length, old ≠ id →
    ∀ grp ∈ s.group? old, grp.customer = g.customer → inv ∉ grp.invoiceIds

instance (s : GroupInvoices δ) (id : ℕ) (g : GroupInvoice δ) (inv : ℕ) :
    Decidable (CheckNotInOldGroupInvoice s id g inv) :=
  inferInstanceAs (Decidable (∀ old ∈ List.range s.groups.length, old ≠ id →
    ∀ grp ∈ s.group? old, grp.customer = g.customer → inv ∉ grp.invoiceIds))

/-- The group invoice an operation is called on. -/
def self (id : ℕ) : Tx δ (GroupInvoice δ) := do
  match (← get).group? id with
  | some g => pure g
  | none => throw "Record does not exist or has been deleted."

/-- One round of the loop of `_get_customer_credit_invoices`. The written `total_amount` is
computed and not stored. -/
def getCustomerCreditInvoices (id : ℕ) : Tx δ PUnit := do
  let g ← self id
  let customerInvoices := searchCustomerInvoices ac (← get) g
  modify (GroupInvoices.modifyGroup id fun g => { g with invoiceIds := [] })
  let s ← get
  let customerInvoiceLines :=
    customerInvoices.filter fun inv => CheckNotInOldGroupInvoice s id g inv
  modify (GroupInvoices.modifyGroup id fun g => { g with invoiceIds := customerInvoiceLines })

/-- `generate_group_invoice()` on a recordset. -/
def generateGroupInvoice : List ℕ → Tx δ PUnit
  | [] => pure ⟨⟩
  | id :: ids => do
      getCustomerCreditInvoices ac id
      generateGroupInvoice ids

/-! ## The discount wizard -/

inductive DiscountType where
  | amount
  | percent
  deriving DecidableEq

inductive InvoiceSelection where
  | all
  | specific
  deriving DecidableEq

structure DiscountWizard where
  discountType : DiscountType := .percent
  discountAmount : ℚ := 0
  discountPercentage : ℚ := 0
  invoiceSelectionType : InvoiceSelection := .all
  targetInvoice : Option ℕ := none

def checkDiscountConstraints (w : DiscountWizard) : Tx δ PUnit :=
  raiseIf (0 ≥ w.discountPercentage ∧ w.discountPercentage > 100) "Discount is not set correctly"

/-- `_get_discount_service_line(discount_amount)` of the wizard. -/
def getDiscountServiceLine (discountAmount : ℚ) : Except String InvoiceLine := do
  match ← single "product.product" st.mainDiscountServices with
  | none => throw "Missing Discount Service"
  | some product =>
      raiseIf (product.costCentersId = none) "'NoneType' object has no attribute 'id'"
      return { productId := some product.id, name := "Invoice Discount", quantity := 1,
               priceUnit := -discountAmount, costCentersId := product.costCentersId }

end GroupInvoice

def Move.addLine (m : Move) (line : InvoiceLine) : Move :=
  { m with invoiceLineIds := m.invoiceLineIds ++ [line] }

namespace GroupInvoice

variable {δ : Type} [LinearOrder δ] (st : Settings) (ac : Accounting)

/-- `_update_invoice_lines(inv, discount)` -/
def updateInvoiceLines (inv : ℕ) (m : Move) (discount : ℚ) : Tx δ PUnit := do
  let line ← lift (getDiscountServiceLine st discount)
  raiseIf m.auditAndLock "Can't Edit Move After Being Audited"
  match ac.refuseLines (m.addLine line) with
  | some message => throw message
  | none => modify (GroupInvoices.modifyMove inv fun m => m.addLine line)

/-- The discount of an invoice. The residual, a number of piastres, is read as a float. -/
def targetDiscountAmount (w : DiscountWizard) (m : Move) : ℚ :=
  match w.discountType with
  | .amount => w.discountAmount
  | .percent =>
      let ar := st.arithmetic
      let residual := ar.round (ac.residual (some m))
      Rounding.halfEven (ar.mul residual (ar.div w.discountPercentage 100))

/-- The loop of `update_group_invoice` over the invoices that are left. -/
def updateInvoices (id : ℕ) (w : DiscountWizard) : List ℕ → Tx δ PUnit
  | [] => pure ⟨⟩
  | inv :: invs => do
      match (← get).invoice? inv with
      | none => throw "Record does not exist or has been deleted."
      | some m =>
          let discount := targetDiscountAmount st ac w m
          updateInvoiceLines st ac inv m discount
          modify (GroupInvoices.modifyGroup id fun g => g.addDiscount st.arithmetic discount)
          updateInvoices id w invs

/-- The wizard, opened on the group invoice `id`: the selection of `target_invoice` offers
the invoices of its lines. -/
def updateGroupInvoice (id : ℕ) (w : DiscountWizard) : Tx δ PUnit := do
  checkDiscountConstraints w
  let g ← self id
  raiseIf (∃ inv ∈ w.targetInvoice, inv ∉ g.invoiceIds)
    "Wrong value for group.invoice.discount.wizard.target_invoice"
  match w.invoiceSelectionType with
  | .all => updateInvoices st ac id w g.invoiceIds
  | .specific => updateInvoices st ac id w w.targetInvoice.toList

/-! ## Runs -/

inductive Event (δ : Type) where
  | create (customer : ℕ) (fromDate toDate : δ)
  | unlink (id : ℕ)
  | editDates (id : ℕ) (fromDate toDate : δ)
  | generate (ids : List ℕ)
  | discount (id : ℕ) (w : DiscountWizard)
  | newInvoice (r : DatedMove δ)
  | pay (inv : ℕ) (amount : ℚ)

def dateError : String := "To Date can't be before From date"

def perform : Event δ → Tx δ PUnit
  | .create customer fromDate toDate =>
      if h : fromDate ≤ toDate then
        modify fun s => { s with groups := s.groups ++
          [some { customer, fromDate, toDate, fromDate_le_toDate := h }] }
      else throw dateError
  | .unlink id => modify fun s => { s with groups := s.groups.set id none }
  | .editDates id fromDate toDate =>
      if h : fromDate ≤ toDate then
        modify (GroupInvoices.modifyGroup id fun g =>
          { g with fromDate, toDate, fromDate_le_toDate := h })
      else throw dateError
  | .generate ids => generateGroupInvoice ac ids
  | .discount id w => updateGroupInvoice st ac id w
  | .newInvoice r => modify fun s => { s with invoices := s.invoices ++ [r] }
  | .pay inv amount => modify (GroupInvoices.modifyMove inv fun m =>
      { m with reconciled := m.reconciled + amount })

def step (s : GroupInvoices δ) (e : Event δ) : GroupInvoices δ :=
  (atomic (fun s _ => s) (perform st ac e) s).2

/-! ## The printed report -/

/-- `x.product_id.product_tmpl_id.is_main_discount_service` -/
def IsDiscountLine (line : InvoiceLine) : Prop :=
  ∃ product ∈ st.mainDiscountServices, line.productId = some product.id

instance (line : InvoiceLine) : Decidable (IsDiscountLine st line) :=
  inferInstanceAs (Decidable (∃ product ∈ st.mainDiscountServices, _))

/-- `_get_discounted_amount_lines()` of an invoice. -/
def discountedAmountLines (m : Move) : ℚ :=
  st.arithmetic.sum ((m.invoiceLineIds.filter fun line => IsDiscountLine st line).map fun line =>
    -ac.priceSubtotal line)

/-- The amount that the report prints for a line. -/
def printedLineAmount (s : GroupInvoices δ) (inv : ℕ) : ℚ :=
  st.arithmetic.add (ac.total (s.invoice? inv))
    (((s.invoice? inv).map (discountedAmountLines st ac)).getD 0)

/-- `total_amount` -/
def totalAmount (s : GroupInvoices δ) (g : GroupInvoice δ) : ℚ :=
  st.arithmetic.sum (g.invoiceIds.map fun inv => ac.total (s.invoice? inv))

/-- `gross_total_amount` of `_get_footer_totals`. -/
def grossTotalAmount (s : GroupInvoices δ) (g : GroupInvoice δ) : ℚ :=
  st.arithmetic.add (totalAmount st ac s g) g.totalDiscount

end GroupInvoice

end Fastrak
