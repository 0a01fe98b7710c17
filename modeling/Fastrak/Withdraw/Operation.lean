import Fastrak.Order.Payment
import Fastrak.Library.Run

/-!
# Withdraw requests and the operations on them

A request is invoiced for the fee, and then paid out: a payment of the invoice, and an
entry that moves the amount from the money collection account to a cash or bank journal.
The records are the request with the account moves and the payments made for it.

An operation that raises is rolled back. The form may choose another journal at any time,
and the invoice may be paid in part from outside.
-/

namespace Fastrak

open Transaction Run

inductive JournalType where
  | sale
  | purchase
  | cash
  | bank
  | general
  deriving DecidableEq

/-- `paymentAccountId` is `inbound_payment_method_line_ids[:1].payment_account_id`. -/
structure Journal where
  id : ℕ
  type : JournalType
  paymentAccountId : Option ℕ
  deriving DecidableEq

inductive WithdrawStatus where
  | draft
  | done
  | canceled
  deriving DecidableEq

inductive OperationStatus where
  | draft
  | finished
  | canceled
  deriving DecidableEq

/-- The values of a request when it is created. -/
structure WithdrawVals where
  customer : ℕ
  amount : ℚ
  /-- `check_amount` -/
  amount_pos : 0 < amount
  revenueAmount : ℚ := 0
  paymentJournal : Option Journal := none

structure WithdrawRequest extends WithdrawVals where
  status : WithdrawStatus := .draft
  operationStatus : OperationStatus := .draft
  invoice : Option ℕ := none
  invoicePayment : Option ℕ := none
  customerWithdrawEntry : Option ℕ := none

/-- The request and the records made for it; references are positions. -/
structure WithdrawSlice where
  request : WithdrawRequest
  moves : List Move := []
  payments : List Payment := []

structure WithdrawSettings extends Settings where
  withdrawCharges : List Product := []
  percentTaxIds : List ℕ := []
  displayName : ℕ → String := fun _ => ""

namespace Withdraw

abbrev Tx := EStateM String WithdrawSlice

variable (st : WithdrawSettings) (ac : Accounting)

/-! ## The values of the records -/

/-- `_get_customer_invoice_lines()` -/
def getCustomerInvoiceLines (r : WithdrawRequest) : Except String (List InvoiceLine) := do
  match ← single "product.product" st.withdrawCharges with
  | none => throw "Missing Main Service Charge"
  | some product => do
      let taxIds ← if st.activateVatCalculation then do
          pure [← single "account.tax" st.percentTaxIds]
        else pure []
      return [{ productId := some product.id
                name := st.displayName r.customer ++ " - Withdrawal Fees"
                quantity := 1
                priceUnit := r.revenueAmount
                costCentersId := product.costCentersId
                taxIds }]

/-- `_prepare_customer_invoice()` -/
def prepareCustomerInvoice (r : WithdrawRequest) : Except String Move := do
  let journal := limitOne st.saleJournals
  raiseIf (journal = none) st.missingJournal
  let lines ← getCustomerInvoiceLines st r
  return { moveType := .outInvoice
           ref := "Money Collection Invoice " ++ st.displayName r.customer
           partnerId := some r.customer
           journalId := journal
           invoiceLineIds := lines }

/-- `_get_customer_withdraw_payment_entry_lines()`. Without a journal of one of the two
types there is no second line. -/
def getCustomerWithdrawPaymentEntryLines (r : WithdrawRequest) :
    Except String (List EntryLine) := do
  match ← single "account.account" st.moneyCollectionAccounts with
  | none => throw ("Missing Money Collection Account, Please Add it from Chart of Accounts and " ++
      "check the box 'Is Money Collection Account'")
  | some moneyCollectionAccount =>
      let line₁ : EntryLine :=
        { accountId := some moneyCollectionAccount, partnerId := some r.customer,
          debit := r.amount }
      match r.paymentJournal with
      | some ⟨_, .cash, account⟩ => return [line₁, { accountId := account, credit := r.amount }]
      | some ⟨_, .bank, account⟩ => return [line₁, { accountId := account, credit := r.amount }]
      | _ => throw "local variable 'line_2' referenced before assignment"

/-- `_prepare_customer_withdraw_payment_entry()` -/
def prepareCustomerWithdrawPaymentEntry (r : WithdrawRequest) : Except String Move := do
  raiseIf (limitOne st.generalJournals = none) st.missingJournal
  let lines ← getCustomerWithdrawPaymentEntryLines st r
  return { moveType := .entry
           ref := st.displayName r.customer ++ " Money Withdraw"
           journalId := r.paymentJournal.map (·.id)
           lineIds := lines }

/-- `_prepare_invoice_payment_record_values()` -/
def prepareInvoicePaymentRecordValues (s : WithdrawSlice) : Payment where
  amount := ac.residual (s.request.invoice.bind fun i => s.moves[i]?)
  ref := st.displayName s.request.customer ++ " Money Collection Revenue Payment"
  partnerId := s.request.customer
  journalId := s.request.paymentJournal.map (·.id)
  reconciledInvoiceIds := s.request.invoice.toList

/-! ## Operations -/

def refuse (reason : Option String) : Tx PUnit :=
  match reason with
  | some message => throw message
  | none => pure ⟨⟩

/-- A write on the request itself. -/
def modifyRequest (f : WithdrawRequest → WithdrawRequest) : Tx PUnit :=
  modify fun s => { s with request := f s.request }

/-- `account.move.create(vals)`, assigned to a field of the request, and `action_post()`. -/
def createAndPostMove (vals : Move) (assign : ℕ → WithdrawRequest → WithdrawRequest) :
    Tx PUnit := do
  refuse (ac.refuseCreate vals)
  let id := (← get).moves.length
  modify fun s => { s with moves := s.moves ++ [vals] }
  modifyRequest (assign id)
  refuse (ac.refusePost vals)
  modify fun s => { s with moves := s.moves.modify id (Move.post ac id) }

/-- `request_invoice_creation()` -/
def requestInvoiceCreation : Tx PUnit := do
  let r := (← get).request
  if r.invoice = none then do
    let vals ← lift (prepareCustomerInvoice st r)
    createAndPostMove ac vals fun id r => { r with invoice := some id }
  else throw "Invoice already has been created"

/-- `_create_invoice_payment()`. No order has the invoice of a request, so that posting the
payment looks at none. -/
def createInvoicePayment : Tx PUnit := do
  let vals := prepareInvoicePaymentRecordValues st ac (← get)
  refuse (ac.refusePayment vals)
  let id := (← get).payments.length
  modify fun s => { s with payments := s.payments ++ [vals] }
  modifyRequest fun r => { r with invoicePayment := some id }
  refuse (ac.refusePostPayment vals)
  modify fun s => { s with payments := s.payments.modify id Payment.post }

/-- `_create_withdraw_payment_entry()` -/
def createWithdrawPaymentEntry : Tx PUnit := do
  let vals ← lift (prepareCustomerWithdrawPaymentEntry st (← get).request)
  createAndPostMove ac vals fun id r => { r with customerWithdrawEntry := some id }

/-- `request_payment_entries_creation()` -/
def requestPaymentEntriesCreation : Tx PUnit := do
  let r := (← get).request
  match r.paymentJournal with
  | none => throw "Missing Payment Journal"
  | some journal => do
      raiseIf (r.invoice = none) "Missing Invoice"
      raiseIf (journal.type ≠ .bank ∧ journal.type ≠ .cash) "Wrong Payment Journal"
      if r.invoicePayment = none then createInvoicePayment st ac
      else throw "Payment Invoice ALready Created"
      if (← get).request.customerWithdrawEntry = none then createWithdrawPaymentEntry st ac
      else throw "Payment Entry Already Created"

def confirmRequestPayment : Tx PUnit := modifyRequest fun r => { r with status := .done }

def cancelRequestPayment : Tx PUnit := modifyRequest fun r => { r with status := .canceled }

def resetRequestPayment : Tx PUnit := modifyRequest fun r => { r with status := .draft }

/-- `operation_confirm_payment()`; its notification writes on no record of the slice. -/
def operationConfirmPayment : Tx PUnit :=
  modifyRequest fun r => { r with operationStatus := .finished }

/-! ## Runs -/

inductive Event where
  | requestInvoiceCreation
  | requestPaymentEntriesCreation
  | confirmRequestPayment
  | cancelRequestPayment
  | resetRequestPayment
  | operationConfirmPayment
  | chooseJournal (journal : Option Journal)
  | payInvoice (amount : ℚ)

/-- A payment of the invoice from outside. -/
def payInvoice (amount : ℚ) (s : WithdrawSlice) : WithdrawSlice :=
  match s.request.invoice with
  | some i =>
      { s with moves := s.moves.modify i fun m => { m with reconciled := m.reconciled + amount } }
  | none => s

def perform : Event → Tx PUnit
  | .requestInvoiceCreation => requestInvoiceCreation st ac
  | .requestPaymentEntriesCreation => requestPaymentEntriesCreation st ac
  | .confirmRequestPayment => confirmRequestPayment
  | .cancelRequestPayment => cancelRequestPayment
  | .resetRequestPayment => resetRequestPayment
  | .operationConfirmPayment => operationConfirmPayment
  | .chooseJournal journal => modifyRequest fun r => { r with paymentJournal := journal }
  | .payInvoice amount => modify (payInvoice amount)

def step (s : WithdrawSlice) (e : Event) : WithdrawSlice :=
  (atomic (fun s _ => s) (perform st ac e) s).2

end Withdraw

end Fastrak
