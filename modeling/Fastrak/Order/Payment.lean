import Fastrak.Order.Operation

/-!
# Collecting money for an order

`register_payment` collects the shipping fees of the invoice, as a payment when
the order is paid by POS machine and as a custody entry on the driver when it is
paid in cash. `create_money_collection_entry` books the money collected for the
customer.
-/

namespace Fastrak

open Transaction

section Prepare

variable (st : Settings) (ac : Accounting) (s : OrderSlice) (o : Order)

/-- The driver of the trip with the given status. On several such trips
`target_trip.trip_status` raises, and on none the status is not the expected one. -/
def tripDriver (status : TripStatus) : Option Driver :=
  match o.tripsWith status with
  | [trip] => st.driver? trip.driverId
  | _ => none

/-- `_get_invoice_money_collection_driver()`: every exception is caught and
leaves the driver at `None`. -/
def getInvoiceMoneyCollectionDriver : Option Driver :=
  match o.paymentMethod with
  | .onPickup => tripDriver st o .picked
  | .onDelivery => tripDriver st o .delivered
  | .onCredit => none

/-- `_get_register_payment_lines()`. -/
def getRegisterPaymentLines : Except String (List EntryLine) := do
  match getInvoiceMoneyCollectionDriver st o with
  | none => throw "Something Wrong with the Drivers Assigned Kindly Check it"
  | some collectorDriver => do
      let pettyCashAccount ← single "account.account" st.custodyAccounts
      let amountTotal := ac.total (s.invoice? o)
      return [{ accountId := pettyCashAccount, partnerId := collectorDriver.addressHomeId,
                debit := amountTotal },
              { accountId := st.receivableAccount o.customer, partnerId := some o.customer,
                credit := amountTotal }]

/-- `_prepare_register_payment_entry()`. -/
def prepareRegisterPaymentEntry : Except String Move := do
  let journal := limitOne st.generalJournals
  raiseIf (journal = none) st.missingJournal
  let lines ← getRegisterPaymentLines st ac s o
  return { moveType := .entry, ref := o.orderId, journalId := journal, lineIds := lines }

/-- `_prepare_pos_payment_vals()`. -/
def preparePosPaymentVals : Payment where
  amount := ac.residual (s.invoice? o)
  ref := ((s.invoice? o).map (·.name)).getD "" ++ " (" ++ o.orderId ++ ")"
  partnerId := o.customer
  journalId := limitOne st.bankJournals
  reconciledInvoiceIds := o.invoiceId.toList

/-- A commission on `amount` of `percent`, at least 2.00. -/
def bankCommission (amount percent : ℚ) : ℚ :=
  let commission := st.arithmetic.mul amount (st.arithmetic.div percent 100)
  if commission < 2 then 2 else commission

/-- `_prepare_bank_commission_entry()`. -/
def prepareBankCommissionEntry : Except String Move := do
  let amount := bankCommission st o.shippingFees o.bankCommissionFees
  let journal := limitOne st.bankJournals
  raiseIf (journal = none ∨ st.defaultBankAccounts = [] ∨ st.bankCommissionAccounts = [])
    "Missing Bank info account for bank commission"
  let bankAccount ← single "account.account" st.defaultBankAccounts
  let bankCommissionAccount ← single "account.account" st.bankCommissionAccounts
  return { moveType := .entry, ref := o.orderId, journalId := journal,
           lineIds := [{ accountId := bankAccount, debit := amount },
                       { accountId := bankCommissionAccount, credit := amount }] }

/-- `_get_money_collection_entry_driver()`: an exception is raised again with
its text. -/
def getMoneyCollectionEntryDriver : Except String (Option Driver) :=
  let wrong := "Something Wrong with the Drivers Assigned Kindly Check it\n"
  match o.tripsWith .delivered with
  | [trip] => pure (st.driver? trip.driverId)
  | [] => throw (wrong ++ "Trip data are Mis-configured (Missing Delivery Driver)")
  | _ => throw (wrong ++ "Expected singleton: bill.of.loading.trips")

/-- `_get_money_collection_entry_lines()`. -/
def getMoneyCollectionEntryLines : Except String (List EntryLine) := do
  match ← getMoneyCollectionEntryDriver st o with
  | none => throw "Delivery Driver Not Assigned Yet"
  | some collectorDriver => do
      let lines ← match o.moneyCollectionPaymentMethod with
        | .cash => do
            let pettyCashAccount ← single "account.account" st.custodyAccounts
            pure [{ accountId := pettyCashAccount,
                    partnerId := collectorDriver.addressHomeId,
                    debit := o.moneyCollected : EntryLine }]
        | .pos => do
            let commission :=
              bankCommission st o.moneyCollected o.moneyCollectionBankCommissionFees
            let bankAccount ← single "account.account" st.defaultBankAccounts
            let bankCommissionAccount ← single "account.account" st.bankCommissionAccounts
            pure [{ accountId := bankAccount,
                    debit := st.arithmetic.add o.moneyCollected commission },
                  { accountId := bankCommissionAccount, credit := commission : EntryLine }]
      let moneyCollectionAccount ← single "account.account" st.moneyCollectionAccounts
      return lines.insertIdx 1
        { accountId := moneyCollectionAccount, partnerId := some o.customer,
          credit := o.moneyCollected }

/-- `_prepare_money_collection_entry()`. -/
def prepareMoneyCollectionEntry : Except String Move := do
  let journal := match o.moneyCollectionPaymentMethod with
    | .cash => limitOne st.cashJournals
    | .pos => limitOne st.bankJournals
  raiseIf (journal = none) st.missingJournal
  let lines ← getMoneyCollectionEntryLines st o
  return { moveType := .entry, ref := o.orderId, journalId := journal, lineIds := lines }

end Prepare

section Register

variable (st : Settings) (ac : Accounting)

/-- `toggle_order_payment_status()`. -/
def toggleOrderPaymentStatus : Tx Unit := do
  let o ← self
  if ac.isPaid ((← get).invoice? o) then
    modifyOrder (Order.setPaymentStatus .paid)
  else pure ()

/-- `account.payment.create(vals)`. -/
def createPayment (vals : Payment) : Tx ℕ := do
  refuse (ac.refusePayment vals)
  let id := (← get).payments.length
  modify (OrderSlice.mapPayments (· ++ [vals]))
  return id

def Payment.post (p : Payment) : Payment := { p with state := .posted }

/-- `CustomPayment.action_post()`, where the order searched for is the one whose
invoice comes first among the reconciled invoices. -/
def postPayment (id : ℕ) : Tx Unit := do
  match (← get).payments[id]? with
  | some payment => do
      refuse (ac.refusePostPayment payment)
      modify (OrderSlice.mapPayments (·.modify id Payment.post))
      let o ← self
      if payment.reconciledInvoiceIds.head? ≠ none ∧
          o.invoiceId = payment.reconciledInvoiceIds.head? then
        toggleOrderPaymentStatus ac
      else pure ()
  | none => pure ()

/-- The bank charge entry of `register_payment`. -/
def createBankCommissionEntry : Tx Unit := do
  let bankEntry ← createMove ac (← lift (prepareBankCommissionEntry st (← self)))
  modifyOrder (Order.setBankCommissionEntry bankEntry)
  actionPost ac (some bankEntry)

/-- The POS section of `register_payment`. -/
def registerPosPayment (apiAction : Bool) : Tx Unit := do
  let o ← self
  raiseIf (o.invoiceId = none) "No Invoice Found"
  raiseIf (ac.isPaid ((← get).invoice? o)) "Invoice already paid"
  raiseIf (o.invoicePaymentCollection ≠ none) "Payment already has been created"
  let payment ← createPayment ac (preparePosPaymentVals st ac (← get) o)
  modifyOrder (Order.setInvoicePaymentCollection payment)
  toggleOrderPaymentStatus ac
  if o.bankCommissionFees ≠ 0 then createBankCommissionEntry st ac else pure ()
  -- created through the API, the payment waits for the approval of an accountant
  if apiAction then pure () else postPayment ac payment

/-- The cash section of `register_payment`. -/
def registerCashPayment : Tx Unit := do
  let o ← self
  raiseIf (ac.isPaid ((← get).invoice? o)) "Invoice already paid"
  raiseIf (o.paymentCollectionEntry ≠ none) "Payment Entry already has been created"
  let entryData ← lift (prepareRegisterPaymentEntry st ac (← get) o)
  let entryResult ← createMove ac entryData
  modifyOrder (Order.setPaymentCollectionEntry entryResult)
  actionPost ac (some entryResult)

/-- `register_payment(api_action)`. -/
def registerPayment (apiAction : Bool) : Tx Unit := do
  let o ← self
  raiseIf (o.tripsIds = []) "No Trips Assigned Yet"
  if o.paymentMethod = .onCredit then
    throw "On Credit Payment Order Non eligible to register invoice payment"
  else if o.shippingFees ≠ 0 then
    if o.isPosPayment then registerPosPayment st ac apiAction else registerCashPayment st ac
  else pure ()

/-- `create_money_collection_entry(raise_exception)`. -/
def createMoneyCollectionEntry (raiseException : Bool) : Tx Unit := do
  let o ← self
  if o.moneyCollected = 0 then raiseIf (raiseException = true) "No money to collect"
  else do
    raiseIf (o.tripsIds = []) "No Trips Assigned Yet"
    raiseIf (o.moneyCollectionEntry ≠ none) "Entry Already Exists"
    let entryResult ← createMove ac (← lift (prepareMoneyCollectionEntry st o))
    modifyOrder (Order.setMoneyCollectionEntry entryResult)
    actionPost ac (some entryResult)

end Register

end Fastrak
