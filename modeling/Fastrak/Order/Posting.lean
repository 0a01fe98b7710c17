import Fastrak.Order.Step

/-!
# Posting payments

A payment, or a batch of payments, settles a list of invoices, which may belong to
several orders. Accounting posts the payments, and `action_post` then looks for the
order of the first of these invoices.

`History` is the database with a history variable: the orders that a posted batch has
found paid. A confirmation of an order whose invoice is not paid any more takes the
order off the list.
-/

namespace Fastrak

namespace Posting

open Transaction Run

/-- A reconciled invoice, by the order it belongs to if there is one, and the amount that
the payment settles of it. -/
structure ReconciledInvoice where
  orderId : Option String
  amount : ℚ

structure BatchPayment where
  reconciledInvoiceIds : List ReconciledInvoice

/-- `self.reconciled_invoice_ids` -/
def reconciledInvoiceIds (self : List BatchPayment) : List ReconciledInvoice :=
  self.flatMap (·.reconciledInvoiceIds)

abbrev DbTx := EStateM String Database

/-- An operation on the records of one order. -/
def onOrder {α : Type} (orderId : String) (x : Tx α) : DbTx α := fun db =>
  match x.run (db orderId) with
  | .ok a s => .ok a (Function.update db orderId s)
  | .error e s => .error e (Function.update db orderId s)

section

variable (st : Settings) (ac : Accounting)

/-- Accounting settles `amount` of the posted invoice, nothing if it is settled already. -/
def reconcileInvoice (amount : ℚ) : Tx Unit := do
  let o ← self
  match o.invoiceId, (← get).invoice? o with
  | some id, some m => do
      raiseIf (m.state ≠ .posted ∨ amount < 0 ∨ ac.residual (some m) < amount)
        "Nothing to reconcile"
      modify (OrderSlice.mapMoves (·.modify id (Move.reconcile amount)))
  | _, _ => throw "Nothing to reconcile"

/-- An invoice of another document is not among the records of the orders. -/
def reconcile (invoice : ReconciledInvoice) : DbTx Unit :=
  match invoice.orderId with
  | some orderId => onOrder orderId (reconcileInvoice ac invoice.amount)
  | none => pure ()

/-- What accounting does in `action_post()`. -/
def settle : List ReconciledInvoice → DbTx Unit
  | [] => pure ()
  | invoice :: invoices => do
      reconcile ac invoice
      settle invoices

/-- `_check_bol_invoice_payment()` -/
def checkBolInvoicePayment (invoiceIds : List ReconciledInvoice) : DbTx Unit :=
  match invoiceIds.head?.bind (·.orderId) with
  | some orderId => onOrder orderId (toggleOrderPaymentStatus ac)
  | none => pure ()

/-- `action_post()` -/
def actionPost (self : List BatchPayment) : DbTx Unit := do
  settle ac (reconciledInvoiceIds self)
  checkBolInvoicePayment ac (reconciledInvoiceIds self)

/-! ## Runs -/

inductive Event
  | order (orderId : String) (e : Fastrak.Event)
  | actionPost (self : List BatchPayment)

/-- `order_payment_status == 'paid'` -/
def isMarked (s : OrderSlice) : Bool := s.order.any (·.orderPaymentStatus = some .paid)

/-- The invoice of the order has `payment_state == 'paid'`. -/
def isPaid (s : OrderSlice) : Bool := s.order.any fun o => ac.isPaid (s.invoice? o)

/-- The event calls `confirm_bill_loading`. -/
def confirms (s : OrderSlice) (e : Fastrak.Event) : Bool :=
  (e.call? s).any (·.1 = .confirmBillLoading)

structure History where
  db : Database
  settled : List String := []

def step (h : History) : Event → History
  | .order orderId e =>
      { db := dbStep st ac h.db (orderId, e)
        settled :=
          if confirms (h.db orderId) e = true ∧ isPaid ac (h.db orderId) = false ∧
              (perform st ac orderId e (h.db orderId)).1.isSuccess = true then
            h.settled.filter (· ≠ orderId)
          else h.settled }
  | .actionPost self =>
      match (actionPost ac self).run h.db with
      | .ok () db =>
          { db
            settled := h.settled ++
              ((reconciledInvoiceIds self).filterMap (·.orderId)).filter fun id =>
                isPaid ac (db id) }
      -- rolled back
      | .error _ _ => h

end

end Posting

end Fastrak
