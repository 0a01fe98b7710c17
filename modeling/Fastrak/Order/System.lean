import Fastrak.Order.Controller
import Fastrak.Library.Run
import Mathlib.Data.List.Basic

/-!
# The bill of loading system

What can happen to an order: a request of the API, the run of a queued job, a
button or an edit of the form, and what accounting does with its invoice. Each of
these is one transaction. A request commits also when its controller has caught an
exception; a job or a form action that raises is rolled back, and the job is
dropped. Jobs are run in any order, whatever their channels.

`step` is the system of one order and `dbStep` the system of the database.
-/

namespace Fastrak

open Transaction Run

/-! ## Requests -/

/-- A request to one of the endpoints, less its `order_id`. An argument `none`
stands for a required field that is missing. The amounts of a create request are of the first
type and those of an update request of the second. -/
inductive Request (V : Type := ℚ) (W : Type := ℚ)
  | create (kw : Option (CreateKwargs V))
  | update (kw : UpdateKwargs W)
  | pickup (driverId : Option ℕ)
  | delivery (driverId : Option ℕ)
  | moneyCollection (collectionType : Option (Option CollectionType))
  deriving DecidableEq, Repr

/-- A request as it is received. The arguments of a create request may be `null`. -/
abbrev JsonRequest := Request (Option Value) Value

/-- `required_fields` of the endpoint. -/
def Request.requiredFields {V W : Type} : Request V W → List String
  | .create _ =>
      ["user_id", "order_id", "weight", "number_of_pieces", "has_fragile", "delivery_type",
       "delivery_time", "is_pos_payment", "payment_method", "insurance_fees", "shipping_fees",
       "vat", "discount_amount", "money_collected", "pickup_address", "delivery_address",
       "description"]
  | .update _ => ["order_id"]
  | .pickup _ => ["order_id", "driver_id"]
  | .delivery _ => ["order_id", "driver_id"]
  | .moneyCollection _ => ["order_id", "collection_type"]

section

variable {V W : Type} [Amount V] [Amount W] (st : Settings) (ac : Accounting)

/-- A request with a non-missing `order_id`, on the records of that order. -/
def handle (orderId : String) (r : Request V W) (s : OrderSlice) : Response × OrderSlice :=
  match r with
  | .create (some kw) => respond (actionCreateBillOfLoading st orderId kw) s
  | .update kw =>
      if orderId = "" then ({}, s) else respond (updateBillOfLoading st ac kw) s
  | .pickup (some driverId) =>
      if orderId = "" ∨ driverId = 0 then
        ({ code := some 500, message := some "Missing Data" }, s)
      else respond (confirmOrderPickup st driverId) s
  | .delivery (some driverId) => respond (confirmOrderDelivery st driverId) s
  | .moneyCollection (some collectionType) =>
      respond (confirmOrderMoneyCollection st collectionType) s
  | r => (missingFields r.requiredFields, s)

/-- A request to the database. -/
def serve (orderId : Option String) (r : Request V W) (db : Database) : Response × Database :=
  match orderId with
  | none => (missingFields r.requiredFields, db)
  | some id =>
      let (response, s) := handle st ac id r (db id)
      (response, Function.update db id s)

/-! ## Calls -/

def Move.reconcile (amount : ℚ) (m : Move) : Move :=
  { m with reconciled := m.reconciled + amount }

/-- Accounting settles `amount` of a posted invoice, at most what is left of it. -/
def payInvoice (amount : ℚ) : Tx Unit := do
  let o ← self
  match o.invoiceId, (← get).invoice? o with
  | some id, some m => do
      raiseIf (m.state ≠ .posted ∨ amount ≤ 0 ∨ ac.residual (some m) < amount)
        "Nothing to reconcile"
      modify (OrderSlice.mapMoves (·.modify id (Move.reconcile amount)))
  | _, _ => throw "Nothing to reconcile"

def Move.lock (m : Move) : Move := { m with auditAndLock := true }

/-- `audit_and_lock_move()`. -/
def auditAndLockMove : Tx Unit := do
  match (← self).invoiceId with
  | some id => moveWrite id Move.lock
  | none => throw "Expected singleton: account.move"

/-- What is called on an order by a job, by the form or by accounting. -/
inductive Call
  | confirmBillLoading
  | write (updateDict : UpdateDict)
  | createTrips (tripsIds : List Trip)
  | registerPayment (apiAction : Bool)
  | createMoneyCollectionEntry (raiseException : Bool)
  | refundBillLoading
  | cancelBillLoading
  | resetToDraft
  | auditedBillOfLoading
  | setCancellationReason (reason : Option ℕ)
  | setRefundReason (comment : String)
  | payInvoice (amount : ℚ)
  | auditAndLockMove
  deriving DecidableEq, Repr

/-- The operation a call runs. -/
def Call.body : Call → Tx Unit
  | .confirmBillLoading => Fastrak.confirmBillLoading st ac
  | .write updateDict => writeUpdateDict updateDict
  | .createTrips tripsIds => Fastrak.createTrips tripsIds
  | .registerPayment apiAction => Fastrak.registerPayment st ac apiAction
  | .createMoneyCollectionEntry raiseException =>
      Fastrak.createMoneyCollectionEntry st ac raiseException
  | .refundBillLoading => Fastrak.refundBillLoading ac
  | .cancelBillLoading => Fastrak.cancelBillLoading
  | .resetToDraft => Fastrak.resetToDraft
  | .auditedBillOfLoading => Fastrak.auditedBillOfLoading
  | .setCancellationReason reason => modifyOrder (Order.setCancellationReason reason)
  | .setRefundReason comment => modifyOrder (Order.setRefundReason comment)
  | .payInvoice amount => Fastrak.payInvoice ac amount
  | .auditAndLockMove => Fastrak.auditAndLockMove

/-- The call a job makes. -/
def Job.call : Job → Call
  | .confirmBillLoading => .confirmBillLoading
  | .write updateDict => .write updateDict
  | .writeTrips tripsIds => .createTrips tripsIds
  | .registerPayment apiAction => .registerPayment apiAction
  | .createMoneyCollectionEntry raiseException => .createMoneyCollectionEntry raiseException

/-- The buttons of the header of the form. -/
inductive Button
  | confirmBillLoading
  | refundBillLoading
  | cancelBillLoading
  | createMoneyCollectionEntry
  | registerPayment
  | resetToDraft
  | auditedBillOfLoading
  deriving DecidableEq, Repr

/-- The method a button calls. -/
def Button.call : Button → Call
  | .confirmBillLoading => .confirmBillLoading
  | .refundBillLoading => .refundBillLoading
  | .cancelBillLoading => .cancelBillLoading
  | .createMoneyCollectionEntry => .createMoneyCollectionEntry true
  | .registerPayment => .registerPayment false
  | .resetToDraft => .resetToDraft
  | .auditedBillOfLoading => .auditedBillOfLoading

/-- The buttons the form view shows: the negation of their `invisible`. -/
def Button.shown (o : Order) : Button → Bool
  | .confirmBillLoading => o.orderStatus ∉ [.done, .refund, .canceled, .audited]
  | .refundBillLoading => o.orderStatus ∉ [.draft, .refund, .canceled, .audited]
  | .cancelBillLoading => o.orderStatus ∉ [.done, .refund, .canceled, .audited]
  | .createMoneyCollectionEntry => ¬ (o.moneyCollected = 0 ∨ o.moneyCollectionEntry ≠ none)
  | .registerPayment =>
      ¬ (o.orderStatus ≠ .done ∨ o.paymentMethod = .onCredit ∨
        o.paymentCollectionEntry ≠ none ∨ o.invoicePaymentCollection ≠ none)
  | .resetToDraft =>
      ¬ (o.moneyCollectionEntry ≠ none ∨ o.paymentCollectionEntry ≠ none ∨
        o.invoicePaymentCollection ≠ none ∨
        o.orderStatus ∈ [.audited, .draft, .refund, .canceled])
  | .auditedBillOfLoading => o.orderStatus ∈ [.done]

/-- What can happen to an order. -/
inductive Event
  | request (r : Request)
  /-- The `i`-th queued job is run. -/
  | job (i : ℕ)
  | button (b : Button)
  /-- New rows of `trips_ids` are saved in the form. -/
  | addTrips (tripsIds : List Trip)
  | editCancellationReason (reason : Option ℕ)
  | editRefundReason (comment : String)
  /-- Accounting reconciles an amount with the invoice of the order. -/
  | payInvoice (amount : ℚ)
  /-- `audit_and_lock_move()` on the invoice of the order. -/
  | auditAndLockMove
  deriving DecidableEq, Repr

/-- What came of an event. -/
inductive Outcome
  | response (r : Response)
  | done
  | raised (message : String)
  /-- There was no such job. -/
  | ignored
  deriving DecidableEq, Repr

/-- The event did what it was asked to do. -/
def Outcome.isSuccess : Outcome → Bool
  | .response r => r.accepted
  | .done => true
  | _ => false

/-- A call in a transaction of its own, which is rolled back when it raises. -/
def transact (x : Tx Unit) (s : OrderSlice) : Outcome × OrderSlice :=
  match atomic OrderSlice.rollback x s with
  | (.ok (), t) => (.done, t)
  | (.error e, t) => (.raised e, t)

/-- The queue without the `i`-th job. -/
def OrderSlice.dropJob (i : ℕ) (s : OrderSlice) : OrderSlice :=
  { s with jobs := s.jobs.eraseIdx i }

section DropJob

variable (i : ℕ) (s : OrderSlice)

@[simp] theorem OrderSlice.dropJob_order : (s.dropJob i).order = s.order := rfl

@[simp] theorem OrderSlice.dropJob_moves : (s.dropJob i).moves = s.moves := rfl

@[simp] theorem OrderSlice.dropJob_payments : (s.dropJob i).payments = s.payments := rfl

@[simp] theorem OrderSlice.dropJob_jobs : (s.dropJob i).jobs = s.jobs.eraseIdx i := rfl

@[simp] theorem OrderSlice.dropJob_computedFor :
    (s.dropJob i).computedFor = s.computedFor := rfl

end DropJob

/-- The call an event makes, and the records it is made on: a job has left the
queue when it is run. -/
def Event.call? (s : OrderSlice) : Event → Option (Call × OrderSlice)
  | .request _ => none
  | .job i => s.jobs[i]?.map fun job => (job.call, s.dropJob i)
  | .button b => some (b.call, s)
  | .addTrips tripsIds => some (.createTrips tripsIds, s)
  | .editCancellationReason reason => some (.setCancellationReason reason, s)
  | .editRefundReason comment => some (.setRefundReason comment, s)
  | .payInvoice amount => some (.payInvoice amount, s)
  | .auditAndLockMove => some (.auditAndLockMove, s)

/-- The event, its outcome and the records after it. -/
def perform (orderId : String) (e : Event) (s : OrderSlice) : Outcome × OrderSlice :=
  match e with
  | .request r =>
      let (response, t) := handle st ac orderId r s
      (.response response, t)
  | e =>
      match e.call? s with
      | some (call, base) => transact (call.body st ac) base
      | none => (.ignored, s)

/-- The system of one order. -/
def step (orderId : String) (s : OrderSlice) (e : Event) : OrderSlice :=
  (perform st ac orderId e s).2

/-- The system of the database: an event names the order it happens to. -/
def dbStep : Database → String × Event → Database := family (step st ac)

end

/-! ## Where runs start -/

/-- An order as it is stored before anything has happened to it. -/
structure Order.IsNew (o : Order) : Prop where
  orderStatus : o.orderStatus = .draft
  orderDeliveryStatus : o.orderDeliveryStatus = none
  tripsIds : o.tripsIds = []
  invoiceId : o.invoiceId = none
  invoicePaymentCollection : o.invoicePaymentCollection = none
  paymentCollectionEntry : o.paymentCollectionEntry = none
  moneyCollectionEntry : o.moneyCollectionEntry = none
  bankCommissionEntry : o.bankCommissionEntry = none

/-- The records of an `order_id` that is free or whose order is new. -/
structure OrderSlice.IsNew (s : OrderSlice) : Prop where
  order : ∀ o, s.order = some o → o.IsNew
  moves : s.moves = []
  payments : s.payments = []
  jobs : s.jobs = []
  computedFor : s.computedFor = []

/-- The database without any order. -/
def Database.empty : Database := fun _ => {}

/-- A create request of a customer who pays 100 for the shipping. -/
def sampleCreate (paymentMethod : PaymentMethod) : Event :=
  .request (.create (some { userId := 5, paymentMethod, shippingFees := 100 }))

theorem Database.empty_isNew (id : String) : (Database.empty id).IsNew := by
  constructor <;> simp [Database.empty]

end Fastrak
