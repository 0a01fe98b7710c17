import Mathlib.Algebra.Ring.Rat

/-!
# The records of an order

The tables the bill of loading application reads and writes, as far as one order
is concerned: the order with its service lines and trips, the account moves and
payments made for it, and the jobs queued for it. A `Many2one` to a record that
the application creates is the record's position in its table; a `Many2one` to a
configured record (a product) is the record itself. Amounts are exact rationals.

A database holds these records for every `order_id`. The field is unique, every
endpoint looks its order up by it, and no operation touches the records of
another order, so the database is one `OrderSlice` for each `order_id`.
-/

namespace Fastrak

/-! ## Selections -/

/-- `payment_method`. -/
inductive PaymentMethod
  | onPickup
  | onDelivery
  | onCredit
  deriving DecidableEq, Repr

/-- `money_collection_payment_method`. -/
inductive CollectionMethod
  | cash
  | pos
  deriving DecidableEq, Repr

/-- `order_status`, the `STATUS_LIST` of the source. -/
inductive OrderStatus
  | draft
  | done
  | refund
  | canceled
  | audited
  deriving DecidableEq, Repr

/-- `order_delivery_status`; the empty value is `none`. -/
inductive DeliveryStatus
  | picked
  | delivered
  deriving DecidableEq, Repr

/-- The stored value of an `order_delivery_status`. -/
def DeliveryStatus.value : DeliveryStatus → String
  | .picked => "picked"
  | .delivered => "delivered"

/-- `order_payment_status`: `open` is shown as "Not Paid". -/
inductive OrderPaymentStatus
  | notPaid
  | paid
  deriving DecidableEq, Repr

/-- `trip_status`; the empty value is `none`. -/
inductive TripStatus
  | picked
  | interDelivery
  | delivered
  deriving DecidableEq, Repr

/-- `service_type`. -/
inductive ServiceType
  | shipping
  | vat
  | insurance
  deriving DecidableEq, Repr

/-- `move_type`, the values the application uses. -/
inductive MoveType
  | outInvoice
  | outRefund
  | entry
  deriving DecidableEq, Repr

/-- `state` of an account move or of a payment. -/
inductive MoveState
  | draft
  | posted
  deriving DecidableEq, Repr

/-- `payment_state` of an account move. -/
inductive PaymentState
  | notPaid
  | partiallyPaid
  | paid
  | reversed
  deriving DecidableEq, Repr

/-! ## Configured records -/

/-- A product, with the category fields that are read through it. -/
structure Product where
  id : ℕ
  name : String
  isMainServiceProduct : Bool := false
  isMainVatService : Bool := false
  isMainDiscountService : Bool := false
  categoryName : String := ""
  costCentersId : Option ℕ := none
  deriving DecidableEq, Repr

/-- An employee who can be assigned to a trip. -/
structure Driver where
  id : ℕ
  addressHomeId : Option ℕ
  deriving DecidableEq, Repr

/-! ## Records of an order -/

/-- `bill.of.loading.line`. In the values for `create` the amount is what the request gives. -/
structure ServiceLine (V : Type := ℚ) where
  product : Option Product
  amount : V
  description : String
  serviceType : ServiceType
  deriving DecidableEq, Repr

/-- `bill.of.loading.trips`. -/
structure Trip where
  driverId : ℕ
  tripStatus : Option TripStatus
  deriving DecidableEq, Repr

/-- `fastrak.bill.of.loading`. -/
structure Order where
  orderId : String
  customer : ℕ
  pickupAddress : String := ""
  deliveryAddress : String := ""
  weight : ℚ := 0
  paymentMethod : PaymentMethod := .onPickup
  moneyCollectionPaymentMethod : CollectionMethod := .cash
  moneyCollected : ℚ := 0
  insuranceFees : ℚ := 0
  shippingFees : ℚ := 0
  bankCommissionFees : ℚ := 2
  moneyCollectionBankCommissionFees : ℚ := 2
  vat : ℚ := 0
  discountAmount : ℚ := 0
  isPosPayment : Bool := false
  orderStatus : OrderStatus := .draft
  orderDeliveryStatus : Option DeliveryStatus := none
  orderPaymentStatus : Option OrderPaymentStatus := none
  serviceLineIds : List ServiceLine := []
  tripsIds : List Trip := []
  invoiceId : Option ℕ := none
  invoicePaymentCollection : Option ℕ := none
  paymentCollectionEntry : Option ℕ := none
  moneyCollectionEntry : Option ℕ := none
  paymentIsRegistered : Bool := false
  bankCommissionEntry : Option ℕ := none
  refundReasonComment : String := ""
  cancellationReason : Option ℕ := none
  deriving DecidableEq, Repr

namespace Order

/-! The writes on an order, each under the name of what it writes. -/

def setStatus (status : OrderStatus) (o : Order) : Order := { o with orderStatus := status }

def setDeliveryStatus (status : DeliveryStatus) (o : Order) : Order :=
  { o with orderDeliveryStatus := some status }

def setPaymentStatus (status : OrderPaymentStatus) (o : Order) : Order :=
  { o with orderPaymentStatus := some status }

def addTrips (trips : List Trip) (o : Order) : Order :=
  { o with tripsIds := o.tripsIds ++ trips }

def setServiceLines (lines : List ServiceLine) (o : Order) : Order :=
  { o with serviceLineIds := lines }

def setShippingFees (fees : ℚ) (o : Order) : Order := { o with shippingFees := fees }

def setDiscount (discount : ℚ) (o : Order) : Order := { o with discountAmount := discount }

def setInvoice (id : ℕ) (o : Order) : Order := { o with invoiceId := some id }

def setInvoicePaymentCollection (id : ℕ) (o : Order) : Order :=
  { o with invoicePaymentCollection := some id }

def setPaymentCollectionEntry (id : ℕ) (o : Order) : Order :=
  { o with paymentCollectionEntry := some id }

def setMoneyCollectionEntry (id : ℕ) (o : Order) : Order :=
  { o with moneyCollectionEntry := some id }

def setBankCommissionEntry (id : ℕ) (o : Order) : Order :=
  { o with bankCommissionEntry := some id }

def setCancellationReason (reason : Option ℕ) (o : Order) : Order :=
  { o with cancellationReason := reason }

def setRefundReason (comment : String) (o : Order) : Order :=
  { o with refundReasonComment := comment }

/-- The first write of `confirm_bill_loading`. -/
def confirmed (o : Order) : Order :=
  ((o.setStatus .done).setPaymentStatus .notPaid).setCancellationReason none

end Order

/-- A line of `invoice_line_ids`. -/
structure InvoiceLine where
  productId : Option ℕ
  name : String
  quantity : ℚ
  priceUnit : ℚ
  costCentersId : Option ℕ := none
  taxIds : List (Option ℕ) := []
  deriving DecidableEq, Repr

/-- A line of `line_ids` of a journal entry. -/
structure EntryLine where
  accountId : Option ℕ
  partnerId : Option ℕ := none
  debit : ℚ := 0
  credit : ℚ := 0
  deriving DecidableEq, Repr

/-- `account.move`. `reconciled` is the part of its amount that payments or a
credit note have settled, and `isReversed` says that a credit note settled it. -/
structure Move where
  moveType : MoveType
  ref : String
  name : String := ""
  state : MoveState := .draft
  partnerId : Option ℕ := none
  journalId : Option ℕ := none
  invoiceLineIds : List InvoiceLine := []
  lineIds : List EntryLine := []
  onCreditInvoice : Bool := false
  refundReasonComment : String := ""
  reversedEntryId : Option ℕ := none
  reconciled : ℚ := 0
  isReversed : Bool := false
  auditAndLock : Bool := false
  deriving DecidableEq, Repr

/-- `account.payment`. -/
structure Payment where
  amount : ℚ
  ref : String
  partnerId : ℕ
  journalId : Option ℕ
  reconciledInvoiceIds : List ℕ
  state : MoveState := .draft
  deriving DecidableEq, Repr

/-! ## Queued jobs -/

/-- The `update_dict` of the update endpoint: the fields it holds. `unread` is the exception
that the fields raise on a value they cannot store. -/
structure UpdateDict (V : Type := ℚ) where
  pickupAddress : Option String := none
  deliveryAddress : Option String := none
  paymentMethod : Option PaymentMethod := none
  isPosPayment : Option Bool := none
  weight : Option V := none
  moneyCollected : Option V := none
  moneyCollectionPaymentMethod : Option CollectionMethod := none
  shippingFees : Option V := none
  discountAmount : Option V := none
  unread : Option String := none
  deriving DecidableEq, Repr

/-- A method call queued by `with_delay`, with its arguments. -/
inductive Job
  | confirmBillLoading
  | write (updateDict : UpdateDict)
  | writeTrips (tripsIds : List Trip)
  | registerPayment (apiAction : Bool)
  | createMoneyCollectionEntry (raiseException : Bool)
  deriving DecidableEq, Repr

/-! ## The database -/

/-- The stored records of one `order_id`, and the history variable
`computedFor`, which no operation reads: the order, as it stood, each time
invoice lines were computed from it. -/
structure OrderSlice where
  order : Option Order := none
  moves : List Move := []
  payments : List Payment := []
  jobs : List Job := []
  computedFor : List Order := []
  deriving DecidableEq, Repr

/-- The records of every `order_id`. -/
abbrev Database := String → OrderSlice

namespace OrderSlice

/-- The account move a `Many2one` points to. -/
def move? (s : OrderSlice) (id : Option ℕ) : Option Move :=
  id.bind fun i => s.moves[i]?

/-- The invoice of the order. -/
def invoice? (s : OrderSlice) (o : Order) : Option Move :=
  s.move? o.invoiceId

/-- The records are the same; the history is not a record. -/
def SameRecords (s t : OrderSlice) : Prop :=
  t.order = s.order ∧ t.moves = s.moves ∧ t.payments = s.payments ∧ t.jobs = s.jobs

instance (s t : OrderSlice) : Decidable (s.SameRecords t) :=
  inferInstanceAs (Decidable (_ ∧ _ ∧ _ ∧ _))

/-- What a rolled back transaction leaves: the records as they were before it,
and the history of computations. -/
def rollback (s t : OrderSlice) : OrderSlice :=
  { s with computedFor := t.computedFor }

/-! The elementary writes. -/

def mapOrder (f : Order → Order) (s : OrderSlice) : OrderSlice :=
  { s with order := s.order.map f }

def mapMoves (f : List Move → List Move) (s : OrderSlice) : OrderSlice :=
  { s with moves := f s.moves }

def mapPayments (f : List Payment → List Payment) (s : OrderSlice) : OrderSlice :=
  { s with payments := f s.payments }

def addJob (job : Job) (s : OrderSlice) : OrderSlice :=
  { s with jobs := s.jobs ++ [job] }

def recordComputation (o : Order) (s : OrderSlice) : OrderSlice :=
  { s with computedFor := s.computedFor ++ [o] }

variable (s : OrderSlice)

@[simp] theorem mapOrder_order (f : Order → Order) :
    (s.mapOrder f).order = s.order.map f := rfl

@[simp] theorem mapOrder_moves (f : Order → Order) : (s.mapOrder f).moves = s.moves := rfl

@[simp] theorem mapOrder_payments (f : Order → Order) :
    (s.mapOrder f).payments = s.payments := rfl

@[simp] theorem mapOrder_jobs (f : Order → Order) : (s.mapOrder f).jobs = s.jobs := rfl

@[simp] theorem mapOrder_computedFor (f : Order → Order) :
    (s.mapOrder f).computedFor = s.computedFor := rfl

theorem mapOrder_eq_of_order {s : OrderSlice} {o : Order} (h : s.order = some o)
    (f : Order → Order) : s.mapOrder f = { s with order := some (f o) } := by
  rw [mapOrder, h]
  rfl

theorem mapOrder_eq_self {s : OrderSlice} {o : Order} {f : Order → Order}
    (h : s.order = some o) (hf : f o = o) : s.mapOrder f = s := by
  rw [mapOrder_eq_of_order h, hf, ← h]

@[simp] theorem mapMoves_order (f : List Move → List Move) :
    (s.mapMoves f).order = s.order := rfl

@[simp] theorem mapMoves_moves (f : List Move → List Move) :
    (s.mapMoves f).moves = f s.moves := rfl

@[simp] theorem mapMoves_payments (f : List Move → List Move) :
    (s.mapMoves f).payments = s.payments := rfl

@[simp] theorem mapMoves_jobs (f : List Move → List Move) : (s.mapMoves f).jobs = s.jobs := rfl

@[simp] theorem mapMoves_computedFor (f : List Move → List Move) :
    (s.mapMoves f).computedFor = s.computedFor := rfl

@[simp] theorem mapPayments_order (f : List Payment → List Payment) :
    (s.mapPayments f).order = s.order := rfl

@[simp] theorem mapPayments_moves (f : List Payment → List Payment) :
    (s.mapPayments f).moves = s.moves := rfl

@[simp] theorem mapPayments_payments (f : List Payment → List Payment) :
    (s.mapPayments f).payments = f s.payments := rfl

@[simp] theorem mapPayments_jobs (f : List Payment → List Payment) :
    (s.mapPayments f).jobs = s.jobs := rfl

@[simp] theorem mapPayments_computedFor (f : List Payment → List Payment) :
    (s.mapPayments f).computedFor = s.computedFor := rfl

@[simp] theorem addJob_order (job : Job) : (s.addJob job).order = s.order := rfl

@[simp] theorem addJob_moves (job : Job) : (s.addJob job).moves = s.moves := rfl

@[simp] theorem addJob_payments (job : Job) : (s.addJob job).payments = s.payments := rfl

@[simp] theorem addJob_jobs (job : Job) : (s.addJob job).jobs = s.jobs ++ [job] := rfl

@[simp] theorem addJob_computedFor (job : Job) :
    (s.addJob job).computedFor = s.computedFor := rfl

@[simp] theorem recordComputation_order (o : Order) :
    (s.recordComputation o).order = s.order := rfl

@[simp] theorem recordComputation_moves (o : Order) :
    (s.recordComputation o).moves = s.moves := rfl

@[simp] theorem recordComputation_payments (o : Order) :
    (s.recordComputation o).payments = s.payments := rfl

@[simp] theorem recordComputation_jobs (o : Order) :
    (s.recordComputation o).jobs = s.jobs := rfl

@[simp] theorem recordComputation_computedFor (o : Order) :
    (s.recordComputation o).computedFor = s.computedFor ++ [o] := rfl

end OrderSlice

end Fastrak
