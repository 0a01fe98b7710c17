import Fastrak.Order.Payment

/-!
# The bill of loading endpoints

Each endpoint is given as the body of its `try`, a `Tx` on the records of the
order it is addressed to. `respond` is the `except Exception` around it: the
exception becomes a response with code 500, and what was written before it stays
written, since the controller returns normally and the request is committed.

The update endpoint first goes through sections that only check the request and
fill `update_dict`; the sections on shipping fees and discount also write.

The amounts of a request are values of any kind, and most of them are only read when a field
stores them.
-/

namespace Fastrak

open Transaction

/-- The `response` dictionary. -/
structure Response where
  code : Option ℕ := none
  message : Option String := none
  data : Option String := none
  deriving DecidableEq, Repr

/-- The response is a success: its code is 200 or 201. -/
def Response.accepted (r : Response) : Bool := r.code = some 200 ∨ r.code = some 201

/-- `except Exception as e` around the body of an endpoint. -/
def respond (x : Tx Response) (s : OrderSlice) : Response × OrderSlice :=
  match committed x s with
  | (.ok r, t) => (r, t)
  | (.error e, t) => ({ code := some 500, message := some ("Error: " ++ e) }, t)

theorem respond_of_ok {x : Tx Response} {s t : OrderSlice} {r : Response}
    (h : x.run s = .ok r t) : respond x s = (r, t) := by
  rw [respond, committed, h]

/-- An exception is answered by a refusal, and what was written stays. -/
theorem respond_of_error {x : Tx Response} {s t : OrderSlice} {e : String}
    (h : x.run s = .error e t) :
    (respond x s).1.accepted = false ∧ (respond x s).2 = t := by
  rw [respond, committed, h]
  exact ⟨rfl, rfl⟩

/-- The response to a request that lacks a required field. -/
def missingFields (requiredFields : List String) : Response :=
  { code := some 400,
    message := some ("incorrect fields the correct fields are (" ++
      ",".intercalate requiredFields ++ ")") }

/-- The order of the request, looked up by its `order_id`. -/
def searchOrder (message : String) : Tx Order := do
  match (← get).order with
  | some o => pure o
  | none => throw message

/-! ## Create -/

/-- The arguments of a create request that are stored and read later. -/
structure CreateKwargs (V : Type := ℚ) where
  userId : ℕ
  weight : V := by exact 0
  isPosPayment : Bool := false
  paymentMethod : PaymentMethod
  insuranceFees : V := by exact 0
  shippingFees : V
  vat : V := by exact 0
  discountAmount : V := by exact 0
  moneyCollected : V := by exact 0
  pickupAddress : String := ""
  deliveryAddress : String := ""
  moneyCollectionPaymentMethod : CollectionMethod := .cash
  deriving DecidableEq, Repr

section Create

variable {V : Type} [Amount V] (st : Settings)

/-- `_sanitize_address(address)`. -/
def sanitizeAddress (address : String) : String :=
  address.map fun c => if c = Char.ofNat 0 then ' ' else c

/-- A line of `bol_lines`; an amount that counts as false makes no line. -/
def bolLine (condition : V) (amount : Except String V) (serviceType : ServiceType)
    (description : String) : Except String (List (ServiceLine V)) :=
  if Amount.truthy condition then do
    let product ← single "product.product" st.mainServiceProducts
    return [{ product, amount := ← amount, serviceType, description }]
  else pure []

theorem bolLine_eq_ok {st : Settings} {condition amount : ℚ} {serviceType : ServiceType}
    {description : String} {lines : List ServiceLine}
    (h : bolLine st condition (pure amount) serviceType description = .ok lines) :
    condition = 0 ∧ lines = [] ∨ condition ≠ 0 ∧
      ∃ product, single "product.product" st.mainServiceProducts = .ok product ∧
        lines = [{ product, amount, serviceType, description }] := by
  unfold bolLine at h
  simp only [Amount.truthy_rat, decide_eq_true_eq] at h
  split at h
  case isTrue hc =>
    obtain ⟨product, hp, h⟩ := except_bind_ok_iff.mp h
    exact .inr ⟨hc, product, hp, (except_pure_eq_ok_iff.mp h).symm⟩
  case isFalse hc => exact .inl ⟨not_not.mp hc, (except_pure_eq_ok_iff.mp h).symm⟩

/-- The service lines of a new order. -/
def bolLines (kw : CreateKwargs V) : Except String (List (ServiceLine V)) := do
  let shipping ← bolLine st kw.shippingFees (Amount.add st kw.shippingFees kw.discountAmount)
    .shipping "Shipping Fees"
  let insurance ← bolLine st kw.insuranceFees (pure kw.insuranceFees) .insurance
    "Insurance Fees"
  return shipping ++ insurance

/-- The line that `create` stores for the values of a line. -/
def ServiceLine.store (line : ServiceLine V) : Except String ServiceLine := do
  return { product := line.product, amount := ← Amount.store st line.amount,
           description := line.description, serviceType := line.serviceType }

/-- The arguments as the fields of the order store them. -/
def CreateKwargs.store (kw : CreateKwargs V) : Except String CreateKwargs := do
  return { userId := kw.userId
           weight := ← Amount.store st kw.weight
           isPosPayment := kw.isPosPayment
           paymentMethod := kw.paymentMethod
           insuranceFees := ← Amount.store st kw.insuranceFees
           shippingFees := ← Amount.store st kw.shippingFees
           vat := ← Amount.store st kw.vat
           discountAmount := ← Amount.store st kw.discountAmount
           moneyCollected := ← Amount.store st kw.moneyCollected
           pickupAddress := kw.pickupAddress
           deliveryAddress := kw.deliveryAddress
           moneyCollectionPaymentMethod := kw.moneyCollectionPaymentMethod }

/-! Numbers are stored as they are. -/

@[simp] theorem CreateKwargs.store_rat (kw : CreateKwargs) : kw.store st = .ok kw := rfl

theorem mapM_store_rat (lines : List ServiceLine) :
    lines.mapM (ServiceLine.store st) = .ok lines := by
  induction lines with
  | nil => rfl
  | cons line lines ih => simp [List.mapM_cons, ih, ServiceLine.store, bind, Except.bind, pure,
      Except.pure]

/-- The order that the create request makes. -/
def newOrder (orderId : String) (kw : CreateKwargs) (lines : List ServiceLine) : Order where
  orderId
  customer := kw.userId
  pickupAddress := sanitizeAddress kw.pickupAddress
  deliveryAddress := sanitizeAddress kw.deliveryAddress
  weight := kw.weight
  paymentMethod := kw.paymentMethod
  moneyCollectionPaymentMethod := kw.moneyCollectionPaymentMethod
  moneyCollected := kw.moneyCollected
  insuranceFees := kw.insuranceFees
  shippingFees := kw.shippingFees
  vat := kw.vat
  discountAmount := kw.discountAmount
  isPosPayment := kw.isPosPayment
  serviceLineIds := lines

/-- The row of a new order. -/
def OrderSlice.insertOrder (o : Order) (s : OrderSlice) : OrderSlice :=
  { s with order := some o }

/-- The exception of the database on a second order with the same `order_id`. -/
def duplicateOrderId (orderId : String) : String :=
  "duplicate key value violates unique constraint " ++
    "\"fastrak_bill_of_loading_bol_unique_order_id\"\nDETAIL:  Key (order_id)=(" ++ orderId ++
    ") already exists.\n"

/-- `action_create_bill_of_loading`. The lines are created once the row of the order has been
inserted. -/
def actionCreateBillOfLoading (orderId : String) (kw : CreateKwargs V) : Tx Response := do
  raiseIf (st.mainServiceProducts = []) "Service Product Not Found"
  let bolLines ← lift (bolLines st kw)
  let values ← lift (kw.store st)
  raiseIf ((← get).order ≠ none) (duplicateOrderId orderId)
  modify (OrderSlice.insertOrder (newOrder orderId values []))
  let lines ← lift (bolLines.mapM (ServiceLine.store st))
  modifyOrder (Order.setServiceLines lines)
  return { code := some 201, message := some "Success", data := some orderId }

end Create

/-! ## Update -/

/-- The arguments of an update request; `none` is an argument that is absent or `null`. -/
structure UpdateKwargs (V : Type := ℚ) where
  pickupAddress : Option String := none
  deliveryAddress : Option String := none
  paymentMethod : Option PaymentMethod := none
  isPosPayment : Option Bool := none
  weight : Option V := none
  shippingFees : Option V := none
  discountAmount : Option V := none
  moneyCollected : Option V := none
  moneyCollectionPaymentMethod : Option CollectionMethod := none
  deriving DecidableEq, Repr

namespace UpdateKwargs

variable {V : Type} [Amount V]

/-! The arguments that are tested for truth: an empty text and a zero count as
absent. -/

def pickupAddress? (kw : UpdateKwargs V) : Option String := kw.pickupAddress.filter (· ≠ "")

def deliveryAddress? (kw : UpdateKwargs V) : Option String := kw.deliveryAddress.filter (· ≠ "")

def weight? (kw : UpdateKwargs V) : Option V := kw.weight.filter Amount.truthy

end UpdateKwargs

section Update

variable {V : Type} [Amount V] (st : Settings) (ac : Accounting)

/-- The address section. -/
def addressSection (kw : UpdateKwargs V) (d : UpdateDict V) : UpdateDict V :=
  { d with pickupAddress := kw.pickupAddress?, deliveryAddress := kw.deliveryAddress? }

/-- The payment method section. -/
def paymentMethodSection (kw : UpdateKwargs V) (o : Order) (d : UpdateDict V) :
    Except String (UpdateDict V) :=
  match kw.paymentMethod with
  | none => pure d
  | some paymentMethod => do
      raiseIf (o.orderStatus = .done)
        "Order has been already confirmed can't perform update action for PAYMENT METHOD"
      return { d with paymentMethod := some paymentMethod }

/-- `bol_obj.payment_method == m or payment_method == m`. -/
def UpdateKwargs.meets (kw : UpdateKwargs V) (o : Order) (m : PaymentMethod) : Prop :=
  o.paymentMethod = m ∨ kw.paymentMethod = some m

instance (kw : UpdateKwargs V) (o : Order) (m : PaymentMethod) : Decidable (kw.meets o m) :=
  inferInstanceAs (Decidable (_ ∨ _))

/-- The POS/CASH section. -/
def posSection (kw : UpdateKwargs V) (o : Order) (d : UpdateDict V) :
    Except String (UpdateDict V) :=
  match kw.isPosPayment with
  | none => pure d
  | some isPosPayment => do
      if o.orderStatus = .done then
        if kw.meets o .onPickup then
          raiseIf (o.orderDeliveryStatus ≠ none)
            ("Order has been already confirmed and " ++
              (o.orderDeliveryStatus.map DeliveryStatus.value).getD "" ++
              " can't update POS PAYMENT METHOD")
        else if kw.meets o .onDelivery then
          raiseIf (o.orderDeliveryStatus = some .delivered)
            "Order has been already delivered can't update POS PAYMENT METHOD"
        else pure ()
      else pure ()
      return { d with isPosPayment := some isPosPayment }

/-- The weight section. -/
def weightSection (kw : UpdateKwargs V) (o : Order) (invoice : Option Move) (d : UpdateDict V) :
    Except String (UpdateDict V) :=
  match kw.weight? with
  | none => pure d
  | some weight => do
      if o.orderStatus = .done then
        if kw.meets o .onPickup then
          throw "Order has been already confirmed and picked-up can't update Weight"
        else if kw.meets o .onDelivery then
          raiseIf (o.orderDeliveryStatus = some .delivered)
            "Order has been already confirmed and  delivered can't update Weight"
        else if kw.meets o .onCredit then do
          raiseIf (o.orderDeliveryStatus = some .delivered)
            "Order has been already confirmed and delivered can't update Weight"
          raiseIf (ac.isPaid invoice)
            "Order credit invoice bas been already paid can't update Weight"
        else pure ()
      else pure ()
      return { d with weight := some weight }

/-- The section on the money collected for the customer. -/
def moneyCollectedSection (kw : UpdateKwargs V) (o : Order) (d : UpdateDict V) :
    Except String (UpdateDict V) := do
  let d ← match kw.moneyCollected with
    | none => pure d
    | some moneyCollected => do
        raiseIf (o.moneyCollectionEntry ≠ none)
          "Money Collection entry has been created can't update money collected"
        pure { d with moneyCollected := some moneyCollected }
  match kw.moneyCollectionPaymentMethod with
  | none => pure d
  | some method => do
      raiseIf (o.moneyCollectionEntry ≠ none)
        "Money Collection entry has been created can't update money collection method"
      return { d with moneyCollectionPaymentMethod := some method }

/-- The sections before the shipping fees: they check the request against the
order as it stands and fill `update_dict`. -/
def checkSections (kw : UpdateKwargs V) (o : Order) (invoice : Option Move) :
    Except String (UpdateDict V) := do
  let d ← paymentMethodSection kw o (addressSection kw {})
  let d ← posSection kw o d
  let d ← weightSection ac kw o invoice d
  moneyCollectedSection kw o d

/-- `x.service_type == 'shipping' and x.product_id.is_main_service_product`. -/
def ServiceLine.isTarget (line : ServiceLine) : Bool :=
  line.serviceType = .shipping ∧ line.product.any (·.isMainServiceProduct)

/-- `target_service_line.amount = amount`, on every line of the recordset. -/
def Order.setTargetAmount (amount : ℚ) (o : Order) : Order :=
  o.setServiceLines <|
    o.serviceLineIds.map fun line => if line.isTarget then { line with amount } else line

/-- The line for an order that had no shipping fees so far. -/
def Order.addTargetLine (product : Option Product) (amount : ℚ) (o : Order) : Order :=
  o.setServiceLines <| o.serviceLineIds ++
    [{ product, amount, serviceType := .shipping, description := "Shipping Fees" }]

/-- The order has a target line. -/
def Order.hasTarget (o : Order) : Bool := o.serviceLineIds.any (·.isTarget)

/-- `target_service_line`, created when there is none. -/
def ensureTargetLine (shippingFees : V) : Tx Unit := do
  if (← self).hasTarget then pure ()
  else
    let serviceProduct ← lift (single "product.product" st.mainServiceProducts)
    let amount ← lift (Amount.store st shippingFees)
    modifyOrder (Order.addTargetLine serviceProduct amount)

/-- The order once `target_service_line.amount` is assigned. An assignment to no record reads
nothing. -/
def Order.assignTarget (amount : V) (o : Order) : Except String Order :=
  if o.hasTarget then do return o.setTargetAmount (← Amount.store st amount)
  else pure o

/-- `target_service_line.amount = amount`. -/
def assignTargetAmount (amount : V) : Tx Unit := do
  let o ← lift ((← self).assignTarget st amount)
  modifyOrder fun _ => o

/-- "Reset invoice to draft edits lines and confirm": the lines are computed from
the order as it stands, with the given discount. -/
def rebuildInvoice (discount : Option V) : Tx Unit := do
  let invoice := (← self).invoiceId
  buttonDraft ac invoice
  setInvoiceLines ac invoice []
  let o ← self
  recordComputation o
  let lines ← lift (invoiceServiceLines st o discount)
  setInvoiceLines ac invoice lines
  actionPost ac invoice

/-- The checks that the sections on shipping fees and discount make on a confirmed
order, each with its own messages. -/
def checkRebuild (kw : UpdateKwargs V) (pickedUp delivered : String) : Tx Unit := do
  let o ← self
  raiseIf (kw.meets o .onPickup) pickedUp
  raiseIf (o.orderDeliveryStatus = some .delivered) delivered
  raiseIf (ac.isPaid ((← get).invoice? o)) "Invoice already has been paid"

/-- The rebuild of a confirmed order for new shipping fees. -/
def updateShippingFees (kw : UpdateKwargs V) (shippingFees : V) : Tx Unit := do
  if (← self).orderStatus = .done then
    checkRebuild ac kw
      "Order has been already confirmed and picked-up can't update Shipping Fees"
      "Order has been already confirmed delivered can't update Shipping Fees"
    assignTargetAmount st shippingFees
    modifyOrder (Order.setShippingFees (← lift (Amount.store st shippingFees)))
    rebuildInvoice st ac (none : Option V)
  else pure ()

/-- The shipping fees section. -/
def shippingFeesSection (kw : UpdateKwargs V) (d : UpdateDict V) : Tx (UpdateDict V) :=
  match kw.shippingFees with
  | none => pure d
  | some shippingFees => do
      ensureTargetLine st shippingFees
      updateShippingFees st ac kw shippingFees
      assignTargetAmount st shippingFees
      return { d with shippingFees := some shippingFees }

/-- `shipping_fees + discount`, which needs the shipping fees of the same request. -/
def addDiscount (shippingFees : Option V) (discount : V) : Except String (Option V) :=
  Amount.add st shippingFees (some discount)

/-- The rebuild of a confirmed order for a new discount. -/
def updateDiscount (kw : UpdateKwargs V) (discount : V) : Tx Unit := do
  if (← self).orderStatus = .done then
    checkRebuild ac kw "Order already confirmed & picked can't update discount"
      "Order already confirmed & delivered can't update discount"
    let amount ← lift (addDiscount st kw.shippingFees discount)
    assignTargetAmount st amount
    modifyOrder (Order.setDiscount (← lift (Amount.store st discount)))
    rebuildInvoice st ac (some discount)
  else pure ()

/-- The discount section. -/
def discountSection (kw : UpdateKwargs V) (d : UpdateDict V) : Tx (UpdateDict V) :=
  match kw.discountAmount with
  | none => pure d
  | some discount => do
      updateDiscount st ac kw discount
      let amount ← lift (addDiscount st kw.shippingFees discount)
      assignTargetAmount st amount
      return { d with discountAmount := some discount }

/-- `success_update_msg`: a rebuild of the invoice is reported on its own. -/
def successUpdateMsg (kw : UpdateKwargs V) (o : Order) : List String :=
  let rebuilt := if o.orderStatus = .done then 2 else 1
  (if kw.pickupAddress?.isSome then ["Pickup Address"] else []) ++
  (if kw.deliveryAddress?.isSome then ["Delivery Address"] else []) ++
  (if kw.paymentMethod.isSome then ["Payment Method"] else []) ++
  (if kw.isPosPayment.isSome then ["Is Pos"] else []) ++
  (if kw.weight?.isSome then ["Weight"] else []) ++
  (if kw.moneyCollected.isSome then ["Money Collected"] else []) ++
  (if kw.moneyCollectionPaymentMethod.isSome then ["Money Collection Payment Method"] else []) ++
  (if kw.shippingFees.isSome then List.replicate rebuilt "Shipping Fees" else []) ++
  (if kw.discountAmount.isSome then List.replicate rebuilt "Discount" else [])

/-- What a field raises on its value. -/
def storeError (value : Option V) : Option String :=
  value.bind fun value =>
    match Amount.store st value with
    | .ok _ => none
    | .error e => some e

/-- The value of a field as it is stored. -/
def stored (value : Option V) : Option ℚ := value.bind fun value => (Amount.store st value).toOption

/-- The dictionary as the job writes it. -/
def UpdateDict.store (d : UpdateDict V) : UpdateDict where
  pickupAddress := d.pickupAddress
  deliveryAddress := d.deliveryAddress
  paymentMethod := d.paymentMethod
  isPosPayment := d.isPosPayment
  weight := stored st d.weight
  moneyCollected := stored st d.moneyCollected
  moneyCollectionPaymentMethod := d.moneyCollectionPaymentMethod
  shippingFees := stored st d.shippingFees
  discountAmount := stored st d.discountAmount
  unread := [d.weight, d.moneyCollected, d.shippingFees, d.discountAmount].findSome?
    (storeError st)

/-- `update_bill_of_loading`. -/
def updateBillOfLoading (kw : UpdateKwargs V) : Tx Response := do
  let o ← searchOrder "Object Doesn't Exists (BOL) "
  let d ← lift (checkSections ac kw o ((← get).invoice? o))
  let d ← shippingFeesSection st ac kw d
  let d ← discountSection st ac kw d
  withDelay (.write (d.store st))
  return { code := some 200,
           message := some ("Order Details (" ++ ",".intercalate (successUpdateMsg kw o) ++
             ") Updated Successfully"),
           data := some o.orderId }

end Update

/-! ## Pickup, delivery and money collection -/

section Confirm

variable (st : Settings)

/-- `confirm_order_pickup`. -/
def confirmOrderPickup (driverId : ℕ) : Tx Response := do
  raiseIf (st.driver? driverId = none) "Object Doesn't Exists (Driver)"
  let o ← searchOrder "Object Doesn't Exists (BOL) "
  raiseIf (o.tripsWith .picked ≠ []) "Pick-Up Driver Already Assigned"
  lift (checkCostCenter o)
  modifyOrder (Order.setStatus .done)
  createTrips [{ driverId, tripStatus := some .picked }]
  if (← self).paymentMethod = .onPickup then withDelay .confirmBillLoading else pure ()
  return { code := some 200, message := some "Order Pickup Confirmed", data := some o.orderId }

/-- `confirm_order_delivery`. -/
def confirmOrderDelivery (driverId : ℕ) : Tx Response := do
  raiseIf (st.driver? driverId = none) "Object Doesn't Exists (Driver)"
  let o ← searchOrder "Object Doesn't Exists (BOL) "
  if o.paymentMethod = .onDelivery ∨ o.paymentMethod = .onCredit then
    withDelay .confirmBillLoading
  else pure ()
  withDelay (.writeTrips [{ driverId, tripStatus := some .delivered }])
  return { code := some 200, message := some "Order Delivery Confirmed",
           data := some o.orderId }

/-- `collection_type`: an empty one is `none`, and one that is neither of the two
that are looked for is `other`. -/
inductive CollectionType
  | shippingFees
  | moneyCollection
  | other
  deriving DecidableEq, Repr

/-- `with_delay` on the job, and the text of the job it returns. -/
def delayed (job : Job) : Tx String := do
  withDelay job
  return "<Job " ++ st.jobUuid job ++ ", priority:5>"

/-- `confirm_order_money_collection`. -/
def confirmOrderMoneyCollection (collectionType : Option CollectionType) : Tx Response := do
  let o ← searchOrder "Object Doesn't Exists"
  raiseIf (o.orderStatus = .refund ∨ o.orderStatus = .canceled)
    "Order Status is either Canceled Or Refunded"
  raiseIf (o.orderStatus ≠ .done) "Order Not Confirmed Yet"
  raiseIf (o.paymentIsRegistered = true) "Money Already Collected"
  let res ← match collectionType with
    | none => throw "Collection type is either 'shipping_fees' or 'money_collection' "
    | some .shippingFees => delayed st (.registerPayment true)
    | some .moneyCollection => delayed st (.createMoneyCollectionEntry false)
    | some .other => pure ""
  return { code := some 200,
           message := some ("Confirmed Order Money Collection (" ++ res ++ ")"),
           data := some o.orderId }

end Confirm

end Fastrak
