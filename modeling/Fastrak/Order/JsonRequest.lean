import Fastrak.Order.System

/-!
# Requests with numbers and requests with JSON values

The endpoints use an amount by the operations of `Amount` only, so that they cannot see a
translation of the amounts that keeps these operations. In exact arithmetic a number is translated
to the JSON float: the requests whose amounts are numbers are JSON requests, with the same answers
and the same records.
-/

namespace Fastrak

open Transaction

namespace Amount

/-- A translation of amounts that keeps all operations. -/
structure Translation (st : Settings) (V W : Type) [Amount V] [Amount W] where
  toFun : V → W
  truthy_toFun v : truthy (toFun v) = truthy v
  typeName_toFun v : typeName (toFun v) = typeName v
  operand_toFun message v : operand st message (toFun v) = operand st message v
  add_toFun a b : add st (toFun a) (toFun b) = toFun <$> add st a b
  store_toFun v : store st (toFun v) = store st v

namespace Translation

variable {st : Settings} {U V W : Type} [Amount U] [Amount V] [Amount W]

instance : CoeFun (Translation st V W) fun _ => V → W := ⟨toFun⟩

attribute [simp] truthy_toFun typeName_toFun operand_toFun add_toFun store_toFun

def comp (g : Translation st V W) (f : Translation st U V) : Translation st U W where
  toFun v := g (f v)
  truthy_toFun v := by rw [g.truthy_toFun, f.truthy_toFun]
  typeName_toFun v := by rw [g.typeName_toFun, f.typeName_toFun]
  operand_toFun message v := by rw [g.operand_toFun, f.operand_toFun]
  add_toFun a b := by rw [g.add_toFun, f.add_toFun, Functor.map_map]
  store_toFun v := by rw [g.store_toFun, f.store_toFun]

/-- An argument that is not `null`. -/
def given : Translation st V (Option V) where
  toFun := some
  truthy_toFun _ := rfl
  typeName_toFun _ := rfl
  operand_toFun _ _ := rfl
  add_toFun _ _ := rfl
  store_toFun _ := rfl

/-- The translation of an argument that may be `null`. -/
def option (f : Translation st V W) : Translation st (Option V) (Option W) where
  toFun := Option.map f
  truthy_toFun v := by cases v <;> simp [truthy]
  typeName_toFun v := by cases v <;> simp [typeName]
  operand_toFun message v := by cases v <;> simp [operand]
  add_toFun a b := by
    cases a <;> cases b <;> simp [add] <;> rfl
  store_toFun v := by cases v <;> simp [store]

end Translation

end Amount

/-! ## Translated arguments -/

section Maps

variable {V W : Type} (f : V → W)

def ServiceLine.map (line : ServiceLine V) : ServiceLine W where
  product := line.product
  amount := f line.amount
  description := line.description
  serviceType := line.serviceType

def CreateKwargs.map (kw : CreateKwargs V) : CreateKwargs W where
  userId := kw.userId
  weight := f kw.weight
  isPosPayment := kw.isPosPayment
  paymentMethod := kw.paymentMethod
  insuranceFees := f kw.insuranceFees
  shippingFees := f kw.shippingFees
  vat := f kw.vat
  discountAmount := f kw.discountAmount
  moneyCollected := f kw.moneyCollected
  pickupAddress := kw.pickupAddress
  deliveryAddress := kw.deliveryAddress
  moneyCollectionPaymentMethod := kw.moneyCollectionPaymentMethod

def UpdateKwargs.map (kw : UpdateKwargs V) : UpdateKwargs W where
  pickupAddress := kw.pickupAddress
  deliveryAddress := kw.deliveryAddress
  paymentMethod := kw.paymentMethod
  isPosPayment := kw.isPosPayment
  weight := kw.weight.map f
  shippingFees := kw.shippingFees.map f
  discountAmount := kw.discountAmount.map f
  moneyCollected := kw.moneyCollected.map f
  moneyCollectionPaymentMethod := kw.moneyCollectionPaymentMethod

def UpdateDict.map (d : UpdateDict V) : UpdateDict W where
  pickupAddress := d.pickupAddress
  deliveryAddress := d.deliveryAddress
  paymentMethod := d.paymentMethod
  isPosPayment := d.isPosPayment
  weight := d.weight.map f
  moneyCollected := d.moneyCollected.map f
  moneyCollectionPaymentMethod := d.moneyCollectionPaymentMethod
  shippingFees := d.shippingFees.map f
  discountAmount := d.discountAmount.map f
  unread := d.unread

def Request.map {V' W' : Type} (f : V → V') (g : W → W') : Request V W → Request V' W'
  | .create kw => .create (kw.map (CreateKwargs.map f))
  | .update kw => .update (kw.map g)
  | .pickup driverId => .pickup driverId
  | .delivery driverId => .delivery driverId
  | .moneyCollection collectionType => .moneyCollection collectionType

end Maps

section Create

variable {V W : Type} [Amount V] [Amount W] {st : Settings} (f : Amount.Translation st V W)

theorem bolLine_map (condition : V) (amount : Except String V) (serviceType : ServiceType)
    (description : String) :
    bolLine st (f condition) (f <$> amount) serviceType description =
      List.map (ServiceLine.map f) <$> bolLine st condition amount serviceType description := by
  unfold bolLine
  rw [f.truthy_toFun]
  split
  · cases single "product.product" st.mainServiceProducts <;> cases amount <;> rfl
  · rfl

theorem bolLines_map (kw : CreateKwargs V) :
    bolLines st (kw.map f) = List.map (ServiceLine.map f) <$> bolLines st kw := by
  have hinsurance : (pure (kw.map f).insuranceFees : Except String W) =
      f <$> pure kw.insuranceFees := rfl
  simp only [bolLines, CreateKwargs.map] at hinsurance ⊢
  rw [f.add_toFun, bolLine_map, hinsurance, bolLine_map]
  simp [map_bind]

@[simp] theorem ServiceLine.store_map (line : ServiceLine V) :
    (line.map f).store st = line.store st := by
  simp [ServiceLine.store, ServiceLine.map]

@[simp] theorem CreateKwargs.store_map (kw : CreateKwargs V) :
    (kw.map f).store st = kw.store st := by
  simp [CreateKwargs.store, CreateKwargs.map]

theorem mapM_store_map (lines : List (ServiceLine V)) :
    (lines.map (ServiceLine.map f)).mapM (ServiceLine.store st) =
      lines.mapM (ServiceLine.store st) := by
  rw [List.mapM_map]
  exact congrArg (lines.mapM ·) (funext fun line => line.store_map f)

theorem actionCreateBillOfLoading_map (orderId : String) (kw : CreateKwargs V) :
    actionCreateBillOfLoading st orderId (kw.map f) = actionCreateBillOfLoading st orderId kw := by
  unfold actionCreateBillOfLoading
  simp only [bolLines_map, CreateKwargs.store_map, lift_map, bind_map_left, mapM_store_map]

end Create

section Update

variable {V W : Type} [Amount V] [Amount W] {st : Settings} {ac : Accounting}
  (f : Amount.Translation st V W)

/-! The lines of an invoice are computed from translated amounts alike. -/

@[simp] theorem getAmountAfterTax_toFun (amount : V) :
    getAmountAfterTax st (f amount) = getAmountAfterTax st amount := by
  simp [getAmountAfterTax]

@[simp] theorem getDiscountServiceLine_toFun (amount : V) :
    getDiscountServiceLine st (f amount) = getDiscountServiceLine st amount := by
  simp [getDiscountServiceLine]

@[simp] theorem invoiceServiceLines_map (o : Order) (discount : Option V) :
    invoiceServiceLines st o (discount.map f) = invoiceServiceLines st o discount := by
  cases discount <;> simp [invoiceServiceLines]

@[simp] theorem rebuildInvoice_map (discount : Option V) :
    rebuildInvoice st ac (discount.map f) = rebuildInvoice st ac discount := by
  simp [rebuildInvoice]

/-! The sections that check. -/

theorem weight?_map (kw : UpdateKwargs V) : (kw.map f).weight? = kw.weight?.map f := by
  unfold UpdateKwargs.weight? UpdateKwargs.map
  cases kw.weight with
  | none => rfl
  | some weight => by_cases h : Amount.truthy weight <;> simp [Option.filter, h]

theorem paymentMethodSection_map (kw : UpdateKwargs V) (o : Order) (d : UpdateDict V) :
    paymentMethodSection (kw.map f) o (d.map f) =
      UpdateDict.map f <$> paymentMethodSection kw o d := by
  have hmethod : (kw.map f).paymentMethod = kw.paymentMethod := rfl
  unfold paymentMethodSection
  rw [hmethod]
  cases kw.paymentMethod <;> simp [UpdateDict.map]

theorem posSection_map (kw : UpdateKwargs V) (o : Order) (d : UpdateDict V) :
    posSection (kw.map f) o (d.map f) = UpdateDict.map f <$> posSection kw o d := by
  have hpos : (kw.map f).isPosPayment = kw.isPosPayment := rfl
  have hmeets m : (kw.map f).meets o m ↔ kw.meets o m := Iff.rfl
  unfold posSection
  rw [hpos]
  cases kw.isPosPayment with
  | none => rfl
  | some isPosPayment =>
      simp only [hmeets]
      split_ifs <;> simp [UpdateDict.map]

theorem weightSection_map (kw : UpdateKwargs V) (o : Order) (invoice : Option Move)
    (d : UpdateDict V) :
    weightSection ac (kw.map f) o invoice (d.map f) =
      UpdateDict.map f <$> weightSection ac kw o invoice d := by
  have hmeets m : (kw.map f).meets o m ↔ kw.meets o m := Iff.rfl
  unfold weightSection
  rw [weight?_map]
  cases kw.weight? with
  | none => rfl
  | some weight =>
      simp only [hmeets, Option.map_some]
      split_ifs <;> simp [UpdateDict.map]

theorem moneyCollectedSection_map (kw : UpdateKwargs V) (o : Order) (d : UpdateDict V) :
    moneyCollectedSection (kw.map f) o (d.map f) =
      UpdateDict.map f <$> moneyCollectedSection kw o d := by
  unfold moneyCollectedSection
  simp only [UpdateKwargs.map]
  cases kw.moneyCollected <;> cases kw.moneyCollectionPaymentMethod <;>
    simp [UpdateDict.map]

theorem checkSections_map (kw : UpdateKwargs V) (o : Order) (invoice : Option Move) :
    checkSections ac (kw.map f) o invoice = UpdateDict.map f <$> checkSections ac kw o invoice := by
  have haddress : addressSection (kw.map f) {} = (addressSection kw {}).map f := rfl
  simp only [checkSections, haddress, paymentMethodSection_map, posSection_map, weightSection_map,
    moneyCollectedSection_map, bind_map_left, map_bind]

/-! The sections that write. -/

@[simp] theorem assignTargetAmount_toFun (amount : V) :
    assignTargetAmount st (f amount) = assignTargetAmount st amount := by
  simp [assignTargetAmount, Order.assignTarget]

@[simp] theorem ensureTargetLine_toFun (amount : V) :
    ensureTargetLine st (f amount) = ensureTargetLine st amount := by
  simp [ensureTargetLine]

theorem checkRebuild_map (kw : UpdateKwargs V) (pickedUp delivered : String) :
    checkRebuild ac (kw.map f) pickedUp delivered = checkRebuild ac kw pickedUp delivered :=
  rfl

theorem assignTargetAmount_map (amount : Option V) :
    assignTargetAmount st (amount.map f) = assignTargetAmount st amount :=
  assignTargetAmount_toFun f.option amount

theorem addDiscount_map (kw : UpdateKwargs V) (discount : V) :
    addDiscount st (kw.map f).shippingFees (f discount) =
      Option.map f <$> addDiscount st kw.shippingFees discount :=
  f.option.add_toFun kw.shippingFees (some discount)

theorem updateShippingFees_map (kw : UpdateKwargs V) (fees : V) :
    updateShippingFees st ac (kw.map f) (f fees) = updateShippingFees st ac kw fees := by
  have hrebuild : rebuildInvoice st ac (none : Option W) = rebuildInvoice st ac (none : Option V) :=
    rebuildInvoice_map f none
  simp [updateShippingFees, checkRebuild_map, hrebuild]

theorem updateDiscount_map (kw : UpdateKwargs V) (discount : V) :
    updateDiscount st ac (kw.map f) (f discount) = updateDiscount st ac kw discount := by
  have hrebuild : rebuildInvoice st ac (some (f discount)) = rebuildInvoice st ac (some discount) :=
    rebuildInvoice_map f (some discount)
  simp only [updateDiscount, checkRebuild_map, hrebuild, addDiscount_map, lift_map, bind_map_left,
    assignTargetAmount_map, f.store_toFun]

theorem shippingFeesSection_map (kw : UpdateKwargs V) (d : UpdateDict V) :
    shippingFeesSection st ac (kw.map f) (d.map f) =
      UpdateDict.map f <$> shippingFeesSection st ac kw d := by
  have hfees : (kw.map f).shippingFees = kw.shippingFees.map f := rfl
  unfold shippingFeesSection
  rw [hfees]
  cases kw.shippingFees <;> simp [updateShippingFees_map, UpdateDict.map]

theorem discountSection_map (kw : UpdateKwargs V) (d : UpdateDict V) :
    discountSection st ac (kw.map f) (d.map f) =
      UpdateDict.map f <$> discountSection st ac kw d := by
  have hdiscount : (kw.map f).discountAmount = kw.discountAmount.map f := rfl
  unfold discountSection
  rw [hdiscount]
  cases kw.discountAmount <;>
    simp [updateDiscount_map, UpdateDict.map, addDiscount_map, lift_map, assignTargetAmount_map]

@[simp] theorem UpdateDict.store_map (d : UpdateDict V) : (d.map f).store st = d.store st := by
  have hstored (value : Option V) : stored st (value.map f) = stored st value := by
    cases value <;> simp [stored]
  have herror (value : Option V) : storeError st (value.map f) = storeError st value := by
    cases value <;> simp [storeError]
  simp [UpdateDict.store, UpdateDict.map, hstored, herror, List.findSome?]

theorem successUpdateMsg_map (kw : UpdateKwargs V) (o : Order) :
    successUpdateMsg (kw.map f) o = successUpdateMsg kw o := by
  unfold successUpdateMsg
  rw [weight?_map]
  simp only [UpdateKwargs.map, Option.isSome_map]
  rfl

theorem updateBillOfLoading_map (kw : UpdateKwargs V) :
    updateBillOfLoading st ac (kw.map f) = updateBillOfLoading st ac kw := by
  simp only [updateBillOfLoading, checkSections_map, lift_map, bind_map_left,
    shippingFeesSection_map, discountSection_map, UpdateDict.store_map, successUpdateMsg_map]

end Update

/-! ## Requests -/

section Requests

variable {V W V' W' : Type} [Amount V] [Amount W] [Amount V'] [Amount W'] {st : Settings}
  {ac : Accounting}

/-- A request with translated amounts is answered alike, and leaves the same records. -/
theorem handle_map (f : Amount.Translation st V V') (g : Amount.Translation st W W')
    (orderId : String) (r : Request V W) (s : OrderSlice) :
    handle st ac orderId (r.map f g) s = handle st ac orderId r s := by
  cases r with
  | create kw => cases kw <;> simp [handle, Request.map, Request.requiredFields,
      actionCreateBillOfLoading_map]
  | update kw => simp [handle, Request.map, updateBillOfLoading_map]
  | pickup driverId => cases driverId <;> simp [handle, Request.map, Request.requiredFields]
  | delivery driverId => cases driverId <;> simp [handle, Request.map, Request.requiredFields]
  | moneyCollection collectionType =>
      cases collectionType <;> simp [handle, Request.map, Request.requiredFields]

/-- The numbers as JSON floats, where the arithmetic is exact. -/
def Value.ofNumber (hst : st.arithmetic = .exact) : Amount.Translation st ℚ Value where
  toFun := .float
  truthy_toFun _ := rfl
  typeName_toFun _ := rfl
  operand_toFun message q := by
    have hfloat : Amount.operand st message (Value.float q) = .ok (st.arithmetic.round q) := rfl
    rw [hfloat, hst]
    rfl
  add_toFun a b := by
    have hadd : Amount.add st (Value.float a) (.float b) = .ok (.float
        (st.arithmetic.add (st.arithmetic.round a) (st.arithmetic.round b))) := rfl
    rw [hadd, hst]
    rfl
  store_toFun q := by
    have hstore : Amount.store st (Value.float q) = .ok (st.arithmetic.round q) := rfl
    rw [hstore, hst]
    rfl

/-- A request with numbers as it is received. -/
def Request.toJson (r : Request) : JsonRequest := r.map (fun q => some (.float q)) .float

theorem handle_toJson (hst : st.arithmetic = .exact) (orderId : String) (r : Request)
    (s : OrderSlice) : handle st ac orderId r.toJson s = handle st ac orderId r s :=
  handle_map (Amount.Translation.given.comp (Value.ofNumber hst)) (Value.ofNumber hst) orderId r s

/-- In exact arithmetic a request with numbers is served as the JSON request that it is. -/
theorem serve_toJson (hst : st.arithmetic = .exact) (orderId : Option String) (r : Request)
    (db : Database) : serve st ac orderId r.toJson db = serve st ac orderId r db := by
  have hfields : r.toJson.requiredFields = r.requiredFields := by cases r <;> rfl
  cases orderId with
  | none => rw [serve, serve, hfields]
  | some id => simp only [serve, handle_toJson hst]

end Requests

end Fastrak
