import Fastrak.Order.UpdateEffect
import Fastrak.Order.CallEffect

/-!
# What a request does

`Serves` lists what a request can have done to the records of its order, with the
response it got. A refused request mostly leaves them alone; the two exceptions
are the update request and the pickup request.
-/

namespace Fastrak

open Transaction

variable {st : Settings} {ac : Accounting} {s t : OrderSlice} {o : Order}

namespace Order

/-- The order after a confirmed pickup. -/
def picked (driverId : ℕ) (o : Order) : Order :=
  ((o.setStatus .done).addTrips [{ driverId, tripStatus := some .picked }]).setDeliveryStatus
    .picked

/-- The order that a pickup leaves when the creation of its trip raises. -/
def halfPicked (driverId : ℕ) (o : Order) : Order :=
  (o.setStatus .done).addTrips [{ driverId, tripStatus := some .picked }]

end Order

/-- The jobs that a delivery request queues. -/
def deliveryJobs (driverId : ℕ) (o : Order) : List Job :=
  (if o.paymentMethod = .onDelivery ∨ o.paymentMethod = .onCredit then [.confirmBillLoading]
    else []) ++ [.writeTrips [{ driverId, tripStatus := some .delivered }]]

/-- The jobs that a money collection request queues. -/
def collectionJobs : CollectionType → List Job
  | .shippingFees => [.registerPayment true]
  | .moneyCollection => [.createMoneyCollectionEntry false]
  | .other => []

/-- The guards of a pickup request that come before its first write. -/
structure PickupPasses (st : Settings) (orderId : String) (driverId : ℕ) (o : Order) :
    Prop where
  hasOrderId : orderId ≠ ""
  hasDriverId : driverId ≠ 0
  driver : st.driver? driverId ≠ none
  first : o.tripsWith .picked = []
  costCenter : checkCostCenter o = .ok ()

/-- What a request does to the records, and its response. -/
inductive Serves (st : Settings) (ac : Accounting) (orderId : String) (s : OrderSlice) :
    Request → Response → OrderSlice → Prop
  | refused (r : Request) (response : Response) (hr : response.accepted = false) :
      Serves st ac orderId s r response s
  | created (kw : CreateKwargs) (lines : List ServiceLine) (response : Response)
      (hr : response.accepted = true) (ho : s.order = none)
      (hp : st.mainServiceProducts ≠ []) (hl : bolLines st kw = .ok lines) :
      Serves st ac orderId s (.create (some kw)) response
        { s with order := some (newOrder orderId kw lines) }
  | updated (kw : UpdateKwargs) (o : Order) (response : Response) (t : OrderSlice)
      (ho : s.order = some o) (h : Updates st ac kw s o response.accepted t) :
      Serves st ac orderId s (.update kw) response t
  | picked (driverId : ℕ) (o : Order) (response : Response)
      (hr : response.accepted = true) (ho : s.order = some o)
      (hk : PickupPasses st orderId driverId o) (hd : o.orderDeliveryStatus = none) :
      Serves st ac orderId s (.pickup (some driverId)) response
        { s with
          order := some (o.picked driverId)
          jobs := s.jobs ++
            if o.paymentMethod = .onPickup then [.confirmBillLoading] else [] }
  /-- The creation of the trip has raised. -/
  | halfPicked (driverId : ℕ) (o : Order) (response : Response)
      (hr : response.accepted = false) (ho : s.order = some o)
      (hk : PickupPasses st orderId driverId o) (hd : o.orderDeliveryStatus ≠ none) :
      Serves st ac orderId s (.pickup (some driverId)) response
        { s with order := some (o.halfPicked driverId) }
  | delivered (driverId : ℕ) (o : Order) (response : Response)
      (hr : response.accepted = true) (ho : s.order = some o)
      (hv : st.driver? driverId ≠ none) :
      Serves st ac orderId s (.delivery (some driverId)) response
        { s with jobs := s.jobs ++ deliveryJobs driverId o }
  | collected (collectionType : CollectionType) (o : Order) (response : Response)
      (hr : response.accepted = true) (ho : s.order = some o) (hs : o.orderStatus = .done) :
      Serves st ac orderId s (.moneyCollection (some (some collectionType))) response
        { s with jobs := s.jobs ++ collectionJobs collectionType }

theorem Serves.of_error {orderId : String} {r : Request} {x : Tx Response} {e : String}
    (h : x.run s = .error e s) :
    Serves st ac orderId s r (respond x s).1 (respond x s).2 := by
  obtain ⟨hr, ht⟩ := respond_of_error h
  rw [ht]
  exact .refused r _ hr

theorem create_serves (orderId : String) (kw : CreateKwargs) :
    Serves st ac orderId s (.create (some kw))
      (respond (actionCreateBillOfLoading st orderId kw) s).1
      (respond (actionCreateBillOfLoading st orderId kw) s).2 := by
  by_cases hp : st.mainServiceProducts = []
  · exact .of_error (e := "Service Product Not Found") (by
      simp [actionCreateBillOfLoading, raiseIf_run, hp])
  cases hl : bolLines st kw with
  | error e =>
      exact .of_error (e := e) (by
        simp [actionCreateBillOfLoading, raiseIf_run, hp, hl, lift_run])
  | ok lines =>
      cases ho : s.order with
      | some o =>
          exact .of_error (e := duplicateOrderId orderId) (by
            simp [actionCreateBillOfLoading, raiseIf_run, hp, hl, lift_run, ho])
      | none =>
          have hrun : (actionCreateBillOfLoading st orderId kw).run s =
              .ok { code := some 201, message := some "Success", data := some orderId }
                { s with order := some (newOrder orderId kw lines) } := by
            simp [-bind_pure_comp, actionCreateBillOfLoading, raiseIf_run, hp, hl, lift_run, ho,
              OrderSlice.insertOrder, mapM_store_rat, modifyOrder, OrderSlice.mapOrder]
            rfl
          rw [respond_of_ok hrun]
          exact .created kw lines _ rfl ho hp hl

theorem update_serves (orderId : String) (kw : UpdateKwargs) :
    Serves st ac orderId s (.update kw) (respond (updateBillOfLoading st ac kw) s).1
      (respond (updateBillOfLoading st ac kw) s).2 := by
  cases ho : s.order with
  | none =>
      exact .of_error (e := "Object Doesn't Exists (BOL) ") (by
        simp [updateBillOfLoading, searchOrder, ho, throw_run])
  | some o =>
      obtain ⟨t, ⟨h, r, hrun, hr⟩ | ⟨h, e, hrun⟩⟩ :=
        updateBillOfLoading_updates st ac kw ho
      · rw [respond_of_ok hrun]
        refine .updated kw o r t ho ?_
        have hacc : r.accepted = true := by simp [Response.accepted, hr]
        rw [hacc]
        exact h
      · obtain ⟨hacc, ht⟩ := respond_of_error hrun
        rw [ht]
        refine .updated kw o _ t ho ?_
        rw [hacc]
        exact h

section Pickup

variable {orderId : String} {driverId : ℕ}

theorem setStatus_run (ho : s.order = some o) (status : OrderStatus) :
    (modifyOrder (Order.setStatus status)).run s =
      .ok () { s with order := some (o.setStatus status) } := by
  simp [modifyOrder, OrderSlice.mapOrder_eq_of_order ho]

/-- The first pickup of the order. -/
theorem confirmOrderPickup_run_of_first (ho : s.order = some o)
    (hk : PickupPasses st orderId driverId o) (hd : o.orderDeliveryStatus = none) :
    (confirmOrderPickup st driverId).run s =
      .ok { code := some 200, message := some "Order Pickup Confirmed", data := some o.orderId }
        { s with
          order := some (o.picked driverId)
          jobs := s.jobs ++
            if o.paymentMethod = .onPickup then [.confirmBillLoading] else [] } := by
  have htrip := createTrips_picked_run (s := { s with order := some (o.setStatus .done) })
    { driverId, tripStatus := some .picked } rfl rfl hd
  have hpm : (((o.setStatus .done).addTrips
      [{ driverId, tripStatus := some .picked }]).setDeliveryStatus .picked).paymentMethod =
        o.paymentMethod := rfl
  by_cases hpm' : o.paymentMethod = .onPickup <;>
    simp [-bind_pure_comp, confirmOrderPickup, raiseIf_run, hk.driver, searchOrder, ho, hk.first,
      hk.costCenter, lift_run, setStatus_run ho, htrip, self, hpm, hpm', Order.picked, withDelay,
      OrderSlice.addJob]

/-- The order is confirmed before its pickup trip is created, and the creation raises. -/
theorem confirmOrderPickup_run_of_late (ho : s.order = some o)
    (hk : PickupPasses st orderId driverId o) (hd : o.orderDeliveryStatus ≠ none) :
    (confirmOrderPickup st driverId).run s =
      .error "Pick-Up Driver Already Assigned"
        { s with order := some (o.halfPicked driverId) } := by
  have htrip := createTrips_picked_run_of_ne (s := { s with order := some (o.setStatus .done) })
    { driverId, tripStatus := some .picked } rfl rfl hd
  simp [confirmOrderPickup, raiseIf_run, hk.driver, searchOrder, ho, hk.first, hk.costCenter,
    lift_run, setStatus_run ho, htrip, Order.halfPicked]

theorem pickup_serves (hid : ¬ (orderId = "" ∨ driverId = 0)) :
    Serves st ac orderId s (.pickup (some driverId))
      (respond (confirmOrderPickup st driverId) s).1
      (respond (confirmOrderPickup st driverId) s).2 := by
  by_cases hv : st.driver? driverId = none
  · exact .of_error (e := "Object Doesn't Exists (Driver)") (by
      simp [confirmOrderPickup, raiseIf_run, hv])
  cases ho : s.order with
  | none =>
      exact .of_error (e := "Object Doesn't Exists (BOL) ") (by
        simp [confirmOrderPickup, raiseIf_run, hv, searchOrder, ho, throw_run])
  | some o =>
      by_cases hn : o.tripsWith .picked = []
      swap
      · exact .of_error (e := "Pick-Up Driver Already Assigned") (by
          simp [confirmOrderPickup, raiseIf_run, hv, searchOrder, ho, hn])
      cases hc : checkCostCenter o with
      | error e =>
          exact .of_error (e := e) (by
            simp [confirmOrderPickup, raiseIf_run, hv, searchOrder, ho, hn, hc, lift_run])
      | ok u =>
          have hk : PickupPasses st orderId driverId o :=
            ⟨fun h => hid (.inl h), fun h => hid (.inr h), hv, hn, hc⟩
          by_cases hd : o.orderDeliveryStatus = none
          · rw [respond_of_ok (confirmOrderPickup_run_of_first ho hk hd)]
            exact .picked driverId o _ rfl ho hk hd
          · obtain ⟨hacc, ht⟩ := respond_of_error (confirmOrderPickup_run_of_late ho hk hd)
            rw [ht]
            exact .halfPicked driverId o _ hacc ho hk hd

end Pickup

theorem delivery_serves (orderId : String) (driverId : ℕ) :
    Serves st ac orderId s (.delivery (some driverId))
      (respond (confirmOrderDelivery st driverId) s).1
      (respond (confirmOrderDelivery st driverId) s).2 := by
  by_cases hv : st.driver? driverId = none
  · exact .of_error (e := "Object Doesn't Exists (Driver)") (by
      simp [confirmOrderDelivery, raiseIf_run, hv])
  cases ho : s.order with
  | none =>
      exact .of_error (e := "Object Doesn't Exists (BOL) ") (by
        simp [confirmOrderDelivery, raiseIf_run, hv, searchOrder, ho, throw_run])
  | some o =>
      have hrun : (confirmOrderDelivery st driverId).run s =
          .ok { code := some 200, message := some "Order Delivery Confirmed",
                data := some o.orderId }
            { s with jobs := s.jobs ++ deliveryJobs driverId o } := by
        by_cases hpm : o.paymentMethod = .onDelivery ∨ o.paymentMethod = .onCredit <;>
          simp [-bind_pure_comp, confirmOrderDelivery, raiseIf_run, hv, searchOrder, ho, hpm,
            withDelay, OrderSlice.addJob, deliveryJobs]
      rw [respond_of_ok hrun]
      exact .delivered driverId o _ rfl ho hv

theorem moneyCollection_serves (orderId : String) (collectionType : Option CollectionType) :
    Serves st ac orderId s (.moneyCollection (some collectionType))
      (respond (confirmOrderMoneyCollection st collectionType) s).1
      (respond (confirmOrderMoneyCollection st collectionType) s).2 := by
  cases ho : s.order with
  | none =>
      exact .of_error (e := "Object Doesn't Exists") (by
        simp [confirmOrderMoneyCollection, searchOrder, ho, throw_run])
  | some o =>
      by_cases hc : o.orderStatus = .refund ∨ o.orderStatus = .canceled
      · exact .of_error (e := "Order Status is either Canceled Or Refunded") (by
          simp [confirmOrderMoneyCollection, searchOrder, ho, raiseIf_run, hc])
      by_cases hs : o.orderStatus = .done
      swap
      · exact .of_error (e := "Order Not Confirmed Yet") (by
          simp [confirmOrderMoneyCollection, searchOrder, ho, raiseIf_run, hc, hs])
      by_cases hp : o.paymentIsRegistered = true
      · exact .of_error (e := "Money Already Collected") (by
          simp [confirmOrderMoneyCollection, searchOrder, ho, raiseIf_run, hs, hp])
      cases collectionType with
      | none =>
          exact .of_error
            (e := "Collection type is either 'shipping_fees' or 'money_collection' ") (by
              simp [-bind_pure_comp, confirmOrderMoneyCollection, searchOrder, ho,
                raiseIf_run, hs, hp, throw_run])
      | some collectionType =>
          have hrun : ∃ message, (confirmOrderMoneyCollection st (some collectionType)).run s =
              .ok { code := some 200, message := some message, data := some o.orderId }
                { s with jobs := s.jobs ++ collectionJobs collectionType } := by
            cases collectionType <;>
              simp [-bind_pure_comp, confirmOrderMoneyCollection, delayed, searchOrder, ho,
                raiseIf_run, hs, hp, withDelay, OrderSlice.addJob, collectionJobs]
            rw [← ho]
          obtain ⟨message, hrun⟩ := hrun
          rw [respond_of_ok hrun]
          exact .collected collectionType o _ rfl ho hs

/-- The inversion of a request. -/
theorem handle_serves (orderId : String) (r : Request) (s : OrderSlice) :
    Serves st ac orderId s r (handle st ac orderId r s).1 (handle st ac orderId r s).2 := by
  cases r with
  | create kw =>
      cases kw with
      | none => exact .refused _ _ rfl
      | some kw => exact create_serves orderId kw
  | update kw =>
      by_cases hid : orderId = ""
      · simp only [handle, hid, if_true]
        exact .refused _ _ rfl
      · simp only [handle, hid, if_false]
        exact update_serves orderId kw
  | pickup driverId =>
      cases driverId with
      | none => exact .refused _ _ rfl
      | some driverId =>
          by_cases hid : orderId = "" ∨ driverId = 0
          · simp only [handle, hid, if_true]
            exact .refused _ _ rfl
          · simp only [handle, hid, if_false]
            exact pickup_serves hid
  | delivery driverId =>
      cases driverId with
      | none => exact .refused _ _ rfl
      | some driverId => exact delivery_serves orderId driverId
  | moneyCollection collectionType =>
      cases collectionType with
      | none => exact .refused _ _ rfl
      | some collectionType => exact moneyCollection_serves orderId collectionType

/-- Without an order a request is refused or creates it. -/
theorem Serves.of_none {r : Request} {response : Response} (ho : s.order = none)
    (h : Serves st ac orderId s r response t) :
    t = s ∨ ∃ kw lines, r = .create (some kw) ∧
      t = { s with order := some (newOrder orderId kw lines) } := by
  cases h with
  | refused => exact .inl rfl
  | created kw lines => exact .inr ⟨kw, lines, rfl, rfl⟩
  | updated _ _ _ _ ho' => simp [ho] at ho'
  | picked _ _ _ _ ho' => simp [ho] at ho'
  | halfPicked _ _ _ _ ho' => simp [ho] at ho'
  | delivered _ _ _ _ ho' => simp [ho] at ho'
  | collected _ _ _ _ ho' => simp [ho] at ho'

end Fastrak
