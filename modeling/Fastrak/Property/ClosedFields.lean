import Fastrak.Order.Ledger

/-!
# Closed fields

The update reference closes a field by where the delivery stands and by the money
collection entry. An update request is checked when it comes, and its fields are
written by a job; `Respects` says that the fields of a pending write are not closed.
Accepted requests of a confirmed order respect the closed fields, and it is the steps
that move the delivery or book the collection under a pending write that do not.
-/

namespace Fastrak

open Transaction Run

variable {st : Settings} {ac : Accounting} {orderId : String} {s t : OrderSlice} {o o' : Order}

/-! ## What is closed -/

namespace Order

/-- `payment_method` can be edited as long as the order is not picked up. -/
def paymentMethodClosed (o : Order) : Prop := o.orderDeliveryStatus ≠ none

/-- `is_pos_payment` can be edited, on pickup, as long as the order is not picked up,
and, on delivery, as long as it is not delivered. -/
def posClosed (o : Order) : Prop :=
  (o.paymentMethod = .onPickup ∧ o.orderDeliveryStatus ≠ none) ∨
    o.paymentMethod = .onDelivery ∧ o.orderDeliveryStatus = some .delivered

/-- The weight, the shipping fees and the discount can be edited, on pickup, as long as
the order is not picked up, and otherwise as long as it is not delivered. -/
def feesClosed (o : Order) : Prop :=
  (o.paymentMethod = .onPickup ∧ o.orderDeliveryStatus ≠ none) ∨
    o.paymentMethod ≠ .onPickup ∧ o.orderDeliveryStatus = some .delivered

/-- The money collected can be edited as long as its entry is not created. -/
def moneyClosed (o : Order) : Prop := o.moneyCollectionEntry ≠ none

/-- No field that is closed on `o` has changed. -/
structure KeepsClosed (o o' : Order) : Prop where
  paymentMethod : o.paymentMethodClosed → o'.paymentMethod = o.paymentMethod
  isPosPayment : o.posClosed → o'.isPosPayment = o.isPosPayment
  weight : o.feesClosed → o'.weight = o.weight
  shippingFees : o.feesClosed → o'.shippingFees = o.shippingFees
  discountAmount : o.feesClosed → o'.discountAmount = o.discountAmount
  moneyCollected : o.moneyClosed → o'.moneyCollected = o.moneyCollected
  moneyCollectionPaymentMethod : o.moneyClosed →
    o'.moneyCollectionPaymentMethod = o.moneyCollectionPaymentMethod

theorem KeepsClosed.refl (o : Order) : o.KeepsClosed o :=
  ⟨fun _ => rfl, fun _ => rfl, fun _ => rfl, fun _ => rfl, fun _ => rfl, fun _ => rfl,
    fun _ => rfl⟩

/-- A change of the shipping fees and the discount alone. -/
theorem KeepsClosed.of_refeed (h : o.Refeed o')
    (hf : ¬ o.feesClosed ∨
      (o'.shippingFees = o.shippingFees ∧ o'.discountAmount = o.discountAmount)) :
    o.KeepsClosed o' := by
  obtain ⟨_, _, _, rfl⟩ := h
  exact ⟨fun _ => rfl, fun _ => rfl, fun _ => rfl, fun hc => (hf.resolve_left (not_not.mpr hc)).1,
    fun hc => (hf.resolve_left (not_not.mpr hc)).2, fun _ => rfl, fun _ => rfl⟩

/-- The order when the next of its two trips has been made. -/
def advanced (o : Order) : Order :=
  o.setDeliveryStatus (if o.orderDeliveryStatus = none then .picked else .delivered)

/-- The status of the trip that moves the delivery on. -/
def nextTrip (o : Order) : Option TripStatus :=
  match o.orderDeliveryStatus with
  | none => some .picked
  | some .picked => some .delivered
  | some .delivered => none

end Order

/-- The fields that are to be written are not closed. -/
structure UpdateDict.Respects (d : UpdateDict) (o : Order) : Prop where
  paymentMethod : o.paymentMethodClosed → d.paymentMethod = none
  isPosPayment : o.posClosed → d.isPosPayment = none
  weight : o.feesClosed → d.weight = none
  shippingFees : o.feesClosed → d.shippingFees = none
  discountAmount : o.feesClosed → d.discountAmount = none
  moneyCollected : o.moneyClosed → d.moneyCollected = none
  moneyCollectionPaymentMethod : o.moneyClosed → d.moneyCollectionPaymentMethod = none

namespace UpdateDict.Respects

variable {d : UpdateDict}

theorem keepsClosed (h : d.Respects o) : o.KeepsClosed (d.apply o) where
  paymentMethod hc := by rw [UpdateDict.apply, h.paymentMethod hc, Option.getD_none]
  isPosPayment hc := by rw [UpdateDict.apply, h.isPosPayment hc, Option.getD_none]
  weight hc := by rw [UpdateDict.apply, h.weight hc, Option.getD_none]
  shippingFees hc := by rw [UpdateDict.apply, h.shippingFees hc, Option.getD_none]
  discountAmount hc := by rw [UpdateDict.apply, h.discountAmount hc, Option.getD_none]
  moneyCollected hc := by rw [UpdateDict.apply, h.moneyCollected hc, Option.getD_none]
  moneyCollectionPaymentMethod hc := by
    rw [UpdateDict.apply, h.moneyCollectionPaymentMethod hc, Option.getD_none]

/-- What is closed is read from three fields. -/
theorem of_eq (hpm : o'.paymentMethod = o.paymentMethod)
    (hd : o'.orderDeliveryStatus = o.orderDeliveryStatus)
    (hm : o'.moneyCollectionEntry = o.moneyCollectionEntry) (h : d.Respects o) :
    d.Respects o' := by
  have hpos : o'.posClosed → o.posClosed := by
    simp only [Order.posClosed, hpm, hd, imp_self]
  have hfees : o'.feesClosed → o.feesClosed := by
    simp only [Order.feesClosed, hpm, hd, imp_self]
  have hmoney : o'.moneyClosed → o.moneyClosed := by
    simp only [Order.moneyClosed, hm, imp_self]
  refine ⟨fun hc => h.paymentMethod ?_, fun hc => h.isPosPayment (hpos hc),
    fun hc => h.weight (hfees hc), fun hc => h.shippingFees (hfees hc),
    fun hc => h.discountAmount (hfees hc), fun hc => h.moneyCollected (hmoney hc),
    fun hc => h.moneyCollectionPaymentMethod (hmoney hc)⟩
  rwa [Order.paymentMethodClosed, ← hd]

/-- Before the pickup only the money collected can be closed. -/
theorem of_none (hd : o'.orderDeliveryStatus = none)
    (hm : o'.moneyCollectionEntry = o.moneyCollectionEntry) (h : d.Respects o) :
    d.Respects o' := by
  have hfees : ¬ o'.feesClosed := by simp [Order.feesClosed, hd]
  have hmoney : o'.moneyClosed → o.moneyClosed := by
    simp only [Order.moneyClosed, hm, imp_self]
  exact ⟨fun hc => absurd hd hc, fun hc => absurd hc (by simp [Order.posClosed, hd]),
    fun hc => absurd hc hfees, fun hc => absurd hc hfees, fun hc => absurd hc hfees,
    fun hc => h.moneyCollected (hmoney hc), fun hc => h.moneyCollectionPaymentMethod (hmoney hc)⟩

/-- The delivery moves on. -/
theorem of_advanced (hpm : o'.paymentMethod = o.paymentMethod)
    (hd : o'.orderDeliveryStatus = o.advanced.orderDeliveryStatus)
    (hm : o'.moneyCollectionEntry = o.moneyCollectionEntry) (h : d.Respects o.advanced) :
    d.Respects o' :=
  of_eq (o := o.advanced) hpm hd hm h

end UpdateDict.Respects

/-! ## Update requests -/

/-- A rebuild is not entered when the fees are closed. -/
theorem UpdateKwargs.EntersRebuild.not_feesClosed {kw : UpdateKwargs} {invoice : Option Move}
    {fees : ℚ} {p : Option Product} (he : kw.EntersRebuild st ac o invoice fees p) :
    ¬ o.feesClosed := by
  obtain ⟨hp, hd, -⟩ : ¬ kw.meets o .onPickup ∧ o.orderDeliveryStatus ≠ some .delivered ∧ _ := by
    simpa only [UpdateKwargs.rebuildClosed, not_or] using he.isOpen
  rintro (⟨hpm, -⟩ | ⟨-, hd'⟩)
  · exact hp (.inl hpm)
  · exact hd hd'

theorem Updates.keepsClosed {kw : UpdateKwargs} {accepted : Bool} (ho : s.order = some o)
    (ho' : t.order = some o') (h : Updates st ac kw s o accepted t) : o.KeepsClosed o' := by
  obtain ⟨o'', ho'', hfeed⟩ := h.order ho
  obtain rfl : o'' = o' := Option.some.inj (ho''.symm.trans ho')
  refine .of_refeed hfeed ?_
  cases h with
  | refused | queued =>
      obtain rfl : o = o'' := Option.some.inj (ho.symm.trans ho')
      exact .inr ⟨rfl, rfl⟩
  | lineCreated =>
      cases ho'
      exact .inr ⟨rfl, rfl⟩
  | stored fees p =>
      cases ho'
      obtain ⟨_, hl⟩ := o.targeted_eq p fees
      exact .inr (by rw [hl]; exact ⟨rfl, rfl⟩)
  | feesInterrupted _ _ _ _ he
  | discountClosed _ _ _ _ he
  | feesRebuilt _ _ _ he
  | discountInterrupted _ _ _ _ _ _ he
  | discountRebuilt _ _ _ _ _ he => exact .inl he.not_feesClosed

/-- The fields of an accepted request are open, if they are on an order that is not
confirmed. -/
theorem Updates.respects {kw : UpdateKwargs}
    (hopen : o.orderStatus = .done ∨ kw.updateDict.Respects o)
    (h : Updates st ac kw s o true t) : kw.updateDict.Respects o := by
  rcases hopen with hs | hr
  swap
  · exact hr
  have hk : kw.Passes ac o (s.invoice? o) := by
    cases h with
    | queued hk | stored _ _ hk => exact hk
    | feesRebuilt _ _ _ he | discountRebuilt _ _ _ _ _ he => exact he.passes
  have hpm : kw.paymentMethod = none := by_contra fun hne => hk.paymentMethod hne hs
  have hmeets : ∀ m, kw.meets o m ↔ o.paymentMethod = m := by
    simp [UpdateKwargs.meets, hpm]
  have hfees : o.feesClosed → kw.shippingFees = none ∧ kw.discountAmount = none := by
    intro hc
    cases h with
    | queued _ hf hx => exact ⟨hf, hx⟩
    | stored _ _ _ _ _ hs' => exact absurd hs hs'
    | feesRebuilt _ _ _ he | discountRebuilt _ _ _ _ _ he => exact absurd hc he.not_feesClosed
  refine ⟨fun _ => hpm, fun hc => by_contra fun hne => ?_, fun hc => by_contra fun hne => ?_,
    fun hc => (hfees hc).1, fun hc => (hfees hc).2,
    fun hc => by_contra fun hne => hc (hk.moneyCollected hne),
    fun hc => by_contra fun hne => hc (hk.moneyCollectionPaymentMethod hne)⟩
  · rcases hc with ⟨hp, hd⟩ | ⟨hp, hd⟩
    · exact hd (hk.posOnPickup hne hs ((hmeets _).mpr hp))
    · exact hk.posOnDelivery hne hs (by simp [hmeets, hp]) ((hmeets _).mpr hp) hd
  · rcases hc with ⟨hp, -⟩ | ⟨hp, hd⟩
    · exact hk.weightOnPickup hne hs ((hmeets _).mpr hp)
    · match hpm' : o.paymentMethod with
      | .onPickup => exact hp hpm'
      | .onDelivery => exact hk.weightOnDelivery hne hs ((hmeets _).mpr hpm') hd
      | .onCredit =>
          exact (hk.weightOnCredit hne hs (by simp [hmeets, hpm'])
            ((hmeets _).mpr hpm')).1 hd

/-! ## Steps -/

/-- The event moves the delivery of the order on. -/
def Event.Advances (st : Settings) (orderId : String) (s : OrderSlice) (e : Event)
    (o : Order) : Prop :=
  (∃ driverId, e = .request (.pickup (some driverId)) ∧ PickupPasses st orderId driverId o ∧
    o.orderDeliveryStatus = none) ∨
  ∃ trip base, e.call? s = some (.createTrips [trip], base) ∧
    trip.tripStatus = o.nextTrip ∧ o.nextTrip ≠ none

/-- The event books the money collected for the customer. -/
def Event.BooksMoney (s : OrderSlice) (e : Event) (o : Order) : Prop :=
  ∃ raiseException base, e.call? s = some (.createMoneyCollectionEntry raiseException, base) ∧
    o.moneyCollected ≠ 0 ∧ o.moneyCollectionEntry = none

/-- An update request with closed fields is made on a confirmed order only; and the
delivery is moved on, and the money booked, only when this closes no field of a write
that is pending. -/
structure UpdatesInTime (st : Settings) (orderId : String) (s : OrderSlice) (e : Event) :
    Prop where
  request : ∀ kw o, e.update? = some kw → s.order = some o →
    o.orderStatus = .done ∨ kw.updateDict.Respects o
  delivery : ∀ o d, s.order = some o → .write d ∈ s.jobs → e.Advances st orderId s o →
    d.Respects o.advanced
  money : ∀ o d, s.order = some o → .write d ∈ s.jobs → e.BooksMoney s o →
    d.moneyCollected = none ∧ d.moneyCollectionPaymentMethod = none

/-- Nothing is pending, or the event is an update request or a deferred write. -/
theorem UpdatesInTime.of_idle {e : Event}
    (hu : ∀ kw ∈ e.update?, ∀ o ∈ s.order, o.orderStatus = .done)
    (hp : s.jobs = [] ∨ e.update? ≠ none ∨ e.write? s ≠ none) :
    UpdatesInTime st orderId s e := by
  have hcall : ∀ c base, e.call? s = some (c, base) → s.jobs = [] ∨ ∃ d, c = .write d := by
    intro c base hc
    refine hp.imp_right fun hp => ?_
    rw [Event.write?, hc] at hp
    rcases hp with hu | hw
    · cases e with
      | request => simp [Event.call?] at hc
      | _ => exact absurd rfl hu
    · cases c with
      | write d => exact ⟨d, rfl⟩
      | _ => exact absurd rfl hw
  refine ⟨fun kw o hkw ho => .inl (hu kw hkw o ho), fun o d ho hd hadv => ?_,
    fun o d ho hd hbooks => ?_⟩
  · rcases hadv with ⟨driverId, rfl, -⟩ | ⟨trip, base, hc, -⟩
    · rcases hp with hj | hp
      · simp [hj] at hd
      · simp [Event.update?, Event.write?, Event.call?] at hp
    · rcases hcall _ _ hc with hj | ⟨d, hw⟩
      · simp [hj] at hd
      · cases hw
  · obtain ⟨raiseException, base, hc, -⟩ := hbooks
    rcases hcall _ _ hc with hj | ⟨d, hw⟩
    · simp [hj] at hd
    · cases hw

/-- Neither an update request nor a deferred write changes a field that is closed. -/
def KeepsClosedFields (st : Settings) (ac : Accounting) (orderId : String) (s : OrderSlice)
    (e : Event) : Prop :=
  (e.update? ≠ none ∨ e.write? s ≠ none) → ∀ o o', s.order = some o →
    (step st ac orderId s e).order = some o' → o.KeepsClosed o'

/-- The pending writes respect what is closed. -/
structure OrderSlice.WritesRespect (s : OrderSlice) : Prop where
  queued : s.Queued
  respects : ∀ o d, s.order = some o → .write d ∈ s.jobs → d.Respects o

theorem OrderSlice.IsNew.writesRespect (h : s.IsNew) : s.WritesRespect :=
  ⟨h.queued, by simp [h.jobs]⟩

theorem Serves.writesRespect {r : Request} {response : Response} (ho : s.order = some o)
    (hs : ∀ d, .write d ∈ s.jobs → d.Respects o)
    (hcond : UpdatesInTime st orderId s (.request r)) (ho' : t.order = some o')
    {d : UpdateDict} (hd : .write d ∈ t.jobs) (h : Serves st ac orderId s r response t) :
    d.Respects o' := by
  cases h with
  | refused =>
      obtain rfl : o = o' := Option.some.inj (ho.symm.trans ho')
      exact hs d hd
  | created _ _ _ _ hn => simp [hn] at ho
  | updated kw o₁ response _ ho₁ h =>
      obtain rfl : o₁ = o := Option.some.inj (ho₁.symm.trans ho)
      obtain ⟨o'', ho'', _, _, _, rfl⟩ := h.order ho
      obtain rfl : _ = o' := Option.some.inj (ho''.symm.trans ho')
      have hd' : d.Respects o₁ := by
        rw [h.jobs] at hd
        cases hacc : response.accepted with
        | false => exact hs d (by simpa [hacc] using hd)
        | true =>
            rw [hacc] at h hd
            rcases List.mem_append.mp hd with hd | hd
            · exact hs d hd
            · obtain rfl : d = kw.updateDict := by simpa using hd
              exact h.respects (hcond.request kw o₁ rfl ho)
      exact .of_eq (o := o₁) rfl rfl rfl hd'
  | picked driverId o₁ _ _ ho₁ hk hdel =>
      obtain rfl : o₁ = o := Option.some.inj (ho₁.symm.trans ho)
      cases ho'
      have hd' : .write d ∈ s.jobs := by
        rcases List.mem_append.mp hd with hd | hd
        · exact hd
        · split at hd <;> simp at hd
      have hadv := hcond.delivery o₁ d ho hd' (.inl ⟨driverId, rfl, hk, hdel⟩)
      refine .of_advanced (o := o₁) rfl ?_ rfl hadv
      simp [Order.advanced, Order.picked, Order.setDeliveryStatus, hdel]
  | halfPicked driverId o₁ _ _ ho₁ =>
      obtain rfl : o₁ = o := Option.some.inj (ho₁.symm.trans ho)
      cases ho'
      exact .of_eq (o := o₁) rfl rfl rfl (hs d hd)
  | delivered driverId o₁ _ _ ho₁ =>
      obtain rfl : o = o' := Option.some.inj (ho.symm.trans ho')
      refine hs d ?_
      rcases List.mem_append.mp hd with hd | hd
      · exact hd
      · unfold deliveryJobs at hd
        split at hd <;> simp at hd
  | collected collectionType =>
      obtain rfl : o = o' := Option.some.inj (ho.symm.trans ho')
      refine hs d ?_
      rcases List.mem_append.mp hd with hd | hd
      · exact hd
      · cases collectionType <;> simp [collectionJobs] at hd

theorem CreatesTrips.writesRespect {trips : List Trip} {e : Event} {base : OrderSlice}
    (hc : e.call? s = some (.createTrips trips, base)) (ho : s.order = some o)
    (hcond : UpdatesInTime st orderId s e) {d : UpdateDict} (hd : .write d ∈ s.jobs)
    (hs : d.Respects o) (ho' : t.order = some o') (h : CreatesTrips base o trips t) :
    d.Respects o' := by
  have hadvances : ∀ trip, trips = [trip] → trip.tripStatus = o.nextTrip → o.nextTrip ≠ none →
      d.Respects o.advanced := by
    rintro trip rfl hstatus hnext
    exact hcond.delivery o d ho hd (.inr ⟨trip, base, hc, hstatus, hnext⟩)
  cases h with
  | picked trip ht hp hdel =>
      cases ho'
      refine .of_advanced (o := o) rfl ?_ rfl
        (hadvances trip ht (by simp [Order.nextTrip, hdel, hp]) (by simp [Order.nextTrip, hdel]))
      simp [Order.advanced, Order.setDeliveryStatus, hdel]
  | delivered trip ht hp hdel =>
      cases ho'
      refine .of_advanced (o := o) rfl ?_ rfl
        (hadvances trip ht (by simp [Order.nextTrip, hdel, hp]) (by simp [Order.nextTrip, hdel]))
      simp [Order.advanced, Order.setDeliveryStatus, hdel]
  | other =>
      cases ho'
      exact .of_eq (o := o) rfl rfl rfl hs

theorem Call.Effect.writesRespect {c : Call} {e : Event} {base : OrderSlice}
    (hc : e.call? s = some (c, base)) (ho : s.order = some o)
    (hs : ∀ d, .write d ∈ s.jobs → d.Respects o) (hcond : UpdatesInTime st orderId s e)
    (ho' : t.order = some o') {d : UpdateDict} (hd : .write d ∈ s.jobs)
    (h : c.Effect st ac base o t) : d.Respects o' := by
  have hbase : base.order = some o := (Event.call?_records hc).1.trans ho
  by_cases hw : ∃ d', c = .write d'
  · obtain ⟨d', rfl⟩ := hw
    obtain rfl := h
    cases ho'
    have hd' := hs d' (Event.write_mem hc)
    by_cases hpm : d'.paymentMethod = none
    · exact .of_eq (o := o) (by rw [UpdateDict.apply, hpm, Option.getD_none]) rfl rfl (hs d hd)
    · -- the payment method is still open, so that nothing is closed by it
      have hdel : o.orderDeliveryStatus = none := by
        by_contra hne
        exact hpm (hd'.paymentMethod hne)
      exact .of_none (o := o) hdel rfl (hs d hd)
  by_cases ht : ∃ trips, c = .createTrips trips
  · obtain ⟨trips, rfl⟩ := ht
    exact CreatesTrips.writesRespect hc ho hcond hd (hs d hd) ho' h
  by_cases hm : ∃ raiseException, c = .createMoneyCollectionEntry raiseException
  · obtain ⟨raiseException, rfl⟩ := hm
    have hs' := hs d hd
    cases h with
    | booked data hmoney hu =>
        obtain ⟨hmc, hmcm⟩ := hcond.money o d ho hd ⟨raiseException, base, hc, hmoney, hu⟩
        cases ho'
        exact ⟨hs'.paymentMethod, hs'.isPosPayment, hs'.weight, hs'.shippingFees,
          hs'.discountAmount, fun _ => hmc, fun _ => hmcm⟩
    | free =>
        obtain rfl : o = o' := Option.some.inj (hbase.symm.trans ho')
        exact hs'
  · obtain ⟨o'', ho'', hk⟩ := h.keeps hbase
    obtain rfl : o'' = o' := Option.some.inj (ho''.symm.trans ho')
    have hterms := hk.terms fun d hd => hw ⟨d, hd⟩
    exact .of_eq (congrArg Terms.paymentMethod hterms)
      (congrArg Tracking.orderDeliveryStatus (hk.tracking fun a ha => ht ⟨a, ha⟩))
      (hk.moneyCollectionEntry fun a ha => hm ⟨a, ha⟩) (hs d hd)

theorem step_writesRespect (orderId : String) (s : OrderSlice) (e : Event)
    (hs : s.WritesRespect) (hcond : UpdatesInTime st orderId s e) :
    (step st ac orderId s e).WritesRespect := by
  have h := perform_steps st ac orderId e s
  refine ⟨step_queued orderId s e hs.queued, fun o' d ho' hd => ?_⟩
  unfold step at ho' hd
  generalize perform st ac orderId e s = p at h ho' hd
  obtain ⟨out, t⟩ := p
  cases ho : s.order with
  | none =>
      have hjobs : t.jobs = [] := h.jobs_of_none ho (hs.queued.free ho)
      rw [hjobs] at hd
      cases hd
  | some o =>
      have hs' := fun d => hs.respects o d ho
      cases h with
      | request r _ _ h => exact h.writesRespect ho hs' hcond ho' hd
      | ignored =>
          obtain rfl : o = o' := Option.some.inj (ho.symm.trans ho')
          exact hs' d hd
      | raised _ c base _ _ hc =>
          obtain ⟨hbase, -, -, -, hj⟩ := Event.call?_records hc
          obtain rfl : o = o' := Option.some.inj (ho.symm.trans (hbase.symm.trans ho'))
          exact hs' d (hj _ hd)
      | vacuous _ c _ hc hn =>
          have hn' : s.order = none := (Event.call?_records hc).1.symm.trans hn
          simp [ho] at hn'
      | returned _ c base o₁ _ hc ho₁ h =>
          obtain ⟨hbase, -, -, -, hj⟩ := Event.call?_records hc
          obtain rfl : o₁ = o := Option.some.inj (ho₁.symm.trans (hbase.trans ho))
          exact h.writesRespect hc ho hs' hcond ho' (hj _ (h.jobs ▸ hd))

theorem step_keepsClosedFields (orderId : String) (s : OrderSlice) (e : Event)
    (hs : s.WritesRespect) : KeepsClosedFields st ac orderId s e := by
  intro hkind o o' ho ho'
  have h := perform_steps st ac orderId e s
  unfold step at ho'
  generalize perform st ac orderId e s = p at h ho'
  obtain ⟨out, t⟩ := p
  have hsame : s.order = some o' → o.KeepsClosed o' := by
    intro ho'
    obtain rfl : o = o' := Option.some.inj (ho.symm.trans ho')
    exact .refl o
  cases h with
  | ignored => exact hsame ho'
  | raised _ c base _ _ hc | vacuous _ c _ hc =>
      exact hsame ((Event.call?_records hc).1.symm.trans ho')
  | request r _ _ h =>
      cases h with
      | refused | delivered | collected => exact hsame ho'
      | updated kw o₁ _ _ ho₁ h =>
          obtain rfl : o₁ = o := Option.some.inj (ho₁.symm.trans ho)
          exact h.keepsClosed ho ho'
      | _ => simp [Event.update?, Event.write?, Event.call?] at hkind
  | returned _ c base o₁ _ hc ho₁ h =>
      obtain rfl : o₁ = o :=
        Option.some.inj (ho₁.symm.trans ((Event.call?_records hc).1.trans ho))
      by_cases hw : ∃ d, c = .write d
      · obtain ⟨d, rfl⟩ := hw
        obtain rfl := h
        cases ho'
        exact (hs.respects o₁ d ho (Event.write_mem hc)).keepsClosed
      · have hu : e.update? = none := by
          cases e with
          | request => simp [Event.call?] at hc
          | _ => rfl
        have hn : e.write? s = none := by
          rw [Event.write?, hc]
          cases c with
          | write d => exact absurd ⟨d, rfl⟩ hw
          | _ => rfl
        simp [hu, hn] at hkind

/-! ## Runs -/

variable {db : Database} {es : List (String × Event)} {id : String}

/-- In a run in which the updates of the order are made and written in time, none of
them changes a field that is closed. -/
theorem closed_fields_are_kept (st : Settings) (ac : Accounting) (hdb : (db id).IsNew)
    (hm : Meets (dbStep st ac) (addressedTo id (UpdatesInTime st id)) db es) :
    Meets (dbStep st ac) (addressedTo id (KeepsClosedFields st ac id)) db es :=
  family_meets (I := OrderSlice.WritesRespect)
    (fun s e hs hC => step_writesRespect id s e hs hC)
    (fun s e hs _ => step_keepsClosedFields id s e hs) hdb.writesRespect hm

/-- The run of an order whose weight is changed between its pickup and its delivery. -/
theorem closed_fields_are_kept_on_delivery :
    Meets (dbStep .sample .sample) (addressedTo "A" (KeepsClosedFields .sample .sample "A"))
      Database.empty
      [("A", sampleCreate .onDelivery), ("A", .request (.pickup (some 7))),
       ("A", .request (.update { weight := some 5 })), ("A", .job 0)] := by
  refine closed_fields_are_kept .sample .sample (Database.empty_isNew "A") ?_
  refine ⟨fun _ => .of_idle ?_ ?_, fun _ => .of_idle ?_ ?_, fun _ => .of_idle ?_ ?_,
    fun _ => .of_idle ?_ ?_, True.intro⟩ <;> decide +kernel

/-- The order is picked up between the update request and its deferred write, and the
write changes the payment method of the picked order. -/
theorem closed_field_is_changed :
    ¬ Meets (dbStep .sample .sample) (addressedTo "A" (KeepsClosedFields .sample .sample "A"))
      Database.empty
      ([("A", sampleCreate .onPickup),
        ("A", .request (.update { paymentMethod := some .onDelivery })),
        ("A", .request (.pickup (some 7)))] ++ [("A", .job 0)]) := by
  rw [meets_append_iff]
  rintro ⟨-, h, -⟩
  have h := h rfl
  generalize hs : run (dbStep .sample .sample) Database.empty _ "A" = s at h
  have hrun : (Event.job 0).write? s ≠ none ∧
      s.order.map (fun o => (o.orderDeliveryStatus, o.paymentMethod)) =
        some (some .picked, .onPickup) ∧
      (step .sample .sample "A" s (.job 0)).order.map (·.paymentMethod) = some .onDelivery := by
    rw [← hs]
    decide +kernel
  obtain ⟨hw, hrun, hrun'⟩ := hrun
  obtain ⟨o, ho, hfields⟩ := Option.map_eq_some_iff.mp hrun
  obtain ⟨o', ho', hpm'⟩ := Option.map_eq_some_iff.mp hrun'
  obtain ⟨hd, hpm⟩ : o.orderDeliveryStatus = some .picked ∧ o.paymentMethod = .onPickup := by
    simpa using hfields
  have hkeep := (h (.inr hw) o o' ho ho').paymentMethod (by simp [Order.paymentMethodClosed, hd])
  rw [hpm, hpm'] at hkeep
  cases hkeep

end Fastrak
