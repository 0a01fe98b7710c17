import Fastrak.Order.Ledger

/-!
# A delivered order is billed

Which request queues the confirmation that bills an order depends on the payment
method at that moment. `BillingAhead` says that the order is billed, or that this is
queued, or that the request which queues it has not come yet. Requests and jobs keep
it, except the two ways in which an update request can change the payment method or
the shipping fees behind it.
-/

namespace Fastrak

open Transaction Run

variable {st : Settings} {ac : Accounting} {orderId : String} {s t : OrderSlice} {o o' : Order}

/-! ## The invariant -/

namespace OrderSlice

/-- A delivered order with shipping fees and no pending job has a posted invoice. -/
def DeliveryBilled (s : OrderSlice) : Prop :=
  ∀ o, s.order = some o → s.jobs = [] → o.shippingFees ≠ 0 →
    o.orderDeliveryStatus = some .delivered →
      ∃ m, s.invoice? o = some m ∧ m.state = .posted

/-- The order is billed, or its billing is queued, or the request that queues it under
the payment method is still to come. -/
def BillingAhead (s : OrderSlice) (o : Order) (paymentMethod : PaymentMethod) : Prop :=
  o.invoiceId ≠ none ∨ .confirmBillLoading ∈ s.jobs ∨
    match paymentMethod with
    | .onPickup => o.orderDeliveryStatus = none
    | .onDelivery | .onCredit =>
        o.orderDeliveryStatus ≠ some .delivered ∧ ∀ trips, .writeTrips trips ∉ s.jobs

theorem BillingAhead.mono {paymentMethod : PaymentMethod} (hi : o'.invoiceId = o.invoiceId)
    (hd : o'.orderDeliveryStatus = o.orderDeliveryStatus)
    (hc : .confirmBillLoading ∈ s.jobs → .confirmBillLoading ∈ t.jobs)
    (ht : ∀ trips, .writeTrips trips ∈ t.jobs → .writeTrips trips ∈ s.jobs)
    (h : s.BillingAhead o paymentMethod) : t.BillingAhead o' paymentMethod := by
  rcases h with h | h | h
  · exact .inl (hi ▸ h)
  · exact .inr (.inl (hc h))
  · refine .inr (.inr ?_)
    cases paymentMethod with
    | onPickup => exact hd.trans h
    | onDelivery | onCredit => exact ⟨hd ▸ h.1, fun trips hm => h.2 trips (ht trips hm)⟩

end OrderSlice

/-- The payment method changes, or the shipping fees from zero, only while the billing
is still ahead under the new payment method. -/
structure BillsInTime (s : OrderSlice) (e : Event) : Prop where
  write : ∀ d o, e.write? s = some d → s.order = some o → (d.apply o).shippingFees ≠ 0 →
    (d.apply o).paymentMethod ≠ o.paymentMethod ∨ o.shippingFees = 0 →
      s.BillingAhead o (d.apply o).paymentMethod
  update : ∀ kw fees o, e.update? = some kw → kw.shippingFees = some fees → fees ≠ 0 →
    s.order = some o → o.orderStatus = .done → o.shippingFees = 0 →
      s.BillingAhead o o.paymentMethod

theorem BillsInTime.of_none {e : Event} (hw : e.write? s = none) (hu : e.update? = none) :
    BillsInTime s e :=
  ⟨by simp [hw], by simp [hu]⟩

/-- Of a delivered order that has shipping fees, the billing is done or queued, and
otherwise ahead. -/
structure OrderSlice.Bills (s : OrderSlice) : Prop where
  queued : s.Queued
  invoicePosted : s.InvoicePosted
  billingAhead : ∀ o, s.order = some o → o.shippingFees ≠ 0 →
    s.BillingAhead o o.paymentMethod

theorem OrderSlice.IsNew.bills (h : s.IsNew) : s.Bills where
  queued := h.queued
  invoicePosted := h.invoicePosted
  billingAhead o ho _ := by
    refine .inr (.inr ?_)
    have hd := (h.order o ho).orderDeliveryStatus
    cases o.paymentMethod with
    | onPickup => exact hd
    | onDelivery | onCredit => exact ⟨by simp [hd], by simp [h.jobs]⟩

theorem OrderSlice.Bills.deliveryBilled (h : s.Bills) : s.DeliveryBilled := by
  intro o ho hjobs hf hd
  obtain ⟨i, hi⟩ : ∃ i, o.invoiceId = some i := by
    rcases h.billingAhead o ho hf with hi | hc | hp
    · exact Option.ne_none_iff_exists'.mp hi
    · simp [hjobs] at hc
    · cases hpm : o.paymentMethod <;> simp [hpm, hd] at hp
  obtain ⟨m, hm, hp⟩ := h.invoicePosted o i ho hi
  exact ⟨m, OrderSlice.invoice?_eq_some_iff.mpr ⟨i, hi, hm⟩, hp⟩

/-! ## Steps -/

namespace OrderSlice.BillingAhead

/-- A pickup of an order that is paid on pickup queues the billing. -/
theorem picked (driverId : ℕ) (hs : s.BillingAhead o o.paymentMethod) :
    BillingAhead
      { s with
        order := some (o.picked driverId)
        jobs := s.jobs ++ if o.paymentMethod = .onPickup then [.confirmBillLoading] else [] }
      (o.picked driverId) (o.picked driverId).paymentMethod := by
  rcases hs with hi | hc | hp
  · exact .inl hi
  · exact .inr (.inl (List.mem_append_left _ hc))
  · have hpm : (o.picked driverId).paymentMethod = o.paymentMethod := rfl
    rw [hpm]
    cases hpm : o.paymentMethod with
    | onPickup => exact .inr (.inl (by simp))
    | onDelivery | onCredit =>
        simp only [hpm] at hp
        refine .inr (.inr ⟨by simp [Order.picked, Order.setDeliveryStatus], ?_⟩)
        simpa using hp.2

/-- A delivery of any other order does. -/
theorem delivered (driverId : ℕ) (hs : s.BillingAhead o o.paymentMethod) :
    BillingAhead { s with jobs := s.jobs ++ deliveryJobs driverId o } o o.paymentMethod := by
  cases hpm : o.paymentMethod with
  | onDelivery | onCredit => exact .inr (.inl (by simp [deliveryJobs, hpm]))
  | onPickup =>
      rcases hs with hi | hc | hp
      · exact .inl hi
      · exact .inr (.inl (List.mem_append_left _ hc))
      · exact .inr (.inr (by simpa [hpm] using hp))

end OrderSlice.BillingAhead

/-- A request that succeeds keeps the billing ahead. -/
theorem Serves.billingAhead {r : Request} {response : Response} (ho : s.order = some o)
    (hs : o.shippingFees ≠ 0 → s.BillingAhead o o.paymentMethod)
    (hcond : BillsInTime s (.request r)) (hacc : response.accepted = true)
    (ho' : t.order = some o') (hf : o'.shippingFees ≠ 0)
    (h : Serves st ac orderId s r response t) : t.BillingAhead o' o'.paymentMethod := by
  have hjobs := h.jobs ho
  rw [hacc, if_pos rfl] at hjobs
  have hc : .confirmBillLoading ∈ s.jobs → .confirmBillLoading ∈ t.jobs :=
    fun hc => hjobs ▸ List.mem_append_left _ hc
  cases h with
  | refused _ _ hr | halfPicked _ _ _ hr => simp [hr] at hacc
  | created _ _ _ _ hn => simp [hn] at ho
  | updated kw o₁ _ _ ho₁ h =>
      obtain rfl : o₁ = o := by simpa [ho₁] using ho
      have ht : ∀ trips, .writeTrips trips ∈ t.jobs → .writeTrips trips ∈ s.jobs := by
        intro trips hm
        simpa [hjobs, Request.queues] using hm
      have hahead : s.BillingAhead o₁ o₁.paymentMethod := by
        by_cases hf₀ : o₁.shippingFees = 0
        · rcases h.shippingFees ho ho' with hsame | ⟨hdone, hfees⟩
          · exact absurd (hsame.trans hf₀) hf
          · exact hcond.update kw _ o₁ rfl hfees hf ho hdone hf₀
        · exact hs hf₀
      obtain ⟨o'', ho'', _, _, _, rfl⟩ := h.order ho
      obtain rfl : o' = _ := by simpa [ho'] using ho''
      exact hahead.mono rfl rfl hc ht
  | picked driverId o₁ _ _ ho₁ =>
      obtain rfl : o₁ = o := by simpa [ho₁] using ho
      cases ho'
      exact (hs hf).picked driverId
  | delivered driverId o₁ _ _ ho₁ =>
      obtain rfl : o₁ = o := by simpa [ho₁] using ho
      obtain rfl : o₁ = o' := by simpa [ho₁] using ho'
      exact (hs hf).delivered driverId
  | collected collectionType o₁ _ _ ho₁ =>
      obtain rfl : o₁ = o := by simpa [ho₁] using ho
      obtain rfl : o₁ = o' := by simpa [ho₁] using ho'
      refine (hs hf).mono rfl rfl hc fun trips hm => ?_
      cases collectionType <;> simpa [collectionJobs] using hm

/-- A job that returns keeps the billing ahead. -/
theorem Call.Effect.billingAhead {i : ℕ} {job : Job} (hj : s.jobs[i]? = some job)
    (hq : s.Queued) (ho : s.order = some o)
    (hs : o.shippingFees ≠ 0 → s.BillingAhead o o.paymentMethod)
    (hcond : BillsInTime s (.job i)) (ho' : t.order = some o') (hf : o'.shippingFees ≠ 0)
    (h : job.call.Effect st ac (s.dropJob i) o t) : t.BillingAhead o' o'.paymentMethod := by
  have hjobs : t.jobs = s.jobs.eraseIdx i := h.jobs
  have hc : job ≠ .confirmBillLoading →
      .confirmBillLoading ∈ s.jobs → .confirmBillLoading ∈ t.jobs :=
    fun hne hc => hjobs ▸ Table.mem_eraseIdx_of_ne hj (Ne.symm hne) hc
  have ht : ∀ trips, .writeTrips trips ∈ t.jobs → .writeTrips trips ∈ s.jobs :=
    fun trips hm => List.mem_of_mem_eraseIdx (hjobs ▸ hm)
  cases job with
  | confirmBillLoading =>
      cases h with
      | billed =>
          cases ho'
          exact .inl (by simp [Order.setInvoice])
      | unbilled _ hf' =>
          cases ho'
          exact absurd hf' hf
      | kept j hj | posted j _ hj =>
          cases ho'
          exact .inl (by simp [Order.confirmed, Order.setStatus, Order.setPaymentStatus,
            Order.setCancellationReason, hj])
  | write d =>
      obtain rfl := h
      cases ho'
      have hahead : s.BillingAhead o (d.apply o).paymentMethod := by
        by_cases hchange : (d.apply o).paymentMethod ≠ o.paymentMethod ∨ o.shippingFees = 0
        · exact hcond.write d o (by simp [Event.write?, Event.call?, hj, Job.call]) ho hf hchange
        · obtain ⟨hpm, hf₀⟩ : (d.apply o).paymentMethod = o.paymentMethod ∧ _ := by
            simpa only [not_or, not_not] using hchange
          rw [hpm]
          exact hs hf₀
      exact hahead.mono rfl rfl (hc (by simp)) ht
  | writeTrips trips =>
      have hmem : .writeTrips trips ∈ s.jobs := List.mem_of_getElem? hj
      obtain ⟨driverId, rfl⟩ := hq.writeTrips trips hmem
      cases h with
      | picked trip h hp => simp [← (List.cons.inj h).1] at hp
      | other h => simp at h
      | delivered trip h hp hd =>
          cases ho'
          rcases hs hf with hi | hc' | hp
          · exact .inl hi
          · exact .inr (.inl (hc (by simp) hc'))
          · -- the request that queued the trip queued the billing, or it came before
            cases hpm : o.paymentMethod with
            | onPickup => simp [hpm, hd] at hp
            | onDelivery | onCredit =>
                simp only [hpm] at hp
                exact absurd hmem (hp.2 _)
  | registerPayment | createMoneyCollectionEntry =>
      obtain ⟨o'', ho'', hk⟩ := h.keeps (s := s.dropJob i) ho
      obtain rfl : o' = o'' := by simpa [ho'] using ho''
      have hterms := hk.terms (by simp [Job.call])
      have hfees : o'.shippingFees = o.shippingFees := congrArg Terms.shippingFees hterms
      have hpm : o'.paymentMethod = o.paymentMethod := congrArg Terms.paymentMethod hterms
      have hd := congrArg Tracking.orderDeliveryStatus (hk.tracking (by simp [Job.call]))
      rw [hpm]
      exact (hs (hfees ▸ hf)).mono (hk.invoiceId (by simp [Job.call])) hd (hc (by simp)) ht

/-- The event is a request or a job, and it succeeds. -/
def ApiSucceeds (st : Settings) (ac : Accounting) (orderId : String) (s : OrderSlice)
    (e : Event) : Prop :=
  e.isApi ∧ (perform st ac orderId e s).1.isSuccess

instance (st : Settings) (ac : Accounting) (orderId : String) (s : OrderSlice) (e : Event) :
    Decidable (ApiSucceeds st ac orderId s e) :=
  inferInstanceAs (Decidable (_ ∧ _))

theorem Steps.billingAhead {e : Event} {out : Outcome} (hs : s.Bills) (hapi : e.isApi)
    (hsucc : out.isSuccess = true) (hcond : BillsInTime s e) (ho : s.order = some o)
    (ho' : t.order = some o') (hf : o'.shippingFees ≠ 0) (h : Steps st ac orderId s e out t) :
    t.BillingAhead o' o'.paymentMethod := by
  have hs' := hs.billingAhead o ho
  cases h with
  | request r _ _ h => exact h.billingAhead ho hs' hcond hsucc ho' hf
  | ignored | raised => cases hsucc
  | vacuous _ c _ hc hn => simp [(Event.call?_records hc).1, ho] at hn
  | returned _ c base o₁ _ hc ho₁ h =>
      cases e with
      | job i =>
          obtain ⟨job, hj, rfl, rfl⟩ := Event.call?_job.mp hc
          obtain rfl : o₁ = o := Option.some.inj (ho₁.symm.trans ho)
          exact Call.Effect.billingAhead hj hs.queued ho hs' hcond ho' hf h
      | request => simp [Event.call?] at hc
      | _ => cases hapi

theorem step_bills (orderId : String) (s : OrderSlice) (e : Event) (hs : s.Bills)
    (hapi : ApiSucceeds st ac orderId s e) (hcond : BillsInTime s e) :
    (step st ac orderId s e).Bills := by
  have h := perform_steps st ac orderId e s
  refine ⟨step_queued orderId s e hs.queued, ?_, fun o' ho' hf => ?_⟩
  · exact h.invoicePosted hs.invoicePosted fun _ _ _ _ => .inl hapi.2
  · cases ho : s.order with
    | some o => exact h.billingAhead hs hapi.1 hapi.2 hcond ho ho' hf
    | none =>
        obtain ⟨kw, lines, rfl⟩ := h.newOrder_of_none ho ho'
        have hjobs : (step st ac orderId s e).jobs = [] :=
          h.jobs_of_none ho (hs.queued.free ho)
        refine .inr (.inr ?_)
        cases (newOrder orderId kw lines).paymentMethod with
        | onPickup => rfl
        | onDelivery | onCredit => exact ⟨by simp [newOrder], by simp [hjobs]⟩

/-! ## Runs -/

variable {db : Database} {es : List (String × Event)} {id : String}

/-- In a run in which the requests and jobs of the order all succeed, and its payment
method and shipping fees change in time, the order is billed when it is delivered. -/
theorem delivered_order_is_billed (st : Settings) (ac : Accounting) (hdb : (db id).IsNew)
    (hm : Meets (dbStep st ac)
      (addressedTo id fun s e => ApiSucceeds st ac id s e ∧ BillsInTime s e) db es) :
    (run (dbStep st ac) db es id).DeliveryBilled :=
  (family_invariant (I := OrderSlice.Bills)
    (fun s e hs hC => step_bills id s e hs hC.1 hC.2) hdb.bills hm).deliveryBilled

/-- The run of an order that is paid on delivery. -/
theorem delivered_order_is_billed_on_delivery :
    (run (dbStep .sample .sample) Database.empty
      [("A", sampleCreate .onDelivery), ("A", .request (.pickup (some 7))),
       ("A", .request (.delivery (some 7))), ("A", .job 1), ("A", .job 0)]
      "A").DeliveryBilled := by
  refine delivered_order_is_billed .sample .sample (Database.empty_isNew "A") ?_
  have hC : ∀ s e, ApiSucceeds .sample .sample "A" s e → e.write? s = none → e.update? = none →
      "A" = "A" → ApiSucceeds .sample .sample "A" s e ∧ BillsInTime s e :=
    fun s e hapi hw hu _ => ⟨hapi, .of_none hw hu⟩
  refine ⟨hC _ _ ?_ ?_ ?_, hC _ _ ?_ ?_ ?_, hC _ _ ?_ ?_ ?_, hC _ _ ?_ ?_ ?_, hC _ _ ?_ ?_ ?_,
    True.intro⟩ <;> decide +kernel

/-- An order on delivery is changed to pay on pickup; the pickup comes before the
deferred write and the delivery after it, and neither of them bills the order. -/
theorem delivered_order_is_not_billed :
    let es := [("A", sampleCreate .onDelivery),
      ("A", .request (.update { paymentMethod := some .onPickup })),
      ("A", .request (.pickup (some 7))), ("A", .job 0),
      ("A", .request (.delivery (some 7))), ("A", .job 0)]
    Meets (dbStep .sample .sample) (addressedTo "A" (ApiSucceeds .sample .sample "A"))
        Database.empty es ∧
      ¬ (run (dbStep .sample .sample) Database.empty es "A").DeliveryBilled := by
  intro es
  refine ⟨by decide +kernel, fun h => ?_⟩
  generalize hs : run (dbStep .sample .sample) Database.empty es "A" = s at h
  have hrun : s.jobs = [] ∧ s.order.map (fun o =>
      (o.shippingFees, o.orderDeliveryStatus, o.invoiceId)) =
        some (100, some .delivered, none) := by
    rw [← hs]
    decide +kernel
  obtain ⟨hjobs, hrun⟩ := hrun
  obtain ⟨o, ho, hfields⟩ := Option.map_eq_some_iff.mp hrun
  obtain ⟨hf, hd, hi⟩ : o.shippingFees = 100 ∧ o.orderDeliveryStatus = some .delivered ∧
      o.invoiceId = none := by simpa using hfields
  obtain ⟨m, hinv, -⟩ := h o ho hjobs (by simp [hf]) hd
  simp [OrderSlice.invoice?, OrderSlice.move?, hi] at hinv

end Fastrak
