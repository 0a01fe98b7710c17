import Fastrak.Order.Step

/-!
# Which step writes what

The fields of an order fall into groups, and each group is written by one kind of
call; the requests write the order in four ways. Every other step leaves the group
as it was, which is what the invariants of the next modules need to know about it.
-/

namespace Fastrak

variable {st : Settings} {ac : Accounting} {orderId : String} {s t : OrderSlice} {o : Order}

/-! ## Groups of fields -/

/-- What an update request is about. -/
structure Terms where
  paymentMethod : PaymentMethod
  isPosPayment : Bool
  weight : ℚ
  moneyCollected : ℚ
  moneyCollectionPaymentMethod : CollectionMethod
  shippingFees : ℚ
  discountAmount : ℚ
  serviceLineIds : List ServiceLine
  deriving DecidableEq

/-- Where the delivery stands. -/
structure Tracking where
  tripsIds : List Trip
  orderDeliveryStatus : Option DeliveryStatus
  deriving DecidableEq

/-- What has been collected for the invoice. -/
structure Collections where
  invoicePaymentCollection : Option ℕ
  paymentCollectionEntry : Option ℕ
  deriving DecidableEq

namespace Order

def terms (o : Order) : Terms where
  paymentMethod := o.paymentMethod
  isPosPayment := o.isPosPayment
  weight := o.weight
  moneyCollected := o.moneyCollected
  moneyCollectionPaymentMethod := o.moneyCollectionPaymentMethod
  shippingFees := o.shippingFees
  discountAmount := o.discountAmount
  serviceLineIds := o.serviceLineIds

def tracking (o : Order) : Tracking where
  tripsIds := o.tripsIds
  orderDeliveryStatus := o.orderDeliveryStatus

def collections (o : Order) : Collections where
  invoicePaymentCollection := o.invoicePaymentCollection
  paymentCollectionEntry := o.paymentCollectionEntry

end Order

/-! ## Calls -/

/-- The status that a call gives to the order. -/
def Call.newStatus : Call → Option OrderStatus
  | .confirmBillLoading => some .done
  | .refundBillLoading => some .refund
  | .cancelBillLoading => some .canceled
  | .resetToDraft => some .draft
  | .auditedBillOfLoading => some .audited
  | _ => none

/-- What a call leaves in place, group by group. -/
structure Call.Keeps (c : Call) (o o' : Order) : Prop where
  /-- The terms change by the deferred write of an update. -/
  terms : (∀ d, c ≠ .write d) → o'.terms = o.terms
  tracking : (∀ trips, c ≠ .createTrips trips) → o'.tracking = o.tracking
  collections : (∀ apiAction, c ≠ .registerPayment apiAction) → o'.collections = o.collections
  moneyCollectionEntry : (∀ raiseException, c ≠ .createMoneyCollectionEntry raiseException) →
    o'.moneyCollectionEntry = o.moneyCollectionEntry
  invoiceId : c ≠ .confirmBillLoading → o'.invoiceId = o.invoiceId
  orderStatus : o'.orderStatus = c.newStatus.getD o.orderStatus

/-- A confirmation assigns an invoice. -/
theorem Call.Keeps.setInvoice {o' : Order} (i : ℕ) (h : Call.confirmBillLoading.Keeps o o') :
    Call.confirmBillLoading.Keeps o (o'.setInvoice i) :=
  ⟨h.terms, h.tracking, h.collections, h.moneyCollectionEntry, fun h => absurd rfl h,
    h.orderStatus⟩

theorem Call.Effect.keeps {c : Call} (ho : s.order = some o) (h : c.Effect st ac s o t) :
    ∃ o', t.order = some o' ∧ c.Keeps o o' := by
  have hrefl : c.newStatus = none → c.Keeps o o := fun hc =>
    ⟨fun _ => rfl, fun _ => rfl, fun _ => rfl, fun _ => rfl, fun _ => rfl, by rw [hc]; rfl⟩
  cases c with
  | cancelBillLoading | resetToDraft | setCancellationReason | setRefundReason =>
      obtain rfl := h
      exact ⟨_, rfl, fun _ => rfl, fun _ => rfl, fun _ => rfl, fun _ => rfl, fun _ => rfl, rfl⟩
  | auditedBillOfLoading =>
      obtain ⟨-, -, rfl⟩ := h
      exact ⟨_, rfl, fun _ => rfl, fun _ => rfl, fun _ => rfl, fun _ => rfl, fun _ => rfl, rfl⟩
  | refundBillLoading =>
      cases h <;>
        exact ⟨_, rfl, fun _ => rfl, fun _ => rfl, fun _ => rfl, fun _ => rfl, fun _ => rfl, rfl⟩
  | auditAndLockMove =>
      obtain ⟨i, -, rfl⟩ := h
      exact ⟨o, ho, hrefl rfl⟩
  | payInvoice =>
      cases h
      exact ⟨o, ho, hrefl rfl⟩
  | write d =>
      obtain rfl := h
      exact ⟨_, rfl, fun h => absurd rfl (h d), fun _ => rfl, fun _ => rfl, fun _ => rfl,
        fun _ => rfl, rfl⟩
  | createTrips trips =>
      cases h <;>
        exact ⟨_, rfl, fun _ => rfl, fun h => absurd rfl (h trips), fun _ => rfl, fun _ => rfl,
          fun _ => rfl, rfl⟩
  | registerPayment apiAction =>
      cases h with
      | pos | cash =>
          exact ⟨_, rfl, fun _ => rfl, fun _ => rfl, fun h => absurd rfl (h apiAction),
            fun _ => rfl, fun _ => rfl, rfl⟩
      | free => exact ⟨o, ho, hrefl rfl⟩
  | createMoneyCollectionEntry raiseException =>
      cases h with
      | booked =>
          exact ⟨_, rfl, fun _ => rfl, fun _ => rfl, fun _ => rfl,
            fun h => absurd rfl (h raiseException), fun _ => rfl, rfl⟩
      | free => exact ⟨o, ho, hrefl rfl⟩
  | confirmBillLoading =>
      have hconfirmed : Call.confirmBillLoading.Keeps o o.confirmed :=
        ⟨fun _ => rfl, fun _ => rfl, fun _ => rfl, fun _ => rfl, fun h => absurd rfl h, rfl⟩
      cases h with
      | billed => exact ⟨_, rfl, hconfirmed.setInvoice s.moves.length⟩
      | unbilled | kept | posted => exact ⟨_, rfl, hconfirmed⟩

/-- A money collection entry is not replaced. -/
theorem Call.Effect.moneyCollectionEntry {c : Call} {o' : Order} (ho : s.order = some o)
    (hm : o.moneyCollectionEntry ≠ none) (ho' : t.order = some o')
    (h : c.Effect st ac s o t) : o'.moneyCollectionEntry = o.moneyCollectionEntry := by
  by_cases hc : ∃ raiseException, c = .createMoneyCollectionEntry raiseException
  · obtain ⟨raiseException, rfl⟩ := hc
    cases h with
    | booked data _ hu => exact absurd hu hm
    | free =>
        obtain rfl : o' = o := Option.some.inj (ho'.symm.trans ho)
        rfl
  · obtain ⟨o'', ho'', hk⟩ := h.keeps ho
    obtain rfl : o' = o'' := Option.some.inj (ho'.symm.trans ho'')
    exact hk.moneyCollectionEntry fun a ha => hc ⟨a, ha⟩

/-! ## Requests -/

/-- What a request leaves in place of the order it finds. -/
structure Request.Keeps (r : Request) (o o' : Order) : Prop where
  /-- An update request writes at most the service lines, the shipping fees and the
  discount at once. -/
  terms : o'.terms = { o.terms with
    shippingFees := o'.shippingFees
    discountAmount := o'.discountAmount
    serviceLineIds := o'.serviceLineIds }
  fees : (∀ kw, r ≠ .update kw) → o'.terms = o.terms
  tracking : (∀ driverId, r ≠ .pickup driverId) → o'.tracking = o.tracking
  orderStatus : (∀ driverId, r ≠ .pickup driverId) → o'.orderStatus = o.orderStatus
  collections : o'.collections = o.collections
  moneyCollectionEntry : o'.moneyCollectionEntry = o.moneyCollectionEntry
  invoiceId : o'.invoiceId = o.invoiceId

theorem Request.Keeps.refl (r : Request) (o : Order) : r.Keeps o o :=
  ⟨rfl, fun _ => rfl, fun _ => rfl, fun _ => rfl, rfl, rfl, rfl⟩

theorem Serves.keeps {r : Request} {response : Response} (ho : s.order = some o)
    (h : Serves st ac orderId s r response t) : ∃ o', t.order = some o' ∧ r.Keeps o o' := by
  cases h with
  | refused => exact ⟨o, ho, .refl r o⟩
  | created _ _ _ _ hn => simp [hn] at ho
  | delivered | collected => exact ⟨o, ho, .refl _ o⟩
  | updated kw o₁ _ _ ho₁ h =>
      obtain rfl : o₁ = o := by simpa [ho₁] using ho
      obtain ⟨o', ho', _, _, _, rfl⟩ := h.order ho₁
      exact ⟨_, ho', rfl, fun h => absurd rfl (h kw), fun _ => rfl, fun _ => rfl, rfl, rfl, rfl⟩
  | picked driverId o₁ _ _ ho₁ | halfPicked driverId o₁ _ _ ho₁ =>
      obtain rfl : o₁ = o := by simpa [ho₁] using ho
      exact ⟨_, rfl, rfl, fun _ => rfl, fun h => absurd rfl (h driverId),
        fun h => absurd rfl (h driverId), rfl, rfl, rfl⟩

/-! ## Steps -/

/-- The event is a request or a job. -/
def Event.isApi : Event → Bool
  | .request _ => true
  | .job _ => true
  | _ => false

/-- The deferred write that the event runs. -/
def Event.write? (s : OrderSlice) (e : Event) : Option UpdateDict :=
  match e.call? s with
  | some (.write d, _) => some d
  | _ => none

/-- The arguments of the update request that the event is. -/
def Event.update? : Event → Option UpdateKwargs
  | .request (.update kw) => some kw
  | _ => none

theorem Event.write?_of_call {e : Event} {d : UpdateDict} {base : OrderSlice}
    (h : e.call? s = some (.write d, base)) : e.write? s = some d := by
  rw [Event.write?, h]

/-- Writes are made by jobs. -/
theorem Event.write_mem {e : Event} {d : UpdateDict} {base : OrderSlice}
    (h : e.call? s = some (.write d, base)) : .write d ∈ s.jobs := by
  cases e with
  | job i =>
      obtain ⟨job, hj, hcall, -⟩ := Event.call?_job.mp h
      have hmem : job ∈ s.jobs := List.mem_of_getElem? hj
      cases job <;> simp_all [Job.call]
  | button b => cases b <;> simp [Event.call?, Button.call] at h
  | _ => simp [Event.call?] at h

/-- An order once stored stays stored. -/
theorem Steps.order_isSome {e : Event} {out : Outcome} (ho : s.order = some o)
    (h : Steps st ac orderId s e out t) : ∃ o', t.order = some o' := by
  cases h with
  | request r _ _ h =>
      obtain ⟨o', ho', -⟩ := h.keeps ho
      exact ⟨o', ho'⟩
  | ignored => exact ⟨o, ho⟩
  | raised _ c base _ _ hc => exact ⟨o, (Event.call?_records hc).1.trans ho⟩
  | returned _ c base o₁ _ hc ho₁ h =>
      obtain ⟨o', ho', -⟩ := h.keeps ho₁
      exact ⟨o', ho'⟩
  | vacuous _ c _ hc => exact ⟨o, (Event.call?_records hc).1.trans ho⟩

/-- An order appears by a create request, and as it was made there. -/
theorem Steps.order_of_none {e : Event} {out : Outcome} (ho : s.order = none)
    (h : Steps st ac orderId s e out t) : t.order = none ∨ ∃ kw lines,
      e = .request (.create (some kw)) ∧ t.order = some (newOrder orderId kw lines) := by
  rcases h.of_none ho with ⟨hn, -⟩ | ⟨kw, lines, he, rfl⟩
  · exact .inl hn
  · exact .inr ⟨kw, lines, he, rfl⟩

/-- An order that appears is a new one. -/
theorem Steps.newOrder_of_none {e : Event} {out : Outcome} {o' : Order} (ho : s.order = none)
    (ho' : t.order = some o') (h : Steps st ac orderId s e out t) :
    ∃ kw lines, o' = newOrder orderId kw lines := by
  rcases h.order_of_none ho with hn | ⟨kw, lines, -, hn⟩
  · simp [hn] at ho'
  · exact ⟨kw, lines, Option.some.inj (ho'.symm.trans hn)⟩

end Fastrak
