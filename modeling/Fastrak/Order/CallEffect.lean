import Fastrak.Order.System
import Fastrak.Library.Table

/-!
# What a call does when it returns

For each operation, the records after a run that returned, as the records before
it with a few fields written. Everything that is proved about runs of the system
is derived from these, and no later proof opens the body of an operation.
-/

namespace Fastrak

open Transaction Run

variable {st : Settings} {ac : Accounting} {s t : OrderSlice} {o : Order}

/-! ## Confirmation -/

/-- What `confirm_bill_loading` does to the order `o`. -/
inductive Confirms (st : Settings) (ac : Accounting) (s : OrderSlice) (o : Order) :
    OrderSlice → Prop
  /-- An invoice is created and posted. -/
  | billed (data : Move) (hi : o.invoiceId = none) (hf : o.shippingFees ≠ 0)
      (hd : prepareInvoice st o.confirmed = .ok data) :
      Confirms st ac s o
        { s with
          order := some (o.confirmed.setInvoice s.moves.length)
          moves := s.moves ++ [data.post ac s.moves.length]
          computedFor := s.computedFor ++ [o.confirmed] }
  /-- There is nothing to bill. -/
  | unbilled (hi : o.invoiceId = none) (hf : o.shippingFees = 0) :
      Confirms st ac s o { s with order := some o.confirmed }
  /-- The assigned invoice is not in draft. -/
  | kept (i : ℕ) (hi : o.invoiceId = some i)
      (hp : ∀ m, s.moves[i]? = some m → m.state = .posted) :
      Confirms st ac s o { s with order := some o.confirmed }
  /-- The assigned invoice is posted. -/
  | posted (i : ℕ) (m : Move) (hi : o.invoiceId = some i) (hm : s.moves[i]? = some m) :
      Confirms st ac s o
        { s with order := some o.confirmed, moves := s.moves.modify i (Move.post ac i) }

theorem createInvoice_run_ok {id : ℕ} (ho : s.order = some o)
    (h : (createInvoice st ac).run s = .ok id t) :
    ∃ data, prepareInvoice st o = .ok data ∧ id = s.moves.length ∧
      t = { s with moves := s.moves ++ [data], computedFor := s.computedFor ++ [o] } := by
  simp only [createInvoice, self_bind_run_ok_iff, ho, Option.some.injEq, exists_eq_left',
    recordComputation, modify_bind_run, lift_bind_run_ok_iff, createMove_run_ok_iff] at h
  obtain ⟨data, hd, _, rfl, rfl⟩ := h
  exact ⟨data, hd, rfl, rfl⟩

theorem confirmBillLoading_run_ok (ho : s.order = some o)
    (h : (confirmBillLoading st ac).run s = .ok () t) : Confirms st ac s o t := by
  simp only [confirmBillLoading, modifyOrder_bind_run, self_bind_run_ok_iff,
    OrderSlice.mapOrder_order, ho, Option.map_some, Option.some.injEq, exists_eq_left'] at h
  have hs : s.mapOrder Order.confirmed = { s with order := some o.confirmed } := by
    simp [OrderSlice.mapOrder, ho]
  rw [hs] at h
  have hf' : o.confirmed.shippingFees = o.shippingFees := rfl
  cases hi : o.invoiceId with
  | none =>
      have hi' : o.confirmed.invoiceId = none := hi
      simp only [hi', hf'] at h
      split at h
      case isTrue hf =>
        obtain ⟨id, r, hr, h⟩ := run_bind_ok_iff.mp h
        obtain ⟨data, hd, rfl, rfl⟩ := createInvoice_run_ok rfl hr
        obtain ⟨_, r', hp, h⟩ := run_bind_ok_iff.mp h
        obtain rfl := modifyOrder_run_ok_iff.mp h
        rcases onMove_run_ok hp with ⟨hm, _⟩ | ⟨i, m, hj, hm, -, rfl⟩
        · simp [OrderSlice.move?] at hm
        · cases hj
          have heffect : Confirms st ac s o _ := .billed data hi hf hd
          simpa [OrderSlice.mapOrder, OrderSlice.mapMoves] using heffect
      case isFalse hf =>
        obtain rfl : _ = t := by simpa using h
        exact .unbilled hi (by simpa using hf)
  | some i =>
      have hi' : o.confirmed.invoiceId = some i := hi
      simp only [hi', get_bind_run] at h
      split at h
      case isTrue hp =>
        obtain rfl : _ = t := by simpa using h
        refine .kept i hi fun m hm => ?_
        simpa [OrderSlice.move?, hm] using hp
      case isFalse hp =>
        rcases onMove_run_ok h with ⟨hm, rfl⟩ | ⟨j, m, hj, hm, -, rfl⟩
        · simp [hm] at hp
        · cases hj
          exact .posted i m hi hm

/-! ## Trips -/

/-- What the creation of `trips` does to the order `o`. -/
inductive CreatesTrips (s : OrderSlice) (o : Order) (trips : List Trip) : OrderSlice → Prop
  | picked (trip : Trip) (ht : trips = [trip]) (hp : trip.tripStatus = some .picked)
      (hd : o.orderDeliveryStatus = none) :
      CreatesTrips s o trips
        { s with order := some ((o.addTrips trips).setDeliveryStatus .picked) }
  | delivered (trip : Trip) (ht : trips = [trip]) (hp : trip.tripStatus = some .delivered)
      (hd : o.orderDeliveryStatus = some .picked) :
      CreatesTrips s o trips
        { s with order := some ((o.addTrips trips).setDeliveryStatus .delivered) }
  | other (ht : ∀ trip ∈ trips,
        trip.tripStatus ≠ some .picked ∧ trip.tripStatus ≠ some .delivered) :
      CreatesTrips s o trips { s with order := some (o.addTrips trips) }

theorem createTrips_run_ok {trips : List Trip} (ho : s.order = some o)
    (h : (createTrips trips).run s = .ok () t) : CreatesTrips s o trips t := by
  have hs : s.mapOrder (Order.addTrips trips) =
      { s with order := some (o.addTrips trips) } := by
    simp [OrderSlice.mapOrder, ho]
  unfold createTrips at h
  rw [modifyOrder_bind_run, hs] at h
  rcases trips with _ | ⟨trip, _ | ⟨_, _⟩⟩
  case nil =>
      obtain rfl : _ = t := by simpa using h
      exact .other (by simp)
  case cons.nil =>
      simp only [checkTripStatus] at h
      split at h
      case h_1 hp =>
        simp only [self_bind_run_ok_iff, Option.some.injEq, exists_eq_left',
          raiseIf_bind_run_ok_iff, not_not, modifyOrder_run_ok_iff] at h
        obtain ⟨hd, rfl⟩ := h
        exact .picked trip rfl hp hd
      case h_2 hp =>
        simp only [self_bind_run_ok_iff, Option.some.injEq, exists_eq_left',
          raiseIf_bind_run_ok_iff, not_not, modifyOrder_run_ok_iff] at h
        obtain ⟨hd, -, rfl⟩ := h
        exact .delivered trip rfl hp hd
      case h_3 hp hd =>
        obtain rfl : _ = t := by simpa using h
        exact .other (by simpa using ⟨hp, hd⟩)
  case cons.cons => simp at h

/-- A first pickup trip is always accepted. -/
theorem createTrips_picked_run (trip : Trip) (ho : s.order = some o)
    (hp : trip.tripStatus = some .picked) (hd : o.orderDeliveryStatus = none) :
    (createTrips [trip]).run s =
      .ok () { s with order := some ((o.addTrips [trip]).setDeliveryStatus .picked) } := by
  have hd' : (o.addTrips [trip]).orderDeliveryStatus = none := hd
  simp [createTrips, checkTripStatus, modifyOrder, self, hp, ho, hd', raiseIf_run,
    OrderSlice.mapOrder]

/-- A delivery trip is accepted when the order has been picked up. -/
theorem createTrips_delivered_run (trip : Trip) (ho : s.order = some o)
    (hp : trip.tripStatus = some .delivered) (hd : o.orderDeliveryStatus = some .picked) :
    (createTrips [trip]).run s =
      .ok () { s with order := some ((o.addTrips [trip]).setDeliveryStatus .delivered) } := by
  have hd' : (o.addTrips [trip]).orderDeliveryStatus = some .picked := hd
  simp [createTrips, checkTripStatus, modifyOrder, self, hp, ho, hd', raiseIf_run,
    OrderSlice.mapOrder]

/-- A second pickup trip raises, and the trip has been written. -/
theorem createTrips_picked_run_of_ne (trip : Trip) (ho : s.order = some o)
    (hp : trip.tripStatus = some .picked) (hd : o.orderDeliveryStatus ≠ none) :
    (createTrips [trip]).run s =
      .error "Pick-Up Driver Already Assigned"
        { s with order := some (o.addTrips [trip]) } := by
  have hd' : (o.addTrips [trip]).orderDeliveryStatus ≠ none := hd
  simp [createTrips, checkTripStatus, modifyOrder, self, hp, ho, hd', raiseIf_run,
    OrderSlice.mapOrder]

/-! ## Collecting money -/

/-- What `register_payment` does to the order `o`. -/
inductive RegistersPayment (st : Settings) (ac : Accounting) (s : OrderSlice) (o : Order) :
    OrderSlice → Prop
  /-- A payment is created, with an entry for the bank charge if there is one. -/
  | pos (payment : Payment) (bankEntry : Option Move) (status : Option OrderPaymentStatus)
      (hf : o.shippingFees ≠ 0) (hm : o.isPosPayment = true) (hi : o.invoiceId ≠ none)
      (hu : o.invoicePaymentCollection = none)
      (ha : payment.amount = (preparePosPaymentVals st ac s o).amount)
      (hb : ∀ m ∈ bankEntry, m.moveType = .entry) :
      RegistersPayment st ac s o
        { s with
          order := some
            { o with
              invoicePaymentCollection := some s.payments.length
              bankCommissionEntry :=
                if bankEntry = none then o.bankCommissionEntry else some s.moves.length
              orderPaymentStatus := status }
          moves := s.moves ++ bankEntry.toList
          payments := s.payments ++ [payment] }
  /-- An entry is created and posted. -/
  | cash (data : Move) (hf : o.shippingFees ≠ 0) (hm : o.isPosPayment = false)
      (hu : o.paymentCollectionEntry = none)
      (hd : prepareRegisterPaymentEntry st ac s o = .ok data) :
      RegistersPayment st ac s o
        { s with
          order := some (o.setPaymentCollectionEntry s.moves.length)
          moves := s.moves ++ [data.post ac s.moves.length] }
  /-- There is nothing to collect. -/
  | free (hf : o.shippingFees = 0) : RegistersPayment st ac s o s

/-- A created move that is then posted. -/
theorem actionPost_concat_run_ok {m : Move} {r : OrderSlice}
    (hr : r.moves = s.moves ++ [m])
    (h : (actionPost ac (some s.moves.length)).run r = .ok () t) :
    t = { r with moves := s.moves ++ [m.post ac s.moves.length] } := by
  rcases onMove_run_ok h with ⟨hm, _⟩ | ⟨i, _, hi, -, -, rfl⟩
  · simp [OrderSlice.move?, hr] at hm
  · cases hi
    simp [OrderSlice.mapMoves, hr]

theorem registerCashPayment_run_ok (ho : s.order = some o)
    (h : (registerCashPayment st ac).run s = .ok () t) :
    o.paymentCollectionEntry = none ∧
      ∃ data, prepareRegisterPaymentEntry st ac s o = .ok data ∧
        t = { s with
              order := some (o.setPaymentCollectionEntry s.moves.length)
              moves := s.moves ++ [data.post ac s.moves.length] } := by
  simp only [registerCashPayment, self_bind_run_ok_iff, ho, Option.some.injEq,
    exists_eq_left', get_bind_run, raiseIf_bind_run_ok_iff, not_not, lift_bind_run_ok_iff,
    createMove_bind_run_ok_iff, modifyOrder_bind_run] at h
  obtain ⟨-, hu, data, hd, -, hp⟩ := h
  refine ⟨hu, data, hd, ?_⟩
  rw [actionPost_concat_run_ok rfl hp]
  simp [OrderSlice.mapOrder, OrderSlice.mapMoves, ho]

/-- The payment status is all that it touches. -/
theorem toggleOrderPaymentStatus_run_ok (ho : s.order = some o)
    (h : (toggleOrderPaymentStatus ac).run s = .ok () t) :
    ∃ status, t = { s with order := some { o with orderPaymentStatus := status } } := by
  simp only [toggleOrderPaymentStatus, self_bind_run_ok_iff, ho, Option.some.injEq,
    exists_eq_left', get_bind_run] at h
  split at h
  · obtain rfl := modifyOrder_run_ok_iff.mp h
    exact ⟨some .paid, by simp [OrderSlice.mapOrder, ho, Order.setPaymentStatus]⟩
  · obtain rfl : s = t := by simpa using h
    exact ⟨o.orderPaymentStatus, by rw [← ho]⟩

theorem createPayment_bind_run_ok_iff {vals : Payment} {β : Type} {b : β} {f : ℕ → Tx β} :
    (createPayment ac vals >>= f).run s = .ok b t ↔
      ac.refusePayment vals = none ∧
        (f s.payments.length).run (s.mapPayments (· ++ [vals])) = .ok b t := by
  simp only [createPayment, bind_assoc, refuse_bind_run_ok_iff, get_bind_run,
    modify_bind_run, pure_bind]

theorem createBankCommissionEntry_run_ok (ho : s.order = some o)
    (h : (createBankCommissionEntry st ac).run s = .ok () t) :
    ∃ entry, entry.moveType = .entry ∧
      t = { s with
            order := some (o.setBankCommissionEntry s.moves.length)
            moves := s.moves ++ [entry] } := by
  simp only [createBankCommissionEntry, self_bind_run_ok_iff, ho, Option.some.injEq,
    exists_eq_left', lift_bind_run_ok_iff, createMove_bind_run_ok_iff,
    modifyOrder_bind_run] at h
  obtain ⟨data, hd, -, hp⟩ := h
  refine ⟨data.post ac s.moves.length, ?_, ?_⟩
  · simp only [prepareBankCommissionEntry, except_bind_ok_iff, except_pure_eq_ok_iff] at hd
    obtain ⟨-, -, -, -, -, -, rfl⟩ := hd
    rfl
  · rw [actionPost_concat_run_ok rfl hp]
    simp [OrderSlice.mapOrder, OrderSlice.mapMoves, ho]

/-- Posting a payment touches the payment and the payment status. -/
theorem postPayment_concat_run_ok {p : Payment} {r : OrderSlice} (ho : r.order = some o)
    (hr : r.payments = s.payments ++ [p])
    (h : (postPayment ac s.payments.length).run r = .ok () t) :
    ∃ status, t =
      { r with
        order := some { o with orderPaymentStatus := status }
        payments := s.payments ++ [p.post] } := by
  have hp : r.payments[s.payments.length]? = some p := by simp [hr]
  simp only [postPayment, get_bind_run, hp, refuse_bind_run_ok_iff, modify_bind_run,
    self_bind_run_ok_iff, OrderSlice.mapPayments_order, ho, Option.some.injEq,
    exists_eq_left'] at h
  obtain ⟨-, h⟩ := h
  split at h
  · obtain ⟨status, rfl⟩ := toggleOrderPaymentStatus_run_ok (o := o) (by simpa using ho) h
    exact ⟨status, by simp [OrderSlice.mapPayments, hr]⟩
  · obtain rfl : _ = t := by simpa using h
    exact ⟨o.orderPaymentStatus, by simp [OrderSlice.mapPayments, hr, ← ho]⟩

theorem registerPosPayment_run_ok {apiAction : Bool} (ho : s.order = some o)
    (hf : o.shippingFees ≠ 0) (hm : o.isPosPayment = true)
    (h : (registerPosPayment st ac apiAction).run s = .ok () t) :
    RegistersPayment st ac s o t := by
  simp only [registerPosPayment, self_bind_run_ok_iff, ho, Option.some.injEq,
    exists_eq_left', get_bind_run, raiseIf_bind_run_ok_iff, not_not,
    createPayment_bind_run_ok_iff, modifyOrder_bind_run] at h
  obtain ⟨hi, -, hu, -, h⟩ := h
  obtain ⟨_, r, hr, h⟩ := run_bind_ok_iff.mp h
  obtain ⟨status, rfl⟩ := toggleOrderPaymentStatus_run_ok
    (o := o.setInvoicePaymentCollection s.payments.length)
    (by simp [OrderSlice.mapPayments, OrderSlice.mapOrder, ho]) hr
  have hbank : ∃ bankEntry : Option Move, (∀ m ∈ bankEntry, m.moveType = .entry) ∧
      (if apiAction then pure () else postPayment ac s.payments.length).run
        { s with
          order := some
            { o with
              invoicePaymentCollection := some s.payments.length
              bankCommissionEntry :=
                if bankEntry = none then o.bankCommissionEntry else some s.moves.length
              orderPaymentStatus := status }
          moves := s.moves ++ bankEntry.toList
          payments := s.payments ++ [preparePosPaymentVals st ac s o] } = .ok () t := by
    split at h
    · obtain ⟨_, r, hr, h⟩ := run_bind_ok_iff.mp h
      obtain ⟨entry, he, rfl⟩ := createBankCommissionEntry_run_ok rfl hr
      exact ⟨some entry, by simpa using he, h⟩
    · exact ⟨none, by simp, by
        simpa [OrderSlice.mapPayments, OrderSlice.mapOrder,
          Order.setInvoicePaymentCollection] using h⟩
  obtain ⟨bankEntry, hb, h⟩ := hbank
  split at h
  · obtain rfl : _ = t := by simpa using h
    exact .pos _ bankEntry status hf hm hi hu rfl hb
  · obtain ⟨status', rfl⟩ := postPayment_concat_run_ok rfl rfl h
    exact .pos (preparePosPaymentVals st ac s o).post bankEntry status' hf hm hi hu rfl hb

theorem registerPayment_run_ok {apiAction : Bool} (ho : s.order = some o)
    (h : (registerPayment st ac apiAction).run s = .ok () t) :
    RegistersPayment st ac s o t := by
  simp only [registerPayment, self_bind_run_ok_iff, ho, Option.some.injEq,
    exists_eq_left', raiseIf_bind_run_ok_iff] at h
  obtain ⟨-, h⟩ := h
  split at h
  · simp at h
  · split at h
    case isTrue hf =>
      split at h
      case isTrue hm => exact registerPosPayment_run_ok ho hf hm h
      case isFalse hm =>
        obtain ⟨hu, data, hd, rfl⟩ := registerCashPayment_run_ok ho h
        exact .cash data hf (by simpa using hm) hu hd
    case isFalse hf =>
      obtain rfl : s = t := by simpa using h
      exact .free (by simpa using hf)

/-- What `create_money_collection_entry` does to the order `o`. -/
inductive CollectsMoney (st : Settings) (ac : Accounting) (s : OrderSlice) (o : Order) :
    OrderSlice → Prop
  | booked (data : Move) (hm : o.moneyCollected ≠ 0) (hu : o.moneyCollectionEntry = none)
      (hd : prepareMoneyCollectionEntry st o = .ok data) (ha : ac.refuseCreate data = none) :
      CollectsMoney st ac s o
        { s with
          order := some (o.setMoneyCollectionEntry s.moves.length)
          moves := s.moves ++ [data.post ac s.moves.length] }
  | free : CollectsMoney st ac s o s

theorem createMoneyCollectionEntry_run_ok {raiseException : Bool} (ho : s.order = some o)
    (h : (createMoneyCollectionEntry st ac raiseException).run s = .ok () t) :
    CollectsMoney st ac s o t := by
  simp only [createMoneyCollectionEntry, self_bind_run_ok_iff, ho, Option.some.injEq,
    exists_eq_left'] at h
  split at h
  case isTrue =>
    obtain ⟨-, rfl⟩ := raiseIf_run_ok_iff.mp h
    exact .free
  case isFalse hm =>
    simp only [raiseIf_bind_run_ok_iff, not_not, lift_bind_run_ok_iff,
      createMove_bind_run_ok_iff, modifyOrder_bind_run] at h
    obtain ⟨-, hu, data, hd, ha, hp⟩ := h
    rw [actionPost_concat_run_ok rfl hp]
    have heffect : CollectsMoney st ac s o _ := .booked data hm hu hd ha
    simpa [OrderSlice.mapOrder, OrderSlice.mapMoves, ho] using heffect

/-! ## Refund, payment and lock of the invoice -/

/-- What `refund_bill_loading` does to the order `o`. -/
inductive Refunds (ac : Accounting) (s : OrderSlice) (o : Order) : OrderSlice → Prop
  /-- The invoice is settled by a credit note. -/
  | reversed (i : ℕ) (m note : Move) (hi : o.invoiceId = some i) (hm : s.moves[i]? = some m)
      (hn : note.moveType = .outRefund) :
      Refunds ac s o
        { s with
          order := some (o.setStatus .refund)
          moves := s.moves.modify i
            (Move.reverse ac ∘ Move.setRefundReason o.refundReasonComment) ++ [note] }
  | unbilled (hi : s.invoice? o = none) :
      Refunds ac s o { s with order := some (o.setStatus .refund) }

theorem reverseMoves_run_ok {i : ℕ} {ref : String} {u : Unit}
    (h : (reverseMoves ac i ref).run s = .ok u t) :
    (s.moves[i]? = none ∧ t = s) ∨
      ∃ m : Move, s.moves[i]? = some m ∧
        t = { s with
          moves := s.moves.modify i (Move.reverse ac) ++
            [m.creditNote ac i s.moves.length ref] } := by
  simp only [reverseMoves, get_bind_run] at h
  split at h
  case h_1 m hm =>
    simp only [refuse_bind_run_ok_iff] at h
    obtain rfl : _ = t := by simpa using h.2
    exact .inr ⟨m, hm, rfl⟩
  case h_2 hm =>
    obtain rfl : s = t := by simpa using h
    exact .inl ⟨hm, rfl⟩

theorem refundBillLoading_run_ok (ho : s.order = some o)
    (h : (refundBillLoading ac).run s = .ok () t) : Refunds ac s o t := by
  simp only [refundBillLoading, self_bind_run_ok_iff, ho, Option.some.injEq,
    exists_eq_left', raiseIf_bind_run_ok_iff] at h
  obtain ⟨-, h⟩ := h
  cases hi : o.invoiceId with
  | none =>
      simp only [hi, modifyOrder_run_ok_iff] at h
      subst h
      have heffect : Refunds ac s o _ :=
        .unbilled (by simp [OrderSlice.invoice?, OrderSlice.move?, hi])
      simpa [OrderSlice.mapOrder, ho] using heffect
  | some i =>
      simp only [hi, moveWrite_bind_run_ok_iff] at h
      obtain ⟨-, h⟩ := h
      rw [get_bind_run] at h
      generalize "Reversal of " ++ _ = ref at h
      obtain ⟨_, r, hr, h⟩ := run_bind_ok_iff.mp h
      obtain rfl := modifyOrder_run_ok_iff.mp h
      rcases reverseMoves_run_ok hr with ⟨hm, rfl⟩ | ⟨n, hm, rfl⟩
      · have hm : s.moves[i]? = none := by simpa using hm
        have hmod : s.moves.modify i (Move.setRefundReason o.refundReasonComment) = s.moves :=
          List.modify_eq_self (List.getElem?_eq_none_iff.mp hm)
        have heffect : Refunds ac s o _ :=
          .unbilled (by simp [OrderSlice.invoice?, OrderSlice.move?, hi, hm])
        simpa [OrderSlice.mapOrder, OrderSlice.mapMoves, ho, hmod] using heffect
      · obtain ⟨m, hm, -⟩ : ∃ m, s.moves[i]? = some m ∧ _ := by simpa using hm
        have heffect : Refunds ac s o _ :=
          .reversed i m (n.creditNote ac i s.moves.length ref) hi hm rfl
        simpa [OrderSlice.mapOrder, OrderSlice.mapMoves, ho, List.modify_modify_eq] using heffect

/-- What a settlement of the invoice does. -/
inductive PaysInvoice (ac : Accounting) (s : OrderSlice) (o : Order) (amount : ℚ) :
    OrderSlice → Prop
  | paid (i : ℕ) (m : Move) (hi : o.invoiceId = some i) (hm : s.moves[i]? = some m)
      (hp : m.state = .posted) :
      PaysInvoice ac s o amount
        { s with moves := s.moves.modify i (Move.reconcile amount) }

theorem payInvoice_run_ok {amount : ℚ} (ho : s.order = some o)
    (h : (payInvoice ac amount).run s = .ok () t) : PaysInvoice ac s o amount t := by
  simp only [payInvoice, self_bind_run_ok_iff, ho, Option.some.injEq, exists_eq_left',
    get_bind_run] at h
  split at h
  case h_1 i m hi hm =>
    simp only [raiseIf_bind_run_ok_iff, not_or, not_not] at h
    obtain ⟨⟨hp, -, -⟩, h⟩ := h
    obtain rfl : _ = t := by simpa using h
    exact .paid i m hi (by simpa [OrderSlice.invoice?, OrderSlice.move?, hi] using hm) hp
  case h_2 => simp at h

theorem auditAndLockMove_run_ok (ho : s.order = some o)
    (h : auditAndLockMove.run s = .ok () t) :
    ∃ i, o.invoiceId = some i ∧ t = { s with moves := s.moves.modify i Move.lock } := by
  simp only [auditAndLockMove, self_bind_run_ok_iff, ho, Option.some.injEq,
    exists_eq_left'] at h
  split at h
  case h_1 i hi =>
    obtain ⟨-, rfl⟩ := moveWrite_run_ok_iff.mp h
    exact ⟨i, hi, rfl⟩
  case h_2 => simp at h

theorem writeUpdateDict_run_ok_iff {d : UpdateDict} {u : Unit} :
    (writeUpdateDict d).run s = .ok u t ↔ d.unread = none ∧ s.mapOrder d.apply = t := by
  unfold writeUpdateDict
  cases h : d.unread <;> simp

/-! ## Every call -/

/-- What a call does to the records `s` of the order `o`. -/
def Call.Effect (st : Settings) (ac : Accounting) (s : OrderSlice) (o : Order) :
    Call → OrderSlice → Prop
  | .confirmBillLoading, t => Confirms st ac s o t
  | .write d, t => t = { s with order := some (d.apply o) }
  | .createTrips trips, t => CreatesTrips s o trips t
  | .registerPayment _, t => RegistersPayment st ac s o t
  | .createMoneyCollectionEntry _, t => CollectsMoney st ac s o t
  | .refundBillLoading, t => Refunds ac s o t
  | .cancelBillLoading, t => t = { s with order := some (o.setStatus .canceled) }
  | .resetToDraft, t => t = { s with order := some (o.setStatus .draft) }
  | .auditedBillOfLoading, t =>
      o.tripsWith .picked ≠ [] ∧ o.tripsWith .delivered ≠ [] ∧
        t = { s with order := some (o.setStatus .audited) }
  | .setCancellationReason reason, t =>
      t = { s with order := some (o.setCancellationReason reason) }
  | .setRefundReason comment, t => t = { s with order := some (o.setRefundReason comment) }
  | .payInvoice amount, t => PaysInvoice ac s o amount t
  | .auditAndLockMove, t =>
      ∃ i, o.invoiceId = some i ∧ t = { s with moves := s.moves.modify i Move.lock }

/-- The inversion of a call: what it can have done when it returned. -/
theorem Call.effect {c : Call} (ho : s.order = some o)
    (h : (c.body st ac).run s = .ok () t) : c.Effect st ac s o t := by
  have hset : ∀ f : Order → Order, s.mapOrder f = { s with order := some (f o) } := by
    simp [OrderSlice.mapOrder, ho]
  cases c with
  | confirmBillLoading => exact confirmBillLoading_run_ok ho h
  | write d => exact (hset _ ▸ (writeUpdateDict_run_ok_iff.mp h).2).symm
  | createTrips trips => exact createTrips_run_ok ho h
  | registerPayment apiAction => exact registerPayment_run_ok ho h
  | createMoneyCollectionEntry raiseException => exact createMoneyCollectionEntry_run_ok ho h
  | refundBillLoading => exact refundBillLoading_run_ok ho h
  | cancelBillLoading =>
      simp only [Call.body, Fastrak.cancelBillLoading, self_bind_run_ok_iff, ho,
        Option.some.injEq, exists_eq_left', raiseIf_bind_run_ok_iff,
        modifyOrder_run_ok_iff, hset] at h
      exact h.2.symm
  | resetToDraft => exact (hset _ ▸ modifyOrder_run_ok_iff.mp h).symm
  | auditedBillOfLoading =>
      simp only [Call.body, Fastrak.auditedBillOfLoading, self_bind_run_ok_iff, ho,
        Option.some.injEq, exists_eq_left', lift_bind_run_ok_iff, checkBothDriverExists,
        raiseIf_eq_ok_iff, not_or, modifyOrder_run_ok_iff, hset] at h
      obtain ⟨_, ⟨hp, hd⟩, rfl⟩ := h
      exact ⟨hp, hd, rfl⟩
  | setCancellationReason reason => exact (hset _ ▸ modifyOrder_run_ok_iff.mp h).symm
  | setRefundReason comment => exact (hset _ ▸ modifyOrder_run_ok_iff.mp h).symm
  | payInvoice amount => exact payInvoice_run_ok ho h
  | auditAndLockMove => exact auditAndLockMove_run_ok ho h

/-- A call on a missing order does nothing when it returns. -/
theorem Call.run_ok_of_none {c : Call} (ho : s.order = none)
    (h : (c.body st ac).run s = .ok () t) : t = s := by
  have hset : ∀ f : Order → Order, s.mapOrder f = s := by
    intro f
    cases s
    simp_all [OrderSlice.mapOrder]
  cases c with
  | write d => exact (hset _ ▸ (writeUpdateDict_run_ok_iff.mp h).2).symm
  | resetToDraft | setCancellationReason | setRefundReason =>
      exact (hset _ ▸ modifyOrder_run_ok_iff.mp h).symm
  | createTrips trips =>
      simp only [Call.body, Fastrak.createTrips, modifyOrder_bind_run, hset] at h
      rcases trips with _ | ⟨trip, _ | ⟨_, _⟩⟩
      case nil => simpa [eq_comm] using h
      case cons.nil =>
          simp only [checkTripStatus] at h
          split at h
          case h_1 | h_2 => simp [-EStateM.run_bind, self_bind_run_ok_iff, ho] at h
          case h_3 => simpa [eq_comm] using h
      case cons.cons => simp at h
  | _ =>
      simp [-EStateM.run_bind, Call.body, Fastrak.confirmBillLoading, Fastrak.registerPayment,
        Fastrak.createMoneyCollectionEntry, Fastrak.refundBillLoading,
        Fastrak.cancelBillLoading, Fastrak.auditedBillOfLoading, Fastrak.payInvoice,
        Fastrak.auditAndLockMove, modifyOrder_bind_run, self_bind_run_ok_iff, ho] at h

/-- The queue is not touched by a call. -/
theorem Call.Effect.jobs {c : Call} (h : c.Effect st ac s o t) : t.jobs = s.jobs := by
  cases c <;> simp only [Call.Effect] at h
  case write | cancelBillLoading | resetToDraft | setCancellationReason | setRefundReason =>
    subst h; rfl
  case auditedBillOfLoading => obtain ⟨-, -, rfl⟩ := h; rfl
  case auditAndLockMove => obtain ⟨i, -, rfl⟩ := h; rfl
  all_goals cases h <;> rfl

end Fastrak
