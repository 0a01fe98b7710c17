import Fastrak.Order.Invoice

/-!
# The methods of a bill of loading

`write`, the creation of trips, confirmation, refund, cancellation, reset and
audit, with the operations on account moves they call. A method may raise after
some of its writes; whether these are kept is decided where it is called.
-/

namespace Fastrak

open Transaction

/-! ## Account moves -/

section Moves

variable (ac : Accounting)

/-- `account.move.create(vals)`, returning the new record. -/
def createMove (vals : Move) : Tx ℕ := do
  refuse (ac.refuseCreate vals)
  let id := (← get).moves.length
  modify (OrderSlice.mapMoves (· ++ [vals]))
  return id

@[simp] theorem createMove_run_ok_iff {vals : Move} {s t : OrderSlice} {id : ℕ} :
    (createMove ac vals).run s = .ok id t ↔
      ac.refuseCreate vals = none ∧ s.moves.length = id ∧ s.mapMoves (· ++ [vals]) = t := by
  simp [-EStateM.run_bind, -bind_pure_comp, createMove, run_bind_ok_iff]

theorem createMove_bind_run_ok_iff {vals : Move} {s t : OrderSlice} {β : Type} {b : β}
    {f : ℕ → Tx β} :
    (createMove ac vals >>= f).run s = .ok b t ↔
      ac.refuseCreate vals = none ∧
        (f s.moves.length).run (s.mapMoves (· ++ [vals])) = .ok b t := by
  rw [run_bind_ok_iff]
  simp [createMove_run_ok_iff]

/-- A write on the move a `Many2one` points to, which accounting may refuse for a
reason; nothing is done on an empty record. -/
def onMove (id : Option ℕ) (reason : Move → Option String) (f : ℕ → Move → Move) :
    Tx Unit := do
  match id, (← get).move? id with
  | some id, some m => do
      refuse (reason m)
      moveWrite id (f id)
  | _, _ => pure ()

/-- The write happens on an existing move that is neither refused nor locked. -/
theorem onMove_run_ok {id : Option ℕ} {reason : Move → Option String}
    {f : ℕ → Move → Move} {s t : OrderSlice} {u : Unit}
    (h : (onMove id reason f).run s = .ok u t) :
    (s.move? id = none ∧ t = s) ∨
      ∃ i m, id = some i ∧ s.moves[i]? = some m ∧ reason m = none ∧
        t = s.mapMoves (·.modify i (f i)) := by
  cases id with
  | none => simp_all [onMove, OrderSlice.move?]
  | some i =>
      cases hm : s.moves[i]? with
      | none => simp_all [onMove, OrderSlice.move?]
      | some m =>
          simp only [onMove, run_bind_ok_iff, OrderSlice.move?, EStateM.run_get,
            EStateM.Result.ok.injEq, Option.bind_some] at h
          obtain ⟨_, _, ⟨rfl, rfl⟩, h⟩ := h
          simp only [hm, run_bind_ok_iff, refuse_run_ok_iff, moveWrite_run_ok_iff] at h
          obtain ⟨_, _, ⟨hr, rfl⟩, _, rfl⟩ := h
          exact .inr ⟨i, m, rfl, hm, hr, rfl⟩

/-- The effect of posting: the move is posted and has a name. -/
def Move.post (id : ℕ) (m : Move) : Move :=
  { m with state := .posted, name := if m.name = "" then ac.moveName id else m.name }

/-- `action_post()`. -/
def actionPost (id : Option ℕ) : Tx Unit := onMove id ac.refusePost (Move.post ac)

/-- The effect of a reset: the reconciliation of the move is removed. -/
def Move.reset (m : Move) : Move :=
  { m with state := .draft, reconciled := 0, isReversed := false }

/-- `button_draft()`. -/
def buttonDraft (id : Option ℕ) : Tx Unit := onMove id ac.refuseDraft fun _ => Move.reset

def Move.setLines (lines : List InvoiceLine) (m : Move) : Move :=
  { m with invoiceLineIds := lines }

@[simp] theorem Move.reset_auditAndLock (m : Move) : m.reset.auditAndLock = m.auditAndLock := rfl

@[simp] theorem Move.setLines_auditAndLock (lines : List InvoiceLine) (m : Move) :
    (m.setLines lines).auditAndLock = m.auditAndLock := rfl

@[simp] theorem Move.setLines_setLines (lines lines' : List InvoiceLine) (m : Move) :
    (m.setLines lines).setLines lines' = m.setLines lines' := rfl

/-- The assignment of `invoice_line_ids`. -/
def setInvoiceLines (id : Option ℕ) (lines : List InvoiceLine) : Tx Unit :=
  onMove id (fun m => ac.refuseLines (m.setLines lines)) fun _ => Move.setLines lines

/-- A move that a credit note has settled. -/
def Move.reverse (m : Move) : Move :=
  { m with reconciled := ac.amountTotal m.invoiceLineIds, isReversed := true }

/-- The credit note of the move `id`, posted under the id `next`. -/
def Move.creditNote (id next : ℕ) (ref : String) (m : Move) : Move where
  moveType := .outRefund
  ref
  name := ac.moveName next
  state := .posted
  partnerId := m.partnerId
  journalId := m.journalId
  invoiceLineIds := m.invoiceLineIds
  reversedEntryId := some id
  reconciled := ac.amountTotal m.invoiceLineIds

/-- `_reverse_moves(cancel=True)`: a posted credit note that settles the move. -/
def reverseMoves (id : ℕ) (ref : String) : Tx Unit := do
  match (← get).moves[id]? with
  | some m => do
      refuse (ac.refuseReverse m)
      modify (OrderSlice.mapMoves fun moves =>
        moves.modify id (Move.reverse ac) ++ [m.creditNote ac id moves.length ref])
  | none => pure ()

end Moves

/-! ## Trips and `write` -/

/-- What `BillOfLoadingTrips.create` does once the record exists. -/
def checkTripStatus (res : Trip) : Tx Unit := do
  match res.tripStatus with
  | some .picked => do
      -- no delivery state means that the order has no pickup yet
      raiseIf ((← self).orderDeliveryStatus ≠ none) "Pick-Up Driver Already Assigned"
      modifyOrder (Order.setDeliveryStatus .picked)
  | some .delivered => do
      raiseIf ((← self).orderDeliveryStatus ≠ some .picked) "Missing Pickup Driver"
      raiseIf ((← self).orderDeliveryStatus = some .delivered)
        "Delivery Driver Already Assigned"
      modifyOrder (Order.setDeliveryStatus .delivered)
  | _ => pure ()

/-- `BillOfLoadingTrips.create(vals_list)` for new rows of `trips_ids`. The
records are created first and looked at afterwards; `res.trip_status` is the
field of a single record. -/
def createTrips (valsList : List Trip) : Tx Unit := do
  modifyOrder (Order.addTrips valsList)
  match valsList with
  | [] => pure ()
  | [res] => checkTripStatus res
  | _ => throw "Expected singleton: bill.of.loading.trips"

/-- The `vals` of an edited trip: the fields they hold. The description of a trip is a note
that no operation reads, and an edit of it alone holds neither field. -/
structure TripVals where
  driverId : Option ℕ := none
  tripStatus : Option (Option TripStatus) := none
  deriving DecidableEq, Repr

def TripVals.apply (vals : TripVals) (trip : Trip) : Trip where
  driverId := vals.driverId.getD trip.driverId
  tripStatus := vals.tripStatus.getD trip.tripStatus

def Order.modifyTrip (i : ℕ) (f : Trip → Trip) (o : Order) : Order :=
  { o with tripsIds := o.tripsIds.modify i f }

/-- What `BillOfLoadingTrips.write` does once the trip is written. -/
def checkEditedTrip (trip : Trip) : Tx Unit := do
  if trip.tripStatus = some .picked then do
    raiseIf ((← self).orderDeliveryStatus = some .picked) "Pick-Up Driver Already Assigned"
    modifyOrder (Order.setDeliveryStatus .picked)
  if trip.tripStatus = some .delivered then do
    raiseIf ((← self).orderDeliveryStatus = some .picked) "Pick-Up Driver Already Assigned"
    modifyOrder (Order.setDeliveryStatus .picked)

/-- `BillOfLoadingTrips.write(vals)` on the trip at position `i`. The trip is looked at
whichever fields `vals` hold. -/
def writeTrip (i : ℕ) (vals : TripVals) : Tx Unit := do
  modifyOrder (Order.modifyTrip i vals.apply)
  match (← self).tripsIds[i]? with
  | some trip => checkEditedTrip trip
  | none => throw "Record does not exist or has been deleted."

/-- The fields of `update_dict` written on the order. -/
def UpdateDict.apply (d : UpdateDict) (o : Order) : Order :=
  { o with
    pickupAddress := d.pickupAddress.getD o.pickupAddress
    deliveryAddress := d.deliveryAddress.getD o.deliveryAddress
    paymentMethod := d.paymentMethod.getD o.paymentMethod
    isPosPayment := d.isPosPayment.getD o.isPosPayment
    weight := d.weight.getD o.weight
    moneyCollected := d.moneyCollected.getD o.moneyCollected
    moneyCollectionPaymentMethod :=
      d.moneyCollectionPaymentMethod.getD o.moneyCollectionPaymentMethod
    shippingFees := d.shippingFees.getD o.shippingFees
    discountAmount := d.discountAmount.getD o.discountAmount }

/-- `write(update_dict)`, which raises on a value that a field cannot store. -/
def writeUpdateDict (d : UpdateDict) : Tx Unit :=
  match d.unread with
  | some e => throw e
  | none => modifyOrder d.apply

/-! ## Buttons and jobs on the order -/

section Buttons

variable (st : Settings) (ac : Accounting)

/-- Invoice lines are computed from the order as it stands. -/
def recordComputation (o : Order) : Tx Unit :=
  modify (OrderSlice.recordComputation o)

/-- `_create_invoice()`. -/
def createInvoice : Tx ℕ := do
  let o ← self
  recordComputation o
  let invoiceData ← lift (prepareInvoice st o)
  createMove ac invoiceData

/-- `confirm_bill_loading()`. -/
def confirmBillLoading : Tx Unit := do
  modifyOrder Order.confirmed
  let o ← self
  match o.invoiceId with
  | none =>
      if o.shippingFees ≠ 0 then do
        let invoiceResult ← createInvoice st ac
        actionPost ac (some invoiceResult)
        modifyOrder (Order.setInvoice invoiceResult)
      else pure ()
  | some currentInvoice =>
      -- validate the assigned invoice
      if ((← get).move? (some currentInvoice)).all (·.state = .posted) then pure ()
      else actionPost ac (some currentInvoice)

def Move.setRefundReason (comment : String) (m : Move) : Move :=
  { m with refundReasonComment := comment }

/-- `refund_bill_loading()`. -/
def refundBillLoading : Tx Unit := do
  let o ← self
  raiseIf (o.refundReasonComment = "") "Refund Reason Should be Added First"
  match o.invoiceId with
  | some invoice => do
      moveWrite invoice (Move.setRefundReason o.refundReasonComment)
      let name := (((← get).move? (some invoice)).map (·.name)).getD ""
      reverseMoves ac invoice ("Reversal of " ++ name)
  | none => pure ()
  modifyOrder (Order.setStatus .refund)

/-- `cancel_bill_loading()`. -/
def cancelBillLoading : Tx Unit := do
  raiseIf ((← self).cancellationReason = none) "Cancellation Reason is Required"
  modifyOrder (Order.setStatus .canceled)

/-- `reset_to_draft()`. -/
def resetToDraft : Tx Unit :=
  modifyOrder (Order.setStatus .draft)

/-- The trips of an order with the given status. -/
def Order.tripsWith (o : Order) (status : TripStatus) : List Trip :=
  o.tripsIds.filter (·.tripStatus = some status)

/-- `_check_both_driver_exists()`. -/
def checkBothDriverExists (o : Order) : Except String Unit :=
  raiseIf (o.tripsWith .picked = [] ∨ o.tripsWith .delivered = [])
    "Something Wrong with the Drivers Assigned Kindly Check it"

/-- `audited_bill_of_loading()`. -/
def auditedBillOfLoading : Tx Unit := do
  lift (checkBothDriverExists (← self))
  modifyOrder (Order.setStatus .audited)

end Buttons

end Fastrak
