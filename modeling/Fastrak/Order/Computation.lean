import Fastrak.Order.Frame
import Fastrak.Order.CallFrame

/-!
# Computations of invoice lines

Invoice lines are computed by a confirmation that creates the invoice and by the
rebuilds of the update endpoint. The history variable `computedFor` records them,
also when the transaction is rolled back afterwards, so a call is followed here on
the path that raises as well: every operation but the confirmation respects the
frame `uncomputed`.
-/

namespace Fastrak

open Transaction

variable {st : Settings} {ac : Accounting} {orderId : String} {s t : OrderSlice} {o : Order}

/-! ## Operations that compute nothing -/

/-- No invoice lines are computed. -/
def uncomputed : Frame OrderSlice := .same OrderSlice.computedFor

/-- The operation computes no invoice lines, whether it returns or raises. -/
abbrev Uncomputed {α : Type} (x : Tx α) : Prop := Respects uncomputed x

theorem admitsCalls_uncomputed : AdmitsCalls uncomputed where
  order _ _ _ := rfl
  moves _ _ := rfl
  payments _ _ := rfl

/-! ## Confirmation -/

/-- The orders for which a call computes invoice lines. -/
def Call.computes (o : Order) (c : Call) : List Order :=
  if c = .confirmBillLoading ∧ o.invoiceId = none ∧ o.shippingFees ≠ 0 then [o.confirmed] else []

/-- The lines of a new invoice are computed before anything can raise. -/
theorem confirmBillLoading_computedFor (ho : s.order = some o) :
    (stop ((confirmBillLoading st ac).run s)).computedFor =
      s.computedFor ++ Call.computes o .confirmBillLoading := by
  have hc : (s.mapOrder Order.confirmed).order = some o.confirmed := by
    rw [OrderSlice.mapOrder_order, ho]
    rfl
  have hid : o.confirmed.invoiceId = o.invoiceId := rfl
  have hfees : o.confirmed.shippingFees = o.shippingFees := rfl
  have hwrites := admitsCalls_uncomputed.admitsWrites ac
  rw [confirmBillLoading, modifyOrder_bind_run, self_bind_run hc, hid, hfees]
  cases hi : o.invoiceId with
  | none =>
      by_cases hf : o.shippingFees = 0
      · simp [Call.computes, hf]
      · have hrest : Uncomputed (do
            let invoiceData ← lift (prepareInvoice st o.confirmed)
            let invoiceResult ← createMove ac invoiceData
            actionPost ac (some invoiceResult)
            modifyOrder (Order.setInvoice invoiceResult)) :=
          respects_lift_bind fun _ hdata =>
            respects_bind (hwrites.createMove (prepareInvoice_fresh hdata)) fun _ =>
              respects_bind (hwrites.actionPost _) fun _ => hwrites.modifyOrder fun _ => rfl
        have hrun : _ = _ := hrest ((s.mapOrder Order.confirmed).recordComputation o.confirmed)
        simp only [if_pos hf, createInvoice, bind_assoc, self_bind_run hc, recordComputation,
          modify_bind_run]
        simpa [-EStateM.run_bind, Call.computes, hi, hf] using hrun
  | some i =>
      have hrest : Uncomputed (do
          if ((← get).move? (some i)).all (·.state = .posted) then pure ()
          else actionPost ac (some i)) :=
        respects_bind respects_get fun _ =>
          respects_ite (respects_pure _) (hwrites.actionPost _)
      have hrun : _ = _ := hrest (s.mapOrder Order.confirmed)
      simpa [-EStateM.run_bind, Call.computes, hi] using hrun

/-- What a call computes, whether it returns or raises. -/
theorem Call.computedFor (c : Call) (ho : s.order = some o) :
    (stop ((c.body st ac).run s)).computedFor = s.computedFor ++ c.computes o := by
  by_cases hc : c = .confirmBillLoading
  · subst hc
    exact confirmBillLoading_computedFor ho
  · have h : (stop ((c.body st ac).run s)).computedFor = s.computedFor :=
      admitsCalls_uncomputed.body hc s
    simp [Call.computes, hc, h]

/-- A call on a missing order computes nothing. -/
theorem Call.computedFor_of_none (c : Call) (ho : s.order = none) :
    (stop ((c.body st ac).run s)).computedFor = s.computedFor := by
  by_cases hc : c = .confirmBillLoading
  · subst hc
    simp [Call.body, Fastrak.confirmBillLoading, modifyOrder, self, ho, throw_run]
  · exact admitsCalls_uncomputed.body hc s

/-! ## Steps -/

/-- The orders for which an event, other than an update request, computes invoice
lines. -/
def Event.computes (s : OrderSlice) (o : Order) (e : Event) : List Order :=
  match e.call? s with
  | some (c, _) => c.computes o
  | none => []

/-- A call computes what its operation does, although it may be rolled back. -/
theorem transact_computedFor (x : Tx Unit) (s : OrderSlice) :
    (transact x s).2.computedFor = (stop (x.run s)).computedFor := by
  unfold transact
  rcases atomic_cases OrderSlice.rollback x s with ⟨⟨⟩, t, hrun, h⟩ | ⟨e, t, hrun, h⟩ <;>
    rw [h, hrun] <;> rfl

theorem perform_of_call {e : Event} {c : Call} {base : OrderSlice}
    (hc : e.call? s = some (c, base)) :
    perform st ac orderId e s = transact (c.body st ac) base := by
  cases e with
  | request r => simp [Event.call?] at hc
  | _ => simp only [perform, hc]

/-- Among the requests only an update request computes invoice lines. -/
theorem perform_computedFor_of_no_call {e : Event} (hc : e.call? s = none)
    (hu : e.update? = none ∨ s.order = none) :
    (perform st ac orderId e s).2.computedFor = s.computedFor := by
  have h := perform_steps st ac orderId e s
  generalize perform st ac orderId e s = p at h ⊢
  obtain ⟨out, t⟩ := p
  cases h with
  | request r _ _ h =>
      cases h with
      | updated kw o _ _ ho =>
          obtain hu | hu := hu
          · cases hu
          · simp [ho] at hu
      | _ => rfl
  | ignored => rfl
  | raised _ _ _ _ _ hc' | returned _ _ _ _ _ hc' | vacuous _ _ _ hc' =>
      rw [hc'] at hc
      cases hc

theorem step_computedFor {e : Event} (hu : e.update? = none) (ho : s.order = some o) :
    (step st ac orderId s e).computedFor = s.computedFor ++ e.computes s o := by
  rw [step, Event.computes]
  cases hc : e.call? s with
  | some p =>
      obtain ⟨c, base⟩ := p
      obtain ⟨hbase, -, -, hcs, -⟩ := Event.call?_records hc
      rw [perform_of_call hc, transact_computedFor, c.computedFor (hbase.trans ho), hcs]
  | none => rw [perform_computedFor_of_no_call hc (.inl hu), List.append_nil]

/-- Without an order no invoice lines are computed. -/
theorem step_computedFor_of_none {e : Event} (ho : s.order = none) :
    (step st ac orderId s e).computedFor = s.computedFor := by
  rw [step]
  cases hc : e.call? s with
  | some p =>
      obtain ⟨c, base⟩ := p
      obtain ⟨hbase, -, -, hcs, -⟩ := Event.call?_records hc
      rw [perform_of_call hc, transact_computedFor, c.computedFor_of_none (hbase.trans ho), hcs]
  | none => exact perform_computedFor_of_no_call hc (.inr ho)

end Fastrak
