import Fastrak.Order.RequestEffect

/-!
# Refused requests

A controller answers an exception with a refusal and returns, so what the request wrote
before it is committed. A refused request leaves no trace exactly if it is not refused
late: the create request inserts the order before its lines, the pickup request confirms the
order before it creates the trip, and the update request creates and writes the shipping line,
writes the fees and the discount and rebuilds the invoice between the guards, the sums and the
fields that can still raise.
-/

namespace Fastrak

open Transaction Run

variable {V W : Type} [Amount V] [Amount W] {st : Settings} {ac : Accounting}
  {s t : OrderSlice} {o o' : Order}

/-! ## Late refusals -/

/-- The checks of the request pass, the fields store `f` for its shipping fees, and `p` is the
product of a line that is created for them. -/
structure UpdateKwargs.GivesFees (st : Settings) (ac : Accounting) (kw : UpdateKwargs W)
    (o : Order) (invoice : Option Move) (p : Option Product) (f : ℚ) : Prop where
  passes : kw.Passes ac o invoice
  shippingFees : ∃ fees, kw.shippingFees = some fees ∧ Amount.store st fees = .ok f
  product : targetProduct st o = .ok p

/-- The order is confirmed, and its fees are written and its invoice rebuilt. -/
structure UpdateKwargs.Rebuilds (st : Settings) (ac : Accounting) (kw : UpdateKwargs W)
    (o : Order) (invoice : Option Move) (p : Option Product) (f : ℚ) : Prop
    extends kw.GivesFees st ac o invoice p f where
  confirmed : o.orderStatus = .done
  isOpen : ¬ kw.rebuildClosed ac o invoice

/-- What the discount section makes of a confirmed order `o` and its invoice, or what it leaves
of them when it raises. -/
def UpdateKwargs.discounts (st : Settings) (ac : Accounting) (kw : UpdateKwargs W)
    (discount : W) (o : Order) (invoice : Option Move) :
    Except (Order × Option Move) (Order × Option Move) :=
  match kw.withSum st discount o with
  | .error _ => .error (o, invoice)
  | .ok o' =>
      match Amount.store st discount with
      | .error _ => .error (o', invoice)
      | .ok x =>
          match rebuild st ac (o'.setDiscount x) (some discount) invoice with
          | .error m => .error (o'.setDiscount x, m)
          | .ok m => .ok (o'.setDiscount x, m)

/-- The update request for the order `o` is refused when something has been written. -/
inductive UpdateKwargs.RefusedLate (st : Settings) (ac : Accounting) (kw : UpdateKwargs W)
    (o : Order) (invoice : Option Move) : Prop
  /-- The confirmed order has no shipping line, and its fees are closed. -/
  | line (p : Option Product) (f : ℚ) (hg : kw.GivesFees st ac o invoice p f)
      (hs : o.orderStatus = .done) (ht : o.hasTarget = false)
      (hc : kw.rebuildClosed ac o invoice)
  /-- The order is not confirmed, its line is new or had another amount, and the sum of the
  fees and the discount is refused. -/
  | sum (p : Option Product) (f : ℚ) (discount : W) (e : String)
      (hg : kw.GivesFees st ac o invoice p f) (hs : o.orderStatus ≠ .done)
      (hx : kw.discountAmount = some discount)
      (hsum : kw.withSum st discount ((o.targeted p f).setTargetAmount f) = .error e)
      (hne : (o.targeted p f).setTargetAmount f ≠ o)
  /-- The rebuild for the fees is interrupted, and the fees are new or the invoice is not
  as it was. -/
  | fees (p : Option Product) (f : ℚ) (m : Option Move) (he : kw.Rebuilds st ac o invoice p f)
      (hr : rebuild st ac (o.withFees p f) (none : Option W) invoice = .error m)
      (hne : ¬ (o.withFees p f = o ∧ m = invoice))
  /-- The rebuilt invoice has nothing to pay, which closes the discount. -/
  | paid (p : Option Product) (f : ℚ) (m : Option Move) (discount : W)
      (he : kw.Rebuilds st ac o invoice p f)
      (hr : rebuild st ac (o.withFees p f) (none : Option W) invoice = .ok m)
      (hx : kw.discountAmount = some discount) (hc : ac.isPaid m = true)
  /-- The discount section is interrupted, and the fees or the discount are new or the invoice
  is not as it was. -/
  | discount (p : Option Product) (f : ℚ) (m : Option Move) (discount : W) (o' : Order)
      (m' : Option Move) (he : kw.Rebuilds st ac o invoice p f)
      (hr : rebuild st ac (o.withFees p f) (none : Option W) invoice = .ok m)
      (hx : kw.discountAmount = some discount) (hc : ac.isPaid m = false)
      (hd : kw.discounts st ac discount (o.withFees p f) m = .error (o', m'))
      (hne : ¬ (o' = o ∧ m' = invoice))

/-- The create request is refused when its order has been inserted: the fields of the order
store all amounts, and a line does not store the sum of the fees and the discount. -/
def CreateKwargs.RefusedLate (st : Settings) (kw : CreateKwargs V) : Prop :=
  st.mainServiceProducts ≠ [] ∧ ∃ lines values e, bolLines st kw = .ok lines ∧
    kw.store st = .ok values ∧ lines.mapM (ServiceLine.store st) = .error e

/-- The request is refused when something has been written. -/
def Request.RefusedLate (st : Settings) (ac : Accounting) (orderId : String) (s : OrderSlice) :
    Request V W → Prop
  | .create (some kw) => s.order = none ∧ kw.RefusedLate st
  | .update kw =>
      orderId ≠ "" ∧ ∃ o, s.order = some o ∧ kw.RefusedLate st ac o (s.invoice? o)
  | .pickup (some driverId) =>
      ∃ o, s.order = some o ∧ PickupPasses st orderId driverId o ∧ o.orderDeliveryStatus ≠ none
  | _ => False

/-! ## What is compared -/

namespace OrderSlice

theorem SameRecords.refl (s : OrderSlice) : s.SameRecords s := ⟨rfl, rfl, rfl, rfl⟩

theorem putInvoice_eq_self_iff {m : Option Move} (h : m.isSome = (s.invoice? o).isSome) :
    o.putInvoice m s.moves = s.moves ↔ m = s.invoice? o := by
  constructor
  · intro heq
    have hinv : OrderSlice.invoice? { s with moves := o.putInvoice m s.moves } o = m :=
      Order.putInvoice_invoice? h rfl
    rw [heq] at hinv
    exact hinv.symm
  · rintro rfl
    unfold Order.putInvoice
    split
    · rename_i i m hi hm
      rw [invoice?, hi] at hm
      obtain ⟨hlt, rfl⟩ := List.getElem?_eq_some_iff.mp (show s.moves[i]? = some m from hm)
      exact List.set_getElem_self hlt
    · rfl

/-- The records with the order `o'` and its invoice `m` written. -/
def Wrote (s : OrderSlice) (o : Order) (written : Order × Option Move) (t : OrderSlice) : Prop :=
  written.2.isSome = (s.invoice? o).isSome ∧ ∃ cs, t = { s with
    order := some written.1
    moves := o.putInvoice written.2 s.moves
    computedFor := cs }

theorem wrote_invoice (o' : Order) (cs : List Order) {m : Option Move}
    (h : m.isSome = (s.invoice? o).isSome) :
    s.Wrote o (o', m) { s with
      order := some o'
      moves := o.putInvoice m s.moves
      computedFor := cs } :=
  ⟨h, cs, rfl⟩

theorem wrote_order (o o' : Order) (s : OrderSlice) :
    s.Wrote o (o', s.invoice? o) { s with order := some o' } := by
  have h := wrote_invoice (s := s) (o := o) o' s.computedFor rfl
  rwa [(putInvoice_eq_self_iff rfl).mpr rfl] at h

theorem wrote_self (ho : s.order = some o) : s.Wrote o (o, s.invoice? o) s := by
  have h := wrote_order o o s
  rwa [← ho] at h

/-- What has been written is the trace. -/
theorem Wrote.sameRecords_iff {written : Order × Option Move} (ho : s.order = some o)
    (h : s.Wrote o written t) : s.SameRecords t ↔ written.1 = o ∧ written.2 = s.invoice? o := by
  obtain ⟨hsome, cs, rfl⟩ := h
  simp only [SameRecords, ho, Option.some.injEq, putInvoice_eq_self_iff hsome, and_true]

end OrderSlice

open OrderSlice

/-! ## Update requests -/

instance (ac : Accounting) (kw : UpdateKwargs W) (o : Order) (invoice : Option Move) :
    Decidable (kw.rebuildClosed ac o invoice) :=
  inferInstanceAs (Decidable (_ ∨ _))

/-- What comes of the writing sections: whether they pass, the order and its invoice. -/
def UpdateKwargs.outcome (st : Settings) (ac : Accounting) (kw : UpdateKwargs W) (o : Order)
    (invoice : Option Move) : Bool × Order × Option Move :=
  match kw.shippingFees with
  | none => (kw.discountAmount.isNone, o, invoice)
  | some fees =>
      match targetProduct st o, Amount.store st fees with
      | .ok p, .ok f =>
          if o.orderStatus = .done then
            if kw.rebuildClosed ac o invoice then (false, o.targeted p f, invoice)
            else
              match rebuild st ac (o.withFees p f) (none : Option W) invoice with
              | .error m => (false, o.withFees p f, m)
              | .ok m =>
                  match kw.discountAmount with
                  | none => (true, o.withFees p f, m)
                  | some discount =>
                      if ac.isPaid m then (false, o.withFees p f, m)
                      else
                        match kw.discounts st ac discount (o.withFees p f) m with
                        | .error written => (false, written)
                        | .ok written => (true, written)
          else
            let o' := (o.targeted p f).setTargetAmount f
            match kw.discountAmount with
            | none => (true, o', invoice)
            | some discount =>
                match kw.withSum st discount o' with
                | .error _ => (false, o', invoice)
                | .ok o'' => (true, o'', invoice)
      | _, _ => (false, o, invoice)

namespace OrderSlice

/-- Writes on the order that the records hold already. -/
theorem Wrote.trans {r : OrderSlice} {m : Option Move} {written : Order × Option Move}
    (hid : o'.invoiceId = o.invoiceId) (h : s.Wrote o (o', m) r) (h' : r.Wrote o' written t) :
    s.Wrote o written t := by
  obtain ⟨hsome, cs, rfl⟩ := h
  obtain ⟨hsome', cs', rfl⟩ := h'
  rw [Order.putInvoice_invoice? hsome hid] at hsome'
  refine ⟨hsome'.trans hsome, cs', ?_⟩
  rw [← Order.putInvoice_putInvoice hsome' hid]

end OrderSlice

section Outcome

variable {kw : UpdateKwargs W} {fees discount : W} {passed : Bool}

/-- The discount section on a confirmed order that passes the guards. -/
theorem DiscountSection.wrote (ho : s.order = some o) (hs : o.orderStatus = .done)
    (hc : ¬ kw.rebuildClosed ac o (s.invoice? o))
    (h : DiscountSection st ac kw discount s o passed t) :
    ∃ written, s.Wrote o written t ∧ kw.discounts st ac discount o (s.invoice? o) =
      if passed then .ok written else .error written := by
  unfold UpdateKwargs.discounts
  cases h with
  | refused h =>
      obtain ⟨e, he⟩ := h.resolve_right fun h => hc h.2
      exact ⟨_, wrote_self ho, by rw [he]; rfl⟩
  | stored _ _ h => exact absurd hs h
  | unread o' e ho' _ _ hx => exact ⟨_, wrote_order .., by rw [ho']; dsimp only; rw [hx]; rfl⟩
  | interrupted o' x m cs ho' _ _ hx hr =>
      refine ⟨_, wrote_invoice _ _ (rebuild_isSome (.inr hr)), ?_⟩
      rw [ho']
      dsimp only
      rw [hx]
      dsimp only
      rw [hr]
      rfl
  | rebuilt o' x m ho' _ _ hx hr =>
      refine ⟨_, wrote_invoice _ _ (rebuild_isSome (.inl hr)), ?_⟩
      rw [ho']
      dsimp only
      rw [hx]
      dsimp only
      rw [hr]
      rfl

/-- The fees section alone, when it refuses the request. -/
theorem FeesSection.outcome_of_refused (ho : s.order = some o) (hf : kw.shippingFees = some fees)
    (h : FeesSection st ac kw fees s o false t) :
    ∃ written, s.Wrote o written t ∧ kw.outcome st ac o (s.invoice? o) = (false, written) := by
  unfold UpdateKwargs.outcome
  rw [hf]
  cases h with
  | unwritten e h =>
      refine ⟨_, wrote_self ho, ?_⟩
      rcases h with h | h
      · simp [h]
      · cases targetProduct st o <;> simp [h]
  | closed p f hp hstore hs hc => exact ⟨_, wrote_order .., by simp [hp, hstore, hs, hc]⟩
  | interrupted p f m cs hp hstore hs hc hr =>
      exact ⟨_, wrote_invoice _ _ (rebuild_isSome (.inr hr)), by
        simp [hp, hstore, hs, hc, hr]⟩

/-- What the writing sections do is their outcome. -/
theorem WriteSections.outcome (ho : s.order = some o) (h : WriteSections st ac kw s o passed t) :
    ∃ written, s.Wrote o written t ∧ kw.outcome st ac o (s.invoice? o) = (passed, written) := by
  cases h with
  | skipped hf hx => exact ⟨_, wrote_self ho, by simp [UpdateKwargs.outcome, hf, hx]⟩
  | feesRefused fees _ hf h => exact h.outcome_of_refused ho hf
  | fees fees _ hf hx h =>
      cases h with
      | stored p f hp hstore hs =>
          exact ⟨_, wrote_order .., by simp [UpdateKwargs.outcome, hf, hx, hp, hstore, hs]⟩
      | rebuilt p f m hp hstore hs hc hr =>
          exact ⟨_, wrote_invoice _ _ (rebuild_isSome (.inl hr)), by
            simp [UpdateKwargs.outcome, hf, hx, hp, hstore, hs, hc, hr]⟩
  | discount discount _ _ hf hx h =>
      have hsum : ∃ e, kw.withSum st discount o = .error e := by
        rw [UpdateKwargs.withSum, hf]
        exact ⟨_, rfl⟩
      obtain ⟨e, he⟩ := hsum
      cases h with
      | refused => exact ⟨_, wrote_self ho, by simp [UpdateKwargs.outcome, hf, hx]⟩
      | stored _ h | unread _ _ h | rebuilt _ _ _ h | interrupted _ _ _ _ h =>
          rw [he] at h
          cases h
  | both fees discount _ r _ o₁ hf hx hfees ho₁ h =>
      cases hfees with
      | stored p f hp hstore hs =>
          cases ho₁
          obtain ⟨lines, hl⟩ := o.targeted_eq p f
          have hs' : ((o.targeted p f).setTargetAmount f).orderStatus ≠ .done := by
            rw [hl]
            exact hs
          cases h with
          | refused h =>
              obtain ⟨e, he⟩ := h.resolve_right fun h => hs' h.1
              exact ⟨_, wrote_order .., by simp [UpdateKwargs.outcome, hf, hx, hp, hstore, hs, he]⟩
          | stored o' ho' =>
              exact ⟨_, wrote_order .., by simp [UpdateKwargs.outcome, hf, hx, hp, hstore, hs, ho']⟩
          | unread _ _ _ h => exact absurd h hs'
          | interrupted _ _ _ _ _ h => exact absurd h hs'
          | rebuilt _ _ _ _ h => exact absurd h hs'
      | rebuilt p f m hp hstore hs hc hr =>
          cases ho₁
          have hid := o.withFees_invoiceId p f
          have hinv : OrderSlice.invoice? { s with
                order := some (o.withFees p f)
                moves := o.putInvoice m s.moves
                computedFor := s.computedFor ++ [o.withFees p f] } (o.withFees p f) = m :=
            Order.putInvoice_invoice? (rebuild_isSome (.inl hr)) hid
          have hwrote := wrote_invoice (o.withFees p f) (s.computedFor ++ [o.withFees p f])
            (rebuild_isSome (.inl hr))
          have hpaid := UpdateKwargs.rebuildClosed_withFees_iff hc p f m
          have hs' := (o.withFees_orderStatus p f).trans hs
          by_cases hm : ac.isPaid m = true
          · -- a paid invoice closes the section
            have hclosed := hpaid.mpr hm
            cases h with
            | refused =>
                exact ⟨_, hwrote, by
                  simp [UpdateKwargs.outcome, hf, hx, hp, hstore, hs, hc, hr, hm]⟩
            | stored _ _ h => exact absurd hs' h
            | unread _ _ _ _ h | interrupted _ _ _ _ _ _ h | rebuilt _ _ _ _ _ h =>
                rw [hinv] at h
                exact absurd hclosed h
          · have hopen := fun h => hm (hpaid.mp h)
            rw [← hinv] at hopen
            obtain ⟨written, hwrote', hd⟩ := h.wrote rfl hs' hopen
            rw [hinv] at hd
            refine ⟨written, hwrote.trans hid hwrote', ?_⟩
            cases passed <;>
              simp [UpdateKwargs.outcome, hf, hx, hp, hstore, hs, hc, hr, hm, hd]

end Outcome

namespace UpdateKwargs

variable {kw : UpdateKwargs W} {invoice : Option Move} {written : Order × Option Move}

theorem RefusedLate.passes (h : kw.RefusedLate st ac o invoice) : kw.Passes ac o invoice := by
  cases h with
  | line _ _ hg | sum _ _ _ _ hg => exact hg.passes
  | fees _ _ _ he | paid _ _ _ _ he | discount _ _ _ _ _ _ he => exact he.passes

/-- A request that is refused late is refused, and has written something. -/
theorem RefusedLate.outcome (h : kw.RefusedLate st ac o invoice) :
    ∃ written, kw.outcome st ac o invoice = (false, written) ∧
      ¬ (written.1 = o ∧ written.2 = invoice) := by
  unfold UpdateKwargs.outcome
  cases h with
  | line p f hg hs ht hc =>
      obtain ⟨fees, hf, hstore⟩ := hg.shippingFees
      refine ⟨(o.targeted p f, invoice), by simp [hf, hg.product, hstore, hs, hc], fun h => ?_⟩
      have hlines := congrArg (·.serviceLineIds.length) h.1
      simp [Order.targeted, ht, Order.addTargetLine, Order.setServiceLines] at hlines
  | sum p f discount e hg hs hx hsum hne =>
      obtain ⟨fees, hf, hstore⟩ := hg.shippingFees
      exact ⟨((o.targeted p f).setTargetAmount f, invoice),
        by simp [hf, hg.product, hstore, hs, hx, hsum], fun h => hne h.1⟩
  | fees p f m he hr hne =>
      obtain ⟨fees, hf, hstore⟩ := he.shippingFees
      exact ⟨(o.withFees p f, m),
        by simp [hf, he.product, hstore, he.confirmed, he.isOpen, hr], hne⟩
  | paid p f m discount he hr hx hc =>
      obtain ⟨fees, hf, hstore⟩ := he.shippingFees
      refine ⟨(o.withFees p f, m),
        by simp [hf, he.product, hstore, he.confirmed, he.isOpen, hr, hx, hc], fun h => ?_⟩
      -- the rebuild was entered because the invoice was not paid
      obtain rfl : m = invoice := h.2
      exact he.isOpen (.inr (.inr hc))
  | discount p f m discount o' m' he hr hx hc hd hne =>
      obtain ⟨fees, hf, hstore⟩ := he.shippingFees
      exact ⟨(o', m'),
        by simp [hf, he.product, hstore, he.confirmed, he.isOpen, hr, hx, hc, hd], hne⟩

/-- A request that passes the checks, is refused and has written something is refused late. -/
theorem refusedLate_of_outcome (hk : kw.Passes ac o invoice)
    (h : kw.outcome st ac o invoice = (false, written))
    (hne : ¬ (written.1 = o ∧ written.2 = invoice)) : kw.RefusedLate st ac o invoice := by
  unfold UpdateKwargs.outcome at h
  have hself : (o, invoice) ≠ written := by
    rintro rfl
    exact hne ⟨rfl, rfl⟩
  cases hf : kw.shippingFees with
  | none => exact absurd (congrArg Prod.snd (by simpa only [hf] using h)) hself
  | some fees =>
      rw [hf] at h
      cases hp : targetProduct st o with
      | error e => exact absurd (congrArg Prod.snd (by simpa only [hp] using h)) hself
      | ok p =>
      cases hstore : Amount.store st fees with
      | error e => exact absurd (congrArg Prod.snd (by simpa only [hp, hstore] using h)) hself
      | ok f =>
      have hg : kw.GivesFees st ac o invoice p f := ⟨hk, ⟨fees, hf, hstore⟩, hp⟩
      simp only [hp, hstore] at h
      by_cases hs : o.orderStatus = .done
      · by_cases hc : kw.rebuildClosed ac o invoice
        · rw [if_pos hs, if_pos hc] at h
          refine .line p f hg hs ?_ hc
          by_contra ht
          rw [Order.targeted, if_pos (by simpa using ht)] at h
          exact hself (congrArg Prod.snd h)
        rw [if_pos hs, if_neg hc] at h
        have he : kw.Rebuilds st ac o invoice p f := ⟨hg, hs, hc⟩
        cases hr : rebuild st ac (o.withFees p f) (none : Option W) invoice with
        | error m =>
            rw [hr] at h
            cases h
            exact .fees p f m he hr hne
        | ok m =>
            rw [hr] at h
            cases hx : kw.discountAmount with
            | none => simp [hx] at h
            | some discount =>
                simp only [hx] at h
                cases hm : ac.isPaid m with
                | true => exact .paid p f m discount he hr hx hm
                | false =>
                    simp only [hm, Bool.false_eq_true, if_false] at h
                    cases hd : kw.discounts st ac discount (o.withFees p f) m with
                    | error result =>
                        rw [hd] at h
                        cases h
                        exact .discount p f m discount _ _ he hr hx hm hd hne
                    | ok result => simp [hd] at h
      · rw [if_neg hs] at h
        cases hx : kw.discountAmount with
        | none => simp [hx] at h
        | some discount =>
            simp only [hx] at h
            cases hsum : kw.withSum st discount ((o.targeted p f).setTargetAmount f) with
            | error e =>
                rw [hsum] at h
                cases h
                exact .sum p f discount e hg hs hx hsum fun h => hne ⟨h, rfl⟩
            | ok o' => simp [hsum] at h

end UpdateKwargs

/-! ## Requests -/

/-- A refusal, if the answer is one, has left the records `s` as they were. -/
def Traceless (s : OrderSlice) (answer : Response × OrderSlice) : Prop :=
  answer.1.accepted = false → s.SameRecords answer.2

variable {orderId : String}

theorem traceless_of_self (r : Response) : Traceless s (r, s) := fun _ => .refl s

theorem traceless_of_error {x : Tx Response} {e : String} (h : x.run s = .error e s) :
    Traceless s (respond x s) := by
  intro _
  rw [(respond_of_error h).2]
  exact .refl s

theorem traceless_of_error_iff {x : Tx Response} {e : String} (h : x.run s = .error e t) :
    Traceless s (respond x s) ↔ s.SameRecords t := by
  obtain ⟨hacc, ht⟩ := respond_of_error h
  rw [Traceless, ht]
  exact ⟨fun h => h hacc, fun h _ => h⟩

theorem traceless_of_ok {x : Tx Response} {r : Response} (h : x.run s = .ok r t)
    (hr : r.accepted = true) : Traceless s (respond x s) := by
  intro hacc
  rw [respond_of_ok h, hr] at hacc
  cases hacc

theorem update_traceless_iff (kw : UpdateKwargs W) (ho : s.order = some o) :
    Traceless s (respond (updateBillOfLoading st ac kw) s) ↔
      ¬ kw.RefusedLate st ac o (s.invoice? o) := by
  rcases updateBillOfLoading_run st ac kw ho with
    ⟨hk, e, hrun⟩ | ⟨hk, t, ⟨h, r, hrun, hr⟩ | ⟨h, e, hrun⟩⟩
  · exact iff_of_true (traceless_of_error hrun) fun hl => hk hl.passes
  · refine iff_of_true (traceless_of_ok hrun (by simp [Response.accepted, hr])) fun hl => ?_
    obtain ⟨written, -, houtcome⟩ := h.outcome ho
    obtain ⟨written', houtcome', -⟩ := hl.outcome
    cases houtcome.symm.trans houtcome'
  · obtain ⟨written, hwrote, houtcome⟩ := h.outcome ho
    rw [traceless_of_error_iff hrun, hwrote.sameRecords_iff ho]
    constructor
    · intro hsame hl
      obtain ⟨written', houtcome', hne⟩ := hl.outcome
      cases houtcome.symm.trans houtcome'
      exact hne hsame
    · intro hl
      by_contra hne
      exact hl (UpdateKwargs.refusedLate_of_outcome hk houtcome hne)

theorem create_traceless_iff (kw : CreateKwargs V) :
    Traceless s (respond (actionCreateBillOfLoading st orderId kw) s) ↔
      ¬ (s.order = none ∧ kw.RefusedLate st) := by
  by_cases hp : st.mainServiceProducts = []
  · refine iff_of_true (traceless_of_error (e := "Service Product Not Found") ?_)
      fun h => h.2.1 hp
    simp [actionCreateBillOfLoading, raiseIf_run, hp]
  cases hl : bolLines st kw with
  | error e =>
      refine iff_of_true (traceless_of_error (e := e) ?_) ?_
      · simp [actionCreateBillOfLoading, raiseIf_run, hp, hl, lift_run]
      · rintro ⟨-, -, lines, _, _, h, -⟩
        cases hl.symm.trans h
  | ok lines =>
  cases hv : kw.store st with
  | error e =>
      refine iff_of_true (traceless_of_error (e := e) ?_) ?_
      · simp [actionCreateBillOfLoading, raiseIf_run, hp, hl, hv, lift_run]
      · rintro ⟨-, -, _, values, _, -, h, -⟩
        cases hv.symm.trans h
  | ok values =>
  cases ho : s.order with
  | some o =>
      refine iff_of_true (traceless_of_error (e := duplicateOrderId orderId) ?_)
        fun h => Option.some_ne_none o h.1
      simp [actionCreateBillOfLoading, raiseIf_run, hp, hl, hv, lift_run, ho]
  | none =>
  cases hstore : lines.mapM (ServiceLine.store st) with
  | ok stored =>
      refine iff_of_true (traceless_of_ok (t := s.insertOrder (newOrder orderId values stored))
        (r := { code := some 201, message := some "Success", data := some orderId }) ?_ rfl) ?_
      · simp [-bind_pure_comp, actionCreateBillOfLoading, raiseIf_run, hp, hl, hv, hstore,
          lift_run, ho, OrderSlice.insertOrder, modifyOrder, OrderSlice.mapOrder]
        rfl
      · rintro ⟨-, -, _, _, e, hl', -, h⟩
        cases hl.symm.trans hl'
        cases hstore.symm.trans h
  | error e =>
      refine iff_of_false (fun h => ?_) fun h => h ⟨rfl, hp, lines, values, e, hl, hv, hstore⟩
      rw [traceless_of_error_iff (e := e) (t := s.insertOrder (newOrder orderId values []))] at h
      · cases ho.symm.trans h.1.symm
      · simp [actionCreateBillOfLoading, raiseIf_run, hp, hl, hv, hstore, lift_run, ho,
          OrderSlice.insertOrder]

theorem pickup_traceless_iff (ac : Accounting) {driverId : ℕ} :
    Traceless s (handle st ac orderId (.pickup (some driverId) : Request) s) ↔
      ¬ ∃ o, s.order = some o ∧ PickupPasses st orderId driverId o ∧
        o.orderDeliveryStatus ≠ none := by
  constructor
  · rintro h ⟨o, ho, hk, hd⟩
    have hid : ¬ (orderId = "" ∨ driverId = 0) := not_or.mpr ⟨hk.hasOrderId, hk.hasDriverId⟩
    rw [handle, if_neg hid,
      traceless_of_error_iff (confirmOrderPickup_run_of_late ho hk hd)] at h
    have htrips := congrArg (·.tripsIds.length) (Option.some.inj (h.1.trans ho))
    simp [Order.halfPicked, Order.addTrips, Order.setStatus] at htrips
  · intro hl hr
    have h : Serves st ac orderId s (.pickup (some driverId)) _ _ := handle_serves orderId _ s
    generalize handle st ac orderId (.pickup (some driverId) : Request) s = answer at hr h ⊢
    obtain ⟨response, t⟩ := answer
    cases h with
    | refused => exact .refl _
    | picked _ _ _ ha =>
        rw [hr] at ha
        cases ha
    | halfPicked _ o _ _ ho hk hd => exact absurd ⟨o, ho, hk, hd⟩ hl

/-- A delivery request and a money collection request write nothing but queue a job. -/
theorem handle_traceless {r : Request} (h : (∃ driverId, r = .delivery driverId) ∨
    ∃ collectionType, r = .moneyCollection collectionType) :
    Traceless s (handle st ac orderId r s) := by
  intro hr
  have hserves : Serves st ac orderId s r _ _ := handle_serves orderId r s
  generalize handle st ac orderId r s = answer at hr hserves ⊢
  obtain ⟨response, t⟩ := answer
  cases hserves with
  | refused => exact .refl _
  | created | updated | picked | halfPicked => simp at h
  | delivered _ _ _ ha | collected _ _ _ ha =>
      rw [hr] at ha
      cases ha

theorem handle_traceless_iff (r : Request V W) :
    Traceless s (handle st ac orderId r s) ↔ ¬ r.RefusedLate st ac orderId s := by
  cases r with
  | create kw =>
      cases kw with
      | none => exact iff_of_true (traceless_of_self _) id
      | some kw => exact create_traceless_iff kw
  | update kw =>
      by_cases hid : orderId = ""
      · rw [handle, if_pos hid]
        exact iff_of_true (traceless_of_self _) fun h => h.1 hid
      rw [handle, if_neg hid]
      cases ho : s.order with
      | none =>
          refine iff_of_true (traceless_of_error (e := "Object Doesn't Exists (BOL) ") ?_) ?_
          · simp [updateBillOfLoading, searchOrder, ho, throw_run]
          · rintro ⟨-, o, ho', -⟩
            cases ho.symm.trans ho'
      | some o =>
          rw [update_traceless_iff kw ho]
          refine not_congr ⟨fun h => ⟨hid, o, ho, h⟩, ?_⟩
          rintro ⟨-, o', ho', h⟩
          cases ho.symm.trans ho'
          exact h
  | pickup driverId =>
      cases driverId with
      | none => exact iff_of_true (traceless_of_self _) id
      | some driverId => exact pickup_traceless_iff ac
  | delivery driverId =>
      refine iff_of_true ?_ id
      have h : Traceless s (handle st ac orderId (.delivery driverId : Request) s) :=
        handle_traceless (.inl ⟨driverId, rfl⟩)
      cases driverId <;> exact h
  | moneyCollection collectionType =>
      refine iff_of_true ?_ id
      have h : Traceless s (handle st ac orderId (.moneyCollection collectionType : Request) s) :=
        handle_traceless (.inr ⟨collectionType, rfl⟩)
      cases collectionType <;> exact h

/-- A refused request leaves all records as they were exactly if it is not refused late. -/
theorem refused_request_leaves_no_trace (st : Settings) (ac : Accounting)
    (orderId : Option String) (r : JsonRequest) (db : Database) :
    ((serve st ac orderId r db).1.accepted = false →
        ∀ id, (db id).SameRecords ((serve st ac orderId r db).2 id)) ↔
      ∀ id, orderId = some id → ¬ r.RefusedLate st ac id (db id) := by
  cases orderId with
  | none =>
      constructor
      · intro _ id h
        cases h
      · intro _ _ id
        exact .refl (db id)
  | some orderId =>
      have hself : (serve st ac (some orderId) r db).2 orderId =
          (handle st ac orderId r (db orderId)).2 := Function.update_self ..
      have hother : ∀ id ≠ orderId, (serve st ac (some orderId) r db).2 id = db id :=
        fun id h => Function.update_of_ne h ..
      constructor
      · rintro h id ⟨⟩
        refine handle_traceless_iff r |>.mp fun hr => ?_
        rw [← hself]
        exact h hr orderId
      · intro h hr id
        by_cases hid : id = orderId
        · subst hid
          rw [hself]
          exact (handle_traceless_iff r).mpr (h id rfl) hr
        · rw [hother id hid]
          exact .refl (db id)

/-- Shipping fees for an order that was free and has been picked up: the request is refused,
and the order has a shipping line. A discount that is a text for an order that was free: the
sum is refused, and the order has a shipping line. -/
theorem refused_request_leaves_trace :
    (let db := run (dbStep .sample .sample) Database.empty
      [("A", .request (.create (some
        { userId := 5, paymentMethod := .onPickup, shippingFees := 0 }))),
       ("A", .request (.pickup (some 7)))]
    let r : JsonRequest := .update { shippingFees := some (.int 50) }
    (serve .sample .sample (some "A") r db).1.accepted = false ∧
      ¬ (db "A").SameRecords ((serve .sample .sample (some "A") r db).2 "A")) ∧
    (let db := run (dbStep .sample .sample) Database.empty
      [("A", .request (.create (some
        { userId := 5, paymentMethod := .onDelivery, shippingFees := 0 })))]
    let r : JsonRequest :=
      .update { shippingFees := some (.int 50), discountAmount := some (.text "10") }
    (serve .sample .sample (some "A") r db).1.accepted = false ∧
      ¬ (db "A").SameRecords ((serve .sample .sample (some "A") r db).2 "A")) := by
  decide +kernel

end Fastrak
