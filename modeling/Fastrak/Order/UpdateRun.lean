import Fastrak.Order.InvoiceRebuild
import Fastrak.Order.UpdateCheck

/-!
# The run of an update request

The update endpoint writes between guards that can still raise, so its run is given for the
requests it accepts and for the requests it refuses alike, whatever values their amounts are.
`FeesSection` and `DiscountSection` list what the two writing sections can have done to an
order, and `WriteSections` puts them together.
-/

namespace Fastrak

open Transaction

variable {V : Type} [Amount V] {st : Settings} {ac : Accounting} {s t : OrderSlice} {o : Order}

/-! ## The writing sections -/

/-- The guards of the sections on shipping fees and discount of a confirmed order. -/
def UpdateKwargs.rebuildClosed (ac : Accounting) (kw : UpdateKwargs V) (o : Order)
    (invoice : Option Move) : Prop :=
  kw.meets o .onPickup ∨ o.orderDeliveryStatus = some .delivered ∨ ac.isPaid invoice = true

omit [Amount V] in
theorem checkRebuild_run_of_closed (ac : Accounting) {kw : UpdateKwargs V}
    {pickedUp delivered : String} (ho : s.order = some o)
    (h : kw.rebuildClosed ac o (s.invoice? o)) :
    ∃ e, (checkRebuild ac kw pickedUp delivered).run s = .error e s := by
  by_cases hp : kw.meets o .onPickup
  · exact ⟨pickedUp, by simp [checkRebuild, self, ho, raiseIf_run, hp]⟩
  by_cases hd : o.orderDeliveryStatus = some .delivered
  · exact ⟨delivered, by simp [checkRebuild, self, ho, raiseIf_run, hp, hd]⟩
  · have hi : ac.isPaid (s.invoice? o) = true := by
      simpa [UpdateKwargs.rebuildClosed, hp, hd] using h
    exact ⟨"Invoice already has been paid", by
      simp [checkRebuild, self, ho, raiseIf_run, hp, hd, hi]⟩

omit [Amount V] in
theorem checkRebuild_run_of_open {kw : UpdateKwargs V} {pickedUp delivered : String}
    (ho : s.order = some o) (h : ¬ kw.rebuildClosed ac o (s.invoice? o)) :
    (checkRebuild ac kw pickedUp delivered).run s = .ok () s := by
  simp only [UpdateKwargs.rebuildClosed, not_or] at h
  simp [checkRebuild, self, ho, raiseIf_run, h]

/-- The product of a target line that has to be created. -/
def targetProduct (st : Settings) (o : Order) : Except String (Option Product) :=
  if o.hasTarget then pure none else single "product.product" st.mainServiceProducts

namespace Order

/-- The order with a target line. -/
def targeted (product : Option Product) (fees : ℚ) (o : Order) : Order :=
  if o.hasTarget then o else o.addTargetLine product fees

/-- The order for which the shipping fees section rebuilds the invoice. -/
def withFees (product : Option Product) (fees : ℚ) (o : Order) : Order :=
  ((o.targeted product fees).setTargetAmount fees).setShippingFees fees

/-- The order for which the discount section rebuilds the invoice. -/
def withDiscount (fees discount : ℚ) (o : Order) : Order :=
  (o.setTargetAmount (fees + discount)).setDiscount discount

theorem setTargetAmount_setTargetAmount (a b : ℚ) (o : Order) :
    (o.setTargetAmount a).setTargetAmount b = o.setTargetAmount b := by
  simp only [setTargetAmount, setServiceLines, List.map_map]
  congr 1
  apply List.map_congr_left
  intro line _
  by_cases h : line.isTarget = true
  · have h' : ({ line with amount := a } : ServiceLine).isTarget = true := h
    simp [h, h']
  · simp [h]

@[simp] theorem withFees_setTargetAmount (product : Option Product) (fees : ℚ) (o : Order) :
    (o.withFees product fees).setTargetAmount fees = o.withFees product fees := by
  have h := setTargetAmount_setTargetAmount fees fees (o.targeted product fees)
  exact congrArg (setShippingFees fees) h

@[simp] theorem withDiscount_setTargetAmount (fees discount : ℚ) (o : Order) :
    (o.withDiscount fees discount).setTargetAmount (fees + discount) =
      o.withDiscount fees discount := by
  have h := setTargetAmount_setTargetAmount (fees + discount) (fees + discount) o
  exact congrArg (setDiscount discount) h

theorem targeted_eq (product : Option Product) (fees : ℚ) (o : Order) :
    ∃ lines, o.targeted product fees = o.setServiceLines lines := by
  unfold targeted
  split
  · exact ⟨o.serviceLineIds, rfl⟩
  · exact ⟨_, rfl⟩

theorem withFees_eq (product : Option Product) (fees : ℚ) (o : Order) :
    ∃ lines, o.withFees product fees = (o.setServiceLines lines).setShippingFees fees := by
  obtain ⟨lines, h⟩ := o.targeted_eq product fees
  exact ⟨_, by rw [withFees, h]; rfl⟩

@[simp] theorem withFees_invoiceId (product : Option Product) (fees : ℚ) (o : Order) :
    (o.withFees product fees).invoiceId = o.invoiceId := by
  obtain ⟨lines, h⟩ := o.withFees_eq product fees
  rw [h]
  rfl

@[simp] theorem withFees_orderStatus (product : Option Product) (fees : ℚ) (o : Order) :
    (o.withFees product fees).orderStatus = o.orderStatus := by
  obtain ⟨lines, h⟩ := o.withFees_eq product fees
  rw [h]
  rfl

end Order

omit [Amount V] in
/-- After the rebuild for the fees only a paid invoice can close the one for the discount. -/
theorem UpdateKwargs.rebuildClosed_withFees_iff {kw : UpdateKwargs V} {invoice : Option Move}
    (hopen : ¬ kw.rebuildClosed ac o invoice) (p : Option Product) (fees : ℚ) (m : Option Move) :
    kw.rebuildClosed ac (o.withFees p fees) m ↔ ac.isPaid m = true := by
  obtain ⟨hp, hd, -⟩ : ¬ kw.meets o .onPickup ∧ o.orderDeliveryStatus ≠ some .delivered ∧ _ := by
    simpa only [rebuildClosed, not_or] using hopen
  obtain ⟨lines, h⟩ := o.withFees_eq p fees
  have hp' : ¬ kw.meets (o.withFees p fees) .onPickup := by rw [h]; exact hp
  have hd' : (o.withFees p fees).orderDeliveryStatus ≠ some .delivered := by rw [h]; exact hd
  simp only [rebuildClosed, hp', hd', false_or]

/-- The rebuild on records whose order has been written. -/
theorem rebuildInvoice_run_of_eq (st : Settings) (ac : Accounting) (discount : Option V)
    {o' : Order}
    (hid : o'.invoiceId = o.invoiceId) :
    (∃ m, rebuild st ac o' discount (s.invoice? o) = .ok m ∧
      (rebuildInvoice st ac discount).run { s with order := some o' } =
        .ok () { s with
          order := some o'
          moves := o.putInvoice m s.moves
          computedFor := s.computedFor ++ [o'] }) ∨
    ∃ m e cs, rebuild st ac o' discount (s.invoice? o) = .error m ∧ (∀ c ∈ cs, c = o') ∧
      (rebuildInvoice st ac discount).run { s with order := some o' } =
        .error e { s with
          order := some o'
          moves := o.putInvoice m s.moves
          computedFor := s.computedFor ++ cs } := by
  have hinv : OrderSlice.invoice? { s with order := some o' } o' = s.invoice? o := by
    simp only [OrderSlice.invoice?, hid]
    rfl
  have hput : ∀ m moves, o'.putInvoice m moves = o.putInvoice m moves := by
    intro m moves
    simp only [Order.putInvoice, hid]
  have hrun := rebuildInvoice_run st ac discount (s := { s with order := some o' }) rfl
  simpa only [hinv, hput] using hrun

/-! ### The amount of the target line -/

namespace Order

theorem setTargetAmount_of_not_hasTarget (h : o.hasTarget = false) (amount : ℚ) :
    o.setTargetAmount amount = o := by
  have hlines : ∀ line ∈ o.serviceLineIds, line.isTarget = false := by
    simpa [hasTarget] using h
  have hmap : (o.serviceLineIds.map fun line =>
      if line.isTarget then { line with amount } else line) = o.serviceLineIds := by
    conv_rhs => rw [← List.map_id o.serviceLineIds]
    refine List.map_congr_left fun line hl => ?_
    simp [hlines line hl]
  rw [setTargetAmount, hmap]
  rfl

@[simp] theorem setTargetAmount_hasTarget (amount : ℚ) (o : Order) :
    (o.setTargetAmount amount).hasTarget = o.hasTarget := by
  simp only [hasTarget, setTargetAmount, setServiceLines, List.any_map]
  congr 1
  funext line
  cases h : line.isTarget with
  | true =>
      have h' : ({ line with amount := amount } : ServiceLine).isTarget = true := h
      simp [h, h']
  | false => simp [h]

variable {amount : V} {o' : Order}

/-- A value that the field stores is assigned. -/
theorem assignTarget_of_store {q : ℚ} (h : Amount.store st amount = .ok q) (o : Order) :
    o.assignTarget st amount = .ok (o.setTargetAmount q) := by
  unfold assignTarget
  split
  case isTrue => rw [h]; rfl
  case isFalse ht =>
    rw [setTargetAmount_of_not_hasTarget (by simpa using ht)]
    rfl

/-- A value that the field does not store is refused, if there is a line to assign it to. -/
theorem assignTarget_of_error {e : String} (h : Amount.store st amount = .error e)
    (ht : o.hasTarget = true) : o.assignTarget st amount = .error e := by
  rw [assignTarget, if_pos ht, h]
  rfl

theorem eq_setTargetAmount_of_assignTarget (h : o.assignTarget st amount = .ok o') :
    ∃ q, o.setTargetAmount q = o' := by
  unfold assignTarget at h
  split at h
  case isTrue =>
    obtain ⟨q, -, h⟩ := except_bind_ok_iff.mp h
    exact ⟨q, except_pure_eq_ok_iff.mp h⟩
  case isFalse ht =>
    exact ⟨0, (setTargetAmount_of_not_hasTarget (by simpa using ht) 0).trans
      (except_pure_eq_ok_iff.mp h)⟩

/-- The amount is assigned once more and nothing changes. -/
theorem assignTarget_assigned (h : o.assignTarget st amount = .ok o') (discount : ℚ) :
    (o'.setDiscount discount).assignTarget st amount = .ok (o'.setDiscount discount) := by
  cases hq : Amount.store st amount with
  | ok q =>
      obtain rfl : o.setTargetAmount q = o' :=
        Except.ok.inj ((assignTarget_of_store hq o).symm.trans h)
      rw [assignTarget_of_store hq]
      exact congrArg (fun o => Except.ok (setDiscount discount o))
        (setTargetAmount_setTargetAmount q q o)
  | error e =>
      have ht : o.hasTarget = false := by
        by_contra ht
        rw [assignTarget_of_error hq (by simpa using ht)] at h
        cases h
      obtain ⟨q, rfl⟩ := eq_setTargetAmount_of_assignTarget h
      have ht' : ((o.setTargetAmount q).setDiscount discount).hasTarget = false :=
        (setTargetAmount_hasTarget q o).trans ht
      rw [assignTarget, ht']
      rfl

end Order

theorem assignTargetAmount_run (ho : s.order = some o) (amount : V) :
    (assignTargetAmount st amount).run s =
      match o.assignTarget st amount with
      | .ok o' => .ok () { s with order := some o' }
      | .error e => .error e s := by
  rw [assignTargetAmount, self_bind_run ho]
  cases h : o.assignTarget st amount with
  | error e => rfl
  | ok o' =>
      rw [lift_bind_run_of_ok rfl]
      exact congrArg (EStateM.Result.ok ()) (OrderSlice.mapOrder_eq_of_order ho _)

/-! ### The section on the shipping fees -/

/-- What the shipping fees section does to the order `o`, and whether it passes. The fields
store `f` for the fees. -/
inductive FeesSection (st : Settings) (ac : Accounting) (kw : UpdateKwargs V) (fees : V)
    (s : OrderSlice) (o : Order) : Bool → OrderSlice → Prop
  /-- No field stores the fees, or there is no product for the line. -/
  | unwritten (e : String)
      (h : targetProduct st o = .error e ∨ Amount.store st fees = .error e) :
      FeesSection st ac kw fees s o false s
  /-- An order that is not confirmed gets its line at once. -/
  | stored (p : Option Product) (f : ℚ) (hp : targetProduct st o = .ok p)
      (hf : Amount.store st fees = .ok f) (hs : o.orderStatus ≠ .done) :
      FeesSection st ac kw fees s o true
        { s with order := some ((o.targeted p f).setTargetAmount f) }
  | closed (p : Option Product) (f : ℚ) (hp : targetProduct st o = .ok p)
      (hf : Amount.store st fees = .ok f) (hs : o.orderStatus = .done)
      (hc : kw.rebuildClosed ac o (s.invoice? o)) :
      FeesSection st ac kw fees s o false { s with order := some (o.targeted p f) }
  | interrupted (p : Option Product) (f : ℚ) (m : Option Move) (cs : List Order)
      (hp : targetProduct st o = .ok p) (hf : Amount.store st fees = .ok f)
      (hs : o.orderStatus = .done) (hc : ¬ kw.rebuildClosed ac o (s.invoice? o))
      (hr : rebuild st ac (o.withFees p f) (none : Option V) (s.invoice? o) = .error m)
      (hcs : ∀ c ∈ cs, c = o.withFees p f) :
      FeesSection st ac kw fees s o false
        { s with
          order := some (o.withFees p f)
          moves := o.putInvoice m s.moves
          computedFor := s.computedFor ++ cs }
  | rebuilt (p : Option Product) (f : ℚ) (m : Option Move)
      (hp : targetProduct st o = .ok p) (hf : Amount.store st fees = .ok f)
      (hs : o.orderStatus = .done) (hc : ¬ kw.rebuildClosed ac o (s.invoice? o))
      (hr : rebuild st ac (o.withFees p f) (none : Option V) (s.invoice? o) = .ok m) :
      FeesSection st ac kw fees s o true
        { s with
          order := some (o.withFees p f)
          moves := o.putInvoice m s.moves
          computedFor := s.computedFor ++ [o.withFees p f] }

section Fees

variable {kw : UpdateKwargs V} {fees : V} {f : ℚ}

theorem ensureTargetLine_run_of_hasTarget (st : Settings) (ho : s.order = some o)
    (ht : o.hasTarget = true) (fees : V) : (ensureTargetLine st fees).run s = .ok () s := by
  rw [ensureTargetLine, self_bind_run ho, if_pos ht]
  rfl

theorem ensureTargetLine_run (st : Settings) (ho : s.order = some o)
    (hf : Amount.store st fees = .ok f) :
    (ensureTargetLine st fees).run s =
      match targetProduct st o with
      | .ok p => .ok () { s with order := some (o.targeted p f) }
      | .error e => .error e s := by
  unfold targetProduct Order.targeted
  by_cases ht : o.hasTarget = true
  · rw [ensureTargetLine_run_of_hasTarget st ho ht]
    simp [ht, pure, Except.pure, ← ho]
  · rw [ensureTargetLine, self_bind_run ho, if_neg ht, if_neg ht]
    cases hp : single "product.product" st.mainServiceProducts with
    | error e => simp [lift_run]
    | ok p => simp [lift_run, modifyOrder, OrderSlice.mapOrder, ho, hf, ht]

/-- Without a product or with fees that no field stores, no line is created. -/
theorem ensureTargetLine_run_of_error (ho : s.order = some o) (ht : o.hasTarget = false)
    {e : String} (hf : Amount.store st fees = .error e) :
    ∃ e', (ensureTargetLine st fees).run s = .error e' s := by
  rw [ensureTargetLine, self_bind_run ho, ht]
  cases hp : single "product.product" st.mainServiceProducts with
  | error e' => exact ⟨e', rfl⟩
  | ok p => exact ⟨e, by simp [lift_run, hf]⟩

/-- A confirmed order that passes the guards is written and its invoice rebuilt. -/
theorem updateShippingFees_run_of_open (ho : s.order = some o) (hs : o.orderStatus = .done)
    (hc : ¬ kw.rebuildClosed ac o (s.invoice? o)) (hf : Amount.store st fees = .ok f) :
    (updateShippingFees st ac kw fees).run s =
      (rebuildInvoice st ac (none : Option V)).run
        { s with order := some ((o.setTargetAmount f).setShippingFees f) } := by
  rw [updateShippingFees, self_bind_run ho, if_pos hs, EStateM.run_bind,
    checkRebuild_run_of_open ho hc]
  simp only []
  rw [EStateM.run_bind, assignTargetAmount_run ho, Order.assignTarget_of_store hf]
  simp only []
  rw [lift_bind_run_of_ok hf, modifyOrder_bind_run, OrderSlice.mapOrder_eq_of_order rfl]

theorem updateShippingFees_run_of_closed (st : Settings) (fees : V)
    (ho : s.order = some o) (hs : o.orderStatus = .done)
    (hc : kw.rebuildClosed ac o (s.invoice? o)) :
    ∃ e, (updateShippingFees st ac kw fees).run s = .error e s := by
  obtain ⟨e, he⟩ := checkRebuild_run_of_closed ac ho hc
  refine ⟨e, ?_⟩
  rw [updateShippingFees, self_bind_run ho, if_pos hs, EStateM.run_bind, he]

theorem updateShippingFees_run_of_not_done (ho : s.order = some o) (hs : o.orderStatus ≠ .done) :
    (updateShippingFees st ac kw fees).run s = .ok () s := by
  rw [updateShippingFees, self_bind_run ho, if_neg hs]
  rfl

/-- Fees that no field stores are refused before the first write. -/
theorem shippingFeesSection_run_of_error (ho : s.order = some o)
    (hk : kw.shippingFees = some fees) {e : String} (hf : Amount.store st fees = .error e) :
    ∃ e', ∀ d, (shippingFeesSection st ac kw d).run s = .error e' s := by
  simp only [shippingFeesSection, hk]
  cases ht : o.hasTarget with
  | false =>
      obtain ⟨e', he⟩ := ensureTargetLine_run_of_error ho ht hf
      exact ⟨e', fun _ => by rw [EStateM.run_bind, he]⟩
  | true =>
      have hline := ensureTargetLine_run_of_hasTarget st ho ht fees
      simp only [EStateM.run_bind (ensureTargetLine st fees), hline]
      simp only [EStateM.run_bind (updateShippingFees st ac kw fees)]
      have hassign : (assignTargetAmount st fees).run s = .error e s := by
        rw [assignTargetAmount_run ho, Order.assignTarget_of_error hf ht]
      by_cases hs : o.orderStatus = .done
      · by_cases hc : kw.rebuildClosed ac o (s.invoice? o)
        · obtain ⟨e', he⟩ := updateShippingFees_run_of_closed st fees ho hs hc
          exact ⟨e', fun _ => by rw [he]⟩
        · refine ⟨e, fun _ => ?_⟩
          rw [updateShippingFees, self_bind_run ho, if_pos hs, EStateM.run_bind,
            checkRebuild_run_of_open ho hc]
          simp only []
          rw [EStateM.run_bind, hassign]
      · refine ⟨e, fun _ => ?_⟩
        rw [updateShippingFees_run_of_not_done ho hs]
        simp only []
        rw [EStateM.run_bind, hassign]

/-- An order that is not confirmed gets its line, one that is confirmed its new
invoice as well. -/
theorem shippingFeesSection_run (st : Settings) (ac : Accounting) (ho : s.order = some o)
    (hk : kw.shippingFees = some fees) :
    ∃ t, (FeesSection st ac kw fees s o true t ∧ ∀ d,
        (shippingFeesSection st ac kw d).run s = .ok { d with shippingFees := some fees } t) ∨
      (FeesSection st ac kw fees s o false t ∧ ∃ e, ∀ d,
        (shippingFeesSection st ac kw d).run s = .error e t) := by
  cases hf : Amount.store st fees with
  | error e => exact ⟨s, .inr ⟨.unwritten e (.inr hf), shippingFeesSection_run_of_error ho hk hf⟩⟩
  | ok f =>
  have hline := ensureTargetLine_run st ho hf
  simp only [shippingFeesSection, hk]
  simp only [EStateM.run_bind (ensureTargetLine st fees), hline]
  cases hp : targetProduct st o with
  | error e => exact ⟨s, .inr ⟨.unwritten e (.inl hp), e, fun _ => rfl⟩⟩
  | ok p =>
      obtain ⟨lines, hl⟩ := o.targeted_eq p f
      have hs' : (o.targeted p f).orderStatus = o.orderStatus := by rw [hl]; rfl
      have hc' : kw.rebuildClosed ac (o.targeted p f)
            (OrderSlice.invoice? { s with order := some (o.targeted p f) } (o.targeted p f)) ↔
          kw.rebuildClosed ac o (s.invoice? o) := by rw [hl]; rfl
      have hassign : ∀ {t : OrderSlice} {o' : Order} (d : UpdateDict V), t.order = some o' →
          (assignTargetAmount st fees >>= fun _ =>
            pure { d with shippingFees := some fees } : Tx (UpdateDict V)).run t =
            .ok { d with shippingFees := some fees }
              { t with order := some (o'.setTargetAmount f) } := by
        intro t o' d ho'
        rw [EStateM.run_bind, assignTargetAmount_run ho', Order.assignTarget_of_store hf]
        rfl
      simp only [EStateM.run_bind (updateShippingFees st ac kw fees)]
      by_cases hs : o.orderStatus = .done
      · by_cases hc : kw.rebuildClosed ac o (s.invoice? o)
        · obtain ⟨e, he⟩ := updateShippingFees_run_of_closed st fees rfl
            (hs'.trans hs) (hc'.mpr hc)
          exact ⟨_, .inr ⟨.closed p f hp hf hs hc, e, fun _ => by rw [he]⟩⟩
        · have hopen : (updateShippingFees st ac kw fees).run
                { s with order := some (o.targeted p f) } =
              (rebuildInvoice st ac (none : Option V)).run
                { s with order := some (o.withFees p f) } :=
            updateShippingFees_run_of_open rfl (hs'.trans hs) (fun h => hc (hc'.mp h)) hf
          rw [hopen]
          rcases rebuildInvoice_run_of_eq st ac (none : Option V)
              (o.withFees_invoiceId p f) with ⟨m, hr, h⟩ | ⟨m, e, cs, hr, hcs, h⟩
          · refine ⟨_, .inl ⟨.rebuilt p f m hp hf hs hc hr, fun d => ?_⟩⟩
            rw [h]
            refine (hassign d rfl).trans ?_
            rw [o.withFees_setTargetAmount p f]
          · exact ⟨_, .inr ⟨.interrupted p f m cs hp hf hs hc hr hcs, e, fun _ => by rw [h]⟩⟩
      · rw [updateShippingFees_run_of_not_done rfl (fun h => hs (hs'.symm.trans h))]
        exact ⟨_, .inl ⟨.stored p f hp hf hs, fun d => hassign d rfl⟩⟩

end Fees

/-! ### The section on the discount -/

/-- The order once the discount section has assigned the amount of its line. -/
def UpdateKwargs.withSum (st : Settings) (kw : UpdateKwargs V) (discount : V) (o : Order) :
    Except String Order := do
  o.assignTarget st (← addDiscount st kw.shippingFees discount)

/-- What the discount section does to the order `o`, and whether it passes. -/
inductive DiscountSection (st : Settings) (ac : Accounting) (kw : UpdateKwargs V) (discount : V)
    (s : OrderSlice) (o : Order) : Bool → OrderSlice → Prop
  | refused (h : (∃ e, kw.withSum st discount o = .error e) ∨
        o.orderStatus = .done ∧ kw.rebuildClosed ac o (s.invoice? o)) :
      DiscountSection st ac kw discount s o false s
  | stored (o' : Order) (ho' : kw.withSum st discount o = .ok o') (hs : o.orderStatus ≠ .done) :
      DiscountSection st ac kw discount s o true { s with order := some o' }
  /-- The amount is assigned, and the field of the discount does not store it. -/
  | unread (o' : Order) (e : String) (ho' : kw.withSum st discount o = .ok o')
      (hs : o.orderStatus = .done) (hc : ¬ kw.rebuildClosed ac o (s.invoice? o))
      (hx : Amount.store st discount = .error e) :
      DiscountSection st ac kw discount s o false { s with order := some o' }
  | interrupted (o' : Order) (x : ℚ) (m : Option Move) (cs : List Order)
      (ho' : kw.withSum st discount o = .ok o') (hs : o.orderStatus = .done)
      (hc : ¬ kw.rebuildClosed ac o (s.invoice? o)) (hx : Amount.store st discount = .ok x)
      (hr : rebuild st ac (o'.setDiscount x) (some discount) (s.invoice? o) = .error m)
      (hcs : ∀ c ∈ cs, c = o'.setDiscount x) :
      DiscountSection st ac kw discount s o false
        { s with
          order := some (o'.setDiscount x)
          moves := o.putInvoice m s.moves
          computedFor := s.computedFor ++ cs }
  | rebuilt (o' : Order) (x : ℚ) (m : Option Move)
      (ho' : kw.withSum st discount o = .ok o') (hs : o.orderStatus = .done)
      (hc : ¬ kw.rebuildClosed ac o (s.invoice? o)) (hx : Amount.store st discount = .ok x)
      (hr : rebuild st ac (o'.setDiscount x) (some discount) (s.invoice? o) = .ok m) :
      DiscountSection st ac kw discount s o true
        { s with
          order := some (o'.setDiscount x)
          moves := o.putInvoice m s.moves
          computedFor := s.computedFor ++ [o'.setDiscount x] }

section Discount

variable {kw : UpdateKwargs V} {discount : V}

/-- The sum and its assignment, in front of the rest of the section. -/
theorem withSum_bind_run {α : Type} (ho : s.order = some o) (g : Tx α) :
    (lift (addDiscount st kw.shippingFees discount) >>= fun amount =>
        assignTargetAmount st amount >>= fun _ => g).run s =
      match kw.withSum st discount o with
      | .ok o' => g.run { s with order := some o' }
      | .error e => .error e s := by
  rw [UpdateKwargs.withSum]
  cases hsum : addDiscount st kw.shippingFees discount with
  | error e => rfl
  | ok amount =>
      rw [lift_bind_run_of_ok rfl, EStateM.run_bind, assignTargetAmount_run ho]
      simp only [bind, Except.bind]
      cases o.assignTarget st amount <;> rfl

/-- The rest of the section on a confirmed order that passes the guards. -/
theorem updateDiscount_run_of_open (ho : s.order = some o) (hs : o.orderStatus = .done)
    (hc : ¬ kw.rebuildClosed ac o (s.invoice? o)) :
    (updateDiscount st ac kw discount).run s =
      match kw.withSum st discount o with
      | .error e => .error e s
      | .ok o' =>
          match Amount.store st discount with
          | .error e => .error e { s with order := some o' }
          | .ok x =>
              (rebuildInvoice st ac (some discount)).run
                { s with order := some (o'.setDiscount x) } := by
  rw [updateDiscount, self_bind_run ho, if_pos hs, EStateM.run_bind,
    checkRebuild_run_of_open ho hc]
  simp only []
  rw [withSum_bind_run ho]
  cases kw.withSum st discount o with
  | error e => rfl
  | ok o' =>
      cases hx : Amount.store st discount with
      | error e => rfl
      | ok x => rfl

theorem updateDiscount_run_of_closed (st : Settings) (discount : V) (ho : s.order = some o)
    (hs : o.orderStatus = .done) (hc : kw.rebuildClosed ac o (s.invoice? o)) :
    ∃ e, (updateDiscount st ac kw discount).run s = .error e s := by
  obtain ⟨e, he⟩ := checkRebuild_run_of_closed ac ho hc
  exact ⟨e, by rw [updateDiscount, self_bind_run ho, if_pos hs, EStateM.run_bind, he]⟩

theorem UpdateKwargs.withSum_invoiceId {o' : Order} (h : kw.withSum st discount o = .ok o') :
    o'.invoiceId = o.invoiceId := by
  obtain ⟨amount, -, h⟩ := except_bind_ok_iff.mp h
  obtain ⟨q, rfl⟩ := Order.eq_setTargetAmount_of_assignTarget h
  rfl

/-- The sum is assigned once more and nothing changes. -/
theorem UpdateKwargs.withSum_assigned {o' : Order} (h : kw.withSum st discount o = .ok o')
    (x : ℚ) : kw.withSum st discount (o'.setDiscount x) = .ok (o'.setDiscount x) := by
  obtain ⟨amount, hsum, h⟩ := except_bind_ok_iff.mp h
  exact except_bind_ok_iff.mpr ⟨amount, hsum, Order.assignTarget_assigned h x⟩

theorem discountSection_run (st : Settings) (ac : Accounting) (ho : s.order = some o)
    (hk : kw.discountAmount = some discount) :
    ∃ t, (DiscountSection st ac kw discount s o true t ∧ ∀ d,
        (discountSection st ac kw d).run s =
          .ok { d with discountAmount := some discount } t) ∨
      (DiscountSection st ac kw discount s o false t ∧ ∃ e, ∀ d,
        (discountSection st ac kw d).run s = .error e t) := by
  simp only [discountSection, hk]
  simp only [EStateM.run_bind (updateDiscount st ac kw discount)]
  by_cases hs : o.orderStatus = .done
  · by_cases hc : kw.rebuildClosed ac o (s.invoice? o)
    · obtain ⟨e, he⟩ := updateDiscount_run_of_closed st discount ho hs hc
      exact ⟨s, .inr ⟨.refused (.inr ⟨hs, hc⟩), e, fun _ => by rw [he]⟩⟩
    rw [updateDiscount_run_of_open ho hs hc]
    cases hsum : kw.withSum st discount o with
    | error e => exact ⟨s, .inr ⟨.refused (.inl ⟨e, hsum⟩), e, fun _ => rfl⟩⟩
    | ok o' =>
        cases hx : Amount.store st discount with
        | error e => exact ⟨_, .inr ⟨.unread o' e hsum hs hc hx, e, fun _ => rfl⟩⟩
        | ok x =>
            dsimp only
            have hid : (o'.setDiscount x).invoiceId = o.invoiceId := by
              rw [← UpdateKwargs.withSum_invoiceId hsum]
              rfl
            rcases rebuildInvoice_run_of_eq st ac (s := s) (some discount) hid
              with ⟨m, hr, h⟩ | ⟨m, e, cs, hr, hcs, h⟩
            · refine ⟨_, .inl ⟨.rebuilt o' x m hsum hs hc hx hr, fun d => ?_⟩⟩
              rw [h]
              simp only []
              rw [withSum_bind_run rfl, UpdateKwargs.withSum_assigned hsum x]
              rfl
            · exact ⟨_, .inr ⟨.interrupted o' x m cs hsum hs hc hx hr hcs, e,
                fun _ => by rw [h]⟩⟩
  · rw [updateDiscount, self_bind_run ho, if_neg hs]
    simp only [EStateM.run_pure]
    cases hsum : kw.withSum st discount o with
    | error e =>
        refine ⟨s, .inr ⟨.refused (.inl ⟨e, hsum⟩), e, fun d => ?_⟩⟩
        rw [withSum_bind_run ho, hsum]
    | ok o' =>
        refine ⟨_, .inl ⟨.stored o' hsum hs, fun d => ?_⟩⟩
        rw [withSum_bind_run ho, hsum]
        rfl

end Discount

/-! ### Both sections -/

/-- What the two writing sections do to the order `o`, and whether they pass. -/
inductive WriteSections (st : Settings) (ac : Accounting) (kw : UpdateKwargs V)
    (s : OrderSlice) (o : Order) : Bool → OrderSlice → Prop
  | skipped (hf : kw.shippingFees = none) (hx : kw.discountAmount = none) :
      WriteSections st ac kw s o true s
  | fees (fees : V) (t : OrderSlice) (hf : kw.shippingFees = some fees)
      (hx : kw.discountAmount = none) (h : FeesSection st ac kw fees s o true t) :
      WriteSections st ac kw s o true t
  | feesRefused (fees : V) (t : OrderSlice) (hf : kw.shippingFees = some fees)
      (h : FeesSection st ac kw fees s o false t) : WriteSections st ac kw s o false t
  | discount (discount : V) (passed : Bool) (t : OrderSlice) (hf : kw.shippingFees = none)
      (hx : kw.discountAmount = some discount)
      (h : DiscountSection st ac kw discount s o passed t) : WriteSections st ac kw s o passed t
  | both (fees discount : V) (passed : Bool) (r t : OrderSlice) (o' : Order)
      (hf : kw.shippingFees = some fees) (hx : kw.discountAmount = some discount)
      (hfees : FeesSection st ac kw fees s o true r) (ho' : r.order = some o')
      (h : DiscountSection st ac kw discount r o' passed t) : WriteSections st ac kw s o passed t

theorem FeesSection.order {kw : UpdateKwargs V} {fees : V}
    (h : FeesSection st ac kw fees s o true t) : ∃ o', t.order = some o' := by
  cases h <;> exact ⟨_, rfl⟩

/-- The two writing sections, from the dictionary `d` of the checking ones. -/
def writeSections (st : Settings) (ac : Accounting) (kw : UpdateKwargs V) (d : UpdateDict V) :
    Tx (UpdateDict V) := do
  let d ← shippingFeesSection st ac kw d
  discountSection st ac kw d

theorem writeSections_run (st : Settings) (ac : Accounting) {kw : UpdateKwargs V}
    (ho : s.order = some o) {d : UpdateDict V}
    (hd : { kw.updateDict with shippingFees := none, discountAmount := none } = d) :
    ∃ t, (WriteSections st ac kw s o true t ∧
        (writeSections st ac kw d).run s = .ok kw.updateDict t) ∨
      (WriteSections st ac kw s o false t ∧
        ∃ e, (writeSections st ac kw d).run s = .error e t) := by
  subst hd
  have hdict : ∀ f x, kw.shippingFees = f → kw.discountAmount = x →
      kw.updateDict = { kw.updateDict with shippingFees := f, discountAmount := x } := by
    rintro f x rfl rfl
    rfl
  have hnofees : kw.shippingFees = none →
      ∀ d s, (shippingFeesSection st ac kw d).run s = .ok d s := by
    intro hf d s
    simp [shippingFeesSection, hf]
  have hnodiscount : kw.discountAmount = none →
      ∀ d s, (discountSection st ac kw d).run s = .ok d s := by
    intro hx d s
    simp [discountSection, hx]
  simp only [writeSections]
  rw [EStateM.run_bind]
  cases hf : kw.shippingFees with
  | none =>
      rw [hnofees hf]
      cases hx : kw.discountAmount with
      | none =>
          refine ⟨s, .inl ⟨.skipped hf hx, ?_⟩⟩
          rw [hdict none none hf hx]
          exact hnodiscount hx _ s
      | some x =>
          obtain ⟨t, ⟨h, hr⟩ | ⟨h, e, he⟩⟩ := discountSection_run st ac ho hx
          · refine ⟨t, .inl ⟨.discount x true t hf hx h, ?_⟩⟩
            rw [hdict none (some x) hf hx]
            exact hr _
          · exact ⟨t, .inr ⟨.discount x false t hf hx h, e, he _⟩⟩
  | some f =>
      obtain ⟨r, ⟨h, hr⟩ | ⟨h, e, he⟩⟩ := shippingFeesSection_run st ac ho hf
      · rw [hr]
        cases hx : kw.discountAmount with
        | none =>
            refine ⟨r, .inl ⟨.fees f r hf hx h, ?_⟩⟩
            rw [hdict (some f) none hf hx]
            exact hnodiscount hx _ r
        | some x =>
            obtain ⟨o', ho'⟩ := h.order
            obtain ⟨t, ⟨h', hr'⟩ | ⟨h', e, he⟩⟩ := discountSection_run st ac ho' hx
            · refine ⟨t, .inl ⟨.both f x true r t o' hf hx h ho' h', ?_⟩⟩
              rw [hdict (some f) (some x) hf hx]
              exact hr' _
            · exact ⟨t, .inr ⟨.both f x false r t o' hf hx h ho' h', e, he _⟩⟩
      · rw [he]
        exact ⟨r, .inr ⟨.feesRefused f r hf h, e, rfl⟩⟩

/-- An update request that is refused by a check writes nothing; one that passes them is
carried out by the writing sections, and queues its dictionary if they pass. -/
theorem updateBillOfLoading_run (st : Settings) (ac : Accounting) (kw : UpdateKwargs V)
    (ho : s.order = some o) :
    (¬ kw.Passes ac o (s.invoice? o) ∧ ∃ e, (updateBillOfLoading st ac kw).run s = .error e s) ∨
    kw.Passes ac o (s.invoice? o) ∧ ∃ t,
      (WriteSections st ac kw s o true t ∧
        ∃ r, (updateBillOfLoading st ac kw).run s =
          .ok r (t.addJob (.write (kw.updateDict.store st))) ∧ r.code = some 200) ∨
      (WriteSections st ac kw s o false t ∧
        ∃ e, (updateBillOfLoading st ac kw).run s = .error e t) := by
  have hsearch : ∀ e (f : Order → Tx Response), (searchOrder e >>= f).run s = (f o).run s := by
    intro e f
    simp [searchOrder, ho]
  rw [updateBillOfLoading, hsearch, get_bind_run]
  cases hcheck : checkSections ac kw o (s.invoice? o) with
  | error e =>
      have hk : ¬ kw.Passes ac o (s.invoice? o) := by
        intro hk
        rw [checkSections_eq_ok_iff.mpr ⟨hk, rfl⟩] at hcheck
        cases hcheck
      exact .inl ⟨hk, e, rfl⟩
  | ok d =>
      obtain ⟨hk, hd⟩ := checkSections_eq_ok_iff.mp hcheck
      have hsections : ∀ f : UpdateDict V → Tx Response,
          (shippingFeesSection st ac kw d >>= fun d => discountSection st ac kw d >>= f).run s =
            (writeSections st ac kw d >>= f).run s := by
        intro f
        rw [writeSections, bind_assoc]
      rw [lift_bind_run_of_ok rfl, hsections, EStateM.run_bind]
      obtain ⟨t, ⟨h, hr⟩ | ⟨h, e, hr⟩⟩ := writeSections_run st ac ho hd
      · rw [hr]
        exact .inr ⟨hk, t, .inl ⟨h, _, rfl, rfl⟩⟩
      · rw [hr]
        exact .inr ⟨hk, t, .inr ⟨h, e, rfl⟩⟩

end Fastrak
