import Fastrak.Order.InvoiceEffect
import Fastrak.Order.Step

/-!
# Rebuilding an invoice

The lines of an invoice are assembled in three places. `_prepare_invoice` charges the discount
of the order if there is one and the order has shipping fees, the rebuild for new shipping
fees charges none, and the rebuild for a new discount charges the new one whatever it is. So
the lines of a rebuilt invoice are those of a new one exactly where these agree.
-/

namespace Fastrak

open Transaction Run

variable {st : Settings} {ac : Accounting} {s t : OrderSlice} {o o' : Order}
  {discount : Option ℚ}

/-! ## What the lines depend on -/

/-- The orders are charged alike. -/
structure Order.SameCharges (o o' : Order) : Prop where
  serviceLineIds : o'.serviceLineIds = o.serviceLineIds
  shippingFees : o'.shippingFees = o.shippingFees
  discountAmount : o'.discountAmount = o.discountAmount

namespace Order.SameCharges

theorem shippingLines (h : o.SameCharges o') : o'.shippingLines = o.shippingLines := by
  rw [Order.shippingLines, h.serviceLineIds, Order.shippingLines]

theorem chargedDiscount (h : o.SameCharges o') : o'.chargedDiscount = o.chargedDiscount := by
  rw [Order.chargedDiscount, h.shippingFees, h.discountAmount, Order.chargedDiscount]

theorem vatPrice (h : o.SameCharges o') (lines : List InvoiceLine) :
    vatPrice st o' lines = vatPrice st o lines := by
  unfold Fastrak.vatPrice getVatRecalculatedPrice Order.shippingAmount
  rw [h.shippingLines, h.shippingFees, h.discountAmount]

theorem chargedLines (h : o.SameCharges o') (discount : Option ℚ) :
    chargedLines st o' discount = chargedLines st o discount := by
  unfold Fastrak.chargedLines netLines vatLine
  rw [h.serviceLineIds, h.vatPrice]

theorem invoiceable (h : o.SameCharges o') (hi : Invoiceable st o discount) :
    Invoiceable st o' discount where
  costCenter line hl := hi.costCenter line (h.serviceLineIds ▸ hl)
  discountProduct := hi.discountProduct
  hasTaxRate := hi.hasTaxRate
  shippingLines := h.shippingLines ▸ hi.shippingLines
  mainVatServices := hi.mainVatServices
  codeTaxes := hi.codeTaxes

end Order.SameCharges

theorem length_chargedLines (h : Invoiceable st o discount) :
    (chargedLines st o discount).length =
      o.serviceLineIds.length + discount.toList.length + 1 := by
  cases discount with
  | none => simp [chargedLines, netLines, discountLines]
  | some amount =>
      obtain ⟨product, hproduct, -⟩ := h.discountProduct (Option.some_ne_none amount)
      simp [chargedLines, netLines, discountLines_of_singleton hproduct]

/-- The lines that charge a discount of the order are those of a new invoice if and only if it
is the discount that a new invoice charges. -/
theorem prepareInvoice_lines_iff (hi : Invoiceable st o discount)
    (hdiscount : ∀ amount ∈ discount, amount = o.discountAmount) :
    (∃ vals, prepareInvoice st o = .ok vals ∧
        chargedLines st o discount = vals.invoiceLineIds) ↔
      st.saleJournals ≠ [] ∧ discount = o.chargedDiscount := by
  constructor
  · rintro ⟨vals, hvals, hlines⟩
    obtain ⟨⟨hjournal, hi'⟩, rfl⟩ := prepareInvoice_eq_ok_iff.mp hvals
    refine ⟨hjournal, ?_⟩
    -- a discount takes a line, and the only one is that of the order
    have hlength := congrArg List.length hlines
    rw [length_chargedLines hi, length_chargedLines hi'] at hlength
    have hcharged : ∀ amount ∈ o.chargedDiscount, amount = o.discountAmount := by
      intro amount h
      unfold Order.chargedDiscount at h
      split at h
      · exact (Option.some.inj h).symm
      · cases h
    cases hx : discount with
    | none =>
        cases hc : o.chargedDiscount with
        | none => rfl
        | some amount => simp [hx, hc] at hlength
    | some amount =>
        cases hc : o.chargedDiscount with
        | none => simp [hx, hc] at hlength
        | some amount' => rw [hdiscount amount hx, hcharged amount' hc]
  · rintro ⟨hjournal, rfl⟩
    exact ⟨_, prepareInvoice_eq_ok_iff.mpr ⟨⟨hjournal, hi⟩, rfl⟩, rfl⟩

/-! ## The rebuild -/

theorem rebuildMove_lines {id : ℕ} {m m' : Move}
    (h : rebuildMove st ac id o discount m = .ok m') :
    Invoiceable st o discount ∧ m'.invoiceLineIds = chargedLines st o discount := by
  obtain ⟨lines, hlines, rfl⟩ := rebuildMove_eq_ok h
  obtain ⟨hi, rfl⟩ := invoiceServiceLines_eq_ok_iff.mp hlines
  exact ⟨hi, rfl⟩

theorem rebuild_of_some {m : Move} {invoice : Option Move}
    (h : rebuild st ac o discount (some m) = .ok invoice) :
    ∃ m', invoice = some m' ∧ Invoiceable st o discount ∧
      m'.invoiceLineIds = chargedLines st o discount := by
  simp only [rebuild] at h
  cases hr : rebuildMove st ac (o.invoiceId.getD 0) o discount m with
  | error m' => simp [hr] at h
  | ok m' =>
      rw [hr] at h
      cases h
      exact ⟨m', rfl, rebuildMove_lines hr⟩

/-- An accepted request with shipping fees leaves the invoice of a confirmed order with the
lines of its own discount. -/
theorem Updates.rebuilt {kw : UpdateKwargs} {fees : ℚ} {m : Move} (hs : o.orderStatus = .done)
    (hm : s.invoice? o = some m) (hf : kw.shippingFees = some fees)
    (h : Updates st ac kw s o true t) :
    ∃ o' m', t.order = some o' ∧ t.invoice? o' = some m' ∧ o'.shippingFees = fees ∧
      o'.discountAmount = kw.discountAmount.getD o.discountAmount ∧
      Invoiceable st o' kw.discountAmount ∧
      m'.invoiceLineIds = chargedLines st o' kw.discountAmount := by
  have hsome (m' : Move) : (some m').isSome = (s.invoice? o).isSome := by
    rw [hm]
    rfl
  cases h with
  | queued _ hf' => simp [hf] at hf'
  | stored _ _ _ _ _ hs' => exact absurd hs hs'
  | feesRebuilt fees' p invoice he hr hx =>
      obtain rfl : fees = fees' := Option.some.inj (hf.symm.trans he.shippingFees)
      rw [hm] at hr
      obtain ⟨m', rfl, hlines⟩ := rebuild_of_some hr
      obtain ⟨services, ho'⟩ := o.withFees_eq p fees
      rw [hx]
      refine ⟨o.withFees p fees, m', rfl, ?_, by rw [ho']; rfl, by rw [ho']; rfl, hlines⟩
      exact @Order.putInvoice_invoice? s o _ _ none [] (hsome m') (o.withFees_invoiceId p fees)
  | discountRebuilt fees' discount p invoice invoice' he hr hx _ hr' =>
      obtain rfl : fees = fees' := Option.some.inj (hf.symm.trans he.shippingFees)
      rw [hm] at hr
      obtain ⟨m₁, rfl, -⟩ := rebuild_of_some hr
      obtain ⟨m', rfl, hlines⟩ := rebuild_of_some hr'
      obtain ⟨services, ho'⟩ := o.withFees_eq p fees
      rw [hx]
      refine ⟨(o.withFees p fees).withDiscount fees discount, m', rfl, ?_, by rw [ho']; rfl, rfl,
        hlines⟩
      exact @Order.putInvoice_invoice? s o _ _ none [] (hsome m') (o.withFees_invoiceId p fees)

/-- The run of the job that the request has queued. -/
theorem step_write_job {orderId : String} {jobs : List Job} {d : UpdateDict}
    (hjobs : s.jobs = jobs ++ [.write d]) (hd : d.unread = none) :
    step st ac orderId s (.job jobs.length) = (s.dropJob jobs.length).mapOrder d.apply := by
  simp [step, perform, Event.call?, hjobs, Job.call, transact, atomic, Call.body,
    writeUpdateDict, hd, modifyOrder]

/-! ## A request and its job -/

/-- The invoice has the lines that `_prepare_invoice` builds from the order. -/
def AgreesWithCreation (st : Settings) (s : OrderSlice) : Prop :=
  ∃ o m vals, s.order = some o ∧ s.invoice? o = some m ∧ prepareInvoice st o = .ok vals ∧
    m.invoiceLineIds = vals.invoiceLineIds

/-- The job writes on the order what the request has written on it already, as far as the
lines are concerned. -/
theorem agreesWithCreation_after_job_iff {kw : UpdateKwargs} {jobs : List Job} {fees : ℚ}
    {m : Move} {orderId : String} (hjobs : s.jobs = jobs ++ [.write kw.updateDict])
    (ho : s.order = some o) (hm : s.invoice? o = some m) (hf : kw.shippingFees = some fees)
    (hfees : o.shippingFees = fees) (hdiscount : ∀ d ∈ kw.discountAmount, d = o.discountAmount)
    (hi : Invoiceable st o kw.discountAmount)
    (hlines : m.invoiceLineIds = chargedLines st o kw.discountAmount) :
    AgreesWithCreation st (step st ac orderId s (.job jobs.length)) ↔
      st.saleJournals ≠ [] ∧ kw.discountAmount = o.chargedDiscount := by
  have hsame : o.SameCharges (kw.updateDict.apply o) := by
    refine ⟨rfl, ?_, ?_⟩
    · simp [UpdateDict.apply, UpdateKwargs.updateDict, hf, hfees]
    · cases hx : kw.discountAmount with
      | none => simp [UpdateDict.apply, UpdateKwargs.updateDict, hx]
      | some d => simp [UpdateDict.apply, UpdateKwargs.updateDict, hx, hdiscount d hx]
  have ho' : (step st ac orderId s (.job jobs.length)).order = some (kw.updateDict.apply o) := by
    rw [step_write_job hjobs rfl, OrderSlice.mapOrder_order, OrderSlice.dropJob_order, ho]
    rfl
  have hm' : (step st ac orderId s (.job jobs.length)).invoice? (kw.updateDict.apply o) =
      some m := by
    rw [step_write_job hjobs rfl]
    exact hm
  rw [← hsame.chargedDiscount, ← prepareInvoice_lines_iff (hsame.invoiceable hi)
    fun d hd => (hdiscount d hd).trans hsame.discountAmount.symm, hsame.chargedLines, ← hlines]
  constructor
  · rintro ⟨o', m', vals, ho'', hm'', hvals, heq⟩
    obtain rfl := Option.some.inj (ho'.symm.trans ho'')
    obtain rfl := Option.some.inj (hm'.symm.trans hm'')
    exact ⟨vals, hvals, heq⟩
  · rintro ⟨vals, hvals, heq⟩
    exact ⟨_, m, vals, ho', hm', hvals, heq⟩

/-- The invoice of a confirmed order that has been rebuilt for new shipping fees, and maybe for
a new discount, agrees with a new one if and only if a request with a discount has neither a
zero discount nor zero fees, and a request without one finds no discount on the order or has
zero fees. -/
theorem rebuilt_invoice_agrees_with_creation_iff {orderId : String} {kw : UpdateKwargs} {m : Move}
    {fees : ℚ} (ho : s.order = some o) (hs : o.orderStatus = .done) (hm : s.invoice? o = some m)
    (hf : kw.shippingFees = some fees)
    (hok : (handle st ac orderId (.update kw) s).1.code = some 200) :
    AgreesWithCreation st
        (run (step st ac orderId) s [.request (.update kw), .job s.jobs.length]) ↔
      st.saleJournals ≠ [] ∧
        (∀ discount, kw.discountAmount = some discount → discount ≠ 0 ∧ fees ≠ 0) ∧
        (kw.discountAmount = none → o.discountAmount = 0 ∨ fees = 0) := by
  have hserves : Serves st ac orderId s (.update kw) _ _ := handle_serves orderId (.update kw) s
  have haccepted : (handle st ac orderId (.update kw) s).1.accepted = true := by
    simp [Response.accepted, hok]
  have hrun : run (step st ac orderId) s [.request (.update kw), .job s.jobs.length] =
      step st ac orderId (handle st ac orderId (.update kw) s).2 (.job s.jobs.length) := rfl
  rw [hrun]
  generalize (handle st ac orderId (.update kw) s).1 = response at hserves haccepted
  generalize (handle st ac orderId (.update kw) s).2 = t at hserves ⊢
  cases hserves with
  | refused _ _ hr => simp [haccepted] at hr
  | updated _ o₀ _ _ ho₀ h =>
      obtain rfl : o = o₀ := Option.some.inj (ho.symm.trans ho₀)
      rw [haccepted] at h
      have hjobs := h.jobs
      rw [if_pos rfl] at hjobs
      obtain ⟨o', m', ho', hm', hfees, hdiscount, hi, hlines⟩ := h.rebuilt hs hm hf
      rw [agreesWithCreation_after_job_iff hjobs ho' hm' hf hfees ?_ hi hlines]
      · refine and_congr_right fun _ => ?_
        rw [Order.chargedDiscount, hfees, hdiscount]
        cases kw.discountAmount with
        | none => by_cases hd : o.discountAmount = 0 <;> simp [hd]
        | some d => by_cases hd : d = 0 <;> simp [hd]
      · intro d hd
        rw [hdiscount, hd]
        rfl

/-- A confirmed order with shipping fees of 100 and a discount of 10, and its invoice. -/
def discountedOrder : OrderSlice :=
  run (step .sample .sample "A") {}
    [.request (.create (some { userId := 5, paymentMethod := .onDelivery, shippingFees := 100,
                               discountAmount := 10 })),
     .request (.pickup (some 7)), .request (.delivery (some 7)), .job 0]

/-- The records after an update request and its job. -/
def discountedOrderAfter (kw : UpdateKwargs) : OrderSlice :=
  run (step .sample .sample "A") discountedOrder
    [.request (.update kw), .job discountedOrder.jobs.length]

/-- New shipping fees take the discount line off the invoice, and leave the order its
discount. -/
theorem fees_rebuild_drops_discount_line :
    discountedOrder.order.any (fun o => o.orderStatus = .done ∧ o.paymentMethod = .onDelivery ∧
      o.orderDeliveryStatus ≠ some .delivered ∧ (discountedOrder.invoice? o).any fun m =>
        m.state = .posted ∧ Accounting.sample.paymentState m = .notPaid) ∧
    (handle .sample .sample "A" (.update { shippingFees := some 80 } : Request)
      discountedOrder).1.code = some 200 ∧
    ¬ AgreesWithCreation .sample (discountedOrderAfter { shippingFees := some 80 }) := by
  refine ⟨by decide +kernel, by decide +kernel, ?_⟩
  rintro ⟨o, m, vals, ho, hm, hvals, hlines⟩
  have hinvoice : (discountedOrderAfter { shippingFees := some 80 }).order.bind (fun o =>
      ((discountedOrderAfter { shippingFees := some 80 }).invoice? o).map
        (·.invoiceLineIds.length)) = some 2 := by decide +kernel
  have hprepared : (discountedOrderAfter { shippingFees := some 80 }).order.bind (fun o =>
      (prepareInvoice .sample o).toOption.map (·.invoiceLineIds.length)) = some 3 := by
    decide +kernel
  rw [ho, Option.bind_some, hm, Option.map_some, hlines] at hinvoice
  rw [ho, Option.bind_some, hvals] at hprepared
  cases hinvoice.symm.trans hprepared

theorem rebuilt_invoice_agrees_of_new_discount :
    AgreesWithCreation .sample
      (discountedOrderAfter { shippingFees := some 80, discountAmount := some 5 }) := by
  have hstatus : discountedOrder.order.map (·.orderStatus) = some .done := by decide +kernel
  obtain ⟨o, ho, hs⟩ := Option.map_eq_some_iff.mp hstatus
  have hinvoice : (discountedOrder.order.bind discountedOrder.invoice?).isSome = true := by
    decide +kernel
  rw [ho, Option.bind_some] at hinvoice
  obtain ⟨m, hm⟩ := Option.isSome_iff_exists.mp hinvoice
  refine (rebuilt_invoice_agrees_with_creation_iff ho hs hm rfl (by decide +kernel)).mpr
    ⟨by decide, ?_, nofun⟩
  rintro discount ⟨⟩
  norm_num

end Fastrak
