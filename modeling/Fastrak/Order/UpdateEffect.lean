import Fastrak.Order.UpdateRun

/-!
# What an update request does

The documented requests give numbers for their amounts. `Updates` lists what such a request
can have done to the records of its order, accepted or refused.
-/

namespace Fastrak

open Transaction

variable {st : Settings} {ac : Accounting} {s t : OrderSlice} {o : Order}

/-- The refusals that come before every write. -/
def UpdateKwargs.RefusedAtOnce (st : Settings) (ac : Accounting) (kw : UpdateKwargs)
    (o : Order) (invoice : Option Move) : Prop :=
  ¬ kw.Passes ac o invoice ∨
    (kw.shippingFees = none ∧ kw.discountAmount ≠ none) ∨
    ∃ fees, kw.shippingFees = some fees ∧
      ((∃ e, targetProduct st o = .error e) ∨
        o.orderStatus = .done ∧ o.hasTarget = true ∧ kw.rebuildClosed ac o invoice)

/-- A confirmed order whose rebuild for new shipping fees is entered. -/
structure UpdateKwargs.EntersRebuild (st : Settings) (ac : Accounting) (kw : UpdateKwargs)
    (o : Order) (invoice : Option Move) (fees : ℚ) (p : Option Product) : Prop where
  passes : kw.Passes ac o invoice
  shippingFees : kw.shippingFees = some fees
  product : targetProduct st o = .ok p
  confirmed : o.orderStatus = .done
  isOpen : ¬ kw.rebuildClosed ac o invoice

/-- What an update request does to the records of the order `o`, and whether it is
accepted. -/
inductive Updates (st : Settings) (ac : Accounting) (kw : UpdateKwargs) (s : OrderSlice)
    (o : Order) : Bool → OrderSlice → Prop
  | refused (h : kw.RefusedAtOnce st ac o (s.invoice? o)) : Updates st ac kw s o false s
  /-- Refused, but a target line has been created. -/
  | lineCreated (fees : ℚ) (p : Option Product) (hk : kw.Passes ac o (s.invoice? o))
      (hf : kw.shippingFees = some fees) (hp : targetProduct st o = .ok p)
      (hs : o.orderStatus = .done) (ht : o.hasTarget = false)
      (hc : kw.rebuildClosed ac o (s.invoice? o)) :
      Updates st ac kw s o false { s with order := some (o.addTargetLine p fees) }
  /-- Refused in the middle of the rebuild for the shipping fees. -/
  | feesInterrupted (fees : ℚ) (p : Option Product) (m : Option Move) (cs : List Order)
      (he : kw.EntersRebuild st ac o (s.invoice? o) fees p)
      (hr : rebuild st ac (o.withFees p fees) none (s.invoice? o) = .error m)
      (hcs : ∀ c ∈ cs, c = o.withFees p fees) :
      Updates st ac kw s o false
        { s with
          order := some (o.withFees p fees)
          moves := o.putInvoice m s.moves
          computedFor := s.computedFor ++ cs }
  /-- Refused between the two rebuilds. -/
  | discountClosed (fees discount : ℚ) (p : Option Product) (m : Option Move)
      (he : kw.EntersRebuild st ac o (s.invoice? o) fees p)
      (hr : rebuild st ac (o.withFees p fees) none (s.invoice? o) = .ok m)
      (hx : kw.discountAmount = some discount) (hc : ac.isPaid m = true) :
      Updates st ac kw s o false
        { s with
          order := some (o.withFees p fees)
          moves := o.putInvoice m s.moves
          computedFor := s.computedFor ++ [o.withFees p fees] }
  /-- Refused in the middle of the rebuild for the discount. -/
  | discountInterrupted (fees discount : ℚ) (p : Option Product) (m m' : Option Move)
      (cs : List Order) (he : kw.EntersRebuild st ac o (s.invoice? o) fees p)
      (hr : rebuild st ac (o.withFees p fees) none (s.invoice? o) = .ok m)
      (hx : kw.discountAmount = some discount) (hc : ac.isPaid m = false)
      (hr' : rebuild st ac ((o.withFees p fees).withDiscount fees discount) (some discount) m =
        .error m')
      (hcs : ∀ c ∈ cs, c = (o.withFees p fees).withDiscount fees discount) :
      Updates st ac kw s o false
        { s with
          order := some ((o.withFees p fees).withDiscount fees discount)
          moves := o.putInvoice m' s.moves
          computedFor := s.computedFor ++ [o.withFees p fees] ++ cs }
  /-- Accepted, and all of it left to the job. -/
  | queued (hk : kw.Passes ac o (s.invoice? o)) (hf : kw.shippingFees = none)
      (hx : kw.discountAmount = none) :
      Updates st ac kw s o true { s with jobs := s.jobs ++ [.write kw.updateDict] }
  /-- Accepted before confirmation: the target line is written at once. -/
  | stored (fees : ℚ) (p : Option Product) (hk : kw.Passes ac o (s.invoice? o))
      (hf : kw.shippingFees = some fees) (hp : targetProduct st o = .ok p)
      (hs : o.orderStatus ≠ .done) :
      Updates st ac kw s o true
        { s with
          order := some
            ((o.targeted p fees).setTargetAmount (fees + kw.discountAmount.getD 0))
          jobs := s.jobs ++ [.write kw.updateDict] }
  /-- Accepted on a confirmed order, with new shipping fees. -/
  | feesRebuilt (fees : ℚ) (p : Option Product) (m : Option Move)
      (he : kw.EntersRebuild st ac o (s.invoice? o) fees p)
      (hr : rebuild st ac (o.withFees p fees) none (s.invoice? o) = .ok m)
      (hx : kw.discountAmount = none) :
      Updates st ac kw s o true
        { s with
          order := some (o.withFees p fees)
          moves := o.putInvoice m s.moves
          jobs := s.jobs ++ [.write kw.updateDict]
          computedFor := s.computedFor ++ [o.withFees p fees] }
  /-- Accepted on a confirmed order, with new shipping fees and a new discount. -/
  | discountRebuilt (fees discount : ℚ) (p : Option Product) (m m' : Option Move)
      (he : kw.EntersRebuild st ac o (s.invoice? o) fees p)
      (hr : rebuild st ac (o.withFees p fees) none (s.invoice? o) = .ok m)
      (hx : kw.discountAmount = some discount) (hc : ac.isPaid m = false)
      (hr' : rebuild st ac ((o.withFees p fees).withDiscount fees discount) (some discount) m =
        .ok m') :
      Updates st ac kw s o true
        { s with
          order := some ((o.withFees p fees).withDiscount fees discount)
          moves := o.putInvoice m' s.moves
          jobs := s.jobs ++ [.write kw.updateDict]
          computedFor := s.computedFor ++ [o.withFees p fees] ++
            [(o.withFees p fees).withDiscount fees discount] }

/-- The fees section alone, when it refuses the request. -/
theorem FeesSection.updates_of_refused {kw : UpdateKwargs} {fees : ℚ} (ho : s.order = some o)
    (hk : kw.Passes ac o (s.invoice? o)) (hf : kw.shippingFees = some fees)
    (h : FeesSection st ac kw fees s o false t) : Updates st ac kw s o false t := by
  cases h with
  | unwritten e h =>
      rcases h with hp | hstore
      · exact .refused (.inr (.inr ⟨fees, hf, .inl ⟨e, hp⟩⟩))
      · cases hstore
  | interrupted p f m cs hp hstore hs hc hr hcs =>
      obtain rfl : fees = f := Except.ok.inj hstore
      exact .feesInterrupted fees p m cs ⟨hk, hf, hp, hs, hc⟩ hr hcs
  | closed p f hp hstore hs hc =>
      obtain rfl : fees = f := Except.ok.inj hstore
      by_cases ht : o.hasTarget = true
      · have hself : { s with order := some (o.targeted p fees) } = s := by
          rw [Order.targeted, if_pos ht, ← ho]
        rw [hself]
        exact .refused (.inr (.inr ⟨fees, hf, .inr ⟨hs, ht, hc⟩⟩))
      · rw [show o.targeted p fees = o.addTargetLine p fees from if_neg ht]
        exact .lineCreated fees p hk hf hp hs (by simpa using ht) hc

/-- The fees section alone, of a request without a discount. -/
theorem FeesSection.updates {kw : UpdateKwargs} {fees : ℚ}
    (hk : kw.Passes ac o (s.invoice? o)) (hf : kw.shippingFees = some fees)
    (hx : kw.discountAmount = none) (h : FeesSection st ac kw fees s o true t) :
    Updates st ac kw s o true (t.addJob (.write kw.updateDict)) := by
  cases h with
  | stored p f hp hstore hs =>
      obtain rfl : fees = f := Except.ok.inj hstore
      have hupd : Updates st ac kw s o true _ := .stored fees p hk hf hp hs
      rwa [hx, Option.getD_none, add_zero] at hupd
  | rebuilt p f m hp hstore hs hc hr =>
      obtain rfl : fees = f := Except.ok.inj hstore
      exact .feesRebuilt fees p m ⟨hk, hf, hp, hs, hc⟩ hr hx

namespace UpdateKwargs

variable {kw : UpdateKwargs} {fees : ℚ} (st : Settings) (discount : ℚ)

/-- A sum of two numbers is assigned. -/
theorem withSum_of_some (hf : kw.shippingFees = some fees) (o : Order) :
    kw.withSum st discount o = .ok (o.setTargetAmount (fees + discount)) := by
  rw [withSum, hf]
  exact Order.assignTarget_of_store rfl o

/-- Nothing is added to shipping fees that the request does not give. -/
theorem withSum_of_none (hf : kw.shippingFees = none) (o : Order) :
    ∃ e, kw.withSum st discount o = .error e := by
  rw [withSum, hf]
  exact ⟨_, rfl⟩

end UpdateKwargs

/-- The discount section alone, which no request passes without shipping fees. -/
theorem DiscountSection.updates_of_none {kw : UpdateKwargs} {discount : ℚ} {accepted : Bool}
    (hf : kw.shippingFees = none) (hx : kw.discountAmount = some discount)
    (h : DiscountSection st ac kw discount s o accepted t) :
    accepted = false ∧ Updates st ac kw s o false t := by
  obtain ⟨e, he⟩ := UpdateKwargs.withSum_of_none st discount hf o
  cases h with
  | refused => exact ⟨rfl, .refused (.inr (.inl ⟨hf, by simp [hx]⟩))⟩
  | stored _ h | unread _ _ h | rebuilt _ _ _ h | interrupted _ _ _ _ h =>
      rw [he] at h
      cases h

/-- The discount section after the fees section, which left the order `o'`. -/
theorem DiscountSection.updates {kw : UpdateKwargs} {fees discount : ℚ} {r : OrderSlice}
    {o' : Order} {accepted : Bool} (hk : kw.Passes ac o (s.invoice? o))
    (hf : kw.shippingFees = some fees) (hx : kw.discountAmount = some discount)
    (hfees : FeesSection st ac kw fees s o true r) (ho' : r.order = some o')
    (h : DiscountSection st ac kw discount r o' accepted t) :
    Updates st ac kw s o accepted
      (if accepted then t.addJob (.write kw.updateDict) else t) := by
  have hsum := UpdateKwargs.withSum_of_some st discount hf o'
  cases hfees with
  | stored p f hp hstore hs =>
      obtain rfl : fees = f := Except.ok.inj hstore
      cases ho'
      obtain ⟨lines, hl⟩ := o.targeted_eq p fees
      have hs' : ((o.targeted p fees).setTargetAmount fees).orderStatus ≠ .done := by
        rw [hl]
        exact hs
      cases h with
      | refused h => simp [hsum, hs'] at h
      | unread _ _ _ h => exact absurd h hs'
      | interrupted _ _ _ _ _ h => exact absurd h hs'
      | rebuilt _ _ _ _ h => exact absurd h hs'
      | stored o₁ ho₁ _ =>
          obtain rfl : _ = o₁ := Except.ok.inj (hsum.symm.trans ho₁)
          have hupd : Updates st ac kw s o true _ := .stored fees p hk hf hp hs
          rwa [hx, Option.getD_some, ← Order.setTargetAmount_setTargetAmount fees] at hupd
  | rebuilt p f m hp hstore hs hc hr =>
      obtain rfl : fees = f := Except.ok.inj hstore
      cases ho'
      have he : kw.EntersRebuild st ac o (s.invoice? o) fees p := ⟨hk, hf, hp, hs, hc⟩
      have hinv : OrderSlice.invoice? { s with
            order := some (o.withFees p fees)
            moves := o.putInvoice m s.moves
            computedFor := s.computedFor ++ [o.withFees p fees] } (o.withFees p fees) = m :=
        Order.putInvoice_invoice? (rebuild_isSome (.inl hr)) (o.withFees_invoiceId p fees)
      have hput : ∀ {m'}, m'.isSome = m.isSome →
          (o.withFees p fees).putInvoice m' (o.putInvoice m s.moves) = o.putInvoice m' s.moves :=
        fun h => Order.putInvoice_putInvoice h (o.withFees_invoiceId p fees)
      cases h with
      | stored _ _ h => exact absurd ((o.withFees_orderStatus p fees).trans he.confirmed) h
      | unread _ _ _ _ _ h => cases h
      | refused h =>
          obtain ⟨-, hc'⟩ : _ ∧ _ := by simpa [hsum] using h
          rw [hinv] at hc'
          exact .discountClosed fees discount p m he hr hx
            ((UpdateKwargs.rebuildClosed_withFees_iff he.isOpen p fees m).mp hc')
      | rebuilt o₁ x m' ho₁ _ hc' hstore' hr' =>
          obtain rfl : _ = o₁ := Except.ok.inj (hsum.symm.trans ho₁)
          obtain rfl : discount = x := Except.ok.inj hstore'
          rw [hinv] at hr' hc'
          have hpaid : ac.isPaid m = false := by
            simpa [UpdateKwargs.rebuildClosed_withFees_iff he.isOpen] using hc'
          have hupd := Updates.discountRebuilt fees discount p m m' he hr hx hpaid hr'
          rwa [← hput (rebuild_isSome (.inl hr'))] at hupd
      | interrupted o₁ x m' cs ho₁ _ hc' hstore' hr' hcs =>
          obtain rfl : _ = o₁ := Except.ok.inj (hsum.symm.trans ho₁)
          obtain rfl : discount = x := Except.ok.inj hstore'
          rw [hinv] at hr' hc'
          have hpaid : ac.isPaid m = false := by
            simpa [UpdateKwargs.rebuildClosed_withFees_iff he.isOpen] using hc'
          have hupd :=
            Updates.discountInterrupted fees discount p m m' cs he hr hx hpaid hr' hcs
          rwa [← hput (rebuild_isSome (.inr hr'))] at hupd

/-- The two writing sections: `Updates` up to the job that is queued at the end of an accepted
request. -/
theorem WriteSections.updates {kw : UpdateKwargs} {accepted : Bool} (ho : s.order = some o)
    (hk : kw.Passes ac o (s.invoice? o)) (h : WriteSections st ac kw s o accepted t) :
    Updates st ac kw s o accepted
      (if accepted then t.addJob (.write kw.updateDict) else t) := by
  cases h with
  | skipped hf hx => exact .queued hk hf hx
  | fees _ _ hf hx h => exact h.updates hk hf hx
  | feesRefused _ _ hf h => exact h.updates_of_refused ho hk hf
  | discount _ _ _ hf hx h =>
      obtain ⟨rfl, hupd⟩ := h.updates_of_none hf hx
      exact hupd
  | both _ _ _ _ _ _ hf hx hfees ho' h => exact h.updates hk hf hx hfees ho'

/-- Numbers are stored as they are. -/
theorem updateDict_store (st : Settings) (kw : UpdateKwargs) :
    kw.updateDict.store st = kw.updateDict := by
  have hstored : ∀ value : Option ℚ, stored st value = value := by
    intro value
    cases value <;> rfl
  have herror : ∀ value : Option ℚ, storeError st value = none := by
    intro value
    cases value <;> rfl
  simp only [UpdateDict.store, hstored, List.findSome?, herror]
  rfl

/-- `Updates` is what becomes of a request with numbers for its amounts. -/
theorem updateBillOfLoading_updates (st : Settings) (ac : Accounting) (kw : UpdateKwargs)
    (ho : s.order = some o) :
    ∃ t, (Updates st ac kw s o true t ∧
        ∃ r, (updateBillOfLoading st ac kw).run s = .ok r t ∧ r.code = some 200) ∨
      (Updates st ac kw s o false t ∧
        ∃ e, (updateBillOfLoading st ac kw).run s = .error e t) := by
  rcases updateBillOfLoading_run st ac kw ho with
    ⟨hk, e, hrun⟩ | ⟨hk, t, ⟨h, r, hrun, hr⟩ | ⟨h, e, hrun⟩⟩
  · exact ⟨s, .inr ⟨.refused (.inl hk), e, hrun⟩⟩
  · rw [updateDict_store] at hrun
    exact ⟨_, .inl ⟨h.updates ho hk, r, hrun, hr⟩⟩
  · exact ⟨t, .inr ⟨h.updates ho hk, e, hrun⟩⟩

/-! ## What an update request leaves in place -/

/-- The orders differ in their service lines, shipping fees and discount alone. -/
def Order.Refeed (o o' : Order) : Prop :=
  ∃ lines fees discount, o' = { o with
    serviceLineIds := lines
    shippingFees := fees
    discountAmount := discount }

theorem rebuildMove_moveType {id : ℕ} {discount : Option ℚ} {m m' : Move}
    (h : rebuildMove st ac id o discount m = .ok m' ∨
      rebuildMove st ac id o discount m = .error m') : m'.moveType = m.moveType := by
  rcases h with h | h
  · obtain ⟨lines, -, rfl⟩ := rebuildMove_eq_ok h
    rfl
  · rcases rebuildMove_eq_error h with rfl | ⟨-, rfl | ⟨lines, rfl⟩⟩ <;> rfl

theorem rebuildMove_state {id : ℕ} {discount : Option ℚ} {m m' : Move}
    (h : rebuildMove st ac id o discount m = .ok m') : m'.state = .posted := by
  obtain ⟨lines, -, rfl⟩ := rebuildMove_eq_ok h
  rfl

/-- The rebuild keeps the type of the invoice, and posts it when it is completed. -/
theorem rebuild_cases {discount : Option ℚ} {invoice m : Option Move}
    (h : rebuild st ac o discount invoice = .ok m ∨
      rebuild st ac o discount invoice = .error m) :
    m.map (·.moveType) = invoice.map (·.moveType) ∧
      (rebuild st ac o discount invoice = .ok m → ∀ m' ∈ m, m'.state = .posted) := by
  cases invoice with
  | none =>
      obtain rfl : m = none := by simpa using rebuild_isSome h
      exact ⟨rfl, fun _ => by simp⟩
  | some m₀ =>
      simp only [rebuild] at h ⊢
      cases hm : rebuildMove st ac (o.invoiceId.getD 0) o discount m₀ with
      | error m' =>
          obtain rfl : some m' = m := by simpa [hm] using h
          exact ⟨congrArg some (rebuildMove_moveType (.inr hm)), by simp⟩
      | ok m' =>
          obtain rfl : some m' = m := by simpa [hm] using h
          refine ⟨congrArg some (rebuildMove_moveType (.inl hm)), fun _ m'' h' => ?_⟩
          obtain rfl : m' = m'' := by simpa using h'
          exact rebuildMove_state hm

theorem Order.targeted_refeed (p : Option Product) (fees : ℚ) (o : Order) :
    o.Refeed (o.targeted p fees) := by
  obtain ⟨lines, h⟩ := o.targeted_eq p fees
  exact ⟨lines, o.shippingFees, o.discountAmount, h⟩

theorem Order.withFees_refeed (p : Option Product) (fees : ℚ) (o : Order) :
    o.Refeed (o.withFees p fees) := by
  obtain ⟨lines, h⟩ := o.withFees_eq p fees
  exact ⟨lines, fees, o.discountAmount, h⟩

theorem Order.Refeed.trans {o o' o'' : Order} (h : o.Refeed o') (h' : o'.Refeed o'') :
    o.Refeed o'' := by
  obtain ⟨_, _, _, rfl⟩ := h
  obtain ⟨lines, fees, discount, rfl⟩ := h'
  exact ⟨lines, fees, discount, rfl⟩

namespace Updates

variable {kw : UpdateKwargs} {accepted : Bool}

/-- Of the order, only the fields that the writing sections are about change. -/
theorem order (ho : s.order = some o) (h : Updates st ac kw s o accepted t) :
    ∃ o', t.order = some o' ∧ o.Refeed o' := by
  have hdisc : ∀ p fees discount,
      o.Refeed ((o.withFees p fees).withDiscount fees discount) :=
    fun p fees discount => (o.withFees_refeed p fees).trans
      ⟨_, (o.withFees p fees).shippingFees, discount, rfl⟩
  cases h with
  | refused | queued => exact ⟨o, ho, o.serviceLineIds, o.shippingFees, o.discountAmount, rfl⟩
  | lineCreated => exact ⟨_, rfl, _, o.shippingFees, o.discountAmount, rfl⟩
  | stored fees p =>
      refine ⟨_, rfl, (o.targeted_refeed p fees).trans
        ⟨_, (o.targeted p fees).shippingFees, (o.targeted p fees).discountAmount, rfl⟩⟩
  | feesInterrupted fees p | discountClosed fees _ p | feesRebuilt fees p =>
      exact ⟨_, rfl, o.withFees_refeed p fees⟩
  | discountInterrupted fees discount p | discountRebuilt fees discount p =>
      exact ⟨_, rfl, hdisc p fees discount⟩

/-- The shipping fees of a confirmed order are written at once. -/
theorem shippingFees {o' : Order} (ho : s.order = some o)
    (h : Updates st ac kw s o accepted t) (ho' : t.order = some o') :
    o'.shippingFees = o.shippingFees ∨
      o.orderStatus = .done ∧ kw.shippingFees = some o'.shippingFees := by
  cases h with
  | refused | queued =>
      obtain rfl : o' = o := by simpa [ho] using ho'.symm
      exact .inl rfl
  | lineCreated =>
      cases ho'
      exact .inl rfl
  | stored fees p =>
      cases ho'
      obtain ⟨_, h⟩ := o.targeted_eq p fees
      rw [h]
      exact .inl rfl
  | feesInterrupted _ _ _ _ he
  | discountClosed _ _ _ _ he
  | feesRebuilt _ _ _ he
  | discountInterrupted _ _ _ _ _ _ he
  | discountRebuilt _ _ _ _ _ he =>
      cases ho'
      exact .inr ⟨he.confirmed, he.shippingFees⟩

/-- An accepted request queues its dictionary, a refused one queues nothing. -/
theorem jobs (h : Updates st ac kw s o accepted t) :
    t.jobs = if accepted then s.jobs ++ [.write kw.updateDict] else s.jobs := by
  cases h <;> rfl

/-- Of the moves, only the invoice of a confirmed order changes; it keeps its type,
and is posted when the request is accepted. -/
theorem moves (h : Updates st ac kw s o accepted t) :
    t.moves = s.moves ∨
      o.orderStatus = .done ∧ ∃ m, t.moves = o.putInvoice m s.moves ∧
        m.map (·.moveType) = (s.invoice? o).map (·.moveType) ∧
        (accepted = true → ∀ m' ∈ m, m'.state = .posted) := by
  cases h with
  | refused | lineCreated | queued | stored => exact .inl rfl
  | feesInterrupted fees p m cs he hr =>
      exact .inr ⟨he.confirmed, m, rfl, (rebuild_cases (.inr hr)).1, by simp⟩
  | discountClosed fees discount p m he hr =>
      exact .inr ⟨he.confirmed, m, rfl, (rebuild_cases (.inl hr)).1, by simp⟩
  | discountInterrupted fees discount p m m' cs he hr _ _ hr' =>
      exact .inr ⟨he.confirmed, m', rfl,
        (rebuild_cases (.inr hr')).1.trans (rebuild_cases (.inl hr)).1, by simp⟩
  | feesRebuilt fees p m he hr =>
      obtain ⟨htype, hpost⟩ := rebuild_cases (.inl hr)
      exact .inr ⟨he.confirmed, m, rfl, htype, fun _ => hpost hr⟩
  | discountRebuilt fees discount p m m' he hr _ _ hr' =>
      obtain ⟨htype, hpost⟩ := rebuild_cases (.inl hr')
      exact .inr ⟨he.confirmed, m', rfl, htype.trans (rebuild_cases (.inl hr)).1,
        fun _ => hpost hr'⟩

end Updates

end Fastrak
