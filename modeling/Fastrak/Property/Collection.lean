import Fastrak.Order.Ledger

/-!
# Collecting the shipping fees

`register_payment` has two branches, one for each value of `is_pos_payment`. Each of
them refuses a second collection of its own kind only, so that the fees are collected
once as long as the flag is not changed behind a collection. The amount is the
residual of the invoice in one branch and its total in the other.
-/

namespace Fastrak

open Transaction Run

variable {st : Settings} {ac : Accounting} {orderId : String} {s t : OrderSlice} {o o' : Order}

/-! ## Collected once -/

/-- What a step can do to the collections of an order. -/
inductive Order.Collects (o o' : Order) : Prop
  | same (h : o'.collections = o.collections)
  | pos (i : ℕ) (hm : o.isPosPayment = true) (hu : o.invoicePaymentCollection = none)
      (h : o'.collections = { o.collections with invoicePaymentCollection := some i })
  | cash (i : ℕ) (hm : o.isPosPayment = false) (hu : o.paymentCollectionEntry = none)
      (h : o'.collections = { o.collections with paymentCollectionEntry := some i })

/-- A step collects in the mode of the order, or changes the mode by a deferred
write, or does neither. -/
theorem Steps.collects {e : Event} {out : Outcome} (ho : s.order = some o)
    (h : Steps st ac orderId s e out t) :
    ∃ o', t.order = some o' ∧ o.Collects o' ∧
      (o'.isPosPayment = o.isPosPayment ∨ ∃ d, e.write? s = some d ∧ o' = d.apply o) := by
  cases h with
  | ignored => exact ⟨o, ho, .same rfl, .inl rfl⟩
  | raised _ c base _ _ hc | vacuous _ c _ hc =>
      exact ⟨o, (Event.call?_records hc).1.trans ho, .same rfl, .inl rfl⟩
  | request r _ _ h =>
      obtain ⟨o', ho', hk⟩ := h.keeps ho
      exact ⟨o', ho', .same hk.collections, .inl (congrArg Terms.isPosPayment hk.terms)⟩
  | returned _ c base o₁ _ hc ho₁ h =>
      obtain rfl : o₁ = o :=
        Option.some.inj (ho₁.symm.trans ((Event.call?_records hc).1.trans ho))
      by_cases hw : ∃ d, c = .write d
      · obtain ⟨d, rfl⟩ := hw
        obtain rfl := h
        exact ⟨_, rfl, .same rfl, .inr ⟨d, Event.write?_of_call hc, rfl⟩⟩
      by_cases hr : ∃ apiAction, c = .registerPayment apiAction
      · obtain ⟨apiAction, rfl⟩ := hr
        cases h with
        | pos _ _ _ _ hm _ hu => exact ⟨_, rfl, .pos _ hm hu rfl, .inl rfl⟩
        | cash _ _ hm hu => exact ⟨_, rfl, .cash _ hm hu rfl, .inl rfl⟩
        | free => exact ⟨o₁, ho₁, .same rfl, .inl rfl⟩
      · obtain ⟨o', ho', hk⟩ := h.keeps ho₁
        have hterms := hk.terms fun d hd => hw ⟨d, hd⟩
        exact ⟨o', ho', .same (hk.collections fun a ha => hr ⟨a, ha⟩),
          .inl (congrArg Terms.isPosPayment hterms)⟩

/-- The fees have been collected in the mode of the order. -/
structure Order.CollectedInMode (o : Order) : Prop where
  pos : o.invoicePaymentCollection ≠ none → o.isPosPayment = true
  cash : o.paymentCollectionEntry ≠ none → o.isPosPayment = false

theorem Order.CollectedInMode.collects (hk : o.CollectedInMode) (h : o.Collects o')
    (hm : o'.isPosPayment = o.isPosPayment) : o'.CollectedInMode := by
  cases h with
  | same h =>
      obtain ⟨hi, hc⟩ := Collections.mk.inj h
      exact ⟨fun hp => hm.trans (hk.pos (hi ▸ hp)), fun hp => hm.trans (hk.cash (hc ▸ hp))⟩
  | pos i hpos hu h =>
      obtain ⟨-, hc⟩ := Collections.mk.inj h
      refine ⟨fun _ => hm.trans hpos, fun hp => ?_⟩
      have hcash : o.isPosPayment = false := hk.cash fun h => hp (hc.trans h)
      simp [hpos] at hcash
  | cash i hcash hu h =>
      obtain ⟨hi, -⟩ := Collections.mk.inj h
      refine ⟨fun hp => ?_, fun _ => hm.trans hcash⟩
      have hpos : o.isPosPayment = true := hk.pos fun h => hp (hi.trans h)
      simp [hcash] at hpos

/-- `is_pos_payment` changes only while nothing is collected. -/
def KeepsMode (s : OrderSlice) (e : Event) : Prop :=
  ∀ d o, e.write? s = some d → s.order = some o → (d.apply o).isPosPayment ≠ o.isPosPayment →
    o.invoicePaymentCollection = none ∧ o.paymentCollectionEntry = none

theorem KeepsMode.of_none {e : Event} (h : e.write? s = none) : KeepsMode s e := by
  intro d o hd
  simp [h] at hd

namespace OrderSlice

def CollectedInMode (s : OrderSlice) : Prop := ∀ o, s.order = some o → o.CollectedInMode

/-- At most one of the two fields is set. -/
def CollectedOnce (s : OrderSlice) : Prop :=
  ∀ o, s.order = some o → o.invoicePaymentCollection = none ∨ o.paymentCollectionEntry = none

/-- What is set is not replaced. -/
def KeepsCollections (s t : OrderSlice) : Prop :=
  ∀ o, s.order = some o → ∃ o', t.order = some o' ∧
    (∀ i, o.invoicePaymentCollection = some i → o'.invoicePaymentCollection = some i) ∧
    (∀ i, o.paymentCollectionEntry = some i → o'.paymentCollectionEntry = some i)

theorem CollectedInMode.collectedOnce (h : s.CollectedInMode) : s.CollectedOnce := by
  intro o ho
  by_contra hboth
  obtain ⟨hi, hc⟩ : o.invoicePaymentCollection ≠ none ∧ o.paymentCollectionEntry ≠ none :=
    not_or.mp hboth
  have hpos := (h o ho).pos hi
  rw [(h o ho).cash hc] at hpos
  cases hpos

theorem IsNew.collectedInMode (h : s.IsNew) : s.CollectedInMode := fun o ho =>
  ⟨fun hi => absurd (h.order o ho).invoicePaymentCollection hi,
    fun hc => absurd (h.order o ho).paymentCollectionEntry hc⟩

end OrderSlice

theorem step_keepsCollections (orderId : String) (s : OrderSlice) (e : Event) :
    s.KeepsCollections (step st ac orderId s e) := by
  intro o ho
  obtain ⟨o', ho', hcol, -⟩ := (perform_steps st ac orderId e s).collects ho
  refine ⟨o', ho', ?_⟩
  cases hcol with
  | same h =>
      obtain ⟨hi, hc⟩ := Collections.mk.inj h
      exact ⟨fun _ h => hi.trans h, fun _ h => hc.trans h⟩
  | pos i _ hu h =>
      obtain ⟨-, hc⟩ := Collections.mk.inj h
      exact ⟨fun j hj => by simp [hu] at hj, fun _ h => hc.trans h⟩
  | cash i _ hu h =>
      obtain ⟨hi, -⟩ := Collections.mk.inj h
      exact ⟨fun _ h => hi.trans h, fun j hj => by simp [hu] at hj⟩

theorem step_collectedInMode (orderId : String) (s : OrderSlice) (e : Event)
    (hs : s.CollectedInMode) (hcond : KeepsMode s e) :
    (step st ac orderId s e).CollectedInMode := by
  intro o' ho'
  have h := perform_steps st ac orderId e s
  cases ho : s.order with
  | none =>
      obtain ⟨kw, lines, rfl⟩ := h.newOrder_of_none ho ho'
      exact ⟨fun hi => absurd rfl hi, fun hc => absurd rfl hc⟩
  | some o =>
      obtain ⟨o'', ho'', hcol, hm⟩ := h.collects ho
      obtain rfl : o' = o'' := Option.some.inj (ho'.symm.trans ho'')
      by_cases hsame : o'.isPosPayment = o.isPosPayment
      · exact (hs o ho).collects hcol hsame
      · -- the mode is changed, so that nothing has been collected
        obtain ⟨d, hd, rfl⟩ := hm.resolve_left hsame
        obtain ⟨hi, hc⟩ := hcond d o hd ho hsame
        exact ⟨fun hi' => absurd hi hi', fun hc' => absurd hc hc'⟩

variable {db : Database} {es : List (String × Event)} {id : String}

/-- In every run the collection fields of an order are never replaced; and if
`is_pos_payment` changes only while nothing is collected, at most one of them is set. -/
theorem fees_collected_once (st : Settings) (ac : Accounting) (hdb : (db id).IsNew)
    (hm : Meets (dbStep st ac) (addressedTo id KeepsMode) db es)
    (es' : List (String × Event)) :
    (run (dbStep st ac) db es id).CollectedOnce ∧
      (run (dbStep st ac) db es id).KeepsCollections
        (run (dbStep st ac) db (es ++ es') id) := by
  constructor
  · exact (family_invariant (I := OrderSlice.CollectedInMode)
      (fun s e hs hC => step_collectedInMode id s e hs hC) hdb.collectedInMode
      hm).collectedOnce
  · rw [run_append]
    exact family_relation (step st ac) (I := fun _ => True)
      (fun _ _ _ _ => True.intro)
      (fun s o ho => ⟨o, ho, fun _ h => h, fun _ h => h⟩)
      (fun hst htr o ho => by
        obtain ⟨o', ho', hi, hc⟩ := hst o ho
        obtain ⟨o'', ho'', hi', hc'⟩ := htr o' ho'
        exact ⟨o'', ho'', fun i h => hi' i (hi i h), fun i h => hc' i (hc i h)⟩)
      (fun s e _ _ => step_keepsCollections id s e) True.intro (family_meets_trivial id _ es')

/-- The run of an order that is collected in cash. -/
theorem fees_collected_once_in_cash :
    (run (dbStep .sample .sample) Database.empty
      [("A", sampleCreate .onPickup), ("A", .request (.pickup (some 7))), ("A", .job 0),
       ("A", .request (.moneyCollection (some (some .shippingFees)))), ("A", .job 0)]
      "A").CollectedOnce := by
  refine (fees_collected_once .sample .sample (Database.empty_isNew "A") ?_ []).1
  refine ⟨fun _ => .of_none ?_, fun _ => .of_none ?_, fun _ => .of_none ?_, fun _ => .of_none ?_,
    fun _ => .of_none ?_, True.intro⟩ <;> decide +kernel

/-- The fees are collected by machine, then the order is changed to pay in cash before
it is delivered, and they are collected in cash. -/
theorem fees_collected_twice :
    ¬ (run (dbStep .sample .sample) Database.empty
      [("A", .request (.create (some
        { userId := 5, paymentMethod := .onDelivery, shippingFees := 100, isPosPayment := true }))),
       ("A", .request (.pickup (some 7))), ("A", .request (.delivery (some 7))), ("A", .job 0),
       ("A", .request (.moneyCollection (some (some .shippingFees)))), ("A", .job 1),
       ("A", .request (.update { isPosPayment := some false })), ("A", .job 0), ("A", .job 0),
       ("A", .request (.moneyCollection (some (some .shippingFees)))), ("A", .job 0)]
      "A").CollectedOnce := by
  intro h
  generalize hs : run (dbStep .sample .sample) Database.empty _ "A" = s at h
  have hrun : s.order.map (fun o => (o.invoicePaymentCollection, o.paymentCollectionEntry)) =
      some (some 0, some 2) := by
    rw [← hs]
    decide +kernel
  obtain ⟨o, ho, hfields⟩ := Option.map_eq_some_iff.mp hrun
  obtain ⟨hi, hc⟩ : o.invoicePaymentCollection = some 0 ∧ o.paymentCollectionEntry = some 2 := by
    simpa using hfields
  rcases h o ho with h | h
  · simp [hi] at h
  · simp [hc] at h

/-! ## Collected in full -/

/-- The step has booked `amount`, as a payment or on both sides of an entry. -/
inductive Books (s t : OrderSlice) (amount : ℚ) : Prop
  | pos (payment : Payment) (h : t.payments = s.payments ++ [payment])
      (ha : payment.amount = amount)
  | cash (entry : Move) (debit credit : EntryLine) (h : t.moves = s.moves ++ [entry])
      (hl : entry.lineIds = [debit, credit]) (hd : debit.debit = amount)
      (hc : credit.credit = amount)

/-- The order has a posted invoice, and the step has booked what is left of it. -/
def CollectsResidual (ac : Accounting) (s t : OrderSlice) (o : Order) : Prop :=
  ∃ invoice, s.invoice? o = some invoice ∧ invoice.state = .posted ∧
    Books s t (ac.residual (some invoice))

/-- A `register_payment` that succeeds on an order with shipping fees collects what is
owed. -/
def CollectsInFull (st : Settings) (ac : Accounting) (orderId : String) (s : OrderSlice)
    (e : Event) : Prop :=
  ∀ apiAction base o, e.call? s = some (.registerPayment apiAction, base) →
    (perform st ac orderId e s).1.isSuccess → s.order = some o → o.shippingFees ≠ 0 →
      CollectsResidual ac s (step st ac orderId s e) o

/-- No update request is interrupted while it rebuilds the invoice, and the fees are
collected in cash only for an invoice of which nothing has been settled. -/
structure CollectsWhole (st : Settings) (ac : Accounting) (s : OrderSlice) (e : Event) :
    Prop where
  update : ∀ kw o, e.update? = some kw → s.order = some o →
    ¬ kw.Interrupts st ac o (s.invoice? o)
  cash : ∀ apiAction base o, e.call? s = some (.registerPayment apiAction, base) →
    s.order = some o → o.shippingFees ≠ 0 → o.isPosPayment = false →
      o.invoiceId ≠ none ∧ ∀ m ∈ s.invoice? o, m.reconciled = 0

theorem CollectsWhole.of_none {e : Event} (hu : e.update? = none)
    (hc : (∀ c ∈ e.call? s, ∀ apiAction, c.1 ≠ .registerPayment apiAction) ∨
      ∀ o ∈ s.order, o.invoiceId ≠ none ∧ ∀ m ∈ s.invoice? o, m.reconciled = 0) :
    CollectsWhole st ac s e where
  update := by simp [hu]
  cash apiAction base o hcall ho _ _ :=
    hc.elim (fun hc => absurd rfl (hc _ hcall apiAction)) fun hc => hc o ho

/-- The entry of a cash collection books the total of the invoice. -/
theorem prepareRegisterPaymentEntry_lineIds {data : Move}
    (h : prepareRegisterPaymentEntry st ac s o = .ok data) :
    ∃ debit credit, data.lineIds = [debit, credit] ∧ debit.debit = ac.total (s.invoice? o) ∧
      credit.credit = ac.total (s.invoice? o) := by
  simp only [prepareRegisterPaymentEntry, getRegisterPaymentLines, except_bind_ok_iff,
    except_pure_eq_ok_iff] at h
  obtain ⟨-, -, lines, hlines, rfl⟩ := h
  split at hlines
  · cases hlines
  · simp only [except_bind_ok_iff, except_pure_eq_ok_iff] at hlines
    obtain ⟨_, -, rfl⟩ := hlines
    exact ⟨_, _, rfl, rfl, rfl⟩

theorem Accounting.total_eq_residual {m : Move} (h : m.reconciled = 0) :
    ac.total (some m) = ac.residual (some m) := by
  simp [total, residual, h]

theorem RegistersPayment.collectsResidual (hs : s.InvoicePosted) (ho : s.order = some o)
    (hf : o.shippingFees ≠ 0)
    (hcash : o.isPosPayment = false →
      o.invoiceId ≠ none ∧ ∀ m ∈ s.invoice? o, m.reconciled = 0)
    (h : RegistersPayment st ac s o t) : CollectsResidual ac s t o := by
  have hinvoice : o.invoiceId ≠ none →
      ∃ invoice, s.invoice? o = some invoice ∧ invoice.state = .posted := by
    intro hi
    obtain ⟨i, hi⟩ := Option.ne_none_iff_exists'.mp hi
    obtain ⟨m, hm, hp⟩ := hs o i ho hi
    exact ⟨m, OrderSlice.invoice?_eq_some_iff.mpr ⟨i, hi, hm⟩, hp⟩
  cases h with
  | free hf' => exact absurd hf' hf
  | pos payment _ _ _ hm hi _ ha =>
      obtain ⟨invoice, hinv, hp⟩ := hinvoice hi
      refine ⟨invoice, hinv, hp, .pos payment rfl (ha.trans ?_)⟩
      rw [preparePosPaymentVals, hinv]
  | cash data _ hm _ hd =>
      obtain ⟨hi, hrec⟩ := hcash hm
      obtain ⟨invoice, hinv, hp⟩ := hinvoice hi
      obtain ⟨debit, credit, hl, hdebit, hcredit⟩ := prepareRegisterPaymentEntry_lineIds hd
      have hamount : ac.total (s.invoice? o) = ac.residual (some invoice) := by
        rw [hinv]
        exact Accounting.total_eq_residual (hrec invoice hinv)
      exact ⟨invoice, hinv, hp, .cash (data.post ac s.moves.length) debit credit rfl hl
        (hdebit.trans hamount) (hcredit.trans hamount)⟩

theorem step_collectsInFull (orderId : String) (s : OrderSlice) (e : Event)
    (hs : s.InvoicePosted) (hcond : CollectsWhole st ac s e) :
    CollectsInFull st ac orderId s e := by
  intro apiAction base o hc hsucc ho hf
  obtain ⟨hbase, hmoves, hpay, -⟩ := Event.call?_records hc
  have ho' : base.order = some o := hbase.trans ho
  have h : RegistersPayment st ac base o (step st ac orderId s e) :=
    (perform_steps st ac orderId e s).effect hc hsucc ho'
  have hinv : base.invoice? o = s.invoice? o := by
    simp only [OrderSlice.invoice?, OrderSlice.move?, hmoves]
  have hs' : base.InvoicePosted := fun o i ho hi => hmoves ▸ hs o i (hbase ▸ ho) hi
  obtain ⟨invoice, hi, hp, hbooks⟩ := h.collectsResidual hs' ho' hf
    fun hm => hinv ▸ hcond.cash apiAction base o hc ho hf hm
  refine ⟨invoice, hinv ▸ hi, hp, ?_⟩
  cases hbooks with
  | pos payment h ha => exact .pos payment (hpay ▸ h) ha
  | cash entry debit credit h hl hd hc => exact .cash entry debit credit (hmoves ▸ h) hl hd hc

/-- In a run in which no update request is interrupted and cash is only collected for
whole invoices, every collection books what is left of a posted invoice. -/
theorem collections_are_in_full (st : Settings) (ac : Accounting) (hdb : (db id).IsNew)
    (hm : Meets (dbStep st ac) (addressedTo id (CollectsWhole st ac)) db es) :
    Meets (dbStep st ac) (addressedTo id (CollectsInFull st ac id)) db es :=
  family_meets (I := OrderSlice.InvoicePosted)
    (fun s e hs hC => (perform_steps st ac id e s).invoicePosted hs
      fun kw o hkw ho => .inr (hC.update kw o hkw ho))
    (fun s e hs hC => step_collectsInFull id s e hs hC) hdb.invoicePosted hm

/-- The run of an order that is billed and collected in cash. -/
theorem collections_are_in_full_in_cash :
    Meets (dbStep .sample .sample) (addressedTo "A" (CollectsInFull .sample .sample "A"))
      Database.empty
      [("A", sampleCreate .onPickup), ("A", .request (.pickup (some 7))), ("A", .job 0),
       ("A", .button .registerPayment)] := by
  refine collections_are_in_full .sample .sample (Database.empty_isNew "A") ?_
  refine ⟨fun _ => .of_none rfl (.inl ?_), fun _ => .of_none rfl (.inl ?_),
    fun _ => .of_none rfl (.inl ?_), fun _ => .of_none rfl (.inr ?_), True.intro⟩ <;>
    decide +kernel

/-- Half of the invoice is paid, and the whole of it is collected in cash. -/
theorem collection_is_not_in_full :
    ¬ Meets (dbStep .sample .sample) (addressedTo "A" (CollectsInFull .sample .sample "A"))
      Database.empty
      ([("A", sampleCreate .onPickup), ("A", .request (.pickup (some 7))), ("A", .job 0),
        ("A", .payInvoice 50), ("A", .request (.moneyCollection (some (some .shippingFees))))] ++
        [("A", .job 0)]) := by
  rw [meets_append_iff]
  rintro ⟨-, h, -⟩
  have h := h rfl
  generalize hs : run (dbStep .sample .sample) Database.empty _ "A" = s at h
  have hrun : (Event.job 0).call? s = some (.registerPayment true, s.dropJob 0) ∧
      (perform .sample .sample "A" (.job 0) s).1.isSuccess ∧
      s.order.map (fun o => (o.shippingFees, Accounting.sample.residual (s.invoice? o))) =
        some (100, 50) ∧
      (step .sample .sample "A" s (.job 0)).payments = s.payments ∧
      (step .sample .sample "A" s (.job 0)).moves.getLast?.map
        (fun m => m.lineIds.map (·.debit)) = some [100, 0] := by
    rw [← hs]
    decide +kernel
  obtain ⟨hcall, hsucc, hrun, hpay, hmoves⟩ := hrun
  obtain ⟨o, ho, hfields⟩ := Option.map_eq_some_iff.mp hrun
  obtain ⟨hf, hres⟩ : o.shippingFees = 100 ∧ Accounting.sample.residual (s.invoice? o) = 50 := by
    simpa using hfields
  obtain ⟨invoice, hinv, -, hbooks⟩ := h true _ o hcall hsucc ho (by simp [hf])
  rw [hinv] at hres
  cases hbooks with
  | pos payment h => simp [hpay] at h
  | cash entry debit credit h hl hd =>
      rw [h, List.getLast?_concat] at hmoves
      have hdebit : debit.debit = 100 := by simpa [hl] using (congrArg (·.bind List.head?) hmoves)
      rw [hdebit, hres] at hd
      norm_num at hd

end Fastrak
