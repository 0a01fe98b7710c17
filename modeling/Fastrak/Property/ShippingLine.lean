import Fastrak.Order.Computation
import Fastrak.Order.Ledger

/-!
# The shipping line

The create endpoint gives an order a shipping line of its shipping fees and its discount
together, and the VAT line of an invoice relies on that. An update request writes the line
at once and leaves the fees and the discount to a job, so between the two the line agrees
with what the job is going to write. That is so if the request gives the discount with the
fees of an order that has one, if no job of another update is pending, and if no invoice is
made before the job.
-/

namespace Fastrak

open Transaction Run

variable {st : Settings} {ac : Accounting} {orderId : String} {s t : OrderSlice} {o o' : Order}

/-! ## The line of an order -/

theorem ServiceLine.serviceType_of_isTarget {line : ServiceLine} (h : line.isTarget = true) :
    line.serviceType = .shipping :=
  (of_decide_eq_true h).1

namespace Order

/-- The shipping line is the shipping fees and the discount. -/
def LineAgrees (o : Order) : Prop :=
  ∃ line, o.shippingLines = [line] ∧ line.amount = o.shippingFees + o.discountAmount

/-- What the order charges before its discount. -/
def gross (o : Order) : ℚ := o.shippingFees + o.discountAmount

/-- The order has one shipping line, which an update request finds. -/
def LineIs (amount : ℚ) (o : Order) : Prop :=
  ∃ line, o.shippingLines = [line] ∧ line.isTarget = true ∧ line.amount = amount

/-- The order has no other shipping line than one that an update request finds. -/
def Lined (o : Order) : Prop := o.shippingLines = [] ∨ ∃ amount, o.LineIs amount

/-- The line agrees, or nothing is charged for the shipping. -/
def Settled (o : Order) : Prop := o.LineIs o.gross ∨ o.shippingFees = 0 ∧ o.Lined

theorem LineIs.lineAgrees (h : o.LineIs o.gross) : o.LineAgrees := by
  obtain ⟨line, hl, -, ha⟩ := h
  exact ⟨line, hl, ha⟩

theorem LineIs.of_lines {amount : ℚ} (hl : o'.serviceLineIds = o.serviceLineIds)
    (h : o.LineIs amount) : o'.LineIs amount := by
  rwa [LineIs, shippingLines, hl]

theorem Settled.lineIs (h : o.Settled) (hf : o.shippingFees ≠ 0) : o.LineIs o.gross :=
  h.resolve_right fun h => hf h.1

theorem Settled.lined (h : o.Settled) : o.Lined :=
  h.elim (fun h => .inr ⟨_, h⟩) And.right

/-- What the line is compared with, and the line. -/
def charges (o : Order) : ℚ × ℚ × List ServiceLine :=
  (o.shippingFees, o.discountAmount, o.serviceLineIds)

theorem charges_of_terms (h : o'.terms = o.terms) : o'.charges = o.charges := by
  rw [charges, charges]
  exact congrArg (fun k : Terms => (k.shippingFees, k.discountAmount, k.serviceLineIds)) h

theorem gross_of_charges (h : o'.charges = o.charges) : o'.gross = o.gross := by
  rw [gross, gross]
  exact congrArg (fun c : ℚ × ℚ × List ServiceLine => c.1 + c.2.1) h

theorem LineIs.of_charges {amount : ℚ} (h : o'.charges = o.charges) (hl : o.LineIs amount) :
    o'.LineIs amount :=
  hl.of_lines (congrArg (fun c : ℚ × ℚ × List ServiceLine => c.2.2) h)

theorem Settled.of_charges (h : o'.charges = o.charges) (hs : o.Settled) : o'.Settled := by
  have hl : o'.serviceLineIds = o.serviceLineIds :=
    congrArg (fun c : ℚ × ℚ × List ServiceLine => c.2.2) h
  rcases hs with hs | ⟨hf, hs⟩
  · exact .inl (gross_of_charges h ▸ hs.of_charges h)
  · refine .inr ⟨(congrArg Prod.fst h).trans hf, ?_⟩
    rw [Lined, shippingLines, hl]
    exact hs.imp_right fun ⟨amount, hs⟩ => ⟨amount, hs.of_charges h⟩

theorem hasTarget_of_lineIs {amount : ℚ} (h : o.LineIs amount) : o.hasTarget = true := by
  obtain ⟨line, hl, ht, -⟩ := h
  have hmem : line ∈ o.shippingLines := by simp [hl]
  exact List.any_eq_true.mpr ⟨line, (List.mem_filter.mp hmem).1, ht⟩

theorem hasTarget_of_no_line (h : o.shippingLines = []) : o.hasTarget = false := by
  rw [hasTarget, List.any_eq_false]
  intro line hmem ht
  have hline : line ∈ o.shippingLines :=
    List.mem_filter.mpr ⟨hmem, decide_eq_true (ServiceLine.serviceType_of_isTarget ht)⟩
  rw [h] at hline
  cases hline

theorem setTargetAmount_lineIs {a : ℚ} (b : ℚ) (h : o.LineIs a) :
    (o.setTargetAmount b).LineIs b := by
  obtain ⟨line, hl, ht, -⟩ := h
  refine ⟨{ line with amount := b }, ?_, ht, rfl⟩
  have hfilter : (o.setTargetAmount b).shippingLines = o.shippingLines.map fun line =>
      if line.isTarget then { line with amount := b } else line := by
    simp only [shippingLines, setTargetAmount, setServiceLines, List.filter_map]
    congr 1
    apply List.filter_congr
    intro line _
    simp only [Function.comp]
    split <;> rfl
  rw [hfilter, hl]
  simp [ht]

theorem addTargetLine_lineIs {p : Product} (hp : p.isMainServiceProduct = true) (a : ℚ)
    (h : o.shippingLines = []) : (o.addTargetLine (some p) a).LineIs a := by
  refine ⟨{ product := some p, amount := a, serviceType := .shipping,
            description := "Shipping Fees" }, ?_, by simp [ServiceLine.isTarget, hp], rfl⟩
  rw [shippingLines] at h
  simp [shippingLines, addTargetLine, setServiceLines, h]

end Order

/-- A target line that is created is found. -/
theorem mainServiceProduct_of_single {p : Option Product} (hp : st.mainServiceProducts ≠ [])
    (h : single "product.product" st.mainServiceProducts = .ok p) :
    ∃ product, p = some product ∧ product.isMainServiceProduct = true := by
  cases p with
  | none => exact absurd (eq_nil_of_single h) hp
  | some product =>
      have hmem : product ∈ st.mainServiceProducts := by
        rw [eq_singleton_of_single h]
        exact List.mem_singleton_self product
      exact ⟨product, rfl, by simpa using (List.mem_filter.mp hmem).2⟩

/-- An order without a shipping line gets one, which is found. -/
theorem Order.Lined.targeted {p : Option Product} (fees : ℚ) (hp : st.mainServiceProducts ≠ [])
    (ht : targetProduct st o = .ok p) (h : o.Lined) :
    ∃ amount, (o.targeted p fees).LineIs amount := by
  unfold targetProduct at ht
  unfold Order.targeted
  rcases h with h | ⟨amount, h⟩
  · have hno := o.hasTarget_of_no_line h
    rw [hno] at ht
    obtain ⟨product, rfl, hmain⟩ := mainServiceProduct_of_single hp (by simpa using ht)
    rw [hno]
    exact ⟨fees, Order.addTargetLine_lineIs hmain fees h⟩
  · rw [Order.hasTarget_of_lineIs h]
    exact ⟨amount, h⟩

theorem Order.Lined.setTargetAmount {p : Option Product} (fees amount : ℚ)
    (hp : st.mainServiceProducts ≠ []) (ht : targetProduct st o = .ok p) (h : o.Lined) :
    ((o.targeted p fees).setTargetAmount amount).LineIs amount := by
  obtain ⟨_, h⟩ := h.targeted fees hp ht
  exact Order.setTargetAmount_lineIs amount h

/-- A new order has the line of its fees and its discount. -/
theorem newOrder_settled {kw : CreateKwargs} {lines : List ServiceLine}
    (hp : st.mainServiceProducts ≠ []) (h : bolLines st kw = .ok lines) :
    (newOrder orderId kw lines).Settled := by
  simp only [bolLines, except_bind_ok_iff, except_pure_eq_ok_iff] at h
  obtain ⟨shipping, hs, insurance, hi, rfl⟩ := h
  have hinsurance : insurance.filter (·.serviceType = .shipping) = [] := by
    rcases bolLine_eq_ok hi with ⟨-, rfl⟩ | ⟨-, _, -, rfl⟩ <;> rfl
  have hlines : (newOrder orderId kw (shipping ++ insurance)).shippingLines =
      shipping.filter (·.serviceType = .shipping) := by
    simp [Order.shippingLines, newOrder, List.filter_append, hinsurance]
  rcases bolLine_eq_ok hs with ⟨hf, rfl⟩ | ⟨-, p, hsingle, rfl⟩
  · exact .inr ⟨hf, .inl hlines⟩
  · obtain ⟨product, rfl, hmain⟩ := mainServiceProduct_of_single hp hsingle
    exact .inl ⟨_, hlines, by simp [ServiceLine.isTarget, hmain], rfl⟩

/-- Whenever invoice lines were computed, the shipping line agreed. -/
def OrderSlice.LinesAgree (s : OrderSlice) : Prop := ∀ o ∈ s.computedFor, o.LineAgrees

/-! ## Pending writes of the fees -/

namespace UpdateDict

/-- The deferred write is about the shipping fees or the discount. -/
def WritesFees (d : UpdateDict) : Prop := d.shippingFees ≠ none ∨ d.discountAmount ≠ none

instance (d : UpdateDict) : Decidable d.WritesFees := inferInstanceAs (Decidable (_ ∨ _))

/-- The two writes give the same fees and the same discount. -/
def SameFees (d d' : UpdateDict) : Prop :=
  d'.shippingFees = d.shippingFees ∧ d'.discountAmount = d.discountAmount

variable {d d' : UpdateDict}

theorem apply_charges_of_not_writesFees (h : ¬ d.WritesFees) : (d.apply o).charges = o.charges := by
  obtain ⟨hf, hx⟩ : d.shippingFees = none ∧ d.discountAmount = none := by
    simpa [WritesFees] using h
  simp [Order.charges, apply, hf, hx]

/-- A write that is repeated changes nothing. -/
theorem SameFees.apply_apply (h : d.SameFees d') :
    (d'.apply (d.apply o)).charges = (d.apply o).charges := by
  obtain ⟨hf, hx⟩ := h
  simp only [Order.charges, apply, hf, hx]
  cases d.shippingFees <;> cases d.discountAmount <;> rfl

end UpdateDict

/-- A write of the fees or the discount is queued. -/
def OrderSlice.FeesPending (s : OrderSlice) (d : UpdateDict) : Prop :=
  .write d ∈ s.jobs ∧ d.WritesFees

/-- The request comes to the writes of the shipping line. -/
structure UpdateKwargs.WritesLine (st : Settings) (ac : Accounting) (kw : UpdateKwargs)
    (o : Order) (invoice : Option Move) : Prop where
  passes : kw.Passes ac o invoice
  shippingFees : kw.shippingFees ≠ none
  product : ∃ p, targetProduct st o = .ok p
  isOpen : o.orderStatus = .done → ¬ kw.rebuildClosed ac o invoice

/-- The shipping line is written when it can be. -/
structure LineInTime (st : Settings) (ac : Accounting) (s : OrderSlice) (e : Event) : Prop where
  /-- New fees of an order with a discount come with a discount, and before confirmation. -/
  discount : ∀ kw o, e.update? = some kw → s.order = some o →
    kw.WritesLine st ac o (s.invoice? o) →
      o.discountAmount = 0 ∨ o.orderStatus ≠ .done ∧ kw.discountAmount ≠ none
  /-- Another update is pending only if it is the same, and cannot be interrupted between
  the fees and the discount. -/
  pending : ∀ kw o d, e.update? = some kw → s.order = some o →
    kw.WritesLine st ac o (s.invoice? o) → s.FeesPending d →
      kw.updateDict.SameFees d ∧ (o.orderStatus = .done → kw.discountAmount = none)
  /-- An invoice is made when the pending updates leave what it charges. -/
  computed : ∀ o d, s.order = some o → e.computes s o ≠ [] → s.FeesPending d →
    (d.apply o).gross = o.gross

theorem LineInTime.of_update {kw : UpdateKwargs} (hjobs : s.jobs = [])
    (hx : ∀ o ∈ s.order, o.discountAmount = 0 ∨
      o.orderStatus ≠ .done ∧ kw.discountAmount ≠ none) :
    LineInTime st ac s (.request (.update kw)) := by
  have hnone : ∀ d, ¬ s.FeesPending d := by
    rintro d ⟨hm, -⟩
    rw [hjobs] at hm
    cases hm
  refine ⟨fun kw' o hk ho _ => ?_, fun _ _ d _ _ _ hd => absurd hd (hnone d),
    fun _ d _ _ hd => absurd hd (hnone d)⟩
  cases hk
  exact hx o ho

theorem LineInTime.of_not_update {e : Event} (hu : e.update? = none)
    (h : (∀ o ∈ s.order, e.computes s o = []) ∨ ∀ job ∈ s.jobs, job = .confirmBillLoading) :
    LineInTime st ac s e := by
  refine ⟨by simp [hu], by simp [hu], fun o d ho hc hd => ?_⟩
  rcases h with h | h
  · exact absurd (h o ho) hc
  · cases h _ hd.1

/-- The line agrees with the fees, or with what the pending updates will write. -/
structure OrderSlice.LineKept (st : Settings) (s : OrderSlice) : Prop where
  queued : s.Queued
  product : s.order ≠ none → st.mainServiceProducts ≠ []
  settled : ∀ o, s.order = some o → (∀ d, ¬ s.FeesPending d) → o.Settled
  pending : ∀ o d, s.order = some o → s.FeesPending d → (d.apply o).LineIs (d.apply o).gross
  same : ∀ d d', s.FeesPending d → s.FeesPending d' → d.SameFees d'
  computed : s.LinesAgree

namespace OrderSlice.LineKept

theorem lined (hs : s.LineKept st) (ho : s.order = some o) : o.Lined := by
  by_cases h : ∃ d, s.FeesPending d
  · obtain ⟨d, hd⟩ := h
    exact .inr ⟨_, (hs.pending o d ho hd).of_lines rfl⟩
  · exact (hs.settled o ho (not_exists.mp h)).lined

/-- An invoice that is made in time is made of a line that agrees. -/
theorem lineIs (hs : s.LineKept st) (ho : s.order = some o) (hf : o.shippingFees ≠ 0)
    (hd : ∀ d, s.FeesPending d → (d.apply o).gross = o.gross) : o.LineIs o.gross := by
  by_cases h : ∃ d, s.FeesPending d
  · obtain ⟨d, hp⟩ := h
    rw [← hd d hp]
    exact (hs.pending o d ho hp).of_lines rfl
  · exact (hs.settled o ho (not_exists.mp h)).lineIs hf

/-- Neither the line nor what it is compared with changes, nor the pending writes. -/
theorem of_charges (hs : s.LineKept st) (hq : t.Queued) (ho : s.order = some o)
    (ho' : t.order = some o') (hc : o'.charges = o.charges)
    (hp : ∀ d, t.FeesPending d ↔ s.FeesPending d) (hcomp : t.LinesAgree) :
    t.LineKept st where
  queued := hq
  product _ := hs.product (by simp [ho])
  settled o'' ho'' hn := by
    obtain rfl : o'' = o' := Option.some.inj (ho''.symm.trans ho')
    exact (hs.settled o ho fun d hd => hn d ((hp d).mpr hd)).of_charges hc
  pending o'' d ho'' hd := by
    obtain rfl : o'' = o' := Option.some.inj (ho''.symm.trans ho')
    have hc' : (d.apply o'').charges = (d.apply o).charges := by
      simp only [Order.charges, Prod.mk.injEq] at hc
      simp [Order.charges, UpdateDict.apply, hc]
    rw [Order.gross_of_charges hc']
    exact (hs.pending o d ho ((hp d).mp hd)).of_charges hc'
  same d d' hd hd' := hs.same d d' ((hp d).mp hd) ((hp d').mp hd')
  computed := hcomp

/-- An update request that has written the line. -/
theorem of_write {kw : UpdateKwargs} {fees : ℚ} (hs : s.LineKept st) (hq : t.Queued)
    (ho : s.order = some o) (ho' : t.order = some o') (hf : kw.shippingFees = some fees)
    (hjobs : ∀ d, t.FeesPending d → s.FeesPending d ∨ d = kw.updateDict)
    (hsame : ∀ d, s.FeesPending d → kw.updateDict.SameFees d)
    (hline : (∃ d, t.FeesPending d) →
      o'.LineIs (fees + kw.discountAmount.getD o'.discountAmount))
    (hset : (∀ d, ¬ t.FeesPending d) → o'.Settled)
    (hcomp : t.LinesAgree) : t.LineKept st := by
  have hrep : ∀ d, t.FeesPending d → kw.updateDict.SameFees d := by
    intro d hd
    rcases hjobs d hd with hd | rfl
    · exact hsame d hd
    · exact ⟨rfl, rfl⟩
  refine ⟨hq, fun _ => hs.product (by simp [ho]), fun o'' ho'' hn => ?_, fun o'' d ho'' hd => ?_,
    fun d d' hd hd' => ?_, hcomp⟩
  · obtain rfl : o'' = o' := Option.some.inj (ho''.symm.trans ho')
    exact hset hn
  · obtain rfl : o'' = o' := Option.some.inj (ho''.symm.trans ho')
    have hgross : (d.apply o'').gross = fees + kw.discountAmount.getD o''.discountAmount := by
      obtain ⟨hdf, hdx⟩ := hrep d hd
      simp [Order.gross, UpdateDict.apply, hdf, hdx, UpdateKwargs.updateDict, hf]
    rw [hgross]
    exact (hline ⟨d, hd⟩).of_lines rfl
  · exact ⟨(hrep d' hd').1.trans (hrep d hd).1.symm, (hrep d' hd').2.trans (hrep d hd).2.symm⟩

end OrderSlice.LineKept

/-! ## Update requests -/

namespace Order

variable {p : Option Product} {fees discount : ℚ}

theorem withFees_lineIs (hp : st.mainServiceProducts ≠ []) (ht : targetProduct st o = .ok p)
    (h : o.Lined) : (o.withFees p fees).LineIs fees :=
  (h.setTargetAmount fees fees hp ht).of_lines rfl

theorem withDiscount_lineIs (hp : st.mainServiceProducts ≠ []) (ht : targetProduct st o = .ok p)
    (h : o.Lined) :
    ((o.withFees p fees).withDiscount fees discount).LineIs (fees + discount) :=
  (setTargetAmount_lineIs (fees + discount) (withFees_lineIs hp ht h)).of_lines rfl

theorem withFees_gross :
    (o.withFees p fees).gross = fees + (o.withFees p fees).discountAmount := by
  obtain ⟨lines, h⟩ := o.withFees_eq p fees
  rw [h]
  rfl

/-- The line of an order without a discount is written to the new fees. -/
theorem withFees_lineIs_gross (hx : o.discountAmount = 0) (h : (o.withFees p fees).LineIs fees) :
    (o.withFees p fees).LineIs (o.withFees p fees).gross := by
  have hx' : (o.withFees p fees).discountAmount = o.discountAmount := by
    obtain ⟨lines, h⟩ := o.withFees_eq p fees
    rw [h]
    rfl
  rwa [withFees_gross, hx', hx, add_zero]

end Order

theorem UpdateKwargs.EntersRebuild.writesLine {kw : UpdateKwargs} {invoice : Option Move}
    {fees : ℚ} {p : Option Product} (he : kw.EntersRebuild st ac o invoice fees p) :
    kw.WritesLine st ac o invoice :=
  ⟨he.passes, by simp [he.shippingFees], ⟨p, he.product⟩, fun _ => he.isOpen⟩

/-- A write that is pending after the request was pending before, or is that of the
request. -/
theorem Updates.feesPending {kw : UpdateKwargs} {accepted : Bool} {d : UpdateDict}
    (h : Updates st ac kw s o accepted t) (hd : t.FeesPending d) :
    s.FeesPending d ∨ d = kw.updateDict := by
  obtain ⟨hm, hw⟩ := hd
  rw [h.jobs] at hm
  split at hm
  · rcases List.mem_append.mp hm with hm | hm
    · exact .inl ⟨hm, hw⟩
    · exact .inr (by simpa using hm)
  · exact .inl ⟨hm, hw⟩

/-- An order without a target line has no shipping fees, and none are pending. -/
theorem OrderSlice.LineKept.of_no_target (hs : s.LineKept st) (ho : s.order = some o)
    (hno : o.hasTarget = false) : o.shippingFees = 0 ∧ ∀ d, ¬ s.FeesPending d := by
  have hline : ∀ amount, ¬ o.LineIs amount := by
    intro amount hl
    rw [Order.hasTarget_of_lineIs hl] at hno
    cases hno
  have hpend : ∀ d, ¬ s.FeesPending d :=
    fun d hd => hline _ ((hs.pending o d ho hd).of_lines rfl)
  refine ⟨?_, hpend⟩
  by_contra hf
  exact hline _ ((hs.settled o ho hpend).lineIs hf)

/-- What `LineInTime` asks of an update request of the order. -/
structure UpdateKwargs.InTime (st : Settings) (ac : Accounting) (kw : UpdateKwargs)
    (s : OrderSlice) (o : Order) : Prop where
  discount : kw.WritesLine st ac o (s.invoice? o) →
    o.discountAmount = 0 ∨ o.orderStatus ≠ .done ∧ kw.discountAmount ≠ none
  pending : ∀ d, kw.WritesLine st ac o (s.invoice? o) → s.FeesPending d →
    kw.updateDict.SameFees d ∧ (o.orderStatus = .done → kw.discountAmount = none)

section Update

variable {kw : UpdateKwargs} {fees discount : ℚ} {p : Option Product}

theorem UpdateKwargs.InTime.discountAmount_eq_none {d : UpdateDict} (hk : kw.InTime st ac s o)
    (he : kw.EntersRebuild st ac o (s.invoice? o) fees p) (hd : s.FeesPending d) :
    kw.discountAmount = none :=
  (hk.pending d he.writesLine hd).2 he.confirmed

/-- The target line gets the amount that the job is going to charge. -/
theorem UpdateKwargs.InTime.getD_discountAmount (hk : kw.InTime st ac s o)
    (hw : kw.WritesLine st ac o (s.invoice? o)) (amount : ℚ) :
    kw.discountAmount.getD ((o.targeted p fees).setTargetAmount amount).discountAmount =
      kw.discountAmount.getD 0 := by
  obtain ⟨lines, hl⟩ := o.targeted_eq p fees
  rcases hk.discount hw with h | ⟨-, h⟩
  · rw [hl, ← h]
    rfl
  · obtain ⟨x, hx⟩ := Option.ne_none_iff_exists'.mp h
    rw [hx]
    rfl

namespace OrderSlice.LineKept

/-- The rebuild for the shipping fees leaves a line that agrees, of an order without a
discount, and repeats what is pending. -/
theorem of_fees (hs : s.LineKept st) (hk : kw.InTime st ac s o) (hq : t.Queued)
    (ho : s.order = some o) (he : kw.EntersRebuild st ac o (s.invoice? o) fees p)
    (hjobs : ∀ d, t.FeesPending d → s.FeesPending d ∨ d = kw.updateDict)
    (ho' : t.order = some (o.withFees p fees))
    (hx : (∃ d, t.FeesPending d) → kw.discountAmount = none)
    (hcs : ∀ c ∈ t.computedFor, c ∈ s.computedFor ∨ c = o.withFees p fees) :
    t.LineKept st := by
  have hp : st.mainServiceProducts ≠ [] := hs.product (by simp [ho])
  have hzero : o.discountAmount = 0 :=
    (hk.discount he.writesLine).resolve_right fun h => h.1 he.confirmed
  have hline : (o.withFees p fees).LineIs (o.withFees p fees).gross :=
    Order.withFees_lineIs_gross hzero (Order.withFees_lineIs hp he.product (hs.lined ho))
  refine hs.of_write hq ho ho' he.shippingFees hjobs
    (fun d hd => (hk.pending d he.writesLine hd).1) (fun hd => ?_) (fun _ => .inl hline)
    fun c hc => ?_
  · rw [hx hd, Option.getD_none, ← Order.withFees_gross]
    exact hline
  · rcases hcs c hc with hc | rfl
    · exact hs.computed c hc
    · exact hline.lineAgrees

/-- The rebuild for the discount comes after that for the shipping fees. -/
theorem of_discount (hs : s.LineKept st) (hk : kw.InTime st ac s o) (hq : t.Queued)
    (ho : s.order = some o) (he : kw.EntersRebuild st ac o (s.invoice? o) fees p)
    (hjobs : ∀ d, t.FeesPending d → s.FeesPending d ∨ d = kw.updateDict)
    (ho' : t.order = some ((o.withFees p fees).withDiscount fees discount))
    (hx : kw.discountAmount = some discount)
    (hcs : ∀ c ∈ t.computedFor, c ∈ s.computedFor ∨ c = o.withFees p fees ∨
      c = (o.withFees p fees).withDiscount fees discount) :
    t.LineKept st := by
  have hp : st.mainServiceProducts ≠ [] := hs.product (by simp [ho])
  have hzero : o.discountAmount = 0 :=
    (hk.discount he.writesLine).resolve_right fun h => h.1 he.confirmed
  have hfees : (o.withFees p fees).LineIs (o.withFees p fees).gross :=
    Order.withFees_lineIs_gross hzero (Order.withFees_lineIs hp he.product (hs.lined ho))
  have hline : ((o.withFees p fees).withDiscount fees discount).LineIs
      ((o.withFees p fees).withDiscount fees discount).gross :=
    Order.withDiscount_lineIs hp he.product (hs.lined ho)
  refine hs.of_write hq ho ho' he.shippingFees hjobs
    (fun d hd => (hk.pending d he.writesLine hd).1) (fun _ => ?_) (fun _ => .inl hline)
    fun c hc => ?_
  · rw [hx]
    exact hline
  · rcases hcs c hc with hc | rfl | rfl
    · exact hs.computed c hc
    · exact hfees.lineAgrees
    · exact hline.lineAgrees

/-- Before confirmation the line is written at once, and the rest is left to the job. -/
theorem of_stored (hs : s.LineKept st) (hk : kw.InTime st ac s o) (hq : t.Queued)
    (ho : s.order = some o) (hw : kw.WritesLine st ac o (s.invoice? o))
    (hf : kw.shippingFees = some fees) (ht : targetProduct st o = .ok p)
    (hjobs : ∀ d, t.FeesPending d → s.FeesPending d ∨ d = kw.updateDict)
    (hnew : t.FeesPending kw.updateDict)
    (ho' : t.order =
      some ((o.targeted p fees).setTargetAmount (fees + kw.discountAmount.getD 0)))
    (hcs : t.computedFor = s.computedFor) : t.LineKept st := by
  have hp : st.mainServiceProducts ≠ [] := hs.product (by simp [ho])
  refine hs.of_write hq ho ho' hf hjobs (fun d hd => (hk.pending d hw hd).1) (fun _ => ?_)
    (fun hn => absurd hnew (hn _)) ?_
  · rw [hk.getD_discountAmount hw]
    exact (hs.lined ho).setTargetAmount fees _ hp ht
  · rw [OrderSlice.LinesAgree, hcs]
    exact hs.computed

/-- A target line that is created by a request which is then refused. -/
theorem of_lineCreated (hs : s.LineKept st) (hq : t.Queued) (ho : s.order = some o)
    (hf : kw.shippingFees = some fees) (ht : targetProduct st o = .ok p)
    (hno : o.hasTarget = false)
    (hjobs : ∀ d, t.FeesPending d → s.FeesPending d)
    (ho' : t.order = some (o.addTargetLine p fees)) (hcs : t.computedFor = s.computedFor) :
    t.LineKept st := by
  have hp : st.mainServiceProducts ≠ [] := hs.product (by simp [ho])
  obtain ⟨hzero, hpend⟩ := hs.of_no_target ho hno
  have hline : (o.addTargetLine p fees).Lined := by
    obtain ⟨amount, hl⟩ := (hs.lined ho).targeted fees hp ht
    rw [Order.targeted, hno] at hl
    exact .inr ⟨amount, hl⟩
  refine hs.of_write hq ho ho' hf (fun d hd => .inl (hjobs d hd))
    (fun d hd => absurd hd (hpend d)) ?_ (fun _ => .inr ⟨hzero, hline⟩) ?_
  · rintro ⟨d, hd⟩
    exact absurd (hjobs d hd) (hpend d)
  · rw [OrderSlice.LinesAgree, hcs]
    exact hs.computed

end OrderSlice.LineKept

/-- A request in time keeps the line, whether or not it is accepted. -/
theorem Updates.lineKept {accepted : Bool} (hs : s.LineKept st) (hq : t.Queued)
    (ho : s.order = some o) (hin : kw.InTime st ac s o)
    (h : Updates st ac kw s o accepted t) : t.LineKept st := by
  have hjobs : ∀ d, t.FeesPending d → s.FeesPending d ∨ d = kw.updateDict :=
    fun d hd => h.feesPending hd
  cases h with
  | refused => exact hs
  | queued hk hf hx =>
      refine hs.of_charges hq ho ho rfl (fun d => ⟨fun hd => ?_, fun hd => ?_⟩) hs.computed
      · refine (hjobs d hd).resolve_right ?_
        rintro rfl
        simpa [UpdateDict.WritesFees, UpdateKwargs.updateDict, hf, hx] using hd.2
      · exact ⟨List.mem_append_left _ hd.1, hd.2⟩
  | lineCreated fees p hk hf ht hst hno hc =>
      exact hs.of_lineCreated hq ho hf ht hno (fun _ hd => hd) rfl rfl
  | feesInterrupted fees p m cs he hr hcs =>
      refine hs.of_fees hin hq ho he hjobs rfl ?_ fun c hc => ?_
      · rintro ⟨d, hd⟩
        exact hin.discountAmount_eq_none he hd
      · exact (List.mem_append.mp hc).imp_right (hcs c)
  | discountClosed fees discount p m he hr hx hc =>
      refine hs.of_fees hin hq ho he hjobs rfl ?_ fun c hc => ?_
      · rintro ⟨d, hd⟩
        exact hin.discountAmount_eq_none he hd
      · exact (List.mem_append.mp hc).imp_right List.mem_singleton.mp
  | feesRebuilt fees p m he hr hx =>
      exact hs.of_fees hin hq ho he hjobs rfl (fun _ => hx)
        fun c hc => (List.mem_append.mp hc).imp_right List.mem_singleton.mp
  | discountInterrupted fees discount p m m' cs he hr hx hc hr' hcs =>
      refine hs.of_discount hin hq ho he hjobs rfl hx fun c hc => ?_
      rcases List.mem_append.mp hc with hc | hc
      · exact (List.mem_append.mp hc).imp_right fun hc => .inl (List.mem_singleton.mp hc)
      · exact .inr (.inr (hcs c hc))
  | discountRebuilt fees discount p m m' he hr hx hc hr' =>
      refine hs.of_discount hin hq ho he hjobs rfl hx fun c hc => ?_
      simpa [or_assoc] using hc
  | stored fees p hk hf ht hst =>
      have hw : kw.WritesLine st ac o (s.invoice? o) :=
        ⟨hk, by simp [hf], ⟨p, ht⟩, fun h => absurd h hst⟩
      refine hs.of_stored hin hq ho hw hf ht hjobs ⟨?_, ?_⟩ rfl rfl
      · simp
      · simp [UpdateDict.WritesFees, UpdateKwargs.updateDict, hf]

end Update

/-! ## Steps -/

/-- A deferred write stays queued when another call is made. -/
theorem Event.write_mem_base {e : Event} {c : Call} {base : OrderSlice} {d : UpdateDict}
    (hc : e.call? s = some (c, base)) (hne : c ≠ .write d) (hm : .write d ∈ s.jobs) :
    .write d ∈ base.jobs := by
  rcases Event.call?_base hc with rfl | ⟨i, job, -, hj, rfl, rfl⟩
  · exact hm
  · refine Table.mem_eraseIdx_of_ne hj ?_ hm
    rintro rfl
    exact hne rfl

/-- Other requests queue no write. -/
theorem Request.write_not_mem_queues {r : Request} {d : UpdateDict} (hr : ∀ kw, r ≠ .update kw) :
    .write d ∉ r.queues o := by
  cases r with
  | update kw => exact absurd rfl (hr kw)
  | create kw => simp [Request.queues]
  | pickup driverId => simp [Request.queues]
  | delivery driverId => cases driverId <;> simp [Request.queues, deliveryJobs]
  | moneyCollection collectionType =>
      rcases collectionType with _ | _ | ⟨⟨⟩⟩ <;> simp [Request.queues, collectionJobs]

/-- Apart from update requests, a step that writes the fees or the discount is a
pending write. -/
theorem Steps.charges {e : Event} {out : Outcome} (hu : e.update? = none)
    (hq : s.Queued) (ho : s.order = some o) (h : Steps st ac orderId s e out t) :
    ∃ o', t.order = some o' ∧
      (o'.charges = o.charges ∧ (∀ d, t.FeesPending d ↔ s.FeesPending d) ∨
        ∃ d, s.FeesPending d ∧ o' = d.apply o ∧ ∀ d', t.FeesPending d' → s.FeesPending d') := by
  cases h with
  | request r _ _ h =>
      have hr : ∀ kw, r ≠ .update kw := by
        rintro kw rfl
        cases hu
      obtain ⟨o', ho', hk⟩ := h.keeps ho
      refine ⟨o', ho', .inl ⟨Order.charges_of_terms (hk.fees hr), fun d => ?_⟩⟩
      simp only [OrderSlice.FeesPending, h.jobs ho]
      split <;> simp [Request.write_not_mem_queues hr]
  | ignored => exact ⟨o, ho, .inl ⟨rfl, fun _ => Iff.rfl⟩⟩
  | vacuous _ c _ hc hn => simp [(Event.call?_records hc).1, ho] at hn
  | raised _ c base t' _ hc hrun =>
      obtain ⟨hbase, -, -, -, hmem⟩ := Event.call?_records hc
      have hkept : ∀ d, c ≠ .write d → .write d ∈ s.jobs → .write d ∈ base.jobs :=
        fun d => Event.write_mem_base hc
      refine ⟨o, hbase.trans ho, .inl ⟨rfl, fun d => ⟨fun hd => ⟨hmem _ hd.1, hd.2⟩,
        fun hd => ⟨hkept d ?_ hd.1, hd.2⟩⟩⟩⟩
      -- the write of a queued dictionary does not raise
      rintro rfl
      rw [Call.body, writeUpdateDict, hq.write d hd.1] at hrun
      cases hrun
  | returned _ c base o₁ _ hc ho₁ h =>
      obtain ⟨hbase, -, -, -, hmem⟩ := Event.call?_records hc
      obtain rfl : o₁ = o := Option.some.inj (ho₁.symm.trans (hbase.trans ho))
      have hkept : ∀ d, c ≠ .write d → .write d ∈ s.jobs → .write d ∈ base.jobs :=
        fun d => Event.write_mem_base hc
      have hjobs : ∀ d, t.FeesPending d → s.FeesPending d :=
        fun d hd => ⟨hmem _ (h.jobs ▸ hd.1), hd.2⟩
      by_cases hw : ∃ d, c = .write d
      · obtain ⟨d, rfl⟩ := hw
        obtain rfl := h
        refine ⟨_, rfl, ?_⟩
        by_cases hd : d.WritesFees
        · exact .inr ⟨d, ⟨Event.write_mem hc, hd⟩, rfl, hjobs⟩
        · refine .inl ⟨d.apply_charges_of_not_writesFees hd, fun d' => ⟨hjobs d', fun hd' =>
            ⟨hkept d' ?_ hd'.1, hd'.2⟩⟩⟩
          intro heq
          cases heq
          exact hd hd'.2
      · obtain ⟨o', ho', hk⟩ := h.keeps ho₁
        refine ⟨o', ho', .inl ⟨Order.charges_of_terms (hk.terms fun d hd => hw ⟨d, hd⟩),
          fun d => ⟨hjobs d, fun hd => ⟨?_, hd.2⟩⟩⟩⟩
        rw [h.jobs]
        exact hkept d (fun heq => hw ⟨d, heq⟩) hd.1

/-- An invoice is made of an order that has shipping fees. -/
theorem Event.mem_computes {e : Event} {c : Order} (h : c ∈ e.computes s o) :
    c = o.confirmed ∧ o.shippingFees ≠ 0 := by
  unfold Event.computes at h
  split at h
  · unfold Call.computes at h
    split at h
    · rename_i hc
      exact ⟨by simpa using h, hc.2.2⟩
    · cases h
  · cases h

theorem Steps.lineKept_of_none {e : Event} {out : Outcome} (hq : t.Queued) (hs : s.LineKept st)
    (ho : s.order = none) (hcs : t.computedFor = s.computedFor)
    (h : Steps st ac orderId s e out t) : t.LineKept st := by
  have hjobs : t.jobs = [] := h.jobs_of_none ho (hs.queued.free ho)
  have hpend : ∀ d, ¬ t.FeesPending d := by
    rintro d ⟨hm, -⟩
    rw [hjobs] at hm
    cases hm
  have hline : ∀ o', t.order = some o' → st.mainServiceProducts ≠ [] ∧ o'.Settled := by
    intro o' ho'
    have hnew : s.order ≠ some o' := by simp [ho]
    cases h with
    | request r _ _ h =>
        cases h with
        | refused | delivered | collected => exact absurd ho' hnew
        | created kw lines _ _ _ hp hl =>
            cases ho'
            exact ⟨hp, newOrder_settled hp hl⟩
        | updated _ _ _ _ ho₁ | picked _ _ _ _ ho₁ | halfPicked _ _ _ _ ho₁ =>
            simp [ho] at ho₁
    | ignored => exact absurd ho' hnew
    | raised _ c base _ _ hc | vacuous _ c _ hc =>
        exact absurd ((Event.call?_records hc).1.symm.trans ho') hnew
    | returned _ c base _ _ hc ho₁ => simp [(Event.call?_records hc).1, ho] at ho₁
  refine ⟨hq, fun hne => ?_, fun o' ho' _ => (hline o' ho').2,
    fun _ d _ hd => absurd hd (hpend d), fun d _ hd => absurd hd (hpend d), ?_⟩
  · obtain ⟨o', ho'⟩ := Option.ne_none_iff_exists'.mp hne
    exact (hline o' ho').1
  · rw [OrderSlice.LinesAgree, hcs]
    exact hs.computed

theorem step_lineKept (orderId : String) (s : OrderSlice) (e : Event) (hs : s.LineKept st)
    (hcond : LineInTime st ac s e) : (step st ac orderId s e).LineKept st := by
  have h := perform_steps st ac orderId e s
  have hq : (step st ac orderId s e).Queued := step_queued orderId s e hs.queued
  cases ho : s.order with
  | none => exact h.lineKept_of_none hq hs ho (step_computedFor_of_none ho)
  | some o =>
      cases hu : e.update? with
      | some kw =>
          obtain rfl : e = .request (.update kw) := by
            cases e with
            | request r => cases r <;> simp_all [Event.update?]
            | _ => cases hu
          rw [step] at hq ⊢
          generalize perform st ac orderId _ s = p at h hq ⊢
          obtain ⟨out, t⟩ := p
          cases h with
          | request _ _ _ h =>
              cases h with
              | refused => exact hs
              | updated _ o₁ _ _ ho₁ h =>
                  obtain rfl : o₁ = o := Option.some.inj (ho₁.symm.trans ho)
                  exact h.lineKept hs hq ho
                    ⟨hcond.discount kw o₁ rfl ho, fun d => hcond.pending kw o₁ d rfl ho⟩
          | ignored => exact hs
          | raised _ _ _ _ _ hc | returned _ _ _ _ _ hc | vacuous _ _ _ hc => cases hc
      | none =>
          have hcomp : ∀ c ∈ (step st ac orderId s e).computedFor, c.LineAgrees := by
            rw [step_computedFor hu ho]
            intro c hc
            rcases List.mem_append.mp hc with hc | hc
            · exact hs.computed c hc
            · obtain ⟨rfl, hf⟩ := Event.mem_computes hc
              exact (hs.lineIs ho hf fun d hd =>
                hcond.computed o d ho (List.ne_nil_of_mem hc) hd).lineAgrees
          obtain ⟨o', ho', ⟨hch, hpend⟩ | ⟨d, hd, rfl, hpend⟩⟩ := h.charges hu hs.queued ho
          · exact hs.of_charges hq ho ho' hch hpend hcomp
          · have hline := hs.pending o d ho hd
            refine ⟨hq, fun _ => hs.product (by simp [ho]), fun o' ho'' _ => ?_,
              fun o' d' ho'' hd' => ?_,
              fun d₁ d₂ h₁ h₂ => hs.same d₁ d₂ (hpend d₁ h₁) (hpend d₂ h₂), hcomp⟩
            · obtain rfl : o' = d.apply o := Option.some.inj (ho''.symm.trans ho')
              exact .inl hline
            · obtain rfl : o' = d.apply o := Option.some.inj (ho''.symm.trans ho')
              have hsame := (hs.same d d' hd (hpend d' hd')).apply_apply (o := o)
              rw [Order.gross_of_charges hsame]
              exact hline.of_charges hsame

theorem OrderSlice.LineKept.of_free (h : s = {}) : s.LineKept st := by
  subst h
  exact ⟨⟨fun _ => rfl, by simp, by simp⟩, by simp, by simp, by simp,
    fun _ _ h => by simp [OrderSlice.FeesPending] at h, by simp [OrderSlice.LinesAgree]⟩

/-! ## Runs -/

variable {db : Database} {es : List (String × Event)} {id : String}

/-- In a run in which the shipping line of the order is written when it can be, the line
agrees with the shipping fees and the discount whenever invoice lines are computed. -/
theorem shipping_line_agrees (st : Settings) (ac : Accounting) (hdb : db id = {})
    (hm : Meets (dbStep st ac) (addressedTo id (LineInTime st ac)) db es) :
    (run (dbStep st ac) db es id).LinesAgree :=
  (family_invariant (I := OrderSlice.LineKept st) (step_lineKept id)
    (OrderSlice.LineKept.of_free hdb) hm).computed

/-- The run of an order whose fees and discount are changed before its pickup. -/
theorem shipping_line_agrees_on_pickup :
    (run (dbStep .sample .sample) Database.empty
      [("A", .request (.create (some
        { userId := 5, paymentMethod := .onPickup, shippingFees := 100, discountAmount := 10 }))),
       ("A", .request (.update { shippingFees := some 200, discountAmount := some 20 })),
       ("A", .job 0), ("A", .request (.pickup (some 7))), ("A", .job 0)]
      "A").LinesAgree := by
  refine shipping_line_agrees .sample .sample rfl ?_
  refine ⟨fun _ => .of_not_update ?_ (.inl ?_), fun _ => .of_update ?_ ?_,
    fun _ => .of_not_update ?_ (.inl ?_), fun _ => .of_not_update ?_ (.inl ?_),
    fun _ => .of_not_update ?_ (.inr ?_), True.intro⟩ <;> decide +kernel

/-- New shipping fees alone, for an order with a discount: the line loses the discount. -/
theorem shipping_line_drifts :
    ¬ (run (dbStep .sample .sample) Database.empty
      [("A", .request (.create (some
        { userId := 5, paymentMethod := .onPickup, shippingFees := 100, discountAmount := 10 }))),
       ("A", .request (.update { shippingFees := some 200 })),
       ("A", .job 0), ("A", .request (.pickup (some 7))), ("A", .job 0)]
      "A").LinesAgree := by
  intro h
  generalize hs : run (dbStep .sample .sample) Database.empty _ "A" = s at h
  have hrun : s.computedFor.map (fun o =>
      (o.shippingFees, o.discountAmount, o.shippingLines.map (·.amount))) =
        [(200, 10, [200])] := by
    rw [← hs]
    decide +kernel
  obtain ⟨o, ho, hfields⟩ : ∃ o ∈ s.computedFor, (o.shippingFees, o.discountAmount,
      o.shippingLines.map (·.amount)) = (200, 10, [200]) :=
    List.mem_map.mp (by rw [hrun]; simp)
  obtain ⟨line, hl, ha⟩ := h o ho
  obtain ⟨hf, hx, hamount⟩ : o.shippingFees = 200 ∧ o.discountAmount = 10 ∧
      line.amount = 200 := by simpa [hl] using hfields
  rw [ha, hf, hx] at hamount
  norm_num at hamount

end Fastrak
