import Fastrak.Order.Posting
import Fastrak.Order.Computation

/-!
# The payment status of orders

Posting a batch marks one order as paid, that of the first invoice, and a confirmation
takes the mark away, whatever the invoice. The orders that posted batches have settled stay
marked exactly as long as neither of these happens to one of them.
-/

namespace Fastrak

namespace Posting

open Transaction Run

variable {st : Settings} {ac : Accounting} {orderId : String} {s t : OrderSlice} {o : Order}
  {db db' : Database} {h : History}

/-! ## What keeps a mark -/

theorem isMarked_eq_true_iff :
    isMarked s = true ↔ ∃ o, s.order = some o ∧ o.orderPaymentStatus = some .paid := by
  simp [isMarked, Option.any_eq_true]

theorem isPaid_eq_true_iff :
    isPaid ac s = true ↔ ∃ o, s.order = some o ∧ ac.isPaid (s.invoice? o) = true := by
  simp [isPaid, Option.any_eq_true]

theorem isMarked_of_order (h : t.order = s.order) : isMarked t = isMarked s := by
  rw [isMarked, isMarked, h]

/-- A marked order stays marked. -/
def markFrame : Frame OrderSlice where
  rel s t := isMarked s = true → isMarked t = true
  refl _ h := h
  trans h h' hs := h' (h hs)

theorem admitsCalls_markFrame : AdmitsCalls markFrame where
  order f s hf hs := by
    obtain ⟨o, ho, hpaid⟩ := isMarked_eq_true_iff.mp hs
    exact isMarked_eq_true_iff.mpr ⟨f o, by rw [OrderSlice.mapOrder_order, ho]; rfl, hf o hpaid⟩
  moves _ _ hs := hs
  payments _ _ hs := hs

theorem serves_isMarked {r : Request} {response : Response} (hs : isMarked s = true)
    (h : Serves st ac orderId s r response t) : isMarked t = true := by
  obtain ⟨o, ho, hpaid⟩ := isMarked_eq_true_iff.mp hs
  cases h with
  | refused | delivered | collected => exact hs
  | created _ _ _ _ hn => simp [hn] at ho
  | updated kw o₁ _ _ ho₁ h =>
      obtain rfl : o₁ = o := by simpa [ho₁] using ho
      obtain ⟨o', ho', _, _, _, rfl⟩ := h.order ho₁
      exact isMarked_eq_true_iff.mpr ⟨_, ho', hpaid⟩
  | picked driverId o₁ _ _ ho₁ | halfPicked driverId o₁ _ _ ho₁ =>
      obtain rfl : o₁ = o := by simpa [ho₁] using ho
      exact isMarked_eq_true_iff.mpr ⟨_, rfl, hpaid⟩

/-- Only a confirmation that returns takes a mark away. -/
theorem perform_isMarked {e : Fastrak.Event} (hs : isMarked s = true)
    (he : confirms s e = false ∨ (perform st ac orderId e s).1.isSuccess = false) :
    isMarked (perform st ac orderId e s).2 = true := by
  cases hc : e.call? s with
  | none =>
      have hsteps := perform_steps st ac orderId e s
      generalize perform st ac orderId e s = p at hsteps ⊢
      obtain ⟨out, t⟩ := p
      cases hsteps with
      | request r _ _ h => exact serves_isMarked hs h
      | ignored => exact hs
      | raised _ _ _ _ _ hc' | returned _ _ _ _ _ hc' | vacuous _ _ _ hc' =>
          rw [hc'] at hc
          cases hc
  | some p =>
      obtain ⟨c, base⟩ := p
      have hbase : isMarked base = true := by
        rw [isMarked_of_order (Event.call?_records hc).1]
        exact hs
      rw [perform_of_call hc] at he ⊢
      unfold transact at he ⊢
      rcases atomic_cases OrderSlice.rollback (c.body st ac) base with
        ⟨⟨⟩, t, hrun, h⟩ | ⟨message, t, hrun, h⟩
      · rw [h] at he ⊢
        rcases he with he | he
        · have hne : c ≠ .confirmBillLoading := by
            rintro rfl
            simp [confirms, hc] at he
          have hmark : isMarked (stop ((c.body st ac).run base)) = true :=
            admitsCalls_markFrame.body hne base hbase
          rw [hrun] at hmark
          exact hmark
        · cases he
      · rw [h]
        exact hbase

/-! ## What a confirmation does -/

theorem transact_of_run_ok {x : Tx Unit} (h : x.run s = .ok () t) : transact x s = (.done, t) := by
  rw [transact, atomic, h]

theorem confirmBillLoading_run_of_posted {i : ℕ} {m : Move} (ho : s.order = some o)
    (hi : o.invoiceId = some i) (hm : s.moves[i]? = some m) (hp : m.state = .posted) :
    (confirmBillLoading st ac).run s = .ok () (s.mapOrder Order.confirmed) := by
  have hc : (s.mapOrder Order.confirmed).order = some o.confirmed := by
    rw [OrderSlice.mapOrder_order, ho]
    rfl
  have hi' : o.confirmed.invoiceId = some i := hi
  rw [confirmBillLoading, modifyOrder_bind_run, self_bind_run hc, hi']
  simp only [get_bind_run]
  rw [if_pos (by simp [OrderSlice.move?, hm, hp])]
  rfl

/-- A confirmation of an order whose invoice is paid takes the mark away. -/
theorem perform_not_isMarked {e : Fastrak.Event} (he : confirms s e = true)
    (hpaid : isPaid ac s = true) : isMarked (perform st ac orderId e s).2 = false := by
  obtain ⟨o, ho, hinvoice⟩ := isPaid_eq_true_iff.mp hpaid
  obtain ⟨⟨c, base⟩, hc, hcall⟩ := (Option.any_eq_true ..).mp he
  obtain rfl : c = .confirmBillLoading := by simpa using hcall
  obtain ⟨horder, hmoves, -⟩ := Event.call?_records hc
  obtain ⟨m, hm, hstate⟩ : ∃ m, s.invoice? o = some m ∧ ac.paymentState m = .paid := by
    simpa [Accounting.isPaid, Option.any_eq_true] using hinvoice
  obtain ⟨i, hi, hmi⟩ := Option.bind_eq_some_iff.mp hm
  have hp : m.state = .posted := by
    by_contra hne
    simp [Accounting.paymentState, hne] at hstate
  have hrun : (Call.confirmBillLoading.body st ac).run base =
      .ok () (base.mapOrder Order.confirmed) :=
    confirmBillLoading_run_of_posted (horder.trans ho) hi (hmoves ▸ hmi) hp
  rw [perform_of_call hc, transact_of_run_ok hrun]
  simp [isMarked, horder, ho, Order.confirmed, Order.setCancellationReason, Order.setPaymentStatus]

/-! ## What posting a batch does -/

theorem onOrder_run_ok_iff {x : Tx Unit} :
    (onOrder orderId x).run db = .ok () db' ↔
      ∃ t, x.run (db orderId) = .ok () t ∧ Function.update db orderId t = db' := by
  simp only [EStateM.run, onOrder]
  cases hx : x (db orderId) with
  | ok a t => simp
  | error e t => simp

theorem reconcileInvoice_run_ok {amount : ℚ} (h : (reconcileInvoice ac amount).run s = .ok () t) :
    t.order = s.order ∧ ∃ o, s.order = some o := by
  rw [reconcileInvoice, self_bind_run_ok_iff] at h
  obtain ⟨o, ho, h⟩ := h
  rw [get_bind_run] at h
  split at h
  · rw [raiseIf_bind_run_ok_iff] at h
    obtain ⟨-, h⟩ := h
    obtain rfl : _ = t := by simpa using h
    exact ⟨rfl, o, ho⟩
  · cases h

theorem reconcile_run_ok {invoice : ReconciledInvoice}
    (h : (reconcile ac invoice).run db = .ok () db') :
    (∀ id, (db' id).order = (db id).order) ∧
      ∀ id ∈ invoice.orderId, ∃ o, (db id).order = some o := by
  rw [reconcile] at h
  cases hid : invoice.orderId with
  | none =>
      rw [hid] at h
      obtain rfl : db = db' := by simpa using h
      exact ⟨fun _ => rfl, fun id h => by cases h⟩
  | some orderId =>
      rw [hid] at h
      obtain ⟨t, ht, rfl⟩ := onOrder_run_ok_iff.mp h
      obtain ⟨horder, ho⟩ := reconcileInvoice_run_ok ht
      refine ⟨fun id => ?_, fun id h => ?_⟩
      · by_cases hne : id = orderId
        · subst hne
          rw [Function.update_self, horder]
        · rw [Function.update_of_ne hne]
      · cases h
        exact ho

/-- Settling invoices leaves the orders as they are, and each of them exists. -/
theorem settle_run_ok {invoices : List ReconciledInvoice}
    (h : (settle ac invoices).run db = .ok () db') :
    (∀ id, (db' id).order = (db id).order) ∧
      ∀ id ∈ invoices.filterMap (·.orderId), ∃ o, (db id).order = some o := by
  induction invoices generalizing db with
  | nil =>
      obtain rfl : db = db' := by simpa [settle] using h
      exact ⟨fun _ => rfl, fun id hid => by cases hid⟩
  | cons invoice invoices ih =>
      rw [settle, run_bind_ok_iff] at h
      obtain ⟨_, db₁, h₁, h⟩ := h
      obtain ⟨hsame, hexists₁⟩ := reconcile_run_ok h₁
      obtain ⟨hrest, hexists⟩ := ih h
      refine ⟨fun id => (hrest id).trans (hsame id), fun id hid => ?_⟩
      obtain ⟨invoice', hmem, hid'⟩ := List.mem_filterMap.mp hid
      rcases List.mem_cons.mp hmem with rfl | hmem
      · exact hexists₁ id hid'
      · obtain ⟨o, ho⟩ := hexists id (List.mem_filterMap.mpr ⟨invoice', hmem, hid'⟩)
        exact ⟨o, (hsame id).symm.trans ho⟩

/-- The order is marked if its invoice is paid. -/
def toggled (ac : Accounting) (s : OrderSlice) : OrderSlice :=
  if isPaid ac s then s.mapOrder (Order.setPaymentStatus .paid) else s

theorem toggleOrderPaymentStatus_run (ho : s.order = some o) :
    (toggleOrderPaymentStatus ac).run s = .ok () (toggled ac s) := by
  have hpaid : isPaid ac s = ac.isPaid (s.invoice? o) := by
    rw [isPaid, ho]
    rfl
  rw [toggleOrderPaymentStatus, self_bind_run ho, get_bind_run, toggled, hpaid]
  split <;> rfl

theorem isPaid_toggled (ac : Accounting) (s : OrderSlice) :
    isPaid ac (toggled ac s) = isPaid ac s := by
  unfold toggled
  split
  · cases ho : s.order with
    | none => simp [isPaid, ho]
    | some o =>
        simp only [isPaid, OrderSlice.mapOrder_order, ho, Option.map_some, Option.any_some]
        rfl
  · rfl

theorem isMarked_toggled_iff :
    isMarked (toggled ac s) = true ↔ isPaid ac s = true ∨ isMarked s = true := by
  unfold toggled
  by_cases hp : isPaid ac s = true
  · obtain ⟨o, ho, -⟩ := isPaid_eq_true_iff.mp hp
    simp [hp, isMarked, ho, Order.setPaymentStatus]
  · simp [hp]

/-- The order that the check looks at. -/
def firstOrder (self : List BatchPayment) : Option String :=
  (reconciledInvoiceIds self).head?.bind (·.orderId)

/-- The database after the check. -/
def checked (ac : Accounting) (self : List BatchPayment) (db : Database) : Database := fun id =>
  if firstOrder self = some id then toggled ac (db id) else db id

variable {self : List BatchPayment}

theorem isPaid_checked (id : String) : isPaid ac (checked ac self db id) = isPaid ac (db id) := by
  unfold checked
  split
  · exact isPaid_toggled ac _
  · rfl

theorem isMarked_checked_iff {id : String} : isMarked (checked ac self db id) = true ↔
    firstOrder self = some id ∧ isPaid ac (db id) = true ∨ isMarked (db id) = true := by
  unfold checked
  split
  · next hid =>
      rw [isMarked_toggled_iff]
      simp [hid]
  · next hid => simp [hid]

/-- Once accounting has settled the invoices, the check does not raise. -/
theorem actionPost_run_of_settle
    (h : (settle ac (reconciledInvoiceIds self)).run db = .ok () db') :
    (actionPost ac self).run db = .ok () (checked ac self db') := by
  rw [actionPost, EStateM.run_bind, h]
  dsimp only
  rw [checkBolInvoicePayment]
  cases hid : (reconciledInvoiceIds self).head?.bind (·.orderId) with
  | none =>
      have hchecked : checked ac self db' = db' := by
        funext id
        simp [checked, firstOrder, hid]
      rw [hchecked]
      rfl
  | some first =>
      obtain ⟨horder, hexists⟩ := settle_run_ok h
      obtain ⟨invoice, hinvoice, hinvoice'⟩ := Option.bind_eq_some_iff.mp hid
      obtain ⟨o, ho⟩ := hexists first
        (List.mem_filterMap.mpr ⟨invoice, List.mem_of_head? hinvoice, hinvoice'⟩)
      refine onOrder_run_ok_iff.mpr
        ⟨_, toggleOrderPaymentStatus_run ((horder first).trans ho), ?_⟩
      funext id
      by_cases hne : id = first
      · subst hne
        simp [checked, firstOrder, hid]
      · simp [checked, firstOrder, hid, hne, Ne.symm hne]

theorem actionPost_run_of_error {message : String}
    (h : (settle ac (reconciledInvoiceIds self)).run db = .error message db') :
    (actionPost ac self).run db = .error message db' := by
  rw [actionPost, EStateM.run_bind, h]

/-! ## Runs -/

/-- The orders that a posted batch has settled are marked as paid. -/
def SettledAreMarked (h : History) : Prop := ∀ id ∈ h.settled, isMarked (h.db id) = true

/-- No settled order is confirmed while its invoice is paid, and of the orders whose invoices a
batch leaves paid all but the first are marked already. -/
def KeepsMarks (ac : Accounting) (h : History) : Event → Prop
  | .order orderId e => confirms (h.db orderId) e = true → orderId ∈ h.settled →
      isPaid ac (h.db orderId) = false
  | .actionPost self => ∀ db, (settle ac (reconciledInvoiceIds self)).run h.db = .ok () db →
      ∀ id ∈ (reconciledInvoiceIds self).filterMap (·.orderId), isPaid ac (db id) = true →
        firstOrder self = some id ∨ isMarked (h.db id) = true

theorem settledAreMarked_order_iff {e : Fastrak.Event} (hs : SettledAreMarked h) :
    SettledAreMarked (step st ac h (.order orderId e)) ↔ KeepsMarks ac h (.order orderId e) := by
  have hself : dbStep st ac h.db (orderId, e) orderId =
      (perform st ac orderId e (h.db orderId)).2 := family_apply_self ..
  have hother : ∀ id, id ≠ orderId → dbStep st ac h.db (orderId, e) id = h.db id :=
    fun id hne => family_apply_of_ne e hne
  constructor
  · intro hs' he hid
    by_contra hpaid
    rw [Bool.not_eq_false] at hpaid
    have hmem : orderId ∈ (step st ac h (.order orderId e)).settled := by
      simpa [step, hpaid] using hid
    have hmark : isMarked (dbStep st ac h.db (orderId, e) orderId) = true := hs' orderId hmem
    rw [hself, perform_not_isMarked he hpaid] at hmark
    cases hmark
  · intro hkeep id hid
    change isMarked (dbStep st ac h.db (orderId, e) id) = true
    have hmem : id ∈ h.settled := by
      simp only [step] at hid
      split at hid
      · exact List.mem_of_mem_filter hid
      · exact hid
    by_cases hne : id = orderId
    · subst hne
      rw [hself]
      refine perform_isMarked (hs id hmem) ?_
      by_contra hno
      rw [not_or, Bool.not_eq_false, Bool.not_eq_false] at hno
      simp [step, hno.1, hno.2, hkeep hno.1 hmem] at hid
    · rw [hother id hne]
      exact hs id hmem

theorem settledAreMarked_actionPost_iff (hs : SettledAreMarked h) :
    SettledAreMarked (step st ac h (.actionPost self)) ↔ KeepsMarks ac h (.actionPost self) := by
  cases hrun : (settle ac (reconciledInvoiceIds self)).run h.db with
  | error message db =>
      have hstep : step st ac h (.actionPost self) = h := by
        rw [step, actionPost_run_of_error hrun]
      rw [hstep]
      exact ⟨fun _ db hdb => by simp [hrun] at hdb, fun _ => hs⟩
  | ok _ db =>
      have horder := (settle_run_ok hrun).1
      have hstep : step st ac h (.actionPost self) =
          { db := checked ac self db
            settled := h.settled ++ ((reconciledInvoiceIds self).filterMap (·.orderId)).filter
              fun id => isPaid ac (checked ac self db id) } := by
        rw [step, actionPost_run_of_settle hrun]
      rw [hstep]
      constructor
      · intro hs' db' hdb' id hid hpaid
        obtain rfl : db = db' := by simpa [hrun] using hdb'
        have hmark := hs' id (List.mem_append_right _
          (List.mem_filter.mpr ⟨hid, (isPaid_checked id).trans hpaid⟩))
        rcases isMarked_checked_iff.mp hmark with ⟨hfirst, -⟩ | hmark
        · exact .inl hfirst
        · rw [isMarked_of_order (horder id)] at hmark
          exact .inr hmark
      · intro hkeep id hid
        rw [isMarked_checked_iff, isMarked_of_order (horder id)]
        rcases List.mem_append.mp hid with hid | hid
        · exact .inr (hs id hid)
        · obtain ⟨hid, hpaid⟩ := List.mem_filter.mp hid
          rw [isPaid_checked] at hpaid
          rcases hkeep db hrun id hid hpaid with hfirst | hmark
          · exact .inl ⟨hfirst, hpaid⟩
          · exact .inr hmark

/-- **The payment status of orders follows their invoices**, as long as no confirmation and
no batch leaves a settled order unmarked. -/
theorem payment_status_follows_invoices (st : Settings) (ac : Accounting) (db : Database)
    (es : List Event) :
    (∀ es', es' <+: es → SettledAreMarked (run (step st ac) { db } es')) ↔
      Meets (step st ac) (KeepsMarks ac) { db } es := by
  refine forall_prefix_iff_meets (I := SettledAreMarked) ?_ es fun id hid => by cases hid
  intro h e hs
  cases e with
  | order orderId e => exact settledAreMarked_order_iff hs
  | actionPost self => exact settledAreMarked_actionPost_iff hs

/-- An order of the sample company that is created and confirmed. -/
def billed (orderId : String) : List Event :=
  [.order orderId (sampleCreate .onPickup), .order orderId (.button .confirmBillLoading)]

/-- One payment for the invoices of two orders, of which the second stays unmarked. -/
def paidTogether : List Event :=
  billed "A" ++ billed "B" ++ [.actionPost [⟨[⟨some "A", 100⟩, ⟨some "B", 100⟩]⟩]]

/-- A confirmation that a pickup has queued, and that is run after the payment. -/
def confirmedAfterwards : List Event :=
  billed "A" ++
    [.order "A" (.request (.pickup (some 7))), .actionPost [⟨[⟨some "A", 100⟩]⟩],
      .order "A" (.job 0)]

theorem payment_status_lags_behind :
    ¬ SettledAreMarked (run (step .sample .sample) { db := Database.empty } paidTogether) ∧
      ¬ SettledAreMarked
        (run (step .sample .sample) { db := Database.empty } confirmedAfterwards) := by
  constructor
  · intro h
    exact absurd (h "B" (by decide +kernel)) (by decide +kernel)
  · intro h
    exact absurd (h "A" (by decide +kernel)) (by decide +kernel)

end Posting

end Fastrak
