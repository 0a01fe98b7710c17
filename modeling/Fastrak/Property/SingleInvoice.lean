import Fastrak.Order.Ledger
import Mathlib.Data.List.Count

/-!
# One invoice per order

An invoice is created by a confirmation that finds none on the order, and the same
confirmation assigns it. So the number of customer invoices among the moves of an
order is one or zero, according to whether `invoice_id` is set, and `invoice_id`
points to the one there is.
-/

namespace Fastrak

open Transaction Run

variable {st : Settings} {ac : Accounting} {orderId : String} {s t : OrderSlice} {o : Order}

/-! ## The invariant -/

namespace OrderSlice

/-- `invoice_id` of the order, if there is an order. -/
def invoiceId? (s : OrderSlice) : Option ℕ := s.order.bind (·.invoiceId)

/-- The number of customer invoices made for the order. -/
def invoices (s : OrderSlice) : ℕ := s.moveTypes.count .outInvoice

/-- There is an invoice exactly when one is assigned, and it is the assigned one. -/
structure OneInvoice (s : OrderSlice) : Prop where
  unbilled : s.invoiceId? = none → s.invoices = 0
  billed : ∀ i, s.invoiceId? = some i →
    s.invoices = 1 ∧ s.moveTypes[i]? = some .outInvoice

theorem invoiceId?_of_order (ho : s.order = some o) : s.invoiceId? = o.invoiceId := by
  rw [invoiceId?, ho, Option.bind_some]

theorem OneInvoice.invoices_le_one (h : s.OneInvoice) : s.invoices ≤ 1 := by
  cases hi : s.invoiceId? with
  | none => exact (h.unbilled hi).le.trans zero_le_one
  | some i => exact (h.billed i hi).1.le

theorem OneInvoice.invoice? (h : s.OneInvoice) (ho : s.order = some o) {i : ℕ}
    (hi : o.invoiceId = some i) : ∃ m, s.moves[i]? = some m ∧ m.moveType = .outInvoice := by
  have htype := (h.billed i ((invoiceId?_of_order ho).trans hi)).2
  simpa [moveTypes] using htype

theorem OneInvoice.of_isNew (h : s.IsNew) : s.OneInvoice where
  unbilled _ := by simp [invoices, moveTypes, h.moves]
  billed i hi := by
    obtain ⟨o, ho, hi⟩ := Option.bind_eq_some_iff.mp hi
    rw [(h.order o ho).invoiceId] at hi
    cases hi

/-- No invoice is assigned or created. -/
def KeepsInvoice (s t : OrderSlice) : Prop :=
  t.invoiceId? = s.invoiceId? ∧ ∃ l, t.moveTypes = s.moveTypes ++ l ∧ .outInvoice ∉ l

/-- An invoice is created and assigned. -/
def NewInvoice (s t : OrderSlice) : Prop :=
  s.invoiceId? = none ∧ t.invoiceId? = some s.moves.length ∧
    t.moveTypes = s.moveTypes ++ [.outInvoice]

theorem OneInvoice.keepsInvoice (hs : s.OneInvoice) (h : s.KeepsInvoice t) :
    t.OneInvoice := by
  obtain ⟨hid, l, hl, hnot⟩ := h
  have hcount : t.invoices = s.invoices := by
    rw [invoices, hl, List.count_append, List.count_eq_zero_of_not_mem hnot]
    rfl
  constructor
  · intro hi
    rw [hcount, hs.unbilled (hid ▸ hi)]
  · intro i hi
    obtain ⟨hone, htype⟩ := hs.billed i (hid ▸ hi)
    exact ⟨hcount.trans hone, by rw [hl, Table.getElem?_append_of_some htype]⟩

theorem OneInvoice.newInvoice (hs : s.OneInvoice) (h : s.NewInvoice t) : t.OneInvoice := by
  obtain ⟨hnone, hid, hl⟩ := h
  constructor
  · intro hi
    rw [hid] at hi
    cases hi
  · intro i hi
    obtain rfl : s.moves.length = i := by simpa [hid] using hi
    refine ⟨?_, ?_⟩
    · have hzero : s.moveTypes.count .outInvoice = 0 := hs.unbilled hnone
      rw [invoices, hl, List.count_append, hzero]
      rfl
    · rw [hl]
      simp [moveTypes]

end OrderSlice

open OrderSlice

/-! ## Steps -/

/-- Every step keeps the invoice or makes the first one. -/
theorem Steps.invoice {e : Event} {out : Outcome} (h : Steps st ac orderId s e out t) :
    s.KeepsInvoice t ∨ s.NewInvoice t := by
  have hkeep : t.invoiceId? = s.invoiceId? → t.moveTypes = s.moveTypes → s.KeepsInvoice t :=
    fun hid hl => ⟨hid, [], by simp [hl]⟩
  cases h with
  | ignored => exact .inl (hkeep rfl rfl)
  | raised _ c base _ _ hc | vacuous _ c _ hc =>
      obtain ⟨ho, hm, -⟩ := Event.call?_records hc
      exact .inl (hkeep (congrArg (Option.bind · _) ho) (moveTypes_of_eq hm))
  | request r _ _ h =>
      refine .inl (hkeep ?_ h.moveTypes)
      cases ho : s.order with
      | some o =>
          obtain ⟨o', ho', hk⟩ := h.keeps ho
          rw [invoiceId?_of_order ho, invoiceId?_of_order ho', hk.invoiceId]
      | none =>
          have hnone : s.invoiceId? = none := by rw [invoiceId?, ho, Option.bind_none]
          rcases (Steps.request r _ _ h).order_of_none ho with ht | ⟨kw, lines, -, ht⟩
          · rw [hnone, invoiceId?, ht, Option.bind_none]
          · rw [hnone, invoiceId?_of_order ht]
            rfl
  | returned _ c base o _ hc ho h =>
      obtain ⟨ho', hm, -⟩ := Event.call?_records hc
      have hid : s.invoiceId? = o.invoiceId := invoiceId?_of_order (ho' ▸ ho)
      have hl : base.moveTypes = s.moveTypes := moveTypes_of_eq hm
      by_cases hconf : c = .confirmBillLoading
      · subst hconf
        rcases Confirms.moveTypes h with ⟨ht, hto⟩ | ⟨hi, ht, hto⟩
        · exact .inl (hkeep ((invoiceId?_of_order hto).trans hid.symm) (ht.trans hl))
        · refine .inr ⟨hid.trans hi, ?_, by rw [ht, hl]⟩
          rw [invoiceId?_of_order hto, ← hm]
          rfl
      · obtain ⟨o', hto, hk⟩ := h.keeps ho
        obtain ⟨l, ht, hnot, -⟩ := h.moveTypes
        refine .inl ⟨?_, l, by rw [ht, hl], hnot hconf⟩
        rw [invoiceId?_of_order hto, hk.invoiceId hconf, hid]

theorem step_oneInvoice (orderId : String) (s : OrderSlice) (e : Event) (hs : s.OneInvoice) :
    (step st ac orderId s e).OneInvoice :=
  (perform_steps st ac orderId e s).invoice.elim hs.keepsInvoice hs.newInvoice

theorem step_invoiceId? (orderId : String) (s : OrderSlice) (e : Event) {i : ℕ}
    (hi : s.invoiceId? = some i) : (step st ac orderId s e).invoiceId? = some i := by
  rcases (perform_steps st ac orderId e s).invoice with ⟨hid, -⟩ | ⟨hnone, -⟩
  · exact hid.trans hi
  · rw [hnone] at hi
    cases hi

/-- The event confirms the order, and the order has shipping fees to bill. -/
def Billable (s : OrderSlice) (e : Event) : Prop :=
  (∃ base, e.call? s = some (.confirmBillLoading, base)) ∧
    ∃ o, s.order = some o ∧ o.shippingFees ≠ 0

/-- The order is confirmed and has a posted customer invoice. -/
def OrderSlice.Billed (s : OrderSlice) : Prop :=
  ∃ o m, s.order = some o ∧ o.orderStatus = .done ∧ s.invoice? o = some m ∧
    m.moveType = .outInvoice ∧ m.state = .posted

theorem Confirms.billed_order (hs : t.OneInvoice) (hf : o.shippingFees ≠ 0)
    (h : Confirms st ac s o t) : t.Billed := by
  cases h with
  | unbilled hi hf' => exact absurd hf' hf
  | billed data hi _ hd =>
      have htype := prepareInvoice_moveType hd
      exact ⟨_, data.post ac s.moves.length, rfl, rfl,
        by simp [OrderSlice.invoice?, OrderSlice.move?, Order.setInvoice], htype, rfl⟩
  | kept i hi hp =>
      obtain ⟨m, hm, htype⟩ := hs.invoice? rfl (o := o.confirmed) hi
      exact ⟨_, m, rfl, rfl, invoice?_eq_some_iff.mpr ⟨i, hi, hm⟩, htype, hp m hm⟩
  | posted i m hi hm =>
      obtain ⟨m', hm', htype⟩ := hs.invoice? rfl (o := o.confirmed) hi
      refine ⟨_, m', rfl, rfl, invoice?_eq_some_iff.mpr ⟨i, hi, hm'⟩, htype, ?_⟩
      obtain rfl : m.post ac i = m' := by simpa [Table.getElem?_modify_of_some hm] using hm'
      rfl

/-- A confirmation that succeeds leaves a confirmed order with a posted invoice. -/
def ConfirmBills (st : Settings) (ac : Accounting) (orderId : String) (s : OrderSlice)
    (e : Event) : Prop :=
  Billable s e → (perform st ac orderId e s).1.isSuccess → (step st ac orderId s e).Billed

theorem step_confirmBills (orderId : String) (s : OrderSlice) (e : Event) (hs : s.OneInvoice) :
    ConfirmBills st ac orderId s e := by
  rintro ⟨⟨base, hc⟩, o, ho, hf⟩ hsucc
  have hone : (step st ac orderId s e).OneInvoice := step_oneInvoice orderId s e hs
  have h : Confirms st ac base o (step st ac orderId s e) :=
    (perform_steps st ac orderId e s).effect hc hsucc ((Event.call?_records hc).1.trans ho)
  exact h.billed_order hone hf

/-! ## Runs -/

variable {db : Database} {id : String}

theorem run_oneInvoice (hdb : (db id).IsNew) (es : List (String × Event)) :
    (run (dbStep st ac) db es id).OneInvoice :=
  family_invariant (fun s e hs _ => step_oneInvoice id s e hs) (.of_isNew hdb)
    (family_meets_trivial id db es)

/-- In every run an order gets at most one customer invoice, `invoice_id` is never
changed once it is set, and every confirmation that succeeds on an order with shipping
fees leaves it confirmed and its invoice posted. -/
theorem one_invoice_per_order (st : Settings) (ac : Accounting) (hdb : (db id).IsNew)
    (es es' : List (String × Event)) :
    (run (dbStep st ac) db es id).invoices ≤ 1 ∧
      (∀ i, (run (dbStep st ac) db es id).invoiceId? = some i →
        (run (dbStep st ac) db (es ++ es') id).invoiceId? = some i) ∧
      Meets (dbStep st ac) (addressedTo id (ConfirmBills st ac id)) db es := by
  refine ⟨(run_oneInvoice hdb es).invoices_le_one, fun i hi => ?_, ?_⟩
  · rw [run_append]
    exact family_relation (step st ac) (I := fun _ => True)
      (R := fun s t => ∀ i, s.invoiceId? = some i → t.invoiceId? = some i)
      (fun _ _ _ _ => True.intro) (fun _ _ h => h)
      (fun hst htr i hi => htr i (hst i hi)) (fun s e _ _ _ hi => step_invoiceId? id s e hi)
      True.intro (family_meets_trivial id _ es') i hi
  · exact family_meets (fun s e hs _ => step_oneInvoice id s e hs)
      (fun s e hs _ => step_confirmBills id s e hs) (.of_isNew hdb)
      (family_meets_trivial id db es)

/-- The run of an order that is picked up, billed, reset and confirmed again. -/
theorem one_invoice_per_order_of_confirmed_twice :
    let es := [("A", sampleCreate .onPickup), ("A", .request (.pickup (some 7))), ("A", .job 0),
      ("A", .button .resetToDraft)]
    (run (dbStep .sample .sample) Database.empty es "A").invoices ≤ 1 ∧
      (run (dbStep .sample .sample) Database.empty (es ++ [("A", .button .confirmBillLoading)])
        "A").invoiceId? = some 0 := by
  intro es
  obtain ⟨hone, hkeep, -⟩ := one_invoice_per_order .sample .sample
    (Database.empty_isNew "A") es [("A", .button .confirmBillLoading)]
  exact ⟨hone, hkeep 0 (by decide +kernel)⟩

end Fastrak
