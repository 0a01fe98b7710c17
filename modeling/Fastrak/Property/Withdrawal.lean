import Fastrak.Withdraw.Effect

/-!
# A withdrawal is invoiced and paid out at most once, and never half

The two guards of `request_payment_entries_creation` are read from the request, and a
call that raises is rolled back, so that the payment and the entry are made together.
`Linked` relates the links of the request to the records that were made.
-/

namespace Fastrak

open Transaction Run

namespace Withdraw

variable {st : WithdrawSettings} {ac : Accounting} {s t : WithdrawSlice}

/-! ## Steps -/

/-- No record is made and no link is written. -/
structure KeepsLinks (s t : WithdrawSlice) : Prop where
  invoice : t.request.invoice = s.request.invoice
  invoicePayment : t.request.invoicePayment = s.request.invoicePayment
  entry : t.request.customerWithdrawEntry = s.request.customerWithdrawEntry
  moves : t.moves.map (·.moveType) = s.moves.map (·.moveType)
  payments : t.payments = s.payments

theorem keepsLinks_payInvoice (amount : ℚ) (s : WithdrawSlice) :
    KeepsLinks s (payInvoice amount s) := by
  rw [payInvoice]
  split
  · exact ⟨rfl, rfl, rfl, Table.map_modify_of_eq
      (f := fun m : Move => { m with reconciled := m.reconciled + amount }) (fun _ => rfl) _ _, rfl⟩
  · exact ⟨rfl, rfl, rfl, rfl, rfl⟩

/-- A step makes the invoice, or the payment and the entry, or no record. -/
theorem step_cases (st : WithdrawSettings) (ac : Accounting) (s : WithdrawSlice) (e : Event) :
    KeepsLinks s (step st ac s e) ∨
      (requestInvoiceCreation st ac).run s = .ok ⟨⟩ (step st ac s e) ∨
      (requestPaymentEntriesCreation st ac).run s = .ok ⟨⟩ (step st ac s e) := by
  rcases atomic_snd_cases (perform st ac e) s with ⟨_, hrun⟩ | ⟨-, h⟩
  · change (perform st ac e).run s = .ok _ (step st ac s e) at hrun
    generalize step st ac s e = t at hrun
    cases e with
    | requestInvoiceCreation => exact .inr (.inl hrun)
    | requestPaymentEntriesCreation => exact .inr (.inr hrun)
    | payInvoice amount =>
        refine .inl ?_
        cases hrun
        exact keepsLinks_payInvoice amount s
    | _ =>
        cases hrun
        exact .inl ⟨rfl, rfl, rfl, rfl, rfl⟩
  · rw [step, h]
    exact .inl ⟨rfl, rfl, rfl, rfl, rfl⟩

/-- The number of moves of a type. -/
def made (type : MoveType) (s : WithdrawSlice) : ℕ := (s.moves.map (·.moveType)).count type

/-- The records that were made are those the request refers to. -/
structure Linked (s : WithdrawSlice) : Prop where
  invoices : made .outInvoice s = s.request.invoice.toList.length
  entries : made .entry s = s.request.customerWithdrawEntry.toList.length
  payments : s.payments.length = s.request.invoicePayment.toList.length
  both : s.request.invoicePayment = none ↔ s.request.customerWithdrawEntry = none
  invoice : s.request.invoice = none → s.request.invoicePayment = none

theorem Linked.step (h : Linked s) (e : Event) : Linked (step st ac s e) := by
  rcases step_cases st ac s e with hk | hrun | hrun
  · constructor
    · rw [made, hk.moves, hk.invoice]
      exact h.invoices
    · rw [made, hk.moves, hk.entry]
      exact h.entries
    · rw [hk.payments, hk.invoicePayment]
      exact h.payments
    · rw [hk.invoicePayment, hk.entry]
      exact h.both
    · rw [hk.invoice, hk.invoicePayment]
      exact h.invoice
  · obtain ⟨hnone, vals, htype, -, ht⟩ := requestInvoiceCreation_run_ok hrun
    have hinvoices := h.invoices
    have hentries := h.entries
    rw [made, hnone] at hinvoices
    rw [made] at hentries
    rw [ht]
    refine ⟨?_, ?_, h.payments, h.both, by simp⟩
    · simp [made, Move.post, htype, hinvoices]
    · simp [made, Move.post, htype, hentries]
  · obtain ⟨hinv, hpay, hentry, vals, journal, htype, -, -, ht⟩ :=
      requestPaymentEntriesCreation_run_ok hrun
    have hinvoices := h.invoices
    have hentries := h.entries
    have hpayments := h.payments
    rw [made] at hinvoices
    rw [made, hentry] at hentries
    rw [hpay] at hpayments
    rw [ht]
    refine ⟨?_, ?_, ?_, by simp, fun hno => absurd hno hinv⟩
    · simp [made, Move.post, htype, hinvoices]
    · simp [made, Move.post, htype, hentries]
    · simpa using hpayments

/-- The payment that the step makes is over the residual of the invoice, and the entry made
with it withdraws the amount. -/
def PaysOut (st : WithdrawSettings) (ac : Accounting) (s : WithdrawSlice) (e : Event) : Prop :=
  ∀ p, (step st ac s e).request.invoicePayment = some p → s.request.invoicePayment = none →
    ∃ payment n entry journal, (step st ac s e).payments[p]? = some payment ∧
      payment.amount = ac.residual (s.request.invoice.bind fun i => s.moves[i]?) ∧
      (step st ac s e).request.customerWithdrawEntry = some n ∧
      (step st ac s e).moves[n]? = some entry ∧ Withdraws st s.request journal entry.lineIds

theorem step_paysOut (s : WithdrawSlice) (e : Event) : PaysOut st ac s e := by
  intro p hp hnone
  rcases step_cases st ac s e with hk | hrun | hrun
  · rw [hk.invoicePayment, hnone] at hp
    cases hp
  · obtain ⟨-, vals, -, -, ht⟩ := requestInvoiceCreation_run_ok hrun
    rw [ht] at hp
    rw [hnone] at hp
    cases hp
  · obtain ⟨-, -, -, vals, journal, -, -, hw, ht⟩ := requestPaymentEntriesCreation_run_ok hrun
    rw [ht] at hp ⊢
    obtain rfl := Option.some.inj hp
    exact ⟨_, _, _, journal, List.getElem?_concat_length, rfl, rfl,
      List.getElem?_concat_length, hw⟩

/-- In every run a new request gets one invoice, one payment of it and one entry at most;
the payment and the entry are made together, after the invoice, over its residual and over
the amount of the request. -/
theorem withdrawal_is_paid_out_once (st : WithdrawSettings) (ac : Accounting)
    (vals : WithdrawVals) (es : List Event) :
    let s := run (step st ac) { request := { toWithdrawVals := vals } } es
    (made .outInvoice s ≤ 1 ∧ s.payments.length ≤ 1 ∧ made .entry s ≤ 1) ∧
    (s.request.invoicePayment = none ↔ s.request.customerWithdrawEntry = none) ∧
    (s.request.invoice = none → s.request.invoicePayment = none) ∧
    Meets (step st ac) (PaysOut st ac) { request := { toWithdrawVals := vals } } es := by
  have hnew : Linked { request := { toWithdrawVals := vals } } := by
    constructor <;> simp [made]
  have h : Linked (run (step st ac) { request := { toWithdrawVals := vals } } es) :=
    invariant (C := fun _ _ => True) (fun s e hs _ => hs.step e) hnew (Meets.trivial _ es)
  have hle : ∀ o : Option ℕ, o.toList.length ≤ 1 := by
    intro o
    cases o <;> simp
  refine ⟨⟨?_, ?_, ?_⟩, h.both, h.invoice, ?_⟩
  · rw [h.invoices]
    exact hle _
  · rw [h.payments]
    exact hle _
  · rw [h.entries]
    exact hle _
  · exact Meets.mono (fun s e _ => step_paysOut s e) (Meets.trivial _ es)

end Withdraw

end Fastrak
