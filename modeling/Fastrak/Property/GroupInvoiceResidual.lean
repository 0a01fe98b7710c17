import Fastrak.Property.GroupInvoiceTotal

/-!
# What a group invoice asks for

`generate_group_invoice` looks for the invoices whose payment state is `not_paid` and takes
their total. An invoice that is paid in part is in another state, so that what is left of it
is asked for by no group invoice.
-/

namespace Fastrak

open Transaction Run

variable {δ : Type} [LinearOrder δ] {s : GroupInvoices δ}

namespace GroupInvoice

variable {st : Settings} {ac : Accounting} {id : ℕ} {g : GroupInvoice δ}

/-- A posted on-credit invoice of the customer and the range of the group invoice. -/
def InRange (g : GroupInvoice δ) (r : DatedMove δ) : Prop :=
  r.move.partnerId = some g.customer ∧ g.fromDate ≤ r.createDate ∧ r.createDate ≤ g.toDate ∧
    r.move.onCreditInvoice ∧ r.move.state = .posted

instance (g : GroupInvoice δ) (r : DatedMove δ) : Decidable (g.InRange r) :=
  inferInstanceAs (Decidable (_ ∧ _ ∧ _ ∧ _ ∧ _))

theorem isCustomerCreditInvoice_iff {r : DatedMove δ} :
    g.IsCustomerCreditInvoice ac r ↔ g.InRange r ∧ ac.paymentState r.move = .notPaid := by
  simp only [IsCustomerCreditInvoice, InRange, and_assoc]

/-- No other group invoice has an invoice of the range. -/
def RangeIsFree (s : GroupInvoices δ) (id : ℕ) (g : GroupInvoice δ) : Prop :=
  ∀ inv r, s.invoices[inv]? = some r → g.InRange r →
    ∀ old ≠ id, ∀ grp, s.group? old = some grp → inv ∉ grp.invoiceIds

/-- The lines are the invoices of the range with something left to pay, each once, and their
total is what is left to pay. -/
def AsksForResiduals (st : Settings) (ac : Accounting) (s t : GroupInvoices δ) (id : ℕ)
    (g : GroupInvoice δ) : Prop :=
  ∃ g', t.group? id = some g' ∧
    (∀ inv, inv ∈ g'.invoiceIds ↔
      ∃ r, s.invoices[inv]? = some r ∧ g.InRange r ∧ 0 < ac.residual (some r.move)) ∧
    g'.invoiceIds.Nodup ∧
    totalAmount st ac t g' =
      st.arithmetic.sum (g'.invoiceIds.map fun inv => ac.residual (t.invoice? inv))

theorem step_generate (hg : s.group? id = some g) :
    step st ac s (.generate [id]) =
      s.modifyGroup id fun g' => { g' with invoiceIds := generatedLines ac s id g } := by
  have hrun : (perform st ac (.generate [id])).run s = .ok ⟨⟩
      (s.modifyGroup id fun g' => { g' with invoiceIds := generatedLines ac s id g }) := by
    rw [perform, generateGroupInvoice, EStateM.run_bind, getCustomerCreditInvoices_run hg]
    rfl
  rw [step, atomic_of_run_ok hrun]

theorem mem_generatedLines_iff (hfree : RangeIsFree s id g) {inv : ℕ} :
    inv ∈ generatedLines ac s id g ↔
      ∃ r, s.invoices[inv]? = some r ∧ g.InRange r ∧ ac.paymentState r.move = .notPaid := by
  rw [generatedLines, List.mem_filter, decide_eq_true_eq, mem_searchCustomerInvoices]
  simp only [isCustomerCreditInvoice_iff]
  constructor
  · exact fun h => h.1
  · rintro ⟨r, hr, hrange, hstate⟩
    refine ⟨⟨r, hr, hrange, hstate⟩, checkNotInOldGroupInvoice_iff.mpr ?_⟩
    exact fun old hne grp hgrp _ => hfree inv r hr hrange old hne grp hgrp

/-- What the payment state of an invoice says about its residual. -/
theorem paymentState_eq_notPaid_iff {m : Move} (hs : m.state = .posted)
    (ht : m.moveType ≠ .entry) :
    ac.paymentState m = .notPaid ↔ m.reconciled = 0 ∧ ac.residual (some m) ≠ 0 := by
  rw [Accounting.paymentState, if_pos ⟨hs, ht⟩]
  by_cases hr : ac.residual (some m) = 0
  · rw [if_pos hr]
    cases m.isReversed <;> simp [hr]
  · by_cases hp : m.reconciled = 0 <;> simp [hr, hp]

theorem total_eq_residual {m : Move} (h : m.reconciled = 0) :
    ac.total (some m) = ac.residual (some m) := by
  simp [Accounting.total, Accounting.residual, h]

/-- The search finds an invoice exactly when something is left to pay, unless it is paid in
part or has a negative total. -/
theorem notPaid_iff_residual_pos_iff {m : Move} (hs : m.state = .posted)
    (ht : m.moveType ≠ .entry) :
    (ac.paymentState m = .notPaid ↔ 0 < ac.residual (some m)) ↔
      (m.reconciled ≠ 0 → ac.residual (some m) ≤ 0) ∧
        (m.reconciled = 0 → 0 ≤ ac.residual (some m)) := by
  rw [paymentState_eq_notPaid_iff hs ht]
  by_cases hpaid : m.reconciled = 0
  · simp only [hpaid, true_and, ne_eq, not_true_eq_false, false_implies, true_implies]
    exact ⟨fun h => not_lt.mp fun hlt => hlt.not_gt (h.mp hlt.ne), fun hle =>
      ⟨fun hne => lt_of_le_of_ne hle (Ne.symm hne), fun hlt => hlt.ne'⟩⟩
  · simp [hpaid]

theorem group?_step_generate (st : Settings) (hg : s.group? id = some g) :
    (step st ac s (.generate [id])).group? id =
      some { g with invoiceIds := generatedLines ac s id g } := by
  rw [step_generate hg, GroupInvoices.group?_modifyGroup, if_pos rfl, hg]
  rfl

theorem invoice?_step_generate (st : Settings) (hg : s.group? id = some g) (inv : ℕ) :
    (step st ac s (.generate [id])).invoice? inv = s.invoice? inv := by
  rw [step_generate hg, GroupInvoices.invoice?_modifyGroup]

theorem asksForResiduals_iff (st : Settings) (hg : s.group? id = some g)
    (htype : ∀ r ∈ s.invoices, r.move.moveType ≠ .entry) (hfree : RangeIsFree s id g) :
    AsksForResiduals st ac s (step st ac s (.generate [id])) id g ↔
      ∀ r ∈ s.invoices, g.InRange r →
        (ac.paymentState r.move = .notPaid ↔ 0 < ac.residual (some r.move)) := by
  constructor
  · rintro ⟨g', hg', hlines, -⟩ r hr hrange
    obtain rfl := Option.some.inj ((group?_step_generate st hg).symm.trans hg')
    obtain ⟨inv, hinv⟩ := List.mem_iff_getElem?.mp hr
    have hiff := (mem_generatedLines_iff hfree).symm.trans (hlines inv)
    simpa [hinv, hrange] using hiff
  · intro h
    refine ⟨_, group?_step_generate st hg, fun inv => ?_, nodup_generatedLines s id g, ?_⟩
    · rw [mem_generatedLines_iff hfree]
      refine exists_congr fun r => and_congr_right fun hr => and_congr_right fun hrange => ?_
      exact h r (List.mem_of_getElem? hr) hrange
    · refine congrArg st.arithmetic.sum (List.map_congr_left fun inv hinv => ?_)
      obtain ⟨r, hr, hrange, hstate⟩ := (mem_generatedLines_iff hfree).mp hinv
      have hmove : s.invoice? inv = some r.move := by
        rw [GroupInvoices.invoice?, hr]
        rfl
      rw [invoice?_step_generate st hg, hmove]
      exact total_eq_residual ((paymentState_eq_notPaid_iff hrange.2.2.2.2
        (htype r (List.mem_of_getElem? hr))).mp hstate).1

/-- A generated group invoice asks for what is left to pay if and only if no invoice of the
range is paid in part, and none without a payment has a negative total. -/
theorem generated_lines_ask_for_residuals_iff (st : Settings) (hg : s.group? id = some g)
    (htype : ∀ r ∈ s.invoices, r.move.moveType ≠ .entry) (hfree : RangeIsFree s id g) :
    AsksForResiduals st ac s (step st ac s (.generate [id])) id g ↔
      ∀ r ∈ s.invoices, g.InRange r →
        (r.move.reconciled ≠ 0 → ac.residual (some r.move) ≤ 0) ∧
          (r.move.reconciled = 0 → 0 ≤ ac.residual (some r.move)) := by
  rw [asksForResiduals_iff st hg htype hfree]
  refine forall₂_congr fun r hr => forall_congr' fun hrange => ?_
  exact notPaid_iff_residual_pos_iff hrange.2.2.2.2 (htype r hr)

/-- A group invoice and an invoice of 100 in its range, with `paid` paid of it. -/
def groupWithInvoice (paid : ℚ) : GroupInvoices ℕ where
  invoices := [{ onCreditInvoice 0 with
    move := { (onCreditInvoice 0).move with reconciled := paid } }]
  groups := [some { customer := 1, fromDate := 0, toDate := 10, fromDate_le_toDate := by decide }]

theorem groupWithInvoice_rangeIsFree (paid : ℚ) (g : GroupInvoice ℕ) :
    RangeIsFree (groupWithInvoice paid) 0 g := by
  intro inv r _ _ old hne grp hgrp
  rcases old with _ | old
  · exact absurd rfl hne
  · simp [GroupInvoices.group?, groupWithInvoice] at hgrp

/-- What is left of an invoice that is paid in part is asked for by no line. -/
theorem partly_paid_invoice_is_not_asked_for :
    ∃ g, (groupWithInvoice 40).group? 0 = some g ∧ RangeIsFree (groupWithInvoice 40) 0 g ∧
      (∀ r ∈ (groupWithInvoice 40).invoices, g.InRange r ∧
        Accounting.sample.residual (some r.move) = 60) ∧
      ¬ AsksForResiduals .sample .sample (groupWithInvoice 40)
        (step .sample .sample (groupWithInvoice 40) (.generate [0])) 0 g := by
  refine ⟨_, rfl, groupWithInvoice_rangeIsFree 40 _, by decide +kernel, ?_⟩
  rintro ⟨g', hg', hlines, -⟩
  have hempty : ((step .sample .sample (groupWithInvoice 40) (.generate [0])).group? 0).map
      (·.invoiceIds) = some [] := by decide +kernel
  rw [hg', Option.map_some] at hempty
  have hmem : 0 ∈ g'.invoiceIds := (hlines 0).mpr ⟨_, rfl, by decide +kernel, by decide +kernel⟩
  rw [Option.some.inj hempty] at hmem
  exact List.not_mem_nil hmem

theorem generated_lines_ask_for_residuals_iff_of_unpaid :
    ∃ g, (groupWithInvoice 0).group? 0 = some g ∧
      (AsksForResiduals .sample .sample (groupWithInvoice 0)
          (step .sample .sample (groupWithInvoice 0) (.generate [0])) 0 g ↔
        ∀ r ∈ (groupWithInvoice 0).invoices, g.InRange r →
          (r.move.reconciled ≠ 0 → Accounting.sample.residual (some r.move) ≤ 0) ∧
            (r.move.reconciled = 0 → 0 ≤ Accounting.sample.residual (some r.move))) :=
  ⟨_, rfl, generated_lines_ask_for_residuals_iff .sample rfl (by decide)
    (groupWithInvoice_rangeIsFree 0 _)⟩

end GroupInvoice

end Fastrak
