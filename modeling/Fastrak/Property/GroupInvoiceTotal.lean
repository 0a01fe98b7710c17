import Fastrak.Property.GroupInvoiceLine
import Fastrak.Library.Grouping
import Mathlib.Tactic.Linarith

/-!
# A printed group invoice adds up

The report recomputes the discount of an invoice from its lines, and the footer adds the
discounts the wizard has given on this group invoice. The two agree as long as the
invoices that a call of `generate_group_invoice` takes off a group invoice carry the same
discount as those that it puts on.
-/

namespace Fastrak

open Transaction Run Rounding

/-- The subtotal of a line without a tax, as the accounting application computes it. -/
def Accounting.RoundsSubtotals (ac : Accounting) : Prop :=
  ∀ line : InvoiceLine, line.taxIds = [] →
    ac.priceSubtotal line = roundHalfUp (line.quantity * line.priceUnit) 2

theorem Accounting.sample_roundsSubtotals : Accounting.sample.RoundsSubtotals := fun _ _ => rfl

variable {δ : Type} [LinearOrder δ] {s t : GroupInvoices δ}

namespace GroupInvoice

variable {st : Settings} {ac : Accounting} {id : ℕ}

/-- The discount that the report reads off the lines of an invoice. -/
def discountOf (st : Settings) (ac : Accounting) (s : GroupInvoices δ) (inv : ℕ) : ℚ :=
  ((s.invoice? inv).map (discountedAmountLines st ac)).getD 0

/-- The discounts on the lines are those of the footer. -/
def DiscountsAgree (st : Settings) (ac : Accounting) (s : GroupInvoices δ) : Prop :=
  ∀ i g, s.group? i = some g → (g.invoiceIds.map (discountOf st ac s)).sum = g.totalDiscount

theorem printed_eq_gross_iff (har : st.arithmetic = .exact) (ac : Accounting)
    (s : GroupInvoices δ) (g : GroupInvoice δ) :
    (g.invoiceIds.map (printedLineAmount st ac s)).sum = grossTotalAmount st ac s g ↔
      (g.invoiceIds.map (discountOf st ac s)).sum = g.totalDiscount := by
  have hsplit : (g.invoiceIds.map (printedLineAmount st ac s)).sum =
      totalAmount st ac s g + (g.invoiceIds.map (discountOf st ac s)).sum := by
    rw [totalAmount, har, Arithmetic.exact_sum, ← List.sum_map_add]
    exact congrArg List.sum (List.map_congr_left fun inv _ => by
      rw [printedLineAmount, har, Arithmetic.exact_add]
      rfl)
  rw [hsplit, grossTotalAmount, har, Arithmetic.exact_add, add_right_inj]

/-! ## The wizard -/

/-- The line of the wizard is a discount line of the report. -/
theorem discountedAmountLines_addLine (har : st.arithmetic = .exact) (hac : ac.RoundsSubtotals)
    {discount : ℚ} (hd : discount ∈ decimals 2) {line : InvoiceLine}
    (hline : getDiscountServiceLine st discount = .ok line) (m : Move) :
    discountedAmountLines st ac (m.addLine line) = discountedAmountLines st ac m + discount := by
  obtain ⟨product, hmem, rfl⟩ := getDiscountServiceLine_eq_ok hline
  set line : InvoiceLine :=
    { productId := some product.id, name := "Invoice Discount", quantity := 1,
      priceUnit := -discount, costCentersId := product.costCentersId } with hline
  have hdiscount : IsDiscountLine st line := ⟨product, hmem, rfl⟩
  have hsubtotal : ac.priceSubtotal line = -discount := by
    rw [hac line rfl, hline, one_mul]
    exact roundHalfUp_of_mem_decimals (neg_mem hd)
  simp [discountedAmountLines, Move.addLine, hdiscount, har, hsubtotal]

/-- A percentage is rounded to a whole number, and an amount has at most two decimals. -/
theorem targetDiscountAmount_mem_decimals {w : DiscountWizard}
    (hw : w.discountType = .amount → roundHalfUp w.discountAmount 2 = w.discountAmount)
    (m : Move) : targetDiscountAmount st ac w m ∈ decimals 2 := by
  unfold targetDiscountAmount
  cases htype : w.discountType with
  | amount => exact hw htype ▸ roundHalfUp_mem_decimals w.discountAmount 2
  | percent => exact mem_decimals_iff.mpr ⟨Rounding.halfEven _ * 10 ^ 2, by push_cast; rfl⟩

theorem discountOf_discounted (har : st.arithmetic = .exact) (hac : ac.RoundsSubtotals) {inv : ℕ}
    {discount : ℚ} (hd : discount ∈ decimals 2) {line : InvoiceLine}
    (hline : getDiscountServiceLine st discount = .ok line) {m : Move}
    (hm : s.invoice? inv = some m) (k : ℕ) :
    discountOf st ac (discounted st.arithmetic s id inv line discount) k =
      discountOf st ac s k + if inv = k then discount else 0 := by
  rw [discountOf, discounted, GroupInvoices.invoice?_modifyGroup, GroupInvoices.invoice?_modifyMove]
  by_cases h : inv = k
  · subst h
    simp [discountOf, hm, discountedAmountLines_addLine har hac hd hline]
  · simp [discountOf, h]

theorem sum_add_ite {inv : ℕ} {invs : List ℕ} (hnd : invs.Nodup) (f : ℕ → ℚ) (d : ℚ) :
    (invs.map fun k => f k + if inv = k then d else 0).sum =
      (invs.map f).sum + if inv ∈ invs then d else 0 := by
  rw [List.sum_map_add, Grouping.sum_map_ite_of_nodup hnd]

/-- The other group invoices do not have the invoice, and this one has it once. -/
theorem DiscountsAgree.discounted (har : st.arithmetic = .exact) (hac : ac.RoundsSubtotals)
    (h : DiscountsAgree st ac s) (hs : Separate s) {inv : ℕ} {g : GroupInvoice δ}
    (hg : s.group? id = some g) (hinv : inv ∈ g.invoiceIds) {discount : ℚ}
    (hd : discount ∈ decimals 2) {line : InvoiceLine}
    (hline : getDiscountServiceLine st discount = .ok line) :
    DiscountsAgree st ac (discounted st.arithmetic s id inv line discount) := by
  obtain ⟨m, hm, -⟩ := hs.partner id g hg inv hinv
  have hsum : ∀ invs : List ℕ, invs.Nodup →
      (invs.map (discountOf st ac
          (GroupInvoice.discounted st.arithmetic s id inv line discount))).sum =
        (invs.map (discountOf st ac s)).sum + if inv ∈ invs then discount else 0 := by
    intro invs hnd
    rw [← sum_add_ite hnd]
    exact congrArg List.sum
      (List.map_congr_left fun k _ => discountOf_discounted har hac hd hline hm k)
  intro j g' hg'
  rw [GroupInvoice.discounted, GroupInvoices.group?_modifyGroup, GroupInvoices.group?_modifyMove]
    at hg'
  split at hg'
  · next hid =>
      subst hid
      rw [hg] at hg'
      obtain rfl : g.addDiscount st.arithmetic discount = g' := Option.some.inj hg'
      change (g.invoiceIds.map _).sum = st.arithmetic.add g.totalDiscount discount
      rw [har, Arithmetic.exact_add, ← har, hsum _ (hs.nodup id g hg), if_pos hinv, h id g hg]
  · next hid =>
      have hno : inv ∉ g'.invoiceIds := hs.disjoint id j g g' hid hg hg' inv hinv
      rw [hsum _ (hs.nodup j g' hg'), if_neg hno, add_zero, h j g' hg']

theorem DiscountsAgree.updateGroupInvoice (har : st.arithmetic = .exact)
    (hac : ac.RoundsSubtotals) (h : DiscountsAgree st ac s) (hs : Separate s)
    {w : DiscountWizard} {u : PUnit}
    (hw : w.discountType = .amount → roundHalfUp w.discountAmount 2 = w.discountAmount)
    (hrun : (updateGroupInvoice st ac id w).run s = .ok u t) : DiscountsAgree st ac t := by
  obtain ⟨g, hg, hinvs, hrun⟩ := updateGroupInvoice_run_ok hrun
  refine (updateInvoices_rule (I := fun t => Separate t ∧ DiscountsAgree st ac t ∧
    ∃ g', t.group? id = some g' ∧ g'.invoiceIds = g.invoiceIds) ?_ ⟨hs, h, g, hg, rfl⟩ hrun).2.1
  rintro t inv hinv m line hline ⟨hs, h, g', hg', hl⟩
  refine ⟨hs.keep (keepsLines_discounted _ t id inv line _),
    h.discounted har hac hs hg' (hl ▸ hinvs inv hinv) (targetDiscountAmount_mem_decimals hw m)
      hline, ?_⟩
  refine ⟨g'.addDiscount st.arithmetic (targetDiscountAmount st ac w m), ?_, hl⟩
  rw [GroupInvoice.discounted, GroupInvoices.group?_modifyGroup, if_pos rfl,
    GroupInvoices.group?_modifyMove, hg']
  rfl

/-! ## Generating lines -/

/-- The discounts of the invoices that are in `new` and not in `old`. -/
def enteringDiscount (st : Settings) (ac : Accounting) (s : GroupInvoices δ) (old new : List ℕ) :
    ℚ :=
  ((new.filter fun inv => inv ∉ old).map (discountOf st ac s)).sum

/-- In every round, the invoices that leave the group invoice carry the same discount as
those that are put on it. -/
def GeneratesAlike (st : Settings) (ac : Accounting) : GroupInvoices δ → List ℕ → Prop
  | _, [] => True
  | s, id :: ids =>
      ∀ g ∈ s.group? id,
        enteringDiscount st ac s (generatedLines ac s id g) g.invoiceIds =
            enteringDiscount st ac s g.invoiceIds (generatedLines ac s id g) ∧
          GeneratesAlike st ac
            (s.modifyGroup id fun g' => { g' with invoiceIds := generatedLines ac s id g }) ids

instance GeneratesAlike.decidable (st : Settings) (ac : Accounting) :
    ∀ (s : GroupInvoices δ) (ids : List ℕ), Decidable (GeneratesAlike st ac s ids)
  | _, [] => inferInstanceAs (Decidable True)
  | s, id :: ids =>
      have (g : GroupInvoice δ) := GeneratesAlike.decidable st ac
        (s.modifyGroup id fun g' => { g' with invoiceIds := generatedLines ac s id g }) ids
      inferInstanceAs (Decidable (∀ g ∈ s.group? id, _ ∧ _))

/-- What is on both lists counts on both sides. -/
theorem sum_eq_sum_iff_entering {old new : List ℕ} (hold : old.Nodup) (hnew : new.Nodup) :
    (old.map (discountOf st ac s)).sum = (new.map (discountOf st ac s)).sum ↔
      enteringDiscount st ac s new old = enteringDiscount st ac s old new := by
  have hboth : (old.filter fun inv => inv ∈ new).Perm (new.filter fun inv => inv ∈ old) := by
    refine (List.perm_ext_iff_of_nodup (hold.filter _) (hnew.filter _)).mpr fun inv => ?_
    simp [List.mem_filter, and_comm]
  rw [← Grouping.sum_filter_add_sum_filter_not (fun inv => inv ∈ new) (discountOf st ac s) old,
    ← Grouping.sum_filter_add_sum_filter_not (fun inv => inv ∈ old) (discountOf st ac s) new,
    (hboth.map _).sum_eq, add_right_inj]
  rfl

theorem DiscountsAgree.generate (h : DiscountsAgree st ac s) (hs : Separate s) {g : GroupInvoice δ}
    (hg : s.group? id = some g)
    (halike : enteringDiscount st ac s (generatedLines ac s id g) g.invoiceIds =
      enteringDiscount st ac s g.invoiceIds (generatedLines ac s id g)) :
    DiscountsAgree st ac
      (s.modifyGroup id fun g' => { g' with invoiceIds := generatedLines ac s id g }) := by
  intro j g' hg'
  rw [GroupInvoices.group?_modifyGroup] at hg'
  split at hg'
  · next hid =>
      subst hid
      rw [hg] at hg'
      obtain rfl := Option.some.inj hg'
      exact ((sum_eq_sum_iff_entering (hs.nodup id g hg) (nodup_generatedLines s id g)).mpr
        halike).symm.trans (h id g hg)
  · exact h j g' hg'

theorem DiscountsAgree.generateGroupInvoice (h : DiscountsAgree st ac s) (hs : Separate s)
    {ids : List ℕ} {u : PUnit} (halike : GeneratesAlike st ac s ids)
    (hrun : (generateGroupInvoice ac ids).run s = .ok u t) : DiscountsAgree st ac t := by
  induction ids generalizing s with
  | nil =>
      cases hrun
      exact h
  | cons id ids ih =>
      obtain ⟨g, hg, hrun⟩ := generateGroupInvoice_cons_run_ok hrun
      obtain ⟨hround, hrest⟩ := halike g hg
      exact ih (h.generate hs hg hround) (hs.generate hg) hrest hrun

/-! ## The other events -/

theorem discountOf_keep (hk : KeepsRecords s t) {inv : ℕ} {m : Move}
    (hm : s.invoice? inv = some m) : discountOf st ac t inv = discountOf st ac s inv := by
  obtain ⟨m', hm', -, hl⟩ := hk.invoice inv m hm
  rw [discountOf, discountOf, hm, hm', Option.map_some, Option.map_some, discountedAmountLines,
    discountedAmountLines, hl]

theorem DiscountsAgree.keep (h : DiscountsAgree st ac s) (hs : Separate s)
    (hk : KeepsRecords s t) : DiscountsAgree st ac t := by
  intro j g hg
  rcases hk.group j g hg with ⟨hnil, hzero⟩ | ⟨g', hg', -, hl, hd⟩
  · rw [hnil, hzero]
    rfl
  · rw [← hl, ← hd, ← h j g' hg']
    refine congrArg List.sum (List.map_congr_left fun inv hinv => ?_)
    obtain ⟨m, hm, -⟩ := hs.partner j g' hg' inv hinv
    exact discountOf_keep hk hm

/-- The condition on an event: a call of `generate_group_invoice` exchanges invoices of the same
discount, and an amount that is entered in the wizard has at most two decimals. -/
def KeepsTotal (st : Settings) (ac : Accounting) (s : GroupInvoices δ) : Event δ → Prop
  | .generate ids => GeneratesAlike st ac s ids
  | .discount _ w => w.discountType = .amount → roundHalfUp w.discountAmount 2 = w.discountAmount
  | _ => True

instance (s : GroupInvoices δ) (e : Event δ) : Decidable (KeepsTotal st ac s e) :=
  match e with
  | .generate ids => inferInstanceAs (Decidable (GeneratesAlike st ac s ids))
  | .discount _ _ => inferInstanceAs (Decidable (_ → _))
  | .create .. | .unlink .. | .editDates .. | .newInvoice .. | .pay .. =>
      inferInstanceAs (Decidable True)

theorem DiscountsAgree.step (har : st.arithmetic = .exact) (hac : ac.RoundsSubtotals)
    (h : DiscountsAgree st ac s) (hs : Separate s) {e : Event δ} (hC : KeepsTotal st ac s e) :
    DiscountsAgree st ac (step st ac s e) := by
  rcases step_cases st ac s e with heq | hrun
  · rw [heq]
    exact h
  · cases e with
    | generate ids => exact h.generateGroupInvoice hs hC hrun
    | discount id w => exact h.updateGroupInvoice har hac hs hC hrun
    | _ => exact h.keep hs (perform_keepsRecords (by simp) (by simp) hrun)

/-- In exact arithmetic, in every run in which the calls of `generate_group_invoice` exchange
invoices of the same discount and no part of a piastre is entered, the printed amounts of the
lines of a group invoice add up to the printed gross total. -/
theorem printed_lines_add_up (har : st.arithmetic = .exact) (hac : ac.RoundsSubtotals)
    (invoices : List (DatedMove δ)) (es : List (Event δ))
    (hm : Meets (step st ac) (KeepsTotal st ac) { invoices } es) :
    let s := run (step st ac) { invoices } es
    ∀ i g, s.group? i = some g →
      (g.invoiceIds.map (printedLineAmount st ac s)).sum = grossTotalAmount st ac s g := by
  intro s i g hg
  have hnil : DiscountsAgree st ac ({ invoices } : GroupInvoices δ) := by
    intro i g hg
    simp [GroupInvoices.group?] at hg
  have h := invariant (I := fun s => Separate s ∧ DiscountsAgree st ac s)
    (fun s e hs hC => ⟨hs.1.step e, hs.2.step har hac hs.1 hC⟩)
    ⟨Separate.of_no_groups invoices, hnil⟩ hm
  exact (printed_eq_gross_iff har ac s g).mpr (h.2 i g hg)

/-- A posted on-credit invoice of the customer 1 over 100, with a discount. -/
def onCreditInvoice (discount : ℚ) : DatedMove ℕ where
  createDate := 5
  move :=
    { moveType := .outInvoice, ref := "A", state := .posted, partnerId := some 1
      onCreditInvoice := true
      invoiceLineIds :=
        [{ productId := some 1, name := "Shipping Fees", quantity := 1, priceUnit := 100 },
         { productId := some 3, name := "Invoice Discount", quantity := 1,
           priceUnit := -discount }] }

/-- A group invoice is generated, discounted and generated again. -/
def discountedGroup : List (Event ℕ) :=
  [.create 1 0 10, .generate [0], .discount 0 { discountType := .amount, discountAmount := 30 },
    .generate [0]]

theorem printed_lines_add_up_after_discount :
    let st := Settings.sample.withExactArithmetic
    let s := run (step st .sample) { invoices := [onCreditInvoice 0] } discountedGroup
    ∀ i g, s.group? i = some g →
      (g.invoiceIds.map (printedLineAmount st .sample s)).sum = grossTotalAmount st .sample s g :=
  printed_lines_add_up rfl Accounting.sample_roundsSubtotals [onCreditInvoice 0] discountedGroup
    (by decide +kernel)

/-- An invoice whose order had a discount: the report prints 100 for its line and 70 for the
gross total. -/
theorem printed_lines_exceed_gross :
    let s := run (step .sample .sample) { invoices := [onCreditInvoice 30] }
      [.create 1 0 10, .generate [0]]
    ∃ g, s.group? 0 = some g ∧
      (g.invoiceIds.map (printedLineAmount .sample .sample s)).sum = 100 ∧
      grossTotalAmount .sample .sample s g = 70 :=
  ⟨_, rfl, by decide +kernel, by decide +kernel⟩

end GroupInvoice

end Fastrak
