import Fastrak.GroupInvoice.Operation
import Mathlib.Data.List.Nodup

/-!
# What the operations change

One round of `generate_group_invoice` replaces the lines of the group invoice it runs on.
One round of the discount wizard adds a line to one invoice and the discount to the total
of one group invoice.
-/

namespace Fastrak

open Transaction Run

variable {δ : Type} [LinearOrder δ] {s t : GroupInvoices δ}

namespace GroupInvoices

theorem group?_modifyGroup (id : ℕ) (f : GroupInvoice δ → GroupInvoice δ) (j : ℕ) :
    (s.modifyGroup id f).group? j = if id = j then (s.group? j).map f else s.group? j := by
  rw [group?, modifyGroup, List.getElem?_modify, group?]
  by_cases h : id = j
  · subst h
    cases s.groups[id]? with
    | none => simp
    | some g => cases g <;> simp
  · simp [h]

@[simp] theorem group?_modifyMove (id : ℕ) (f : Move → Move) (j : ℕ) :
    (s.modifyMove id f).group? j = s.group? j := rfl

@[simp] theorem invoice?_modifyGroup (id : ℕ) (f : GroupInvoice δ → GroupInvoice δ) (inv : ℕ) :
    (s.modifyGroup id f).invoice? inv = s.invoice? inv := rfl

theorem invoice?_modifyMove (id : ℕ) (f : Move → Move) (inv : ℕ) :
    (s.modifyMove id f).invoice? inv =
      if id = inv then (s.invoice? inv).map f else s.invoice? inv := by
  rw [invoice?, modifyMove, List.getElem?_modify, invoice?]
  by_cases h : id = inv
  · subst h
    cases s.invoices[id]? <;> simp
  · simp [h]

theorem group?_concat {g h : GroupInvoice δ} {j : ℕ}
    (hj : group? { s with groups := s.groups ++ [some g] } j = some h) :
    s.group? j = some h ∨ h = g := by
  rw [group?, Option.join_eq_some_iff] at hj
  rcases Table.getElem?_concat_cases hj with hj | ⟨-, hj⟩
  · exact .inl (by rw [group?, hj]; rfl)
  · exact .inr (Option.some.inj hj)

theorem group?_set_none {id j : ℕ} {h : GroupInvoice δ}
    (hj : group? { s with groups := s.groups.set id none } j = some h) : s.group? j = some h := by
  rw [group?, Option.join_eq_some_iff, List.getElem?_set] at hj
  split at hj
  · split at hj <;> simp at hj
  · exact Option.join_eq_some_iff.mpr hj

theorem invoice?_concat {r : DatedMove δ} {inv : ℕ} {m : Move} (h : s.invoice? inv = some m) :
    invoice? { s with invoices := s.invoices ++ [r] } inv = some m := by
  obtain ⟨r', hr', rfl⟩ := Option.map_eq_some_iff.mp h
  exact Option.map_eq_some_iff.mpr ⟨r', Table.getElem?_append_of_some hr' [r], rfl⟩

theorem length_of_group? {id : ℕ} {g : GroupInvoice δ} (h : s.group? id = some g) :
    id < s.groups.length := by
  by_contra hle
  rw [group?, List.getElem?_eq_none (not_lt.mp hle)] at h
  cases h

end GroupInvoices

namespace GroupInvoice

variable {st : Settings} {ac : Accounting} {id : ℕ}

/-- The lines that `generate_group_invoice` gives to the group invoice. -/
def generatedLines (ac : Accounting) (s : GroupInvoices δ) (id : ℕ) (g : GroupInvoice δ) :
    List ℕ :=
  (searchCustomerInvoices ac s g).filter fun inv => CheckNotInOldGroupInvoice s id g inv

theorem mem_searchCustomerInvoices {g : GroupInvoice δ} {inv : ℕ} :
    inv ∈ searchCustomerInvoices ac s g ↔
      ∃ r, s.invoices[inv]? = some r ∧ g.IsCustomerCreditInvoice ac r := by
  rw [searchCustomerInvoices, List.mem_filter, List.mem_range, Option.any_eq_true]
  simp only [decide_eq_true_eq]
  constructor
  · exact fun h => h.2
  · rintro ⟨r, hr, h⟩
    exact ⟨(List.getElem?_eq_some_iff.mp hr).1, r, hr, h⟩

theorem checkNotInOldGroupInvoice_iff {g : GroupInvoice δ} {inv : ℕ} :
    CheckNotInOldGroupInvoice s id g inv ↔
      ∀ old ≠ id, ∀ grp, s.group? old = some grp → grp.customer = g.customer →
        inv ∉ grp.invoiceIds := by
  constructor
  · intro h old hne grp hgrp
    exact h old (List.mem_range.mpr (GroupInvoices.length_of_group? hgrp)) hne grp hgrp
  · intro h old _ hne grp hgrp
    exact h old hne grp hgrp

theorem nodup_generatedLines (s : GroupInvoices δ) (id : ℕ) (g : GroupInvoice δ) :
    (generatedLines ac s id g).Nodup :=
  (List.nodup_range.filter _).filter _

theorem self_run (id : ℕ) (s : GroupInvoices δ) :
    (self id : Tx δ _).run s =
      match s.group? id with
      | some g => .ok g s
      | none => .error "Record does not exist or has been deleted." s := by
  rw [self, get_bind_run]
  cases s.group? id <;> rfl

/-- A round looks at the other group invoices only, so that it is the same before and after
the lines are taken off. -/
theorem getCustomerCreditInvoices_run {g : GroupInvoice δ} (hg : s.group? id = some g) :
    (getCustomerCreditInvoices ac id).run s =
      .ok ⟨⟩ (s.modifyGroup id fun g' => { g' with invoiceIds := generatedLines ac s id g }) := by
  let s₁ := s.modifyGroup id fun g => { g with invoiceIds := [] }
  have hlines : ((searchCustomerInvoices ac s g).filter fun inv =>
      CheckNotInOldGroupInvoice s₁ id g inv) = generatedLines ac s id g := by
    refine List.filter_congr fun inv _ => decide_eq_decide.mpr ?_
    rw [checkNotInOldGroupInvoice_iff, checkNotInOldGroupInvoice_iff]
    refine forall_congr' fun old => forall_congr' fun hne => ?_
    rw [GroupInvoices.group?_modifyGroup, if_neg hne.symm]
  rw [getCustomerCreditInvoices, EStateM.run_bind, self_run, hg]
  dsimp only
  rw [get_bind_run, modify_bind_run, get_bind_run, hlines]
  refine congrArg (EStateM.Result.ok PUnit.unit) ?_
  simp only [GroupInvoices.modifyGroup, List.modify_modify_eq]
  congr 2
  funext g'
  cases g' <;> rfl

theorem getCustomerCreditInvoices_raises (hg : s.group? id = none) :
    (getCustomerCreditInvoices ac id).run s =
      .error "Record does not exist or has been deleted." s := by
  rw [getCustomerCreditInvoices, EStateM.run_bind, self_run, hg]

/-- A run of the operation over a list, round by round. -/
theorem generateGroupInvoice_cons_run_ok {ids : List ℕ} {u : PUnit}
    (h : (generateGroupInvoice ac (id :: ids)).run s = .ok u t) :
    ∃ g, s.group? id = some g ∧ (generateGroupInvoice ac ids).run
      (s.modifyGroup id fun g' => { g' with invoiceIds := generatedLines ac s id g }) =
        .ok u t := by
  rw [generateGroupInvoice, EStateM.run_bind] at h
  cases hg : s.group? id with
  | none =>
      rw [getCustomerCreditInvoices_raises hg] at h
      cases h
  | some g =>
      rw [getCustomerCreditInvoices_run hg] at h
      exact ⟨g, rfl, h⟩

theorem getDiscountServiceLine_eq_ok {discount : ℚ} {line : InvoiceLine}
    (h : getDiscountServiceLine st discount = .ok line) :
    ∃ product ∈ st.mainDiscountServices, line =
      { productId := some product.id, name := "Invoice Discount", quantity := 1,
        priceUnit := -discount, costCentersId := product.costCentersId } := by
  rw [getDiscountServiceLine, except_bind_ok_iff] at h
  obtain ⟨found, hfound, h⟩ := h
  cases found with
  | none => cases h
  | some product =>
      obtain ⟨-, -, h⟩ := except_bind_ok_iff.mp h
      refine ⟨product, ?_, (except_pure_eq_ok_iff.mp h).symm⟩
      rw [eq_singleton_of_single hfound]
      exact List.mem_singleton_self product

/-- What one round of the wizard's loop writes. -/
def discounted (ar : Arithmetic) (s : GroupInvoices δ) (id inv : ℕ) (line : InvoiceLine)
    (discount : ℚ) : GroupInvoices δ :=
  (s.modifyMove inv fun m => m.addLine line).modifyGroup id fun g => g.addDiscount ar discount

theorem updateInvoices_cons_run_ok {inv : ℕ} {invs : List ℕ} {w : DiscountWizard} {u : PUnit}
    (h : (updateInvoices st ac id w (inv :: invs)).run s = .ok u t) :
    ∃ m line, s.invoice? inv = some m ∧
      getDiscountServiceLine st (targetDiscountAmount st ac w m) = .ok line ∧
      (updateInvoices st ac id w invs).run
        (discounted st.arithmetic s id inv line (targetDiscountAmount st ac w m)) = .ok u t := by
  rw [updateInvoices, get_bind_run] at h
  cases hm : s.invoice? inv with
  | none =>
      rw [hm] at h
      cases h
  | some m =>
      rw [hm] at h
      dsimp only at h
      obtain ⟨_, t₁, hlines, h⟩ := run_bind_ok_iff.mp h
      rw [updateInvoiceLines] at hlines
      obtain ⟨line, hline, hlines⟩ := lift_bind_run_ok_iff.mp hlines
      rw [raiseIf_bind_run_ok_iff] at hlines
      refine ⟨m, line, rfl, hline, ?_⟩
      cases hr : ac.refuseLines (m.addLine line) with
      | some message =>
          rw [hr] at hlines
          cases hlines.2
      | none =>
          rw [hr] at hlines
          cases hlines.2
          exact h

/-- The invoices that the wizard works on. -/
def DiscountWizard.targetInvoices (w : DiscountWizard) (g : GroupInvoice δ) : List ℕ :=
  match w.invoiceSelectionType with
  | .all => g.invoiceIds
  | .specific => w.targetInvoice.toList

theorem updateGroupInvoice_run_ok {w : DiscountWizard} {u : PUnit}
    (h : (updateGroupInvoice st ac id w).run s = .ok u t) :
    ∃ g, s.group? id = some g ∧ (∀ inv ∈ w.targetInvoices g, inv ∈ g.invoiceIds) ∧
      (updateInvoices st ac id w (w.targetInvoices g)).run s = .ok u t := by
  rw [updateGroupInvoice, checkDiscountConstraints, raiseIf_bind_run_ok_iff] at h
  obtain ⟨-, h⟩ := h
  rw [EStateM.run_bind, self_run] at h
  cases hg : s.group? id with
  | none =>
      rw [hg] at h
      cases h
  | some g =>
      rw [hg] at h
      dsimp only at h
      rw [raiseIf_bind_run_ok_iff] at h
      obtain ⟨htarget, h⟩ := h
      refine ⟨g, rfl, ?_⟩
      unfold DiscountWizard.targetInvoices
      cases hsel : w.invoiceSelectionType with
      | all =>
          rw [hsel] at h
          exact ⟨fun _ hi => hi, h⟩
      | specific =>
          rw [hsel] at h
          refine ⟨fun inv hi => ?_, h⟩
          by_contra hno
          exact htarget ⟨inv, Option.mem_toList.mp hi, hno⟩

/-- The rule of the wizard's loop: what every round keeps. -/
theorem updateInvoices_rule {I : GroupInvoices δ → Prop} {w : DiscountWizard} {invs : List ℕ}
    {u : PUnit} (hI : ∀ s, ∀ inv ∈ invs, ∀ m line,
      getDiscountServiceLine st (targetDiscountAmount st ac w m) = .ok line → I s →
        I (discounted st.arithmetic s id inv line (targetDiscountAmount st ac w m)))
    (hs : I s) (h : (updateInvoices st ac id w invs).run s = .ok u t) : I t := by
  induction invs generalizing s with
  | nil =>
      cases h
      exact hs
  | cons inv invs ih =>
      obtain ⟨m, line, -, hline, h⟩ := updateInvoices_cons_run_ok h
      exact ih (fun s i hi => hI s i (List.mem_cons_of_mem _ hi))
        (hI s inv List.mem_cons_self m line hline hs) h

end GroupInvoice

end Fastrak
