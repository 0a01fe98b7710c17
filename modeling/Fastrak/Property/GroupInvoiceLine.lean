import Fastrak.GroupInvoice.Effect

/-!
# No invoice is on two group invoices

The lines of a group invoice are invoices of its customer, so that the search of the
group invoices of the same customer meets every other group invoice the invoice could be
on. `Separate` is kept by every event.
-/

namespace Fastrak

open Transaction Run

variable {δ : Type} [LinearOrder δ] {s t : GroupInvoices δ}

namespace GroupInvoice

variable {st : Settings} {ac : Accounting} {id : ℕ}

theorem step_cases (st : Settings) (ac : Accounting) (s : GroupInvoices δ) (e : Event δ) :
    step st ac s e = s ∨ (perform st ac e).run s = .ok ⟨⟩ (step st ac s e) := by
  rcases atomic_snd_cases (perform st ac e) s with ⟨_, hrun⟩ | ⟨-, h⟩
  · exact .inr hrun
  · exact .inl h

/-- What keeps the lines apart: a group invoice with lines was there with these lines and
this customer, and the invoices keep their partners. -/
structure KeepsLines (s t : GroupInvoices δ) : Prop where
  partner : ∀ inv m, s.invoice? inv = some m →
    ∃ m', t.invoice? inv = some m' ∧ m'.partnerId = m.partnerId
  group : ∀ j h, t.group? j = some h → h.invoiceIds = [] ∨
    ∃ g, s.group? j = some g ∧ g.customer = h.customer ∧ g.invoiceIds = h.invoiceIds

theorem KeepsLines.refl (s : GroupInvoices δ) : KeepsLines s s where
  partner _ m hm := ⟨m, hm, rfl⟩
  group _ h hh := .inr ⟨h, hh, rfl, rfl⟩

theorem KeepsLines.trans {r : GroupInvoices δ} (h : KeepsLines s t) (h' : KeepsLines t r) :
    KeepsLines s r where
  partner inv m hm := by
    obtain ⟨m', hm', hp⟩ := h.partner inv m hm
    obtain ⟨m'', hm'', hp'⟩ := h'.partner inv m' hm'
    exact ⟨m'', hm'', hp'.trans hp⟩
  group j g hg := by
    rcases h'.group j g hg with hnil | ⟨g', hg', hc, hl⟩
    · exact .inl hnil
    · rcases h.group j g' hg' with hnil | ⟨g'', hg'', hc', hl'⟩
      · exact .inl (hl ▸ hnil)
      · exact .inr ⟨g'', hg'', hc'.trans hc, hl'.trans hl⟩

/-- A write on the fields of a group invoice other than its customer and its lines. -/
theorem keepsLines_modifyGroup (f : GroupInvoice δ → GroupInvoice δ)
    (hc : ∀ g, (f g).customer = g.customer) (hl : ∀ g, (f g).invoiceIds = g.invoiceIds)
    (s : GroupInvoices δ) (id : ℕ) : KeepsLines s (s.modifyGroup id f) where
  partner _ m hm := ⟨m, hm, rfl⟩
  group j h hh := by
    rw [GroupInvoices.group?_modifyGroup] at hh
    split at hh
    · obtain ⟨g, hg, rfl⟩ := Option.map_eq_some_iff.mp hh
      exact .inr ⟨g, hg, (hc g).symm, (hl g).symm⟩
    · exact .inr ⟨h, hh, rfl, rfl⟩

theorem keepsLines_modifyMove (f : Move → Move) (hp : ∀ m, (f m).partnerId = m.partnerId)
    (s : GroupInvoices δ) (id : ℕ) : KeepsLines s (s.modifyMove id f) where
  partner inv m hm := by
    rw [GroupInvoices.invoice?_modifyMove]
    split
    · exact ⟨f m, by rw [hm]; rfl, hp m⟩
    · exact ⟨m, hm, rfl⟩
  group _ h hh := .inr ⟨h, hh, rfl, rfl⟩

theorem keepsLines_discounted (ar : Arithmetic) (s : GroupInvoices δ) (id inv : ℕ)
    (line : InvoiceLine) (discount : ℚ) : KeepsLines s (discounted ar s id inv line discount) :=
  (keepsLines_modifyMove (fun m => m.addLine line) (fun _ => rfl) s inv).trans
    (keepsLines_modifyGroup (fun g => g.addDiscount ar discount) (fun _ => rfl) (fun _ => rfl) _ id)

/-- What the other events keep: the customer and the lines of every invoice, and a group
invoice but for its dates, unless it is a new one. -/
structure KeepsRecords (s t : GroupInvoices δ) : Prop where
  invoice : ∀ inv m, s.invoice? inv = some m →
    ∃ m', t.invoice? inv = some m' ∧ m'.partnerId = m.partnerId ∧
      m'.invoiceLineIds = m.invoiceLineIds
  group : ∀ j h, t.group? j = some h → (h.invoiceIds = [] ∧ h.totalDiscount = 0) ∨
    ∃ g, s.group? j = some g ∧ g.customer = h.customer ∧ g.invoiceIds = h.invoiceIds ∧
      g.totalDiscount = h.totalDiscount

theorem KeepsRecords.keepsLines (h : KeepsRecords s t) : KeepsLines s t where
  partner inv m hm := by
    obtain ⟨m', hm', hp, -⟩ := h.invoice inv m hm
    exact ⟨m', hm', hp⟩
  group j g hg := by
    rcases h.group j g hg with ⟨hnil, -⟩ | ⟨g', hg', hc, hl, -⟩
    · exact .inl hnil
    · exact .inr ⟨g', hg', hc, hl⟩

theorem perform_keepsRecords {e : Event δ} (hgen : ∀ ids, e ≠ .generate ids)
    (hdis : ∀ id w, e ≠ .discount id w) {u : PUnit}
    (h : (perform st ac e).run s = .ok u t) : KeepsRecords s t := by
  cases e with
  | create customer fromDate toDate =>
      rw [perform] at h
      split at h
      · cases h
        refine ⟨fun _ m hm => ⟨m, hm, rfl, rfl⟩, fun j g hg => ?_⟩
        rcases GroupInvoices.group?_concat hg with hg | rfl
        · exact .inr ⟨g, hg, rfl, rfl, rfl⟩
        · exact .inl ⟨rfl, rfl⟩
      · cases h
  | unlink id =>
      cases h
      exact ⟨fun _ m hm => ⟨m, hm, rfl, rfl⟩,
        fun _ g hg => .inr ⟨g, GroupInvoices.group?_set_none hg, rfl, rfl, rfl⟩⟩
  | editDates id fromDate toDate =>
      rw [perform] at h
      split at h
      · cases h
        refine ⟨fun _ m hm => ⟨m, hm, rfl, rfl⟩, fun j g hg => ?_⟩
        rw [GroupInvoices.group?_modifyGroup] at hg
        split at hg
        · obtain ⟨g', hg', rfl⟩ := Option.map_eq_some_iff.mp hg
          exact .inr ⟨g', hg', rfl, rfl, rfl⟩
        · exact .inr ⟨g, hg, rfl, rfl, rfl⟩
      · cases h
  | generate ids => exact absurd rfl (hgen ids)
  | discount id w => exact absurd rfl (hdis id w)
  | newInvoice r =>
      cases h
      exact ⟨fun _ m hm => ⟨m, GroupInvoices.invoice?_concat hm, rfl, rfl⟩,
        fun _ g hg => .inr ⟨g, hg, rfl, rfl, rfl⟩⟩
  | pay inv amount =>
      cases h
      refine ⟨fun inv' m hm => ?_, fun _ g hg => .inr ⟨g, hg, rfl, rfl, rfl⟩⟩
      rw [GroupInvoices.invoice?_modifyMove, hm]
      split
      · exact ⟨_, rfl, rfl, rfl⟩
      · exact ⟨m, rfl, rfl, rfl⟩

/-- Every event but `generate` keeps the lines. -/
theorem perform_keepsLines {e : Event δ} (he : ∀ ids, e ≠ .generate ids) {u : PUnit}
    (h : (perform st ac e).run s = .ok u t) : KeepsLines s t := by
  cases e with
  | generate ids => exact absurd rfl (he ids)
  | discount id w =>
      obtain ⟨_, -, -, hrun⟩ := updateGroupInvoice_run_ok h
      exact updateInvoices_rule (I := KeepsLines s)
        (fun t inv _ m line _ ht => ht.trans (keepsLines_discounted _ t id inv line _))
        (.refl s) hrun
  | _ => exact (perform_keepsRecords (by simp) (by simp) h).keepsLines

/-! ## Generating lines -/

/-- The lines of a group invoice are invoices of its customer, each once, and on no other
group invoice. -/
structure Separate (s : GroupInvoices δ) : Prop where
  partner : ∀ i g, s.group? i = some g → ∀ inv ∈ g.invoiceIds,
    ∃ m, s.invoice? inv = some m ∧ m.partnerId = some g.customer
  nodup : ∀ i g, s.group? i = some g → g.invoiceIds.Nodup
  disjoint : ∀ i j g h, i ≠ j → s.group? i = some g → s.group? j = some h →
    ∀ inv ∈ g.invoiceIds, inv ∉ h.invoiceIds

namespace Separate

theorem keep (hs : Separate s) (h : KeepsLines s t) : Separate t where
  partner i g hg inv hinv := by
    rcases h.group i g hg with hnil | ⟨g', hg', hc, hl⟩
    · rw [hnil] at hinv
      cases hinv
    · obtain ⟨m, hm, hp⟩ := hs.partner i g' hg' inv (hl ▸ hinv)
      obtain ⟨m', hm', hp'⟩ := h.partner inv m hm
      exact ⟨m', hm', by rw [hp', hp, hc]⟩
  nodup i g hg := by
    rcases h.group i g hg with hnil | ⟨g', hg', -, hl⟩
    · rw [hnil]
      exact List.nodup_nil
    · exact hl ▸ hs.nodup i g' hg'
  disjoint i j g₁ g₂ hij hg₁ hg₂ inv hinv hinv' := by
    rcases h.group i g₁ hg₁ with hnil | ⟨g₁', hg₁', -, hl₁⟩
    · rw [hnil] at hinv
      cases hinv
    · rcases h.group j g₂ hg₂ with hnil | ⟨g₂', hg₂', -, hl₂⟩
      · rw [hnil] at hinv'
        cases hinv'
      · exact hs.disjoint i j g₁' g₂' hij hg₁' hg₂' inv (hl₁ ▸ hinv) (hl₂ ▸ hinv')

/-- An invoice that is generated is of the customer, and so it is on no other group
invoice: one of another customer does not have it, one of this customer is checked. -/
theorem notMem_of_generated (hs : Separate s) {g h : GroupInvoice δ} {j inv : ℕ}
    (hinv : inv ∈ generatedLines ac s id g) (hj : j ≠ id) (hh : s.group? j = some h) :
    inv ∉ h.invoiceIds := by
  intro hmem
  obtain ⟨hsearch, hcheck⟩ := List.mem_filter.mp hinv
  obtain ⟨r, hr, hcredit⟩ := mem_searchCustomerInvoices.mp hsearch
  obtain ⟨m, hm, hp⟩ := hs.partner j h hh inv hmem
  rw [GroupInvoices.invoice?, hr] at hm
  obtain rfl := Option.some.inj hm
  have hcustomer : h.customer = g.customer := Option.some.inj (hp.symm.trans hcredit.1)
  exact checkNotInOldGroupInvoice_iff.mp (of_decide_eq_true hcheck) j hj h hh hcustomer hmem

theorem generate (hs : Separate s) {g : GroupInvoice δ} (hg : s.group? id = some g) :
    Separate (s.modifyGroup id fun g' => { g' with invoiceIds := generatedLines ac s id g }) := by
  have hcases : ∀ j h, (s.modifyGroup id fun g' =>
      { g' with invoiceIds := generatedLines ac s id g }).group? j = some h →
      (j = id ∧ h = { g with invoiceIds := generatedLines ac s id g }) ∨
        (j ≠ id ∧ s.group? j = some h) := by
    intro j h hh
    rw [GroupInvoices.group?_modifyGroup] at hh
    split at hh
    · next hid =>
        subst hid
        rw [hg] at hh
        exact .inl ⟨rfl, (Option.some.inj hh).symm⟩
    · next hid => exact .inr ⟨fun heq => hid heq.symm, hh⟩
  constructor
  · intro i h hh inv hinv
    rcases hcases i h hh with ⟨-, rfl⟩ | ⟨-, hh⟩
    · obtain ⟨r, hr, hcredit⟩ := mem_searchCustomerInvoices.mp (List.mem_filter.mp hinv).1
      exact ⟨r.move, Option.map_eq_some_iff.mpr ⟨r, hr, rfl⟩, hcredit.1⟩
    · exact hs.partner i h hh inv hinv
  · intro i h hh
    rcases hcases i h hh with ⟨-, rfl⟩ | ⟨-, hh⟩
    · exact nodup_generatedLines s id g
    · exact hs.nodup i h hh
  · intro i j h₁ h₂ hij hh₁ hh₂ inv hinv
    rcases hcases i h₁ hh₁ with ⟨rfl, rfl⟩ | ⟨hi, hold₁⟩
    · rcases hcases j h₂ hh₂ with ⟨rfl, -⟩ | ⟨hj, hold₂⟩
      · exact absurd rfl hij
      · exact hs.notMem_of_generated hinv hj hold₂
    · rcases hcases j h₂ hh₂ with ⟨rfl, rfl⟩ | ⟨-, hold₂⟩
      · exact fun hinv' => hs.notMem_of_generated hinv' hi hold₁ hinv
      · exact hs.disjoint i j h₁ h₂ hij hold₁ hold₂ inv hinv

theorem generateGroupInvoice (hs : Separate s) {ids : List ℕ} {u : PUnit}
    (h : (generateGroupInvoice ac ids).run s = .ok u t) : Separate t := by
  induction ids generalizing s with
  | nil =>
      cases h
      exact hs
  | cons id ids ih =>
      obtain ⟨g, hg, h⟩ := generateGroupInvoice_cons_run_ok h
      exact ih (hs.generate hg) h

theorem step (hs : Separate s) (e : Event δ) : Separate (step st ac s e) := by
  rcases step_cases st ac s e with h | h
  · rw [h]
    exact hs
  · cases e with
    | generate ids => exact hs.generateGroupInvoice h
    | _ => exact hs.keep (perform_keepsLines (by simp) h)

theorem of_no_groups (invoices : List (DatedMove δ)) :
    Separate ({ invoices } : GroupInvoices δ) where
  partner i g hg := by simp [GroupInvoices.group?] at hg
  nodup i g hg := by simp [GroupInvoices.group?] at hg
  disjoint i j g h _ hg := by simp [GroupInvoices.group?] at hg

end Separate

/-- A call runs on the group invoices of its recordset. -/
theorem generateGroupInvoice_group? {ids : List ℕ} {j : ℕ} {u : PUnit}
    (h : (generateGroupInvoice ac ids).run s = .ok u t) (hj : j ∉ ids) :
    t.group? j = s.group? j := by
  induction ids generalizing s with
  | nil =>
      cases h
      rfl
  | cons id ids ih =>
      obtain ⟨hne, hj⟩ := List.ne_and_not_mem_of_not_mem_cons hj
      obtain ⟨g, hg, h⟩ := generateGroupInvoice_cons_run_ok h
      rw [ih h hj, GroupInvoices.group?_modifyGroup, if_neg hne.symm]

/-- In every run an invoice is on one group invoice at most, and there once, and a call of
`generate_group_invoice` changes no group invoice it does not run on. -/
theorem invoice_is_in_one_group (st : Settings) (ac : Accounting)
    (invoices : List (DatedMove δ)) (es : List (Event δ)) :
    let s := run (step st ac) { invoices } es
    (∀ i j g h, i ≠ j → s.group? i = some g → s.group? j = some h →
      ∀ inv ∈ g.invoiceIds, inv ∉ h.invoiceIds) ∧
    (∀ i g, s.group? i = some g → g.invoiceIds.Nodup) ∧
    ∀ ids, ∀ j ∉ ids, (step st ac s (.generate ids)).group? j = s.group? j := by
  have hs : Separate (run (step st ac) { invoices } es) :=
    invariant (C := fun _ _ => True) (fun s e hs _ => hs.step e) (Separate.of_no_groups invoices)
      (Meets.trivial _ es)
  refine ⟨hs.disjoint, hs.nodup, fun ids j hj => ?_⟩
  rcases step_cases st ac (run (step st ac) { invoices } es) (.generate ids) with h | h
  · rw [h]
  · exact generateGroupInvoice_group? h hj

end GroupInvoice

end Fastrak
