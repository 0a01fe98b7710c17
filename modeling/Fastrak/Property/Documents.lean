import Fastrak.ElectronicInvoice.Company
import Fastrak.Order.MoveRun
import Fastrak.Property.PenaltyInvoice
import Fastrak.Withdraw.Effect

/-!
# The documents of the company

What holds of the account moves in every run of the company. The moves of the orders have
names that accounting gives, and a credit note has the reference that a refund writes. Those
of withdraw requests and penalties charge one fee each.
-/

namespace Fastrak

open Transaction Run

/-! ## Penalty invoices -/

namespace PenaltyRecords

/-- The penalty invoices charge a fee. -/
def ChargesFees (ac : Accounting) (s : PenaltyRecords) : Prop :=
  ∀ id inv m, s.penaltyInvoice? id = some inv → s.moves[inv]? = some m → m.IsFee ac

variable {ac : Accounting} {s t : PenaltyRecords} {id inv : ℕ}

theorem ChargesFees.of_eq (hs : s.ChargesFees ac) (hmoves : t.moves = s.moves)
    (hlinks : t.penaltyInvoices = s.penaltyInvoices) : t.ChargesFees ac := by
  intro id inv m hid hm
  rw [penaltyInvoice?_congr hlinks] at hid
  exact hs id inv m hid (hmoves ▸ hm)

theorem ChargesFees.modifyMove (hs : s.ChargesFees ac) {f : Move → Move}
    (hf : ∀ m : Move, m.IsFee ac → (f m).IsFee ac) (inv : ℕ) :
    (s.modifyMove inv f).ChargesFees ac := by
  intro id j m hid hm
  change (s.moves.modify inv f)[j]? = some m at hm
  rw [List.getElem?_modify] at hm
  obtain ⟨m₀, hm₀, rfl⟩ := Option.map_eq_some_iff.mp hm
  have hfee := hs id j m₀ hid hm₀
  split
  · exact hf m₀ hfee
  · exact hfee

/-- An invoice that charges a fee is created and linked. -/
theorem ChargesFees.create (hs : s.ChargesFees ac) {g : PenaltyGroup} {m : Move}
    (hg : s.groups[id]? = some g) (hm : m.IsFee ac) :
    ((s.addMove m).modifyGroup id (PenaltyGroup.setPenaltyInvoice s.moves.length)).ChargesFees
      ac := by
  intro j inv m' hj hm'
  rw [penaltyInvoice?_modifyGroup (s := s.addMove m) hg] at hj
  rcases Table.getElem?_concat_cases hm' with hold | ⟨-, rfl⟩
  · have hne : s.moves.length ≠ inv := (List.getElem?_eq_some_iff.mp hold).1.ne'
    split at hj
    · exact absurd (Option.some.inj hj) hne
    · exact hs j inv m' hj hold
  · exact hm

end PenaltyRecords

namespace PenaltyGroup

variable {st : PenaltySettings} {ac : Accounting} {s t : PenaltyRecords} {id inv : ℕ}
  {g : PenaltyGroup}

theorem preparePenaltyInvoiceLines_isFee {vals : Move}
    (h : preparePenaltyInvoiceLines st g = .ok vals) : vals.IsFee ac := by
  obtain ⟨line, hline, -⟩ := preparePenaltyInvoiceLines_eq_ok h
  obtain ⟨-, -, h⟩ := except_bind_ok_iff.mp h
  obtain ⟨lines, -, h⟩ := except_bind_ok_iff.mp h
  have hlength : vals.invoiceLineIds.length ≤ 1 := by rw [hline]; rfl
  obtain rfl := except_pure_eq_ok_iff.mp h
  exact ⟨by simp, .inl rfl, hlength⟩

theorem isFee_refilled {m : Move} {lines : List InvoiceLine} (h : m.IsFee ac)
    (hlines : getPenaltyServiceLines st g = .ok lines) : (refilled ac inv lines m).IsFee ac := by
  obtain ⟨line, rfl, -⟩ := getPenaltyServiceLines_eq_ok hlines
  have hempty : (m.reset.setLines []).IsFee ac := ⟨h.moveType, h.name, Nat.zero_le 1⟩
  have hadded : ((m.reset.setLines []).addLines [line]).IsFee ac :=
    ⟨hempty.moveType, hempty.name, le_rfl⟩
  exact hadded.post inv

theorem createPenaltyInvoiceOf_chargesFees {u : PUnit} (hs : s.ChargesFees ac)
    (h : (createPenaltyInvoiceOf st ac id).run s = .ok u t) : t.ChargesFees ac := by
  obtain ⟨g, hg, ⟨-, h⟩ | ⟨inv, hinv, h⟩⟩ := createPenaltyInvoiceOf_run_ok_cases h
  · obtain ⟨vals, hvals, rfl⟩ := createInvoiceOf_run_ok h
    exact hs.create hg ((preparePenaltyInvoiceLines_isFee hvals).post _)
  · obtain ⟨m, lines, -, -, hlines, rfl⟩ := updateInvoiceOf_run_ok h
    exact hs.modifyMove (fun m hm => isFee_refilled hm hlines) inv

theorem createPenaltyInvoice_chargesFees {ids : List ℕ} {u : PUnit} (hs : s.ChargesFees ac)
    (h : (createPenaltyInvoice st ac ids).run s = .ok u t) : t.ChargesFees ac := by
  induction ids generalizing s with
  | nil =>
      cases h
      exact hs
  | cons id ids ih =>
      obtain ⟨_, r, hround, h⟩ := run_bind_ok_iff.mp h
      exact ih (createPenaltyInvoiceOf_chargesFees hs hround) h

theorem step_chargesFees (hs : s.ChargesFees ac) (e : Event) :
    (step st ac s e).ChargesFees ac := by
  have hlinks {x : Tx PUnit} {t : PenaltyRecords} (hx : Respects linksFrame x)
      (h : x.run s = .ok ⟨⟩ t) : t.ChargesFees ac := by
    have hrel := hx s
    rw [h] at hrel
    exact hs.of_eq (Prod.mk.inj hrel).1 (Prod.mk.inj hrel).2
  rcases step_cases st ac s e with h | ⟨-, h⟩
  · cases e with
    | calculatePenalty today ids => exact hlinks (respects_calculatePenalty today ids) h
    | scheduledPenaltyCalculator today =>
        exact hlinks (respects_scheduledPenaltyCalculator today) h
    | confirmGroupInvoicePayment ids => exact hlinks (respects_confirmGroupInvoicePayment ids) h
    | createPenaltyInvoice ids => exact createPenaltyInvoice_chargesFees hs h
    | pay inv amount =>
        exact hs.modifyMove (f := Move.reconcile amount) (fun m hm => hm.reconcile amount) inv
  · rw [h]
    exact hs

end PenaltyGroup

/-! ## Runs of the company -/

namespace Company

variable {st : CompanySettings} {ac : Accounting} {c : Company}

/-- What holds of the records of the company in every run. -/
structure Sound (ac : Accounting) (c : Company) : Prop where
  nodup : c.orderIds.Nodup
  free : ∀ orderId, orderId ∉ c.orderIds → c.orders orderId = {}
  orders : ∀ orderId, ∀ m ∈ (c.orders orderId).moves, m.WellNamed ac
  withdrawals : ∀ s ∈ c.withdrawals, ∀ m ∈ s.moves, m.IsFee ac
  penalties : c.penalties.ChargesFees ac

theorem IsNew.sound (h : c.IsNew) (ac : Accounting) : c.Sound ac where
  nodup := by
    rw [h.orderIds]
    exact List.nodup_nil
  free orderId _ := by
    rw [h.orders]
    rfl
  orders orderId m hm := by
    rw [h.orders] at hm
    cases hm
  withdrawals s hs := by
    rw [h.withdrawals] at hs
    cases hs
  penalties id inv m hid := by
    obtain ⟨g, hg, hinv⟩ := PenaltyRecords.penaltyInvoice?_eq_some_iff.mp hid
    cases (h.penalties g (List.mem_of_getElem? hg)).symm.trans hinv

theorem mem_orderIds_step {orderId id : String} {e : Fastrak.Event} :
    id ∈ (step st ac c (.order orderId e)).orderIds ↔ id ∈ c.orderIds ∨ id = orderId := by
  change id ∈ (if orderId ∈ c.orderIds then c.orderIds else c.orderIds ++ [orderId]) ↔ _
  split
  · next hold => exact ⟨.inl, fun h => h.elim (fun h => h) fun heq => heq ▸ hold⟩
  · rw [List.mem_append, List.mem_singleton]

theorem Sound.order (h : c.Sound ac) (orderId : String) (e : Fastrak.Event) :
    (step st ac c (.order orderId e)).Sound ac where
  nodup := by
    change (if orderId ∈ c.orderIds then c.orderIds else c.orderIds ++ [orderId]).Nodup
    split
    · exact h.nodup
    · next hnew =>
        exact h.nodup.append (List.nodup_singleton _) (List.disjoint_singleton.mpr hnew)
  free id hid := by
    obtain ⟨hold, hne⟩ := not_or.mp (mem_orderIds_step.not.mp hid)
    exact (family_apply_of_ne e hne).trans (h.free id hold)
  orders id := by
    have hsteps := run_moveSteps st.toSettings ac c.orders [(orderId, e)] id
    exact MoveSteps.wellNamed hsteps (h.orders id)
  withdrawals := h.withdrawals
  penalties := h.penalties

theorem Sound.step (h : c.Sound ac) (e : Event) : (step st ac c e).Sound ac := by
  cases e with
  | order orderId e => exact h.order orderId e
  | newWithdrawal vals =>
      refine ⟨h.nodup, h.free, h.orders, fun s hs => ?_, h.penalties⟩
      rcases List.mem_append.mp hs with hold | hnew
      · exact h.withdrawals s hold
      · rw [List.mem_singleton.mp hnew]
        exact fun m hm => absurd hm List.not_mem_nil
  | withdrawal k e =>
      refine ⟨h.nodup, h.free, h.orders, fun s hs => ?_, h.penalties⟩
      rcases Table.mem_modify_cases hs with hold | ⟨s₀, hs₀, rfl⟩
      · exact h.withdrawals s hold
      · exact (Withdraw.step_moves _ ac s₀ e).isFee (h.withdrawals s₀ hs₀)
  | penalty e =>
      exact ⟨h.nodup, h.free, h.orders, h.withdrawals, PenaltyGroup.step_chargesFees h.penalties e⟩

/-- Whatever is done in which order, the records of a new company are sound. -/
theorem IsNew.run_sound (h : c.IsNew) (es : List Event) :
    (run (Company.step st ac) c es).Sound ac :=
  invariant (C := fun _ _ => True) (fun _ e hs _ => hs.step e) (h.sound ac) (Meets.trivial c es)

end Company

end Fastrak
