import Fastrak.GroupInvoice.Penalty

/-!
# What the operations on penalties change

A recalculation writes the penalty of one group invoice and leaves the account moves and the
links to the penalty invoices as they are. A round of `create_penalty_invoice` adds an
invoice and the link to it, or fills the invoice of the group invoice anew.
-/

namespace Fastrak

open Transaction Run

namespace PenaltyRecords

/-- The penalty invoices of the group invoices. -/
def penaltyInvoices (s : PenaltyRecords) : List (Option ℕ) := s.groups.map (·.penaltyInvoice)

def penaltyInvoice? (s : PenaltyRecords) (id : ℕ) : Option ℕ := (s.penaltyInvoices[id]?).join

variable {s : PenaltyRecords} {id inv : ℕ}

theorem penaltyInvoice?_eq_some_iff :
    s.penaltyInvoice? id = some inv ↔
      ∃ g, s.groups[id]? = some g ∧ g.penaltyInvoice = some inv := by
  rw [penaltyInvoice?, penaltyInvoices, List.getElem?_map, Option.join_eq_some_iff,
    Option.map_eq_some_iff]

theorem penaltyInvoice?_of_group {g : PenaltyGroup} (hg : s.groups[id]? = some g) :
    s.penaltyInvoice? id = g.penaltyInvoice := by
  rw [penaltyInvoice?, penaltyInvoices, List.getElem?_map, hg]
  rfl

theorem modifyMove_modifyMove (f f' : Move → Move) :
    (s.modifyMove inv f).modifyMove inv f' = s.modifyMove inv (f' ∘ f) := by
  rw [modifyMove, modifyMove, modifyMove, List.modify_modify_eq]

theorem penaltyInvoices_modifyGroup {f : PenaltyGroup → PenaltyGroup}
    (hf : ∀ g, (f g).penaltyInvoice = g.penaltyInvoice) :
    (s.modifyGroup id f).penaltyInvoices = s.penaltyInvoices :=
  Table.map_modify_of_eq hf s.groups id

end PenaltyRecords

namespace PenaltyGroup

variable {st : PenaltySettings} {ac : Accounting} {s t : PenaltyRecords} {id : ℕ}
  {g : PenaltyGroup} {β : Type} {b : β}

theorem self_bind_run (hg : s.groups[id]? = some g) (f : PenaltyGroup → Tx β) :
    (self id >>= f).run s = (f g).run s := by
  rw [self, bind_assoc, get_bind_run, hg]
  rfl

theorem self_bind_run_ok_iff {f : PenaltyGroup → Tx β} :
    (self id >>= f).run s = .ok b t ↔
      ∃ g, s.groups[id]? = some g ∧ (f g).run s = .ok b t := by
  cases hg : s.groups[id]? with
  | none =>
      rw [self, bind_assoc, get_bind_run, hg]
      exact iff_of_false (by rintro ⟨⟩) (by rintro ⟨_, ⟨⟩, _⟩)
  | some g =>
      rw [self_bind_run hg]
      simp

theorem refuse_bind_run_ok_iff {reason : Option String} {f : PUnit → Tx β} :
    (refuse reason >>= f).run s = .ok b t ↔ reason = none ∧ (f ⟨⟩).run s = .ok b t := by
  cases reason with
  | none => simp [refuse]
  | some message => simp [refuse, throw_run]

theorem writeMove_bind_run_ok_iff {inv : ℕ} {reason : Move → Option String} {f : Move → Move}
    {k : PUnit → Tx β} :
    (writeMove inv reason f >>= k).run s = .ok b t ↔
      ∃ m, s.moves[inv]? = some m ∧ reason m = none ∧ ¬ m.auditAndLock ∧
        (k ⟨⟩).run (s.modifyMove inv f) = .ok b t := by
  rw [writeMove, bind_assoc, get_bind_run]
  cases hm : s.moves[inv]? with
  | none => exact iff_of_false (by rintro ⟨⟩) (by rintro ⟨_, ⟨⟩, _⟩)
  | some m =>
      simp only [bind_assoc, refuse_bind_run_ok_iff, raiseIf_bind_run_ok_iff, modify_bind_run]
      simp

theorem writeMove_run_ok {inv : ℕ} {reason : Move → Option String} {f : Move → Move} {u : PUnit}
    (h : (writeMove inv reason f).run s = .ok u t) : t = s.modifyMove inv f := by
  rw [← bind_pure (writeMove inv reason f), writeMove_bind_run_ok_iff] at h
  obtain ⟨m, -, -, -, h⟩ := h
  cases h
  rfl

/-! ## The penalty -/

theorem calculatePenaltyAmount_run (hg : s.groups[id]? = some g) {penaltyDays : ℤ}
    (h : 0 ≤ g.calculatedPenalty ac s.moves penaltyDays) :
    (calculatePenaltyAmount ac id penaltyDays).run s =
      .ok ⟨⟩ (s.modifyGroup id (setPenaltyAmount _ h)) := by
  rw [calculatePenaltyAmount, self_bind_run hg, get_bind_run, dif_pos h]
  rfl

/-! The operations on the penalty keep the account moves and the links. -/

def linksFrame : Frame PenaltyRecords := Frame.same fun s => (s.moves, s.penaltyInvoices)

theorem respects_modifyGroup {f : PenaltyGroup → PenaltyGroup}
    (hf : ∀ g, (f g).penaltyInvoice = g.penaltyInvoice) (id : ℕ) :
    Respects linksFrame (modify (PenaltyRecords.modifyGroup id f) : Tx PUnit) :=
  respects_modify fun s => congrArg (Prod.mk s.moves)
    (PenaltyRecords.penaltyInvoices_modifyGroup hf)

theorem respects_self (id : ℕ) : Respects linksFrame (self id) := by
  refine respects_bind respects_get fun s => ?_
  split
  · exact respects_pure _
  · exact respects_throw _

theorem respects_calculatePenaltyAmount (id : ℕ) (penaltyDays : ℤ) :
    Respects linksFrame (calculatePenaltyAmount ac id penaltyDays) := by
  refine respects_bind (respects_self id) fun g => respects_bind respects_get fun s => ?_
  dsimp only
  split
  · exact respects_modifyGroup (f := setPenaltyAmount _ _) (fun _ => rfl) id
  · exact respects_throw _

theorem respects_calculatePenalty (today : ℤ) (ids : List ℕ) :
    Respects linksFrame (calculatePenalty ac today ids) := by
  induction ids with
  | nil => exact respects_pure _
  | cons id ids ih =>
      refine respects_bind (respects_self id) fun g => ?_
      exact respects_bind (respects_calculatePenaltyAmount id _) fun _ => ih

theorem respects_calculateTargets (today : ℤ) (recs : List ℕ) :
    Respects linksFrame (calculateTargets ac today recs) := by
  induction recs with
  | nil => exact respects_pure _
  | cons rec recs ih =>
      refine respects_bind ?_ fun _ => ?_
      · exact respects_modifyGroup (f := setState .delayed) (fun _ => rfl) rec
      · exact respects_bind (respects_calculatePenalty today [rec]) fun _ => ih

theorem respects_scheduledPenaltyCalculator (today : ℤ) :
    Respects linksFrame (scheduledPenaltyCalculator ac today) :=
  respects_bind respects_get fun _ => respects_calculateTargets today _

theorem respects_confirmGroupInvoicePayment (ids : List ℕ) :
    Respects linksFrame (confirmGroupInvoicePayment ids) := by
  induction ids with
  | nil => exact respects_pure _
  | cons id ids ih =>
      exact respects_bind (respects_modifyGroup (f := setState .paid) (fun _ => rfl) id)
        fun _ => ih

/-! ## The penalty invoice -/

/-- The invoice is posted and has one line, with the price of the penalty. -/
def ChargesPenalty (g : PenaltyGroup) (m : Move) : Prop :=
  m.state = .posted ∧ ∃ line, m.invoiceLineIds = [line] ∧ line.priceUnit = g.penaltyAmount

/-- What a round of `create_penalty_invoice` on the group invoice `id` does. -/
inductive CreatesPenaltyInvoice (ac : Accounting) (s : PenaltyRecords) (id : ℕ) :
    PenaltyRecords → Prop
  | created {g : PenaltyGroup} {m : Move} (hg : s.groups[id]? = some g)
      (hnone : g.penaltyInvoice = none) (hcharges : g.ChargesPenalty m) :
      CreatesPenaltyInvoice ac s id
        ((s.addMove m).modifyGroup id (setPenaltyInvoice s.moves.length))
  | updated {g : PenaltyGroup} {inv : ℕ} {m : Move} {f : Move → Move}
      (hg : s.groups[id]? = some g) (hinv : g.penaltyInvoice = some inv)
      (hm : s.moves[inv]? = some m) (hstate : ac.paymentState m = .notPaid)
      (hcharges : g.ChargesPenalty (f m)) : CreatesPenaltyInvoice ac s id (s.modifyMove inv f)

theorem getPenaltyServiceLines_eq_ok {lines : List InvoiceLine}
    (h : getPenaltyServiceLines st g = .ok lines) :
    ∃ line, lines = [line] ∧ line.priceUnit = g.penaltyAmount := by
  obtain ⟨found, -, h⟩ := except_bind_ok_iff.mp h
  cases found with
  | none => cases h
  | some product =>
      obtain ⟨-, -, h⟩ := except_bind_ok_iff.mp h
      exact ⟨_, (except_pure_eq_ok_iff.mp h).symm, rfl⟩

theorem preparePenaltyInvoiceLines_eq_ok {vals : Move}
    (h : preparePenaltyInvoiceLines st g = .ok vals) :
    ∃ line, vals.invoiceLineIds = [line] ∧ line.priceUnit = g.penaltyAmount := by
  obtain ⟨-, -, h⟩ := except_bind_ok_iff.mp h
  obtain ⟨lines, hlines, h⟩ := except_bind_ok_iff.mp h
  obtain ⟨line, rfl, hprice⟩ := getPenaltyServiceLines_eq_ok hlines
  rw [← except_pure_eq_ok_iff.mp h]
  exact ⟨line, rfl, hprice⟩

theorem createInvoiceOf_run_ok {u : PUnit} (h : (createInvoiceOf st ac id g).run s = .ok u t) :
    ∃ vals, preparePenaltyInvoiceLines st g = .ok vals ∧
      t = (s.addMove (vals.post ac s.moves.length)).modifyGroup id
        (setPenaltyInvoice s.moves.length) := by
  obtain ⟨vals, hvals, h⟩ := lift_bind_run_ok_iff.mp h
  rw [createMove, bind_assoc, refuse_bind_run_ok_iff, bind_assoc, get_bind_run] at h
  obtain ⟨-, h⟩ := h
  dsimp only at h
  rw [bind_assoc, modify_bind_run, pure_bind, actionPost, writeMove_bind_run_ok_iff] at h
  obtain ⟨_, -, -, -, h⟩ := h
  cases h
  have hmoves : (s.addMove vals).modifyMove s.moves.length (Move.post ac s.moves.length) =
      s.addMove (vals.post ac s.moves.length) := by
    simp [PenaltyRecords.addMove, PenaltyRecords.modifyMove]
  exact ⟨vals, hvals, by rw [hmoves]⟩

/-- The penalty invoice with its lines taken off and put on again. -/
def refilled (ac : Accounting) (inv : ℕ) (lines : List InvoiceLine) (m : Move) : Move :=
  ((m.reset.setLines []).addLines lines).post ac inv

theorem updateInvoiceOf_run_ok {u : PUnit} {inv : ℕ}
    (h : (updateInvoiceOf st ac g inv).run s = .ok u t) :
    ∃ m lines, s.moves[inv]? = some m ∧ ac.paymentState m = .notPaid ∧
      getPenaltyServiceLines st g = .ok lines ∧
      t = s.modifyMove inv (refilled ac inv lines) := by
  rw [updateInvoiceOf, get_bind_run] at h
  cases hm : s.moves[inv]? with
  | none =>
      rw [hm] at h
      cases h
  | some m =>
      rw [hm] at h
      dsimp only at h
      rw [raiseIf_bind_run_ok_iff, not_not] at h
      obtain ⟨hstate, h⟩ := h
      rw [buttonDraft, writeMove_bind_run_ok_iff] at h
      obtain ⟨_, -, -, -, h⟩ := h
      rw [clearInvoiceLines, writeMove_bind_run_ok_iff] at h
      obtain ⟨_, -, -, -, h⟩ := h
      obtain ⟨lines, hlines, h⟩ := lift_bind_run_ok_iff.mp h
      rw [addInvoiceLines, writeMove_bind_run_ok_iff] at h
      obtain ⟨_, -, -, -, h⟩ := h
      refine ⟨m, lines, rfl, hstate, hlines, ?_⟩
      rw [writeMove_run_ok h, PenaltyRecords.modifyMove_modifyMove,
        PenaltyRecords.modifyMove_modifyMove, PenaltyRecords.modifyMove_modifyMove]
      rfl

/-- A round that returns has taken one of the two branches. -/
theorem createPenaltyInvoiceOf_run_ok_cases {u : PUnit}
    (h : (createPenaltyInvoiceOf st ac id).run s = .ok u t) :
    ∃ g, s.groups[id]? = some g ∧
      (g.penaltyInvoice = none ∧ (createInvoiceOf st ac id g).run s = .ok u t ∨
        ∃ inv, g.penaltyInvoice = some inv ∧ (updateInvoiceOf st ac g inv).run s = .ok u t) := by
  rw [createPenaltyInvoiceOf, self_bind_run_ok_iff] at h
  obtain ⟨g, hg, h⟩ := h
  rw [raiseIf_bind_run_ok_iff] at h
  refine ⟨g, hg, ?_⟩
  cases hinv : g.penaltyInvoice with
  | none =>
      rw [hinv] at h
      exact .inl ⟨rfl, h.2⟩
  | some inv =>
      rw [hinv] at h
      exact .inr ⟨inv, rfl, h.2⟩

theorem createPenaltyInvoiceOf_run_ok {u : PUnit}
    (h : (createPenaltyInvoiceOf st ac id).run s = .ok u t) : CreatesPenaltyInvoice ac s id t := by
  obtain ⟨g, hg, ⟨hnone, h⟩ | ⟨inv, hinv, h⟩⟩ := createPenaltyInvoiceOf_run_ok_cases h
  · obtain ⟨vals, hvals, rfl⟩ := createInvoiceOf_run_ok h
    obtain ⟨line, hline, hprice⟩ := preparePenaltyInvoiceLines_eq_ok hvals
    exact .created hg hnone ⟨rfl, line, hline, hprice⟩
  · obtain ⟨m, lines, hm, hstate, hlines, rfl⟩ := updateInvoiceOf_run_ok h
    obtain ⟨line, rfl, hprice⟩ := getPenaltyServiceLines_eq_ok hlines
    exact .updated hg hinv hm hstate ⟨rfl, line, rfl, hprice⟩

end PenaltyGroup

end Fastrak
