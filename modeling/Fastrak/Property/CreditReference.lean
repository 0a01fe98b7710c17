import Fastrak.ElectronicInvoice.Report
import Fastrak.Order.CallEffect

/-!
# The reference of a credit note

A refund writes "Reversal of" and the name of the invoice in the reference, with no colon
between them. The report reads what comes after the last colon, so that the words in front
of the name are always read with it, and no name of an invoice is read back.
-/

namespace Fastrak

open Transaction

namespace ElectronicInvoice

/-- The reference that a refund writes. -/
def reversalRef (name : Text) : Text := "Reversal of ".toList ++ name

theorem notMem_reversalRef {c : Char} {name : Text} (hc : c ∉ "Reversal of ".toList)
    (h : c ∉ name) : c ∉ reversalRef name := fun hmem =>
  (List.mem_append.mp hmem).elim hc h

/-- A name without a separator is read with the words in front of it. -/
theorem originalInvoice_reversalRef {name : Text} (hcolon : ':' ∉ name) (hcomma : ',' ∉ name) :
    originalInvoice (reversalRef name) = [Text.strip (reversalRef name)] := by
  have hcolon' : ':' ∉ reversalRef name := notMem_reversalRef (by decide) hcolon
  have hcomma' : ',' ∉ Text.strip (reversalRef name) := fun hc =>
    notMem_reversalRef (by decide) hcomma (Text.mem_of_mem_strip hc)
  rw [originalInvoice, Text.afterLast_of_notMem hcolon', List.splitOn_eq_singleton hcomma']

/-- The name is never among the names that are read. -/
theorem notMem_originalInvoice_reversalRef (name : Text) :
    name ∉ originalInvoice (reversalRef name) := by
  intro h
  have hmem := h
  rw [originalInvoice] at hmem
  have hcomma : ',' ∉ name := Text.notMem_of_mem_splitOn hmem
  have hcolon : ':' ∉ name := by
    intro hc
    have hstrip := Text.mem_of_mem_splitOn hmem hc
    exact Text.notMem_afterLast ':' (reversalRef name) (Text.mem_of_mem_strip hstrip)
  rw [originalInvoice_reversalRef hcolon hcomma, List.mem_singleton] at h
  exact Text.strip_cons_append_ne (c := 'R') (by decide) "eversal of ".toList name h.symm

theorem referenceDocumentCode_mem (ref : Text) :
    referenceDocumentCode ref ∈ originalInvoice ref :=
  List.head_mem _

/-! ## Refunds -/

variable {ac : Accounting} {s t : OrderSlice} {o : Order} {i : ℕ} {m : Move}

/-- A refund adds the credit note of the invoice, with the name of the invoice in its
reference. -/
theorem refund_adds_creditNote {u : Unit} (ho : s.order = some o) (hi : o.invoiceId = some i)
    (hm : s.moves[i]? = some m) (h : (refundBillLoading ac).run s = .ok u t) :
    ∃ note, t.moves[s.moves.length]? = some note ∧ note.moveType = .outRefund ∧
      note.ref.toList = reversalRef m.name.toList := by
  simp only [refundBillLoading, self_bind_run_ok_iff, ho, Option.some.injEq, exists_eq_left',
    raiseIf_bind_run_ok_iff, hi, moveWrite_bind_run_ok_iff] at h
  obtain ⟨-, -, h⟩ := h
  rw [get_bind_run] at h
  generalize href : "Reversal of " ++ _ = ref at h
  obtain ⟨_, r, hreverse, h⟩ := run_bind_ok_iff.mp h
  obtain rfl := modifyOrder_run_ok_iff.mp h
  have hwritten : (s.moves.modify i (Move.setRefundReason o.refundReasonComment))[i]? =
      some (m.setRefundReason o.refundReasonComment) := by
    simp [hm]
  rcases reverseMoves_run_ok hreverse with ⟨hnone, -⟩ | ⟨m', hm', rfl⟩
  · cases hnone.symm.trans hwritten
  · refine ⟨m'.creditNote ac i s.moves.length ref, by simp, rfl, ?_⟩
    have href : ref = "Reversal of " ++ m.name := by
      rw [← href]
      simp [OrderSlice.move?, hm, Move.setRefundReason]
    exact (congrArg String.toList href).trans String.toList_append

/-- Whatever the name of the invoice, the reference of its credit note is not read as this
name, and the invoice is not found by the reference. -/
theorem credit_note_never_points_back {u : Unit} (ho : s.order = some o)
    (hi : o.invoiceId = some i) (hm : s.moves[i]? = some m)
    (h : (refundBillLoading ac).run s = .ok u t) :
    ∃ note, t.moves[s.moves.length]? = some note ∧ note.moveType = .outRefund ∧
      referenceDocumentCode note.ref.toList ≠ m.name.toList ∧
      ∀ (ι : Type) [DecidableEq ι] (b : Books ι), ∀ d ∈ b.documents, d.move.name = m.name →
        d ∉ getInvoiceObject b (originalInvoice note.ref.toList) := by
  obtain ⟨note, hnote, htype, href⟩ := refund_adds_creditNote ho hi hm h
  have hno : m.name.toList ∉ originalInvoice note.ref.toList :=
    href ▸ notMem_originalInvoice_reversalRef m.name.toList
  refine ⟨note, hnote, htype, ?_, ?_⟩
  · exact fun heq => hno (heq ▸ referenceDocumentCode_mem _)
  · intro ι _ b d _ hname hd
    have hfound := of_decide_eq_true (List.mem_filter.mp hd).2
    exact hno (hname ▸ hfound.1)

def postedInvoice : Move where
  moveType := .outInvoice
  ref := "A"
  name := "INV/2024/0001"
  state := .posted

/-- An order with a posted invoice and a reason to refund it. -/
def billedSlice : OrderSlice where
  order := some { orderId := "A", customer := 5, refundReasonComment := "lost",
                  invoiceId := some 0 }
  moves := [postedInvoice]

theorem creditNote_of_billedSlice :
    ∃ t, (refundBillLoading .sample).run billedSlice = .ok () t ∧
      ∃ note, t.moves[billedSlice.moves.length]? = some note ∧ note.moveType = .outRefund ∧
        referenceDocumentCode note.ref.toList ≠ postedInvoice.name.toList ∧
        ∀ (ι : Type) [DecidableEq ι] (b : Books ι), ∀ d ∈ b.documents,
          d.move.name = postedInvoice.name →
            d ∉ getInvoiceObject b (originalInvoice note.ref.toList) := by
  have hrun : (refundBillLoading .sample).run billedSlice = .ok () _ := rfl
  exact ⟨_, hrun, credit_note_never_points_back (i := 0) rfl rfl rfl hrun⟩

/-- The words in front of the name are read with it. -/
theorem reversal_read_with_its_words :
    ∃ t note, (refundBillLoading .sample).run billedSlice = .ok () t ∧
      t.moves[1]? = some note ∧
      referenceDocumentCode note.ref.toList = "Reversal of INV/2024/0001".toList ∧
      referenceDocumentCode note.ref.toList ≠ "INV/2024/0001".toList ∧
      "INV/2024/0001".toList ∉ originalInvoice note.ref.toList :=
  ⟨_, _, rfl, rfl, by decide +kernel, by decide +kernel, by decide +kernel⟩

end ElectronicInvoice

end Fastrak
