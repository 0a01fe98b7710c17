import Fastrak.Library.Table
import Fastrak.Order.MoveStep
import Fastrak.Withdraw.Operation

/-!
# What the operations on withdraw requests change

The invoice and the payment entry are created and posted in one go, so that an operation that
returns adds a posted move to those of the request. Other operations settle a part of the
invoice, or write on the request alone.
-/

namespace Fastrak

open Transaction Run

namespace Withdraw

variable {st : WithdrawSettings} {ac : Accounting} {s t : WithdrawSlice}

theorem refuse_bind_run_ok_iff {reason : Option String} {β : Type} {f : PUnit → Tx β} {b : β} :
    (refuse reason >>= f).run s = .ok b t ↔ reason = none ∧ (f ⟨⟩).run s = .ok b t := by
  cases reason with
  | none => simp [refuse]
  | some message => simp [refuse, throw_run]

/-- The record is appended and posted, and the request refers to it. -/
theorem createAndPostMove_run_ok {vals : Move} {assign : ℕ → WithdrawRequest → WithdrawRequest}
    {u : PUnit} (h : (createAndPostMove ac vals assign).run s = .ok u t) :
    t = { s with request := assign s.moves.length s.request
                 moves := s.moves ++ [Move.post ac s.moves.length vals] } := by
  rw [createAndPostMove, refuse_bind_run_ok_iff, get_bind_run, modify_bind_run, modifyRequest,
    modify_bind_run, refuse_bind_run_ok_iff] at h
  obtain ⟨-, -, h⟩ := h
  cases h
  simp

theorem createInvoicePayment_run_ok {u : PUnit}
    (h : (createInvoicePayment st ac).run s = .ok u t) :
    t = { s with request := { s.request with invoicePayment := some s.payments.length }
                 payments := s.payments ++
                   [(prepareInvoicePaymentRecordValues st ac s).post] } := by
  rw [createInvoicePayment, get_bind_run] at h
  dsimp only at h
  rw [refuse_bind_run_ok_iff, get_bind_run, modify_bind_run, modifyRequest,
    modify_bind_run, refuse_bind_run_ok_iff] at h
  obtain ⟨-, -, h⟩ := h
  cases h
  simp

theorem length_getCustomerInvoiceLines {r : WithdrawRequest} {lines : List InvoiceLine}
    (h : getCustomerInvoiceLines st r = .ok lines) : lines.length = 1 := by
  rw [getCustomerInvoiceLines, except_bind_ok_iff] at h
  obtain ⟨found, -, h⟩ := h
  cases found with
  | none => cases h
  | some product =>
      dsimp only at h
      split at h
      all_goals
        obtain ⟨taxIds, -, h⟩ := except_bind_ok_iff.mp h
        rw [← except_pure_eq_ok_iff.mp h]
        rfl

theorem prepareCustomerInvoice_eq_ok {r : WithdrawRequest} {vals : Move}
    (h : prepareCustomerInvoice st r = .ok vals) :
    vals.moveType = .outInvoice ∧ vals.IsFee ac := by
  rw [prepareCustomerInvoice] at h
  obtain ⟨-, -, h⟩ := except_bind_ok_iff.mp h
  obtain ⟨lines, hlines, h⟩ := except_bind_ok_iff.mp h
  rw [← except_pure_eq_ok_iff.mp h]
  exact ⟨rfl, by simp, .inl rfl, (length_getCustomerInvoiceLines hlines).le⟩

theorem requestInvoiceCreation_run_ok {u : PUnit}
    (h : (requestInvoiceCreation st ac).run s = .ok u t) :
    s.request.invoice = none ∧ ∃ vals : Move, vals.moveType = .outInvoice ∧ vals.IsFee ac ∧
      t = { s with request := { s.request with invoice := some s.moves.length }
                   moves := s.moves ++ [Move.post ac s.moves.length vals] } := by
  rw [requestInvoiceCreation, get_bind_run] at h
  dsimp only at h
  split at h
  · next hnone =>
      obtain ⟨vals, hvals, h⟩ := lift_bind_run_ok_iff.mp h
      obtain ⟨htype, hfee⟩ := prepareCustomerInvoice_eq_ok hvals
      exact ⟨hnone, vals, htype, hfee, createAndPostMove_run_ok h⟩
  · cases h

/-- The lines of the entry, for a journal of one of the two types. -/
structure Withdraws (st : WithdrawSettings) (r : WithdrawRequest) (journal : Journal)
    (lines : List EntryLine) : Prop where
  chosen : r.paymentJournal = some journal
  type : journal.type = .cash ∨ journal.type = .bank
  lines : ∃ collection, st.moneyCollectionAccounts = [collection] ∧ lines =
    [{ accountId := some collection, partnerId := some r.customer, debit := r.amount },
     { accountId := journal.paymentAccountId, credit := r.amount }]

theorem getCustomerWithdrawPaymentEntryLines_eq_ok {r : WithdrawRequest} {lines : List EntryLine}
    (h : getCustomerWithdrawPaymentEntryLines st r = .ok lines) :
    ∃ journal, Withdraws st r journal lines := by
  rw [getCustomerWithdrawPaymentEntryLines, except_bind_ok_iff] at h
  obtain ⟨account, haccount, h⟩ := h
  cases account with
  | none => cases h
  | some collection =>
      have hcollection := eq_singleton_of_single haccount
      dsimp only at h
      split at h
      · next id account hj =>
          exact ⟨⟨id, .cash, account⟩, hj, .inl rfl, collection, hcollection,
            (except_pure_eq_ok_iff.mp h).symm⟩
      · next id account hj =>
          exact ⟨⟨id, .bank, account⟩, hj, .inr rfl, collection, hcollection,
            (except_pure_eq_ok_iff.mp h).symm⟩
      · cases h

theorem prepareCustomerWithdrawPaymentEntry_eq_ok {r : WithdrawRequest} {vals : Move}
    (h : prepareCustomerWithdrawPaymentEntry st r = .ok vals) :
    vals.moveType = .entry ∧ vals.IsFee ac ∧ ∃ journal, Withdraws st r journal vals.lineIds := by
  rw [prepareCustomerWithdrawPaymentEntry] at h
  obtain ⟨-, -, h⟩ := except_bind_ok_iff.mp h
  obtain ⟨lines, hlines, h⟩ := except_bind_ok_iff.mp h
  rw [← except_pure_eq_ok_iff.mp h]
  exact ⟨rfl, ⟨by simp, .inl rfl, Nat.zero_le 1⟩, getCustomerWithdrawPaymentEntryLines_eq_ok hlines⟩

theorem createWithdrawPaymentEntry_run_ok {u : PUnit}
    (h : (createWithdrawPaymentEntry st ac).run s = .ok u t) :
    ∃ vals journal, vals.moveType = .entry ∧ vals.IsFee ac ∧
      Withdraws st s.request journal vals.lineIds ∧
      t = { s with request := { s.request with customerWithdrawEntry := some s.moves.length }
                   moves := s.moves ++ [Move.post ac s.moves.length vals] } := by
  rw [createWithdrawPaymentEntry, get_bind_run] at h
  obtain ⟨vals, hvals, h⟩ := lift_bind_run_ok_iff.mp h
  obtain ⟨htype, hfee, journal, hw⟩ := prepareCustomerWithdrawPaymentEntry_eq_ok hvals
  exact ⟨vals, journal, htype, hfee, hw, createAndPostMove_run_ok h⟩

/-- The payment and the entry are made in one call, from the request as it stands. -/
theorem requestPaymentEntriesCreation_run_ok {u : PUnit}
    (h : (requestPaymentEntriesCreation st ac).run s = .ok u t) :
    s.request.invoice ≠ none ∧ s.request.invoicePayment = none ∧
      s.request.customerWithdrawEntry = none ∧
      ∃ vals journal, vals.moveType = .entry ∧ vals.IsFee ac ∧
        Withdraws st s.request journal vals.lineIds ∧
        t = { request :=
                { s.request with invoicePayment := some s.payments.length
                                 customerWithdrawEntry := some s.moves.length }
              moves := s.moves ++ [Move.post ac s.moves.length vals]
              payments := s.payments ++ [(prepareInvoicePaymentRecordValues st ac s).post] } := by
  rw [requestPaymentEntriesCreation, get_bind_run] at h
  dsimp only at h
  cases hj : s.request.paymentJournal with
  | none =>
      rw [hj] at h
      cases h
  | some journal =>
      rw [hj] at h
      dsimp only at h
      rw [raiseIf_bind_run_ok_iff, raiseIf_bind_run_ok_iff] at h
      obtain ⟨hinv, -, h⟩ := h
      split at h
      · next hpay =>
          obtain ⟨_, s₁, h₁, h⟩ := run_bind_ok_iff.mp h
          obtain rfl := createInvoicePayment_run_ok h₁
          rw [get_bind_run] at h
          split at h
          · next hentry =>
              obtain ⟨vals, journal', htype, hfee, hw, rfl⟩ := createWithdrawPaymentEntry_run_ok h
              exact ⟨hinv, hpay, hentry, vals, journal', htype, hfee,
                ⟨hw.chosen, hw.type, hw.lines⟩, rfl⟩
          · cases h
      · cases h

/-! ## Steps -/

/-- What a step does to the account moves of a request. -/
inductive Moves (ac : Accounting) (moves : List Move) : List Move → Prop
  | kept : Moves ac moves moves
  | settled (i : ℕ) (amount : ℚ) : Moves ac moves (moves.modify i (Move.reconcile amount))
  | created {vals : Move} (hvals : vals.IsFee ac) :
      Moves ac moves (moves ++ [vals.post ac moves.length])

theorem step_moves (st : WithdrawSettings) (ac : Accounting) (s : WithdrawSlice) (e : Event) :
    Moves ac s.moves (step st ac s e).moves := by
  rcases atomic_snd_cases (perform st ac e) s with ⟨_, hrun⟩ | ⟨-, h⟩
  · change (perform st ac e).run s = .ok _ (step st ac s e) at hrun
    generalize step st ac s e = t at hrun
    cases e with
    | requestInvoiceCreation =>
        obtain ⟨-, vals, -, hfee, rfl⟩ := requestInvoiceCreation_run_ok hrun
        exact .created hfee
    | requestPaymentEntriesCreation =>
        obtain ⟨-, -, -, vals, -, -, hfee, -, rfl⟩ := requestPaymentEntriesCreation_run_ok hrun
        exact .created hfee
    | payInvoice amount =>
        cases hrun
        rw [payInvoice]
        split
        · exact .settled _ amount
        · exact .kept
    | _ =>
        cases hrun
        exact .kept
  · rw [step, h]
    exact .kept

theorem Moves.keepsLocked {moves moves' : List Move} (h : Moves ac moves moves') :
    KeepsLocked moves moves' := by
  cases h with
  | kept => exact .refl moves
  | settled i amount => exact MoveStep.keepsLocked (.settle i amount : MoveStep ac _ _)
  | created => exact .append _

/-- Every move of a request charges a fee. -/
theorem Moves.isFee {moves moves' : List Move} (h : Moves ac moves moves')
    (hmoves : ∀ m ∈ moves, m.IsFee ac) : ∀ m ∈ moves', m.IsFee ac := by
  intro m hm
  cases h with
  | kept => exact hmoves m hm
  | settled i amount =>
      rcases Table.mem_modify_cases hm with hold | ⟨m₀, hm₀, rfl⟩
      · exact hmoves m hold
      · exact (hmoves m₀ hm₀).reconcile amount
  | created hvals =>
      rcases List.mem_append.mp hm with hold | hnew
      · exact hmoves m hold
      · rw [List.mem_singleton.mp hnew]
        exact hvals.post moves.length

end Withdraw

end Fastrak
