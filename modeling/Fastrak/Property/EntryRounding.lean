import Fastrak.Property.CustomerMoney
import Fastrak.Property.Withdrawal
import Fastrak.Library.Rounding

/-!
# Journal entries in piastres

The amounts of an entry have no digits limit, and accounting rounds the debit and the
credit of each line to two decimals. An entry with the same amount on both sides stays
balanced. The POS collection entry has one debit for two credits, and stays balanced only
when the sum of the two credits is rounded as they are.

How the currency rounds is a part of accounting. All that is known of it is that it rounds to a
nearest piastre, where the representation of floats leaves a tolerance around the ties.
-/

namespace Fastrak

open Transaction Rounding

/-- The debits and the credits of the lines, each rounded to piastres, are equal. -/
def BalancedAfterRounding (ac : Accounting) (lines : List EntryLine) : Prop :=
  (lines.map fun line => ac.currencyRound line.debit).sum =
    (lines.map fun line => ac.currencyRound line.credit).sum

instance (ac : Accounting) (lines : List EntryLine) : Decidable (BalancedAfterRounding ac lines) :=
  inferInstanceAs (Decidable (_ = _))

/-- The sum is less than half a piastre away from the sum of the rounded amounts; where it is
half a piastre away, up to the tolerance, it is rounded to the right side. -/
def RoundsTogether (st : Settings) (ac : Accounting) (tolerance : ℚ → ℚ) (x y : ℚ) : Prop :=
  let sum := st.arithmetic.add x y
  let rounded := ac.currencyRound x + ac.currencyRound y
  |sum - rounded| < 1 / 200 - tolerance sum ∨
    |sum - rounded| ≤ 1 / 200 + tolerance sum ∧ ac.currencyRound sum = rounded

section Entries

variable {st : Settings} {ac : Accounting} {tolerance : ℚ → ℚ} {s : OrderSlice} {o : Order}

theorem currencyRound_add_eq_iff (hac : RoundsNearest 2 tolerance ac.currencyRound) (x y : ℚ) :
    ac.currencyRound (st.arithmetic.add x y) = ac.currencyRound x + ac.currencyRound y ↔
      RoundsTogether st ac tolerance x y := by
  have hnear := hac.near (st.arithmetic.add x y)
  norm_num only at hnear
  constructor
  · intro heq
    rw [heq, abs_sub_comm] at hnear
    exact .inr ⟨hnear, heq⟩
  · rintro (hlt | ⟨-, heq⟩)
    · refine eq_of_abs_sub_lt (hac.mem_decimals _)
        (add_mem (hac.mem_decimals x) (hac.mem_decimals y)) ?_
      norm_num only
      have htriangle := abs_sub_le (ac.currencyRound (st.arithmetic.add x y))
        (st.arithmetic.add x y) (ac.currencyRound x + ac.currencyRound y)
      linarith
    · exact heq

theorem balancedAfterRounding_pair {debit credit : EntryLine} (hdebit : debit.credit = 0)
    (hcredit : credit.debit = 0) (h : debit.debit = credit.credit) :
    BalancedAfterRounding ac [debit, credit] := by
  simp [BalancedAfterRounding, hdebit, hcredit, h, add_comm]

theorem getRegisterPaymentLines_balanced {lines : List EntryLine}
    (h : getRegisterPaymentLines st ac s o = .ok lines) : BalancedAfterRounding ac lines := by
  unfold getRegisterPaymentLines at h
  cases hdriver : getInvoiceMoneyCollectionDriver st o with
  | none =>
      rw [hdriver] at h
      cases h
  | some driver =>
      rw [hdriver] at h
      simp only [except_bind_ok_iff, except_pure_eq_ok_iff] at h
      obtain ⟨_, -, rfl⟩ := h
      exact balancedAfterRounding_pair rfl rfl rfl

theorem prepareBankCommissionEntry_balanced {m : Move}
    (h : prepareBankCommissionEntry st o = .ok m) : BalancedAfterRounding ac m.lineIds := by
  simp only [prepareBankCommissionEntry, except_bind_ok_iff, except_pure_eq_ok_iff] at h
  obtain ⟨_, -, _, -, _, -, rfl⟩ := h
  exact balancedAfterRounding_pair rfl rfl rfl

theorem getCustomerWithdrawPaymentEntryLines_balanced {st : WithdrawSettings}
    {r : WithdrawRequest} {lines : List EntryLine}
    (h : Withdraw.getCustomerWithdrawPaymentEntryLines st r = .ok lines) :
    BalancedAfterRounding ac lines := by
  obtain ⟨journal, -, -, collection, -, rfl⟩ :=
    Withdraw.getCustomerWithdrawPaymentEntryLines_eq_ok h
  exact balancedAfterRounding_pair rfl rfl rfl

theorem getMoneyCollectionEntryLines_balanced_iff (hac : RoundsNearest 2 tolerance ac.currencyRound)
    {lines : List EntryLine} (h : getMoneyCollectionEntryLines st o = .ok lines) :
    BalancedAfterRounding ac lines ↔
      (o.moneyCollectionPaymentMethod = .pos →
        RoundsTogether st ac tolerance o.moneyCollected
          (bankCommission st o.moneyCollected o.moneyCollectionBankCommissionFees)) := by
  simp only [getMoneyCollectionEntryLines, except_bind_ok_iff] at h
  obtain ⟨_ | driver, -, h⟩ := h
  · cases h
  · cases hm : o.moneyCollectionPaymentMethod with
    | cash =>
        simp only [hm, except_bind_ok_iff, except_pure_eq_ok_iff, exists_eq_left'] at h
        obtain ⟨custody, -, collection, -, rfl⟩ := h
        exact iff_of_true (balancedAfterRounding_pair rfl rfl rfl)
          fun hpos => absurd hpos (by decide)
    | pos =>
        simp only [hm, except_bind_ok_iff, except_pure_eq_ok_iff, exists_eq_left'] at h
        obtain ⟨bank, -, commission, -, collection, -, rfl⟩ := h
        simp [BalancedAfterRounding, hac.zero, currencyRound_add_eq_iff hac]

end Entries

/-- A delivered order whose money was collected with the POS machine. -/
def posOrder (moneyCollected : ℚ) : Order where
  orderId := "A"
  customer := 5
  moneyCollectionPaymentMethod := .pos
  moneyCollected := Double.round moneyCollected
  orderStatus := .done
  orderDeliveryStatus := some .delivered
  tripsIds := [⟨7, some .delivered⟩]

end Fastrak
