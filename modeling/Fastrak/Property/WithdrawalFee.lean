import Fastrak.Withdraw.Fee

/-!
# The fee of the API and the fee of the form

Both look up the same commission, and the fee is a function of it, of the amount and of the
tax rate: `Commission.fee`. So they store the same fee, whatever the form held before.
-/

namespace Fastrak

open Transaction

/-- The fee of an amount, for a rate of the value added tax. -/
def Commission.fee (commission : Commission) (amount rate : ℚ) : Fee :=
  let revenueAmount := if commission.commissionType = .percent then
      Rounding.roundHalfUp ((commission.commissionPercentage / 100) * amount) 0
    else commission.commissionAmount
  { revenueType := some commission.commissionType
    revenueAmount
    revenuePercentage := commission.commissionPercentage
    revenueVatAmount := revenueAmount * rate }

namespace Withdraw

variable {st : Settings} {table : List Commission} {commission : Commission}

theorem exists_lookup {amount : ℚ} (h : ∃ r ∈ table, Commission.IsFor amount r) :
    ∃ commission, Commission.lookup amount table = some commission := by
  obtain ⟨r, hr, hfor⟩ := h
  have hmem : r ∈ table.filter fun r => Commission.IsFor amount r :=
    List.mem_filter.mpr ⟨hr, decide_eq_true hfor⟩
  rw [Commission.lookup, limitOne]
  exact ⟨_, List.head?_eq_some_head (List.ne_nil_of_mem hmem)⟩

theorem formFee_eq {r : RequestForm} (h : Commission.lookup r.amount table = some commission) :
    formFee st table r = (getTaxPercentageAmount st).map fun rate =>
      { toFee := commission.fee r.amount rate, amount := r.amount } := by
  have hform : calculateServiceRevenueAmount table r =
      { toFee := { commission.fee r.amount 0 with revenueVatAmount := r.revenueVatAmount }
        amount := r.amount } := by
    simp only [calculateServiceRevenueAmount, h, Commission.fee, getAmountRounded]
    cases htype : commission.commissionType <;> simp [htype]
  rw [formFee, hform, computeVatAmount]
  cases getTaxPercentageAmount st <;> rfl

theorem withdrawObjDict_eq (kw : WithdrawKwargs) :
    withdrawObjDict st kw commission = (getTaxPercentageAmount st).map fun rate =>
      { toFee := commission.fee kw.amount rate
        customer := kw.customerId
        amount := kw.amount
        customerCollectionType := kw.customerCollectionType
        orderIds := ordersString kw.orderIds } := by
  rw [withdrawObjDict]
  cases getTaxPercentageAmount st <;> rfl

/-- The record is stored, also where a constraint raises on it. -/
theorem stop_createWithDrawRequestBody {kw : WithdrawKwargs} {requests : List RequestRecord}
    (h : Commission.lookup kw.amount table = some commission) :
    stop ((createWithDrawRequestBody st table kw).run requests) =
      match withdrawObjDict st kw commission with
      | .ok vals => requests ++ [vals]
      | .error _ => requests := by
  rw [createWithDrawRequestBody, h]
  dsimp only
  cases hvals : withdrawObjDict st kw commission with
  | error e => rfl
  | ok vals =>
      rw [lift_bind_run_of_ok rfl, createRequest, bind_assoc, get_bind_run, bind_assoc,
        modify_bind_run]
      -- nothing after the record is appended writes
      exact respects_bind (F := Frame.same fun s => s)
        (respects_bind (respects_lift _) fun _ => respects_bind (respects_lift _) fun _ =>
          respects_pure _) (fun _ => respects_pure _) (requests ++ [vals])

/-- For an amount that some active commission covers, the API stores a request with the fee
that the form shows for this amount, whatever the form held before; where the form raises,
as there are several taxes, the API stores nothing. -/
theorem api_stores_form_fee {kw : WithdrawKwargs} {prev : RequestForm}
    (hcovered : ∃ r ∈ table, Commission.IsFor kw.amount r) (hamount : prev.amount = kw.amount)
    (requests : List RequestRecord) :
    (∀ form, formFee st table prev = .ok form →
      ∃ new, (createWithDrawRequest st table (some kw) requests).2 = requests ++ [new] ∧
        new.toFee = form.toFee ∧ new.amount = kw.amount ∧ new.customer = kw.customerId) ∧
      ∀ e, formFee st table prev = .error e →
        (createWithDrawRequest st table (some kw) requests).2 = requests := by
  obtain ⟨commission, hlookup⟩ := exists_lookup hcovered
  have hstored : (createWithDrawRequest st table (some kw) requests).2 =
      stop ((createWithDrawRequestBody st table kw).run requests) := by
    rw [createWithDrawRequest, ← committed_snd]
    rcases committed (createWithDrawRequestBody st table kw) requests with ⟨_ | _, _⟩ <;> rfl
  rw [hstored, stop_createWithDrawRequestBody hlookup, withdrawObjDict_eq,
    formFee_eq (hamount ▸ hlookup), hamount]
  cases getTaxPercentageAmount st with
  | error e =>
      refine ⟨fun form h => ?_, fun _ _ => rfl⟩
      cases h
  | ok rate =>
      refine ⟨fun form h => ?_, fun e h => ?_⟩
      · cases h
        exact ⟨_, rfl, rfl, rfl, rfl⟩
      · cases h

/-- A tenth of the amount, up to 500. -/
def tenth : Commission where
  commissionType := .percent
  rangeFrom := 0
  rangeTo := 500
  commissionPercentage := 10

def withdrawalOf250 : WithdrawKwargs where
  customerId := 5
  amount := 250
  orderIds := []

/-- Through the API it costs what the form shows, although the form showed another fee
before. -/
theorem api_stores_form_fee_of_tenth :
    ∃ new, (createWithDrawRequest { percentTaxes := [14] } [tenth] (some withdrawalOf250) []).2 =
        [new] ∧
      new.toFee = { revenueType := some .percent, revenueAmount := 25,
                    revenuePercentage := 10, revenueVatAmount := 7 / 2 } := by
  have hcovered : ∃ r ∈ [tenth], Commission.IsFor withdrawalOf250.amount r := by decide +kernel
  have hform : formFee { percentTaxes := [14] } [tenth]
      { amount := 250, revenueType := some .amount, revenueAmount := 3 } =
        .ok { amount := 250, revenueType := some .percent, revenueAmount := 25,
              revenuePercentage := 10, revenueVatAmount := 7 / 2 } := by decide +kernel
  obtain ⟨new, hnew, hfee, -⟩ := (api_stores_form_fee hcovered rfl []).1 _ hform
  exact ⟨new, hnew, hfee⟩

end Withdraw

end Fastrak
