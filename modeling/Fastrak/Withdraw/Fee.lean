import Fastrak.Library.Text
import Fastrak.Order.Controller
import Fastrak.Withdraw.Commission

/-!
# The fee of a withdrawal

A withdraw request carries its fee in four fields. The API computes them in the controller
and creates the request with them; the form computes them in two onchange methods, which run
on the request as it stands in the form.
-/

namespace Fastrak

open Transaction

/-- The fields of a request that hold its fee; the empty `revenue_type` is `none`. -/
structure Fee where
  revenueType : Option CommissionType := none
  revenueAmount : ℚ := 0
  revenuePercentage : ℚ := 0
  revenueVatAmount : ℚ := 0
  deriving DecidableEq

/-- A request in the form, as far as its onchange methods go. -/
structure RequestForm extends Fee where
  amount : ℚ
  deriving DecidableEq

/-- The fields that the API creates a request with. -/
structure RequestRecord extends Fee where
  customer : ℕ
  amount : ℚ
  customerCollectionType : Option String
  orderIds : Text
  deriving DecidableEq

/-- The arguments of the create endpoint. -/
structure WithdrawKwargs where
  customerId : ℕ
  amount : ℚ
  orderIds : Text
  customerCollectionType : Option String := none

namespace Withdraw

variable (st : Settings) (table : List Commission)

/-- `_get_tax_percentage_amount()`, of the model and of the controller alike. -/
def getTaxPercentageAmount : Except String ℚ := return (← taxAmount st) / 100

/-! ## The form -/

/-- `_get_amount_rounded(amount)` -/
def getAmountRounded (amount : ℚ) : ℚ := Rounding.roundHalfUp amount 0

/-- `compute_vat_amount()` -/
def computeVatAmount (r : RequestForm) : Except String RequestForm := do
  return { r with revenueVatAmount := r.revenueAmount * (← getTaxPercentageAmount st) }

/-- `calculate_service_revenue_amount()` on a request. The fields of an empty commission are
`False` and zero. -/
def calculateServiceRevenueAmount (r : RequestForm) : RequestForm :=
  let commission := Commission.lookup r.amount table
  let r : RequestForm := { r with
    revenueType := commission.map (·.commissionType)
    revenueAmount := (commission.map (·.commissionAmount)).getD 0
    revenuePercentage := (commission.map (·.commissionPercentage)).getD 0 }
  if r.revenueType = some .percent then
    { r with revenueAmount := getAmountRounded ((r.revenuePercentage / 100) * r.amount) }
  else r

/-- What the form shows after both methods. -/
def formFee (r : RequestForm) : Except String RequestForm :=
  computeVatAmount st (calculateServiceRevenueAmount table r)

/-! ## The API -/

/-- `'\n'.join(order_ids.split(','))`, if there is a comma. -/
def ordersString (orderIds : Text) : Text :=
  if ',' ∈ orderIds then orderIds.map fun c => if c = ',' then '\n' else c
  else "No Orders Sent".toList

/-- `check_amount` -/
def checkAmount (r : RequestRecord) : Except String PUnit :=
  raiseIf (r.amount ≤ 0) "Amount Can't be less or equal to 0"

/-- `check_revenue_percentage` -/
def checkRevenuePercentage (r : RequestRecord) : Except String PUnit :=
  raiseIf (r.revenueType = some .percent ∧ (0 > r.revenuePercentage ∨ r.revenuePercentage > 100))
    "Incorrect Revenue Percentage"

/-- `withdraw.request.create(vals)`. The record is there when the constraints look at it. -/
def createRequest (vals : RequestRecord) : EStateM String (List RequestRecord) ℕ := do
  let id := (← get).length
  modify (· ++ [vals])
  lift (checkAmount vals)
  lift (checkRevenuePercentage vals)
  return id

/-- `withdraw_obj_dict` for the commission that is found. -/
def withdrawObjDict (kw : WithdrawKwargs) (commission : Commission) :
    Except String RequestRecord := do
  let revenueAmount := if commission.commissionType = .percent then
      Rounding.roundHalfUp ((commission.commissionPercentage / 100) * kw.amount) 0
    else commission.commissionAmount
  return { customer := kw.customerId
           amount := kw.amount
           customerCollectionType := kw.customerCollectionType
           orderIds := ordersString kw.orderIds
           revenueType := some commission.commissionType
           revenueAmount
           revenuePercentage := commission.commissionPercentage
           revenueVatAmount := revenueAmount * (← getTaxPercentageAmount st) }

/-- The body of the `try`. -/
def createWithDrawRequestBody (kw : WithdrawKwargs) :
    EStateM String (List RequestRecord) Response := do
  match Commission.lookup kw.amount table with
  | none => throw "No commission range found"
  | some commission =>
      let vals ← lift (withdrawObjDict st kw commission)
      let id ← createRequest vals
      return { message := some "Success", code := some 201, data := some (toString id) }

/-- `create_with_draw_request(**kwargs)`, where a missing required field leaves no arguments.
An exception is caught, and what was written before it stays. -/
def createWithDrawRequest (kwargs : Option WithdrawKwargs) (requests : List RequestRecord) :
    Response × List RequestRecord :=
  match kwargs with
  | none => ({ missingFields ["customer_id", "amount", "order_ids"] with data := some "Empty" },
      requests)
  | some kw =>
      match committed (createWithDrawRequestBody st table kw) requests with
      | (.ok response, requests) => (response, requests)
      | (.error e, requests) =>
          ({ message := some ("Error:" ++ e), code := some 500, data := some "Empty" }, requests)

end Withdraw

end Fastrak
