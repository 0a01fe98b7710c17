import Fastrak.ElectronicInvoice.Report
import Fastrak.GroupInvoice.Penalty
import Fastrak.Order.System

/-!
# The books of the company

The posted invoices and credit notes come from three places: the orders, the withdraw requests
and the penalties of group invoices. Their systems run side by side, in any interleaving, and
the report finds the account moves of all of them.

The account moves of the penalty records that are no penalty invoices are the invoices that
the penalties are calculated from. These are documents as moves of their orders.
-/

namespace Fastrak

open Run

/-- Where an account move comes from, and its position there. -/
inductive MoveId where
  | order (orderId : String) (i : ℕ)
  | withdrawal (k i : ℕ)
  | penalty (inv : ℕ)
  deriving DecidableEq

structure CompanySettings extends ElectronicInvoice.ReportSettings, PenaltySettings

structure Company where
  orders : Database := Database.empty
  /-- The ids that something has happened to. -/
  orderIds : List String := []
  withdrawals : List WithdrawSlice := []
  penalties : PenaltyRecords

namespace Company

open ElectronicInvoice

variable (st : CompanySettings) (ac : Accounting)

/-! ## Runs -/

inductive Event where
  | order (orderId : String) (e : Fastrak.Event)
  | newWithdrawal (vals : WithdrawVals)
  | withdrawal (k : ℕ) (e : Withdraw.Event)
  | penalty (e : PenaltyGroup.Event)

def step (c : Company) : Event → Company
  | .order orderId e =>
      { c with
        orders := dbStep st.toSettings ac c.orders (orderId, e)
        orderIds := if orderId ∈ c.orderIds then c.orderIds else c.orderIds ++ [orderId] }
  | .newWithdrawal vals =>
      { c with withdrawals := c.withdrawals ++ [{ request := { toWithdrawVals := vals } }] }
  | .withdrawal k e =>
      { c with
        withdrawals := c.withdrawals.modify k fun s => Withdraw.step st.toWithdrawSettings ac s e }
  | .penalty e => { c with penalties := PenaltyGroup.step st.toPenaltySettings ac c.penalties e }

/-- There is no order and no withdraw request yet, and no penalty invoice. -/
structure IsNew (c : Company) : Prop where
  orders : c.orders = Database.empty
  orderIds : c.orderIds = []
  withdrawals : c.withdrawals = []
  penalties : ∀ g ∈ c.penalties.groups, g.penaltyInvoice = none

/-! ## The books -/

/-- The account moves that a penalty has been charged with. -/
def penaltyMoves (s : PenaltyRecords) : List (MoveId × Move) :=
  s.groups.filterMap fun g => g.penaltyInvoice.bind fun inv =>
    s.moves[inv]?.map fun m => (.penalty inv, m)

/-- The account moves of the company, each under the place it comes from. -/
def moves (c : Company) : List (MoveId × Move) :=
  (c.orderIds.flatMap fun orderId =>
    (c.orders orderId).moves.mapIdx fun i m => (.order orderId i, m)) ++
  (c.withdrawals.mapIdx fun k s => s.moves.mapIdx fun i m => (.withdrawal k i, m)).flatten ++
  penaltyMoves c.penalties

/-- The orders, each with its invoice. -/
def billedOrders (c : Company) : List (Option MoveId × Order) :=
  c.orderIds.filterMap fun orderId =>
    (c.orders orderId).order.map fun o => (o.invoiceId.map (MoveId.order orderId), o)

/-- What the account moves hold that only the report reads. -/
structure Notes where
  invoiceDate : MoveId → Option ℤ
  narration : MoveId → String := fun _ => ""

def Notes.document (n : Notes) (id : MoveId) (m : Move) : Document MoveId where
  id
  move := m
  invoiceDate := n.invoiceDate id
  narration := n.narration id

/-- What the report searches. -/
def books (c : Company) (n : Notes) : ElectronicInvoice.Books MoveId where
  documents := c.moves.map fun (id, m) => n.document id m
  orders := c.billedOrders

/-- The orders that have no invoice. -/
def unbilledOrders (c : Company) : List Order :=
  c.orderIds.filterMap fun orderId => (c.orders orderId).order.filter (·.invoiceId = none)

end Company

end Fastrak
