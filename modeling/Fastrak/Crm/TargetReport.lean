import Fastrak.Crm.Target
import Fastrak.Order.Record

/-!
# The report on sales targets

For each target of a team in a range of dates the report lists the customers of its sales
persons, with the number of orders that each had created in the range, and prints the total.
Dates are days and the creation of an order is a second; a day that bounds a search of seconds
is there as a whole.
-/

namespace Fastrak

namespace Crm

open Transaction

structure Partner where
  id : ℕ
  displayName : String := ""
  userId : Option ℕ := none
  active : Bool := true
  deriving DecidableEq

/-- The partners, in the order a search returns them in, and the orders with their
`create_date`. -/
structure Clientele where
  partners : List Partner
  orders : List (Order × ℤ) := []
  nodup : (partners.map (·.id)).Nodup

/-- The `form` of the report wizard; a record is read as its id and its name. -/
structure ReportForm where
  dateFrom : ℤ
  dateTo : ℤ
  salesPerson : Option (ℕ × String) := none
  salesTeam : ℕ × String

structure CustomerOrders where
  customerCode : ℕ
  customerName : String
  totalOrders : ℕ
  deriving DecidableEq

/-- An entry of `docs`. -/
structure ReportTarget where
  dateFrom : ℤ
  dateTo : ℤ
  salesPerson : Option (ℕ × String)
  targetName : String
  startDate : Option ℤ
  endDate : Option ℤ
  targetOrders : ℤ
  salesTeam : Option String
  salesMembers : List (Option ℕ)
  customersOrders : List CustomerOrders
  deriving DecidableEq

/-- `[('create_date', '>=', start_date), ('create_date', '<=', end_date)]` -/
def CreatedWithin (startDate endDate created : ℤ) : Prop :=
  startDate * 86400 ≤ created ∧ created ≤ endDate * 86400 + 86399

instance (startDate endDate : ℤ) : DecidablePred (CreatedWithin startDate endDate) :=
  fun _ => inferInstanceAs (Decidable (_ ∧ _))

/-- What was created within the dates was created on a day from the first to the last. -/
theorem createdWithin_iff {startDate endDate created : ℤ} :
    CreatedWithin startDate endDate created ↔
      startDate ≤ created / 86400 ∧ created / 86400 ≤ endDate := by
  rw [CreatedWithin]
  omega

namespace Clientele

variable (w : Clientele)

def salesPersonCustomer (salesPerson : Option ℕ) : List Partner :=
  w.partners.filter fun c => c.active ∧ c.userId = salesPerson

def customerOrders (customer : ℕ) (startDate endDate : ℤ) : ℕ :=
  (w.orders.filter fun o => o.1.customer = customer ∧ CreatedWithin startDate endDate o.2).length

def customersOrders (startDate endDate : ℤ) (teamMembers : List (Option ℕ))
    (salesPerson : Option (ℕ × String)) : List CustomerOrders :=
  let customers := match salesPerson with
    | none => teamMembers.flatMap w.salesPersonCustomer
    | some person => w.salesPersonCustomer (some person.1)
  customers.map fun c => {
    customerCode := c.id
    customerName := c.displayName
    totalOrders := w.customerOrders c.id startDate endDate }

end Clientele

def targetSalesPersons (db : Db) (target : ℕ) : List (Option ℕ) :=
  (linesOf db.lines target).map (·.salesPerson)

/-- The targets of the report. -/
def foundTargets (db : Db) (form : ReportForm) : List ℕ :=
  Table.search (fun t => t.startDate.any (fun d => form.dateFrom ≤ d) ∧
    t.endDate.any (fun d => d ≤ form.dateTo) ∧ t.salesTeam = some form.salesTeam.1) db.targets

def reportTarget (st : Staff) (db : Db) (w : Clientele) (form : ReportForm) (id : ℕ) :
    ReportTarget :=
  let target := (db.targets[id]?).getD {}
  { dateFrom := form.dateFrom
    dateTo := form.dateTo
    salesPerson := form.salesPerson
    targetName := target.name
    startDate := target.startDate
    endDate := target.endDate
    targetOrders := target.targetOrders
    salesTeam := target.salesTeam.map fun team => (st.team team).displayName
    salesMembers := targetSalesPersons db id
    customersOrders := w.customersOrders form.dateFrom form.dateTo (targetSalesPersons db id)
      form.salesPerson }

def getReportLinesData (st : Staff) (db : Db) (w : Clientele) (form : ReportForm) :
    Except String (List ReportTarget) := do
  let team := st.team form.salesTeam.1
  form.salesPerson.forM fun person =>
    raiseIf (person.1 ∉ team.memberIds ∧ some person.1 ≠ team.userId)
      (person.2 ++ " is not part of " ++ form.salesTeam.2)
  pure ((foundTargets db form).map (reportTarget st db w form))

/-- `total_orders_count`, as the table of the report adds it up. -/
def ReportTarget.totalOrdersCount (doc : ReportTarget) : ℕ :=
  doc.customersOrders.foldl (fun count c => count + c.totalOrders) 0

end Crm

end Fastrak
