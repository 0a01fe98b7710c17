import Fastrak.Order.Environment
import Fastrak.Library.Table
import Fastrak.Library.Run

/-!
# The chart of accounts

An account belongs to a company and may carry four flags. A create or a write that gives a
flag runs the constraint of that flag on the records it is called on, and is rolled back
when the constraint raises. Operations search the accounts of a flag, in all the companies
that the record rules allow the user.

The chart is a table; what accounting itself refuses is not asked for here.
-/

namespace Fastrak

open Transaction Run Table

structure CustomAccount where
  companyId : ℕ
  isCustodyAccount : Bool := false
  isMoneyCollectionAccount : Bool := false
  isDefaultBankAccount : Bool := false
  isBankCommissionAccount : Bool := false
  deriving DecidableEq

/-- The accounts of every company, by id. -/
abbrev Chart := List CustomAccount

/-- The values of a create or a write; a field without a value is not given. -/
structure AccountVals where
  companyId : Option ℕ := none
  isCustodyAccount : Option Bool := none
  isMoneyCollectionAccount : Option Bool := none
  isDefaultBankAccount : Option Bool := none
  isBankCommissionAccount : Option Bool := none

inductive Flag where
  | bankCommission
  | custody
  | defaultBank
  | moneyCollection
  deriving DecidableEq

def CustomAccount.flag (a : CustomAccount) : Flag → Bool
  | .bankCommission => a.isBankCommissionAccount
  | .custody => a.isCustodyAccount
  | .defaultBank => a.isDefaultBankAccount
  | .moneyCollection => a.isMoneyCollectionAccount

def AccountVals.flag (vals : AccountVals) : Flag → Option Bool
  | .bankCommission => vals.isBankCommissionAccount
  | .custody => vals.isCustodyAccount
  | .defaultBank => vals.isDefaultBankAccount
  | .moneyCollection => vals.isMoneyCollectionAccount

/-- `write`, on one account -/
def AccountVals.apply (vals : AccountVals) (a : CustomAccount) : CustomAccount where
  companyId := vals.companyId.getD a.companyId
  isCustodyAccount := vals.isCustodyAccount.getD a.isCustodyAccount
  isMoneyCollectionAccount := vals.isMoneyCollectionAccount.getD a.isMoneyCollectionAccount
  isDefaultBankAccount := vals.isDefaultBankAccount.getD a.isDefaultBankAccount
  isBankCommissionAccount := vals.isBankCommissionAccount.getD a.isBankCommissionAccount

@[simp] theorem AccountVals.apply_flag (vals : AccountVals) (a : CustomAccount) (f : Flag) :
    (vals.apply a).flag f = (vals.flag f).getD (a.flag f) := by
  cases f <;> rfl

namespace Chart

/-! ## Constraints -/

/-- `company_id` of a recordset -/
def companyIds (chart : Chart) (self : List ℕ) : List ℕ :=
  (self.filterMap fun i => chart[i]?.map (·.companyId)).dedup

/-- A constraint that prevents having more than one account with a flag. The `.id` of several
records raises; `False`, the `.id` of none, is the company and the id of no account. -/
def checkFlag (flag : CustomAccount → Bool) (message : String) (chart : Chart) (self : List ℕ) :
    Except String PUnit := do
  match ← single "res.company" (companyIds chart self), ← single "account.account" self with
  | some companyId, some id =>
      let result := (search (fun a => flag a && a.companyId == companyId) chart).filter (· ≠ id)
      raiseIf (result ≠ [] ∧ chart[id]?.any flag = true) message
  | _, _ => pure ⟨⟩

/-- `_check_custody_account()` -/
def checkCustodyAccount : Chart → List ℕ → Except String PUnit :=
  checkFlag (·.isCustodyAccount) "Can't have more than one custody account"

/-- `_check_money_collection_account()` -/
def checkMoneyCollectionAccount : Chart → List ℕ → Except String PUnit :=
  checkFlag (·.isMoneyCollectionAccount) "Can't have more than one money collection account"

/-- `_check_default_bank_account()` -/
def checkDefaultBankAccount : Chart → List ℕ → Except String PUnit :=
  checkFlag (·.isDefaultBankAccount) "Can't have more than one default bank account"

/-- `_check_bank_commission_account()` -/
def checkBankCommissionAccount : Chart → List ℕ → Except String PUnit :=
  checkFlag (·.isBankCommissionAccount) "Can't have more than one bank commission account"

def constraint : Flag → Chart → List ℕ → Except String PUnit
  | .bankCommission => checkBankCommissionAccount
  | .custody => checkCustodyAccount
  | .defaultBank => checkDefaultBankAccount
  | .moneyCollection => checkMoneyCollectionAccount

/-- A constraint is run when its field is given. -/
def validateField (given : Flag → Bool) (chart : Chart) (self : List ℕ) (f : Flag) :
    Except String PUnit :=
  if given f then constraint f chart self else pure ⟨⟩

/-- The constraints are run in the order of their names. -/
def validateFields (given : Flag → Bool) (chart : Chart) (self : List ℕ) :
    Except String PUnit := do
  validateField given chart self .bankCommission
  validateField given chart self .custody
  validateField given chart self .defaultBank
  validateField given chart self .moneyCollection

/-! ## Creates and writes -/

abbrev Tx := EStateM String Chart

/-- `create(vals_list)`; an account without a company gets the current one. -/
def create (companyId : ℕ) (valsList : List AccountVals) : Tx PUnit := do
  let self := (List.range valsList.length).map ((← get).length + ·)
  modify (· ++ valsList.map (·.apply { companyId }))
  lift (validateFields (fun f => valsList.any fun vals => (vals.flag f).isSome) (← get) self)

/-- `write(vals)` -/
def write (self : List ℕ) (vals : AccountVals) : Tx PUnit := do
  raiseIf (∃ i ∈ self, (← get).length ≤ i) "Record does not exist or has been deleted."
  modify fun chart => chart.mapIdx fun i a => if i ∈ self then vals.apply a else a
  lift (validateFields (fun f => (vals.flag f).isSome) (← get) self)

inductive Event where
  | create (companyId : ℕ) (valsList : List AccountVals)
  | write (self : List ℕ) (vals : AccountVals)

def perform : Event → Tx PUnit
  | .create companyId valsList => create companyId valsList
  | .write self vals => write self vals

/-- A create or a write that raises is rolled back. -/
def step (chart : Chart) (e : Event) : Chart := (atomic (fun chart _ => chart) (perform e) chart).2

/-! ## Lookups -/

/-- `search([(flag, '=', True)])` of a user of the given companies. -/
def lookup (companies : List ℕ) (f : Flag) (chart : Chart) : List ℕ :=
  search (fun a => a.flag f && companies.contains a.companyId) chart

end Chart

/-- The settings that a user of the given companies works with. -/
def Settings.withChart (st : Settings) (companies : List ℕ) (chart : Chart) : Settings :=
  { st with
    custodyAccounts := Chart.lookup companies .custody chart
    defaultBankAccounts := Chart.lookup companies .defaultBank chart
    bankCommissionAccounts := Chart.lookup companies .bankCommission chart
    moneyCollectionAccounts := Chart.lookup companies .moneyCollection chart }

end Fastrak
