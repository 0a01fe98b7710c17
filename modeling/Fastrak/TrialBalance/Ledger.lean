import Fastrak.Library.Grouping
import Mathlib.Algebra.Order.Ring.Rat

/-!
# Accounts, move lines and the queries on them

Codes and dates are of any ordered types. A query of the report returns its rows
ordered by account code, and in any order among the accounts of one code: `IsResult`
says that a list is such a result.
-/

namespace Fastrak

namespace TrialBalance

universe u v

inductive ParentState where
  | draft
  | posted
  | cancel
  deriving DecidableEq

structure Account (κ : Type u) where
  id : ℕ
  code : κ
  name : String

structure MoveLine (δ : Type v) where
  moveId : ℕ
  accountId : Option ℕ
  date : δ
  parentState : ParentState
  debit : ℚ
  credit : ℚ

/-- A section or a note of an invoice is a line without account and without amounts. -/
structure Ledger (κ : Type u) (δ : Type v) where
  accounts : List (Account κ)
  lines : List (MoveLine δ)
  nodup_id : (accounts.map (·.id)).Nodup
  exists_account : ∀ l ∈ lines, ∀ i ∈ l.accountId, i ∈ accounts.map (·.id)
  amounts_of_none : ∀ l ∈ lines, l.accountId = none → l.debit = 0 ∧ l.credit = 0

/-- `SELECT SUM(debit), SUM(credit), aa.*`, where a sum is over one line at least. -/
structure Row (κ : Type u) where
  code : κ
  name : String
  debit : ℚ
  credit : ℚ

/-- `SUM` of no line is null. -/
structure TotalRow (κ : Type u) where
  code : κ
  name : String
  debit : Option ℚ
  credit : Option ℚ

namespace Ledger

variable {κ : Type u} {δ : Type v} (L : Ledger κ δ)

/-- `account_move_line ml on aa.id = ml.account_id` -/
def linesOf (a : Account κ) : List (MoveLine δ) := L.lines.filter fun l => l.accountId = some a.id

/-- The groups of the lines of an account: `GROUP BY aa.id, ml.date, ml.parent_state
HAVING h`. -/
def groupsOf [DecidableEq δ] (h : δ → ParentState → Prop) [∀ t s, Decidable (h t s)]
    (a : Account κ) : List (Row κ) :=
  ((((L.linesOf a).map fun l => (l.date, l.parentState)).dedup).filter fun g => h g.1 g.2).map
    fun g =>
      let group := (L.linesOf a).filter fun l => (l.date, l.parentState) = g
      { code := a.code
        name := a.name
        debit := (group.map (·.debit)).sum
        credit := (group.map (·.credit)).sum }

/-- The joined row of an account without lines has a null date and state, which no `HAVING`
accepts. -/
def groupsHaving [DecidableEq δ] (h : δ → ParentState → Prop) [∀ t s, Decidable (h t s)] :
    List (Row κ) :=
  L.accounts.flatMap (L.groupsOf h)

/-- `GROUP BY aa.id` over the joined lines. -/
def totals : List (TotalRow κ) :=
  L.accounts.map fun a =>
    { code := a.code
      name := a.name
      debit := if L.linesOf a = [] then none else some ((L.linesOf a).map (·.debit)).sum
      credit := if L.linesOf a = [] then none else some ((L.linesOf a).map (·.credit)).sum }

section Queries

variable [LinearOrder δ]

/-- `ml.date < date_from and ml.parent_state = 'posted'` -/
def IsInit (dateFrom : δ) (date : δ) (state : ParentState) : Prop :=
  date < dateFrom ∧ state = .posted

/-- `date between date_from and date_to and ml.parent_state = 'posted'` -/
def IsFilter (dateFrom dateTo : δ) (date : δ) (state : ParentState) : Prop :=
  (dateFrom ≤ date ∧ date ≤ dateTo) ∧ state = .posted

instance (dateFrom date : δ) (state : ParentState) : Decidable (IsInit dateFrom date state) :=
  inferInstanceAs (Decidable (_ ∧ _))

instance (dateFrom dateTo date : δ) (state : ParentState) :
    Decidable (IsFilter dateFrom dateTo date state) :=
  inferInstanceAs (Decidable (_ ∧ _))

end Queries

end Ledger

/-- The rows `rows` in the order of their codes. -/
def IsResult {κ ρ : Type*} [LE κ] (code : ρ → κ) (rows result : List ρ) : Prop :=
  result.Perm rows ∧ result.Pairwise fun r r' => code r ≤ code r'

end TrialBalance

end Fastrak
