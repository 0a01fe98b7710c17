import Mathlib.Algebra.BigOperators.Group.List.Basic
import Mathlib.Algebra.Order.Field.Rat
import Mathlib.Data.List.Sort
import Fastrak.Asset.Date
import Fastrak.Library.Rounding

/-!
# The depreciation board

The board of an asset is computed anew whenever its fields are written. The lines that have an
entry stay, and the residual value is spread over the rounds that are left; the last round takes
what is left of it. A round whose amount is zero makes no line, and leaves the date.
-/

namespace Fastrak

namespace Asset

open Rounding

inductive Method
  | linear
  | degressive
  deriving DecidableEq

inductive MethodTime
  | number
  | endDate
  deriving DecidableEq

inductive FirstDepreciation
  | lastDayPeriod
  | manual
  deriving DecidableEq

/-- What the asset reads of its company. -/
structure Company where
  fiscalyearLastMonth : ℕ
  fiscalyearLastDay : ℕ
  /-- `compute_fiscalyear_dates(date)['date_to']` -/
  dateTo : Date → Date

structure Line where
  amount : ℚ
  sequence : ℕ
  remainingValue : ℚ
  depreciatedValue : ℚ
  depreciationDate : Date
  /-- The line has an entry. -/
  moveCheck : Bool := false
  deriving DecidableEq

/-- The fields that the board is computed of. -/
structure Fields where
  /-- The decimals of the currency. -/
  digits : ℕ := 2
  value : ℚ
  salvageValue : ℚ := 0
  date : Date
  method : Method := .linear
  methodNumber : ℤ := 5
  methodPeriod : ℤ := 12
  methodEnd : Date
  methodProgressFactor : ℚ := 3 / 10
  methodTime : MethodTime := .number
  prorata : Bool := false
  dateFirstDepreciation : FirstDepreciation := .manual
  firstDepreciationManualDate : Option Date := none
  deriving DecidableEq

structure AccountAsset where
  fields : Fields
  depreciationLines : List Line := []
  deriving DecidableEq

variable (c : Company)

namespace Fields

/-- The part of the first amount that the days from the date on make up. -/
def firstPart (f : Fields) (amount : ℚ) (totalDays : ℚ) : ℚ :=
  if f.methodPeriod % 12 ≠ 0 then
    let monthDays : ℤ := Date.monthDays f.date.months
    let days := monthDays - f.date.day + 1
    amount / monthDays * days
  else
    let days := (c.dateTo f.date).toOrdinal - f.date.toOrdinal + 1
    amount / totalDays * days

/-- `_compute_board_amount`, where `posted` is the number of the posted lines. -/
def computeBoardAmount (f : Fields) (sequence : ℕ) (residualAmount amountToDepr : ℚ)
    (undone : ℤ) (posted : ℕ) (totalDays : ℚ) : ℚ :=
  if (sequence : ℤ) = undone then residualAmount
  else
    match f.method with
    | .linear =>
        if f.prorata then
          if sequence = 1 then f.firstPart c (amountToDepr / f.methodNumber) totalDays
          else amountToDepr / f.methodNumber
        else amountToDepr / (undone - posted)
    | .degressive =>
        let amount := residualAmount * f.methodProgressFactor
        if f.prorata ∧ sequence = 1 then f.firstPart c amount totalDays else amount

/-- `_compute_board_undone_dotation_nb`. A loop over periods of no months does not end. -/
def computeBoardUndoneDotationNb (f : Fields) (depreciationDate : Date) : Option ℤ :=
  let undone :=
    match f.methodTime with
    | .number => some f.methodNumber
    | .endDate => countPeriods f.methodPeriod f.methodEnd
        ((f.methodEnd.months - depreciationDate.months + 2).toNat + 1) depreciationDate
  undone.map fun n => if f.prorata then n + 1 else n

/-- The date of the first line that is not posted. -/
def depreciationDate (f : Fields) (lastPosted : Option Date) : Date :=
  match lastPosted with
  | some last => last.addMonths f.methodPeriod
  | none =>
      match f.dateFirstDepreciation with
      | .lastDayPeriod =>
          let date := f.date.withDay 31
          if f.methodPeriod = 12 then
            let date := (date.withMonth c.fiscalyearLastMonth).withDay c.fiscalyearLastDay
            if f.date.le date then date else date.addMonths 12
          else date
      | .manual => f.firstDepreciationManualDate.getD f.date

/-- The date of the next line. -/
def nextDate (f : Fields) (monthDay : ℕ) (date : Date) : Date :=
  let date := date.addMonths f.methodPeriod
  let date :=
    if 28 < monthDay ∧ f.dateFirstDepreciation = .manual then date.withDay monthDay else date
  if ¬ f.prorata ∧ f.methodPeriod % 12 ≠ 0 ∧ f.dateFirstDepreciation = .lastDayPeriod then
    { date with day := Date.monthDays date.months }
  else date

/-- The loop of `compute_depreciation_board` over the rounds that are left. -/
def boardLines (f : Fields) (amountToDepr : ℚ) (undone : ℤ) (posted : ℕ) (totalDays : ℚ)
    (monthDay : ℕ) : List ℕ → ℚ → Date → List Line
  | [], _, _ => []
  | x :: xs, residualAmount, date =>
      let amount := roundHalfUp (f.computeBoardAmount c (x + 1) residualAmount amountToDepr undone
        posted totalDays) f.digits
      if amount = 0 then
        f.boardLines amountToDepr undone posted totalDays monthDay xs residualAmount date
      else
        { amount := amount
          sequence := x + 1
          remainingValue := residualAmount - amount
          depreciatedValue := f.value - (f.salvageValue + (residualAmount - amount))
          depreciationDate := date } ::
        f.boardLines amountToDepr undone posted totalDays monthDay xs (residualAmount - amount)
          (f.nextDate monthDay date)

end Fields

namespace AccountAsset

def posted (a : AccountAsset) : List Line := a.depreciationLines.filter (·.moveCheck)

/-- `_amount_residual` -/
def valueResidual (a : AccountAsset) : ℚ :=
  a.fields.value - (a.posted.map (·.amount)).sum - a.fields.salvageValue

def lastPostedDate (a : AccountAsset) : Option Date :=
  ((a.posted.map (·.depreciationDate)).insertionSort Date.le).getLast?

/-- The number of rounds, posted ones included. -/
def undoneDotationNb (a : AccountAsset) : Option ℤ :=
  a.fields.computeBoardUndoneDotationNb (a.fields.depreciationDate c a.lastPostedDate)

/-- The lines for the rounds after the posted ones. -/
def plannedLines (a : AccountAsset) (undone : ℤ) : List Line :=
  let date := a.fields.depreciationDate c a.lastPostedDate
  let totalDays : ℚ := if date.year % 4 ≠ 0 then 365 else 366
  a.fields.boardLines c a.valueResidual undone a.posted.length totalDays date.day
    (List.range' a.posted.length (undone - a.posted.length).toNat) a.valueResidual date

/-- `compute_depreciation_board()` -/
def computeDepreciationBoard (a : AccountAsset) : Option AccountAsset :=
  if a.valueResidual = 0 then some { a with depreciationLines := a.posted }
  else
    (a.undoneDotationNb c).map fun (undone : ℤ) =>
      { a with depreciationLines := a.posted ++ a.plannedLines c undone }

end AccountAsset

end Asset

end Fastrak
