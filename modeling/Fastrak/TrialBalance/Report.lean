import Fastrak.Library.Arithmetic
import Fastrak.TrialBalance.Ledger

/-!
# The trial balance report

`accountTrialBl` merges the three query results. A cursor into a result is the list of
the rows from the cursor on. The database adds up exactly, and the report with the given
arithmetic.
-/

namespace Fastrak

namespace TrialBalance

universe u

/-- The amounts of a row, by their key in the dictionary. -/
inductive Column where
  | initD
  | initC
  | filterD
  | filterC
  | totalD
  | totalC
  deriving DecidableEq

abbrev Amounts := Column → ℚ

structure ReportLine (κ : Type u) where
  code : κ
  account : String
  amounts : Amounts

variable {κ : Type u} [DecidableEq κ] (ar : Arithmetic)

/-- The `while True` loop of an account, from the debit and the credit added up so far. -/
def addRows (code : κ) : List (Row κ) → ℚ → ℚ → ℚ × ℚ × List (Row κ)
  | [], d, c => (d, c, [])
  | r :: rows, d, c =>
      match rows with
      | [] => (ar.add d r.debit, ar.add c r.credit, [])
      | r' :: _ =>
          if r'.code ≠ code then (ar.add d r.debit, ar.add c r.credit, rows)
          else addRows code rows (ar.add d r.debit) (ar.add c r.credit)

/-- The debit and the credit of the rows at the cursor, when they are of the account, and
the new cursor. -/
def takeRows (code : κ) (rows : List (Row κ)) : ℚ × ℚ × List (Row κ) :=
  match rows with
  | [] => (0, 0, rows)
  | r :: _ => if r.code = code then addRows ar code rows 0 0 else (0, 0, rows)

def totalColumns (td tc : ℚ) : ℚ × ℚ :=
  let tsum := ar.sub td tc
  if 0 < tsum then (tsum, 0)
  else if tsum < 0 then (0, tsum * -1)
  else if tsum = 0 then (0, 0)
  else (td, tc)

def finalRow (initD initC filterD filterC : ℚ) : Amounts
  | .initD => initD
  | .initC => initC
  | .filterD => filterD
  | .filterC => filterC
  | .totalD => (totalColumns ar (ar.add initD filterD) (ar.add initC filterC)).1
  | .totalC => (totalColumns ar (ar.add initD filterD) (ar.add initC filterC)).2

/-- The lines that are displayed. -/
def Amounts.Displayed (a : Amounts) : Prop :=
  a .initD ≠ 0 ∨ a .initC ≠ 0 ∨ a .filterD ≠ 0 ∨ a .filterC ≠ 0

instance (a : Amounts) : Decidable a.Displayed :=
  inferInstanceAs (Decidable (_ ∨ _))

/-- The two cursors, the sums and the lines. -/
structure Merge (κ : Type u) where
  init : List (Row κ)
  filter : List (Row κ)
  sums : Amounts
  lines : List (ReportLine κ)

def Merge.step (m : Merge κ) (x : TotalRow κ) : Merge κ :=
  if x.credit ≠ none ∨ x.debit ≠ none then
    let (initD, initC, init) := takeRows ar x.code m.init
    let (filterD, filterC, filter) := takeRows ar x.code m.filter
    let row := finalRow ar initD initC filterD filterC
    { init, filter
      sums := fun c => ar.add (m.sums c) (row c)
      lines :=
        if row.Displayed then m.lines ++ [{ code := x.code, account := x.name, amounts := row }]
        else m.lines }
  else m

/-- The amounts of a row are read as floats. -/
def Row.fetch (r : Row κ) : Row κ :=
  { r with debit := ar.round r.debit, credit := ar.round r.credit }

/-- The summary row and the lines. -/
def accountTrialBl (initAcc filterAcc : List (Row κ)) (allAccount : List (TotalRow κ)) :
    Amounts × List (ReportLine κ) :=
  let m := allAccount.foldl (Merge.step ar)
    { init := initAcc.map (Row.fetch ar), filter := filterAcc.map (Row.fetch ar), sums := 0,
      lines := [] }
  (m.sums, m.lines)

end TrialBalance

end Fastrak
