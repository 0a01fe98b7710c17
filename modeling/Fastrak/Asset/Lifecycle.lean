import Fastrak.Asset.Board

/-!
# The life of an asset

The board is computed when the asset is created, and again when its fields are written. Entries
are made for single lines, or for all that are due, and a line with an entry counts as posted.
Closing the asset puts the residual value into one last line.
-/

namespace Fastrak

namespace Asset

inductive Event
  | write (fields : Fields)
  | createMove (line : ℕ)
  | computeEntries (date : Date)
  | setToClose (today : Date)

namespace Line

def post (line : Line) : Line := { line with moveCheck := true }

/-- The line is due and has no entry. -/
def Due (date : Date) (line : Line) : Prop :=
  line.moveCheck = false ∧ line.depreciationDate.le date

instance (date : Date) (line : Line) : Decidable (line.Due date) :=
  inferInstanceAs (Decidable (_ ∧ _))

end Line

namespace AccountAsset

variable (c : Company)

/-- `create(vals)` -/
def create (fields : Fields) : Option AccountAsset :=
  computeDepreciationBoard c { fields := fields }

/-- `create_move()` of one line. It raises for a line that has an entry. -/
def createMove (i : ℕ) (a : AccountAsset) : AccountAsset :=
  { a with depreciationLines := a.depreciationLines.modify i Line.post }

/-- `_compute_entries(date)` -/
def computeEntries (date : Date) (a : AccountAsset) : AccountAsset :=
  { a with depreciationLines := a.depreciationLines.map fun line =>
      if line.Due date then line.post else line }

/-- `set_to_close()` -/
def setToClose (today : Date) (a : AccountAsset) : AccountAsset :=
  if ∃ line ∈ a.depreciationLines, line.moveCheck = false then
    let sequence := a.posted.length + 1
    { fields := { a.fields with methodEnd := today, methodNumber := sequence }
      depreciationLines := a.posted ++ [
        { amount := a.valueResidual
          sequence := sequence
          remainingValue := 0
          depreciatedValue := a.fields.value - a.fields.salvageValue
          depreciationDate := today
          moveCheck := true }] }
  else a

/-- One call. A write whose board never ends leaves the asset as it is. -/
def step (a : AccountAsset) : Event → AccountAsset
  | .write fields => (computeDepreciationBoard c { a with fields := fields }).getD a
  | .createMove i => a.createMove i
  | .computeEntries date => a.computeEntries date
  | .setToClose today => a.setToClose today

end AccountAsset

end Asset

end Fastrak
