import Mathlib.Data.Int.Notation
import Mathlib.Data.Nat.Notation
import Mathlib.Order.Basic
import Mathlib.Tactic.SplitIfs

/-!
# Dates

A date is its month, counted from the year 0, and its day in the month. Adding months keeps
the day, or takes the last day of a month that is too short for it.
-/

namespace Fastrak

namespace Asset

structure Date where
  months : ℤ
  day : ℕ
  deriving DecidableEq

namespace Date

def year (d : Date) : ℤ := d.months / 12

def IsLeap (year : ℤ) : Prop := year % 4 = 0 ∧ (year % 100 ≠ 0 ∨ year % 400 = 0)

instance (year : ℤ) : Decidable (IsLeap year) := inferInstanceAs (Decidable (_ ∧ _))

/-- `calendar.monthrange(year, month)[1]` -/
def monthDays (months : ℤ) : ℕ :=
  if months % 12 = 1 then if IsLeap (months / 12) then 29 else 28
  else if months % 12 = 3 ∨ months % 12 = 5 ∨ months % 12 = 8 ∨ months % 12 = 10 then 30
  else 31

theorem twentyEight_le_monthDays (months : ℤ) : 28 ≤ monthDays months := by
  unfold monthDays
  split_ifs <;> omega

/-- `relativedelta(months=+n)` -/
def addMonths (n : ℤ) (d : Date) : Date :=
  ⟨d.months + n, min (monthDays (d.months + n)) d.day⟩

/-- `relativedelta(day=day)` -/
def withDay (day : ℕ) (d : Date) : Date := ⟨d.months, min (monthDays d.months) day⟩

/-- `relativedelta(month=month)` -/
def withMonth (month : ℕ) (d : Date) : Date :=
  ⟨d.year * 12 + (month - 1), min (monthDays (d.year * 12 + (month - 1))) d.day⟩

def le (d d' : Date) : Prop := d.months < d'.months ∨ d.months = d'.months ∧ d.day ≤ d'.day

instance (d d' : Date) : Decidable (le d d') := inferInstanceAs (Decidable (_ ∨ _))

/-- The days since the start of the year 1. -/
def toOrdinal (d : Date) : ℤ :=
  (d.year - 1) * 365 + (d.year - 1) / 4 - (d.year - 1) / 100 + (d.year - 1) / 400 +
    ((List.range (d.months % 12).toNat).map fun (month : ℕ) =>
      (monthDays (d.year * 12 + month) : ℤ)).foldl (· + ·) 0 + d.day

end Date

/-- The loop of `_compute_board_undone_dotation_nb`: the dates up to the end, for at most `n`
rounds. -/
def countPeriods (period : ℤ) (methodEnd : Date) : ℕ → Date → Option ℤ
  | 0, _ => none
  | n + 1, d =>
      if d.le methodEnd then (countPeriods period methodEnd n (d.addMonths period)).map (· + 1)
      else some 0

/-- Each round is at least one month later. -/
theorem exists_countPeriods_eq {period : ℤ} (hperiod : 0 < period) (methodEnd : Date) {n : ℕ}
    {d : Date} (hpos : 0 < n) (hn : methodEnd.months + 2 ≤ d.months + n) :
    ∃ count, countPeriods period methodEnd n d = some count := by
  induction n generalizing d with
  | zero => omega
  | succ n ih =>
      rw [countPeriods]
      split
      · rename_i hle
        have hmonths : d.months ≤ methodEnd.months := by
          rcases hle with hlt | ⟨heq, -⟩ <;> omega
        have hlater : (d.addMonths period).months = d.months + period := rfl
        obtain ⟨count, hcount⟩ := ih (d := d.addMonths period) (by omega) (by omega)
        exact ⟨count + 1, by rw [hcount, Option.map_some]⟩
      · exact ⟨0, rfl⟩

end Asset

end Fastrak
