import Fastrak.Asset.Board

/-!
# The lines of a depreciation board

The board keeps the posted lines, and the amounts of the new ones add up to the residual value
if there is a round for them, whatever the method and the rounding: so all lines together make
up what there is to depreciate exactly if nothing is left or a round is left. Each line says
what remains after it.
-/

namespace Fastrak

namespace Asset

open Rounding

variable {c : Company} {f : Fields} {amountToDepr : ℚ} {undone : ℤ} {posted : ℕ} {totalDays : ℚ}
  {monthDay : ℕ} {xs : List ℕ} {residual : ℚ} {date : Date}

def total (lines : List Line) : ℚ := (lines.map (·.amount)).sum

@[simp] theorem total_nil : total [] = 0 := rfl

@[simp] theorem total_cons (line : Line) (lines : List Line) :
    total (line :: lines) = line.amount + total lines := by
  simp [total]

@[simp] theorem total_append (lines lines' : List Line) :
    total (lines ++ lines') = total lines + total lines' := by
  simp [total]

/-- Each line says what remains of the residual value after it. -/
def Chained (f : Fields) (residual : ℚ) (lines : List Line) : Prop :=
  ∀ before line after, lines = before ++ line :: after →
    line.remainingValue = residual - total (before ++ [line]) ∧
      line.depreciatedValue = f.value - (f.salvageValue + line.remainingValue)

theorem Chained.cons {line : Line} {lines : List Line}
    (hremaining : line.remainingValue = residual - line.amount)
    (hdepreciated : line.depreciatedValue = f.value - (f.salvageValue + line.remainingValue))
    (h : Chained f (residual - line.amount) lines) : Chained f residual (line :: lines) := by
  intro before line' after heq
  cases before with
  | nil =>
      obtain ⟨rfl, -⟩ := List.cons.inj heq
      exact ⟨by simpa using hremaining, hdepreciated⟩
  | cons first before =>
      obtain ⟨rfl, hrest⟩ := List.cons.inj heq
      obtain ⟨hline, hline'⟩ := h before line' after hrest
      refine ⟨?_, hline'⟩
      rw [hline, List.cons_append, total_cons]
      ring

namespace Fields

/-- The amounts are rounded and not zero, and each line is one of the rounds. -/
structure Board (f : Fields) (xs : List ℕ) (residual : ℚ) (lines : List Line) : Prop where
  rounded : ∀ line ∈ lines, line.amount ∈ decimals f.digits ∧ line.amount ≠ 0
  unposted : ∀ line ∈ lines, line.moveCheck = false
  rounds : (lines.map (·.sequence)).Sublist (xs.map (· + 1))
  chained : Chained f residual lines

theorem board_boardLines : f.Board xs residual
    (f.boardLines c amountToDepr undone posted totalDays monthDay xs residual date) := by
  induction xs generalizing residual date with
  | nil =>
      refine ⟨by simp [boardLines], by simp [boardLines], by simp [boardLines], ?_⟩
      intro before line after heq
      simp [boardLines] at heq
  | cons x xs ih =>
      rw [boardLines]
      split
      · exact ⟨ih.rounded, ih.unposted, ih.rounds.cons _, ih.chained⟩
      · rename_i hamount
        refine ⟨?_, ?_, ih.rounds.cons_cons _, .cons rfl rfl ih.chained⟩
        · intro line hline
          rcases List.mem_cons.mp hline with rfl | hline
          · exact ⟨roundHalfUp_mem_decimals _ _, hamount⟩
          · exact ih.rounded line hline
        · intro line hline
          rcases List.mem_cons.mp hline with rfl | hline
          · rfl
          · exact ih.unposted line hline

/-- The last round takes what is left. -/
theorem total_boardLines (hresidual : residual ∈ decimals f.digits) (hne : xs ≠ [])
    (hlast : ∀ x ∈ xs.getLast?, (x : ℤ) + 1 = undone) :
    total (f.boardLines c amountToDepr undone posted totalDays monthDay xs residual date) =
      residual := by
  induction xs generalizing residual date with
  | nil => exact absurd rfl hne
  | cons x xs ih =>
      rw [boardLines]
      cases xs with
      | nil =>
          have hround : ((x + 1 : ℕ) : ℤ) = undone := by
            rw [Nat.cast_add, Nat.cast_one]
            exact hlast x (by simp)
          simp only [computeBoardAmount, if_pos hround, roundHalfUp_of_mem_decimals hresidual]
          split
          · rename_i hzero
            rw [boardLines, total_nil, hzero]
          · rw [total_cons, boardLines, total_nil, add_zero]
      | cons y xs =>
          rw [List.getLast?_cons_cons] at hlast
          split
          · exact ih hresidual (List.cons_ne_nil y xs) hlast
          · have hrest := sub_mem hresidual (roundHalfUp_mem_decimals
              (f.computeBoardAmount c (x + 1) residual amountToDepr undone posted totalDays)
              f.digits)
            rw [total_cons, ih hrest (List.cons_ne_nil y xs) hlast]
            ring

/-- With manual dates the next line keeps the day of the first one, where the month has it. -/
theorem nextDate_manual (hmanual : f.dateFirstDepreciation = .manual)
    (hday : date.day = min (Date.monthDays date.months) monthDay) :
    f.nextDate monthDay date = ⟨date.months + f.methodPeriod,
      min (Date.monthDays (date.months + f.methodPeriod)) monthDay⟩ := by
  have h28 := Date.twentyEight_le_monthDays date.months
  simp only [nextDate, hmanual, and_true, reduceCtorEq, and_false, if_false]
  split
  · rfl
  · have hsame : date.day = monthDay := by omega
    rw [Date.addMonths, hsame]

theorem dates_boardLines (hmanual : f.dateFirstDepreciation = .manual)
    (hday : date.day = min (Date.monthDays date.months) monthDay) {k : ℕ} {line : Line}
    (hline : (f.boardLines c amountToDepr undone posted totalDays monthDay xs residual date)[k]? =
      some line) :
    line.depreciationDate = ⟨date.months + k * f.methodPeriod,
      min (Date.monthDays (date.months + k * f.methodPeriod)) monthDay⟩ := by
  induction xs generalizing residual date k with
  | nil => simp [boardLines] at hline
  | cons x xs ih =>
      rw [boardLines] at hline
      split at hline
      · exact ih hday hline
      · cases k with
        | zero =>
            obtain rfl := Option.some.inj hline
            rw [Nat.cast_zero, zero_mul, add_zero, ← hday]
        | succ k =>
            rw [List.getElem?_cons_succ] at hline
            have hnext := nextDate_manual hmanual hday
            have hmonths : date.months + f.methodPeriod + k * f.methodPeriod =
                date.months + (k + 1 : ℕ) * f.methodPeriod := by
              push_cast
              ring
            rw [ih (by rw [hnext]) hline, hnext, hmonths]

end Fields

namespace AccountAsset

variable {a : AccountAsset}

/-- The value and the posted amounts have the decimals of the currency. -/
structure Decimal (a : AccountAsset) : Prop where
  value : a.fields.value ∈ decimals a.fields.digits
  salvageValue : a.fields.salvageValue ∈ decimals a.fields.digits
  posted : ∀ line ∈ a.posted, line.amount ∈ decimals a.fields.digits

theorem total_mem_decimals {digits : ℕ} {lines : List Line}
    (h : ∀ line ∈ lines, line.amount ∈ decimals digits) : total lines ∈ decimals digits := by
  induction lines with
  | nil => exact zero_mem _
  | cons line lines ih =>
      rw [total_cons]
      exact add_mem (h line List.mem_cons_self) (ih fun l hl => h l (List.mem_cons_of_mem _ hl))

theorem Decimal.valueResidual (h : a.Decimal) : a.valueResidual ∈ decimals a.fields.digits :=
  sub_mem (sub_mem h.value (total_mem_decimals h.posted)) h.salvageValue

theorem exists_undoneDotationNb_eq (hperiod : 0 < a.fields.methodPeriod) :
    ∃ undone, a.undoneDotationNb c = some undone := by
  rw [undoneDotationNb, Fields.computeBoardUndoneDotationNb]
  cases a.fields.methodTime with
  | number => exact ⟨_, rfl⟩
  | endDate =>
      obtain ⟨count, hcount⟩ := exists_countPeriods_eq hperiod a.fields.methodEnd
        (n := ((a.fields.methodEnd.months -
          (a.fields.depreciationDate c a.lastPostedDate).months + 2).toNat + 1))
        (d := a.fields.depreciationDate c a.lastPostedDate) (by omega) (by omega)
      dsimp only
      rw [hcount]
      exact ⟨_, rfl⟩

theorem board_plannedLines {undone : ℤ} :
    a.fields.Board (List.range' a.posted.length (undone - a.posted.length).toNat) a.valueResidual
      (a.plannedLines c undone) :=
  Fields.board_boardLines

theorem total_plannedLines (h : a.Decimal) {undone : ℤ} (hleft : (a.posted.length : ℤ) < undone) :
    total (a.plannedLines c undone) = a.valueResidual := by
  refine Fields.total_boardLines h.valueResidual (fun hnil => ?_) fun x hx => ?_
  · have hlength := congrArg List.length hnil
    rw [List.length_range', List.length_nil] at hlength
    omega
  · rw [List.getLast?_range'] at hx
    split at hx
    · simp at hx
    · obtain rfl := Option.some.inj hx
      omega

theorem plannedLines_eq_nil {undone : ℤ} (hleft : ¬ (a.posted.length : ℤ) < undone) :
    a.plannedLines c undone = [] := by
  have hnone : (undone - a.posted.length).toNat = 0 := by omega
  rw [plannedLines, hnone]
  rfl

/-- The board keeps the posted lines and plans the rounds after them; all lines together make up
what there is to depreciate if nothing is left of it, or a round is left, and only then. -/
theorem computeDepreciationBoard_spec (c : Company) (hperiod : 0 < a.fields.methodPeriod)
    (h : a.Decimal) :
    ∃ undone planned, a.undoneDotationNb c = some undone ∧
      a.computeDepreciationBoard c = some { a with depreciationLines := a.posted ++ planned } ∧
      a.fields.Board (List.range' a.posted.length (undone - a.posted.length).toNat)
        a.valueResidual planned ∧
      (total (a.posted ++ planned) = a.fields.value - a.fields.salvageValue ↔
        a.valueResidual = 0 ∨ (a.posted.length : ℤ) < undone) := by
  obtain ⟨undone, hundone⟩ := exists_undoneDotationNb_eq (c := c) hperiod
  have hresidual : a.valueResidual = a.fields.value - total a.posted - a.fields.salvageValue := rfl
  by_cases hzero : a.valueResidual = 0
  · refine ⟨undone, [], hundone, ?_, ?_, ?_⟩
    · rw [computeDepreciationBoard, if_pos hzero, List.append_nil]
    · refine ⟨by simp, by simp, List.nil_sublist _, fun before line after heq => ?_⟩
      simp at heq
    · refine iff_of_true ?_ (.inl hzero)
      rw [List.append_nil]
      linarith
  · refine ⟨undone, a.plannedLines c undone, hundone, ?_, board_plannedLines, ?_⟩
    · rw [computeDepreciationBoard, if_neg hzero, hundone]
      rfl
    · rw [or_iff_right hzero, total_append]
      by_cases hleft : (a.posted.length : ℤ) < undone
      · refine iff_of_true ?_ hleft
        rw [total_plannedLines h hleft]
        linarith
      · refine iff_of_false (fun htotal => hzero ?_) hleft
        rw [plannedLines_eq_nil hleft, total_nil] at htotal
        linarith

/-- With manual dates the planned lines are a period apart, on the day of the first one, or on
the last day of a month without that day: the day does not get lost in a short month. -/
theorem planned_dates_do_not_drift (c : Company)
    (hmanual : a.fields.dateFirstDepreciation = .manual) {first : Date}
    (hfirst : a.fields.depreciationDate c a.lastPostedDate = first)
    (hvalid : first.day ≤ Date.monthDays first.months) {undone : ℤ} {k : ℕ} {line : Line}
    (hline : (a.plannedLines c undone)[k]? = some line) :
    line.depreciationDate = ⟨first.months + k * a.fields.methodPeriod,
      min (Date.monthDays (first.months + k * a.fields.methodPeriod)) first.day⟩ := by
  subst hfirst
  exact Fields.dates_boardLines hmanual (min_eq_right hvalid).symm hline

/-- A company whose fiscal year is the calendar year. -/
def calendarYear : Company where
  fiscalyearLastMonth := 12
  fiscalyearLastDay := 31
  dateTo d := ⟨d.year * 12 + 11, 31⟩

/-- A value of 100 in three monthly rounds. -/
def threeRounds : Fields where
  value := 100
  date := ⟨24240, 31⟩
  methodNumber := 3
  methodPeriod := 1
  methodEnd := ⟨24242, 31⟩

theorem hundred_mem_decimals : (100 : ℚ) ∈ decimals 2 :=
  mem_decimals_iff.mpr ⟨10000, by norm_num⟩

theorem computeDepreciationBoard_spec_of_three_rounds :
    ∃ planned, computeDepreciationBoard calendarYear { fields := threeRounds } =
      some { fields := threeRounds, depreciationLines := planned } ∧ total planned = 100 := by
  have hdecimal : Decimal { fields := threeRounds } :=
    ⟨hundred_mem_decimals, zero_mem _, by simp [posted]⟩
  obtain ⟨undone, planned, hundone, heq, -, htotal⟩ :=
    computeDepreciationBoard_spec calendarYear (by decide) hdecimal
  have hthree : (3 : ℤ) = undone := Option.some.inj hundone
  have hfull := htotal.mpr (.inr (by rw [← hthree]; decide))
  exact ⟨planned, heq, by simpa [posted, threeRounds] using hfull⟩

theorem planned_dates_do_not_drift_of_january :
    ∃ line, (plannedLines calendarYear { fields := threeRounds } 3)[2]? = some line ∧
      line.depreciationDate = ⟨24242, 31⟩ := by
  have hsome : ((plannedLines calendarYear { fields := threeRounds } 3)[2]?).isSome := by
    decide +kernel
  obtain ⟨line, hline⟩ := Option.isSome_iff_exists.mp hsome
  have hfirst : threeRounds.depreciationDate calendarYear
      (lastPostedDate { fields := threeRounds }) = ⟨24240, 31⟩ := by
    decide +kernel
  have hdate := planned_dates_do_not_drift calendarYear rfl hfirst (by decide) hline
  exact ⟨line, hline, hdate.trans (by decide)⟩

end AccountAsset

end Asset

end Fastrak
