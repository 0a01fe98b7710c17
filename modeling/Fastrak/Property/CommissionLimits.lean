import Fastrak.Property.CommissionSchedule

/-!
# Commissions outside their limits

The two checks on the figures of a commission name the figure only, and pass over a figure of
zero. So a figure that is out of its limits is stored by a step that does not write it: by a
switch of the type, or by an upper bound that falls below the amount.
-/

namespace Fastrak

open Transaction Run

namespace Commission

variable {table t : List Commission} {e : Event} {r : Commission} {vals : CommissionVals}

structure WithinLimits (r : Commission) : Prop where
  range : r.rangeFrom ≤ r.rangeTo
  amount : r.commissionType = .amount → 0 ≤ r.commissionAmount ∧ r.commissionAmount ≤ r.rangeTo
  percentage : r.commissionType = .percent →
    0 ≤ r.commissionPercentage ∧ r.commissionPercentage ≤ 100

/-- What the constraints do not look at when `vals` are written on `r`: the limits of a figure
that is not written, where the type is written or, for an amount, the upper bound; and
the upper bound of an amount that is written as zero. -/
structure UncheckedWithin (vals : CommissionVals) (r : Commission) : Prop where
  percentage : vals.commissionPercentage = none → vals.commissionType = some .percent →
    0 ≤ r.commissionPercentage ∧ r.commissionPercentage ≤ 100
  amount : vals.commissionAmount = none →
    vals.commissionType = some .amount ∨
        (vals.apply r).commissionType = .amount ∧ vals.rangeTo ≠ none →
      0 ≤ r.commissionAmount ∧ r.commissionAmount ≤ (vals.apply r).rangeTo
  zero : vals.commissionAmount = some 0 → (vals.apply r).commissionType = .amount →
    0 ≤ (vals.apply r).rangeTo

/-- The step leaves no figure outside the limits that the constraints do not look at. A record
is created with a figure of zero where none is given. -/
def KeepsUnchecked (table : List Commission) : Event → Prop
  | .create vals => vals.commissionType = some .amount → vals.commissionAmount.getD 0 = 0 →
      ∀ rangeTo, vals.rangeTo = some rangeTo → 0 ≤ rangeTo
  | .write self vals => ∀ i ∈ self, ∀ r, table[i]? = some r → UncheckedWithin vals r

theorem amount_le_of_not_wrong (h : ¬ r.IsAmountWrong) (htype : r.commissionType = .amount)
    (hne : r.commissionAmount ≠ 0) : 0 ≤ r.commissionAmount ∧ r.commissionAmount ≤ r.rangeTo := by
  by_contra hno
  rw [not_and_or, not_le, not_le] at hno
  exact h ⟨htype, hne, hno⟩

theorem percentage_le_of_not_wrong (h : ¬ r.IsPercentageWrong)
    (htype : r.commissionType = .percent) :
    0 ≤ r.commissionPercentage ∧ r.commissionPercentage ≤ 100 := by
  by_cases hzero : r.commissionPercentage = 0
  · rw [hzero]
    exact ⟨le_refl 0, by decide⟩
  · by_contra hno
    rw [not_and_or, not_le, not_le] at hno
    exact h ⟨htype, hzero, hno⟩

/-! ## Writes -/

theorem withinLimits_apply_amount (hr : r.WithinLimits) (hpasses : vals.Passes (vals.apply r))
    (h : UncheckedWithin vals r) (htype : (vals.apply r).commissionType = .amount) :
    0 ≤ (vals.apply r).commissionAmount ∧
      (vals.apply r).commissionAmount ≤ (vals.apply r).rangeTo := by
  cases hamount : vals.commissionAmount with
  | some a =>
      have hwritten : (vals.apply r).commissionAmount = a := by simp [CommissionVals.apply, hamount]
      by_cases hzero : a = 0
      · rw [hwritten, hzero]
        exact ⟨le_refl 0, h.zero (hzero ▸ hamount) htype⟩
      · exact amount_le_of_not_wrong (hpasses.amount (by simp [hamount])) htype
          (hwritten.trans_ne hzero)
  | none =>
      have hkept : (vals.apply r).commissionAmount = r.commissionAmount := by
        simp [CommissionVals.apply, hamount]
      rw [hkept]
      cases hwritten : vals.commissionType with
      | some type =>
          have heq : type = .amount := by simpa [CommissionVals.apply, hwritten] using htype
          exact h.amount hamount (.inl (heq ▸ hwritten))
      | none =>
          by_cases hto : vals.rangeTo = none
          · have hbound : (vals.apply r).rangeTo = r.rangeTo := by simp [CommissionVals.apply, hto]
            rw [hbound]
            exact hr.amount (by simpa [CommissionVals.apply, hwritten] using htype)
          · exact h.amount hamount (.inr ⟨htype, hto⟩)

theorem withinLimits_apply_percentage (hr : r.WithinLimits)
    (hpasses : vals.Passes (vals.apply r)) (h : UncheckedWithin vals r)
    (htype : (vals.apply r).commissionType = .percent) :
    0 ≤ (vals.apply r).commissionPercentage ∧ (vals.apply r).commissionPercentage ≤ 100 := by
  by_cases hnone : vals.commissionPercentage = none
  · have hkept : (vals.apply r).commissionPercentage = r.commissionPercentage := by
      simp [CommissionVals.apply, hnone]
    rw [hkept]
    cases hwritten : vals.commissionType with
    | some type =>
        have heq : type = .percent := by simpa [CommissionVals.apply, hwritten] using htype
        exact h.percentage hnone (heq ▸ hwritten)
    | none => exact hr.percentage (by simpa [CommissionVals.apply, hwritten] using htype)
  · exact percentage_le_of_not_wrong (hpasses.percentage hnone) htype

/-- A write that the constraints accept keeps the limits if and only if it does so where they
do not look. -/
theorem withinLimits_apply_iff (hr : r.WithinLimits) (hpasses : vals.Passes (vals.apply r)) :
    (vals.apply r).WithinLimits ↔ UncheckedWithin vals r := by
  constructor
  · intro h
    refine ⟨fun hnone hwritten => ?_, fun hnone hwritten => ?_, fun hzero htype => ?_⟩
    · have hp := h.percentage (by simp [CommissionVals.apply, hwritten])
      simpa [CommissionVals.apply, hnone] using hp
    · have ha := h.amount (by
        rcases hwritten with hwritten | ⟨htype, -⟩
        · simp [CommissionVals.apply, hwritten]
        · exact htype)
      simpa [CommissionVals.apply, hnone] using ha
    · have ha := h.amount htype
      exact ha.1.trans ha.2
  · intro h
    refine ⟨?_, withinLimits_apply_amount hr hpasses h, withinLimits_apply_percentage hr hpasses h⟩
    by_cases hrange : vals.rangeFrom ≠ none ∨ vals.rangeTo ≠ none
    · exact not_lt.mp (hpasses.range hrange)
    · rw [not_or, not_not, not_not] at hrange
      simpa [CommissionVals.apply, hrange.1, hrange.2] using hr.range

/-! ## Creates -/

theorem withinLimits_record_iff (hrecord : vals.record = .ok r) (hpasses : vals.Passes r) :
    r.WithinLimits ↔ KeepsUnchecked table (.create vals) := by
  obtain ⟨htype, hfrom, hto, hamount, hpercentage⟩ := CommissionVals.record_eq_ok hrecord
  have hkeeps : KeepsUnchecked table (.create vals) ↔
      (r.commissionType = .amount → r.commissionAmount = 0 → 0 ≤ r.rangeTo) := by
    simp only [KeepsUnchecked, htype, hto, hamount, Option.some.injEq, forall_eq']
  rw [hkeeps]
  constructor
  · intro h hisamount _
    have ha := h.amount hisamount
    exact ha.1.trans ha.2
  · intro h
    refine ⟨not_lt.mp (hpasses.range (.inl (by simp [hfrom]))), fun hisamount => ?_,
      fun hispercent => ?_⟩
    · by_cases hzero : r.commissionAmount = 0
      · rw [hzero]
        exact ⟨le_refl 0, h hisamount hzero⟩
      · refine amount_le_of_not_wrong (hpasses.amount fun hnone => hzero ?_) hisamount hzero
        rw [← hamount, hnone, Option.getD_none]
    · by_cases hnone : vals.commissionPercentage = none
      · rw [← hpercentage, hnone, Option.getD_none]
        exact ⟨le_refl 0, by decide⟩
      · exact percentage_le_of_not_wrong (hpasses.percentage hnone) hispercent

/-! ## Runs -/

/-- Every stored commission satisfies its limits. -/
def AllWithinLimits (table : List Commission) : Prop := ∀ r ∈ table, r.WithinLimits

theorem Accepts.allWithinLimits_iff (h : Accepts table e t) (hs : AllWithinLimits table) :
    AllWithinLimits t ↔ KeepsUnchecked table e := by
  cases h with
  | created vals r hr _ hpasses =>
      rw [← withinLimits_record_iff hr hpasses, AllWithinLimits, List.forall_mem_append,
        List.forall_mem_singleton]
      exact and_iff_right hs
  | written self vals _ _ hpasses =>
      constructor
      · intro h i hi r hr
        have hget : (Table.assign self vals.apply table)[i]? = some (vals.apply r) := by
          simp [hr, hi]
        exact (withinLimits_apply_iff (hs r (List.mem_of_getElem? hr)) (hpasses i hi r hr)).mp
          (h _ (List.mem_of_getElem? hget))
      · intro h r' hr'
        obtain ⟨i, hget⟩ := List.mem_iff_getElem?.mp hr'
        obtain ⟨r, hr, ⟨hi, rfl⟩ | ⟨-, rfl⟩⟩ := Table.getElem?_assign_cases hget
        · have hold := hs r (List.mem_of_getElem? hr)
          exact (withinLimits_apply_iff hold (hpasses i hi r hr)).mpr (h i hi r hr)
        · exact hs r (List.mem_of_getElem? hr)

theorem step_allWithinLimits_iff (hs : AllWithinLimits table) (e : Event) :
    AllWithinLimits (step table e) ↔ ((∃ t, Accepts table e t) → KeepsUnchecked table e) :=
  step_iff hs fun _ h => h.allWithinLimits_iff hs

/-- Along a run of creates and writes the stored commissions satisfy their limits if and only
if every accepted step keeps those that the constraints do not look at. -/
theorem limits_along_run_iff (es : List Event) :
    (∀ es', es' <+: es → AllWithinLimits (run step [] es')) ↔
      Meets step (fun table e => (∃ t, Accepts table e t) → KeepsUnchecked table e) [] es :=
  forall_prefix_iff_meets (I := AllWithinLimits) (fun _ e hs => step_allWithinLimits_iff hs e) es
    (by simp [AllWithinLimits])

/-- A percentage of 150 that is stored with a fixed amount becomes the commission by a switch
of the type. -/
theorem switched_type_outside_limits :
    ¬ AllWithinLimits (run step []
      [.create { commissionType := some .amount, rangeFrom := some 0, rangeTo := some 100,
                 commissionAmount := some 5, commissionPercentage := some 150 },
       .write [0] { commissionType := some .percent }]) := fun h =>
  absurd ((h _ List.mem_cons_self).percentage (by decide +kernel)).2 (by decide +kernel)

end Commission

end Fastrak
