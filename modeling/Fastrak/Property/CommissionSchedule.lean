import Fastrak.Withdraw.Commission

/-!
# Ambiguous commission schedules

The constraints order the bounds of each range and forbid two records with the same two
bounds, which leaves ranges that overlap. Two ordered ranges share an amount unless one ends
before the other starts, so a schedule is unambiguous as long as each step keeps the ranges
it writes apart from the other active ones.
-/

namespace Fastrak

open Transaction Run

namespace Commission

variable {table t : List Commission} {e : Event} {r r' : Commission}

/-- Every amount is in the range of one active record at most, and the lookup finds the same
record in whichever order the table is searched. -/
structure Unambiguous (table : List Commission) : Prop where
  length_search_le_one : ∀ amount, (Table.search (fun r => IsFor amount r) table).length ≤ 1
  lookup_eq_of_perm : ∀ amount table', table'.Perm table →
    lookup amount table' = lookup amount table

/-- One range ends before the other starts. -/
def Apart (r r' : Commission) : Prop := r.rangeTo < r'.rangeFrom ∨ r'.rangeTo < r.rangeFrom

theorem Apart.symm (h : r.Apart r') : r'.Apart r := Or.symm h

/-- The bounds of every range are ordered. -/
def Ordered (table : List Commission) : Prop := ∀ r ∈ table, r.rangeFrom ≤ r.rangeTo

/-- The ranges of different active records are apart. -/
def PairwiseApart (table : List Commission) : Prop :=
  ∀ (i j : ℕ) r r', i ≠ j → table[i]? = some r → table[j]? = some r' → r.active → r'.active →
    r.Apart r'

/-! ## Amounts and ranges -/

/-- Ordered ranges that are not apart have the larger of their lower bounds in common. -/
theorem apart_iff (hr : r.rangeFrom ≤ r.rangeTo) (hr' : r'.rangeFrom ≤ r'.rangeTo)
    (hactive : r.active) (hactive' : r'.active) :
    r.Apart r' ↔ ∀ amount, ¬ (IsFor amount r ∧ IsFor amount r') := by
  constructor
  · rintro (h | h) amount ⟨⟨-, hlo, hhi⟩, -, hlo', hhi'⟩
    · exact absurd (hlo'.trans hhi) (not_le.mpr h)
    · exact absurd (hlo.trans hhi') (not_le.mpr h)
  · intro h
    by_contra hno
    rw [Apart, not_or, not_lt, not_lt] at hno
    exact h (max r.rangeFrom r'.rangeFrom) ⟨⟨hactive, le_max_left .., max_le hr hno.1⟩,
      hactive', le_max_right .., max_le hno.2 hr'⟩

theorem sole_iff_pairwiseApart (h : Ordered table) :
    (∀ amount, Table.Sole (fun r => IsFor amount r) table) ↔ PairwiseApart table := by
  constructor
  · intro hsole i j r r' hne hr hr' hactive hactive'
    rw [apart_iff (h r (List.mem_of_getElem? hr)) (h r' (List.mem_of_getElem? hr')) hactive
      hactive']
    rintro amount ⟨hfor, hfor'⟩
    exact hne (hsole amount i j r r' hr (decide_eq_true hfor) hr' (decide_eq_true hfor'))
  · intro hapart amount i j r r' hr hfor hr' hfor'
    have hfor := of_decide_eq_true hfor
    have hfor' := of_decide_eq_true hfor'
    by_contra hne
    have hcommon := hapart i j r r' hne hr hr' hfor.1 hfor'.1
    rw [apart_iff (h r (List.mem_of_getElem? hr)) (h r' (List.mem_of_getElem? hr')) hfor.1
      hfor'.1] at hcommon
    exact hcommon amount ⟨hfor, hfor'⟩

/-- A search with one result at most has it in every order of the table. -/
theorem lookup_eq_of_perm {amount : ℚ} {table' : List Commission}
    (h : (Table.search (fun r => IsFor amount r) table).length ≤ 1) (hperm : table'.Perm table) :
    lookup amount table' = lookup amount table := by
  have hfound := hperm.filter fun r => IsFor amount r
  rw [Table.length_search] at h
  rw [lookup, lookup]
  rcases hs : table.filter (fun r => IsFor amount r) with _ | ⟨r, _ | ⟨r', rs⟩⟩
  · rw [hs] at hfound
    rw [hfound.eq_nil]
  · rw [hs] at hfound
    rw [List.perm_singleton.mp hfound]
  · rw [hs] at h
    simp at h

theorem unambiguous_iff_pairwiseApart (h : Ordered table) :
    Unambiguous table ↔ PairwiseApart table := by
  rw [← sole_iff_pairwiseApart h]
  constructor
  · exact fun hu amount => Table.length_search_le_one_iff.mp (hu.length_search_le_one amount)
  · intro hsole
    have hle := fun amount => Table.length_search_le_one_iff.mpr (hsole amount)
    exact ⟨hle, fun amount _ hperm => lookup_eq_of_perm (hle amount) hperm⟩

/-! ## Steps -/

/-- The constraint names both bounds, so that no step puts them out of order. -/
theorem Accepts.ordered (h : Accepts table e t) (hs : Ordered table) : Ordered t := by
  cases h with
  | created vals r hr _ hpasses =>
      intro r' hr'
      rcases List.mem_append.mp hr' with hr' | hr'
      · exact hs r' hr'
      · obtain rfl := List.mem_singleton.mp hr'
        have hfrom := (CommissionVals.record_eq_ok hr).2.1
        exact not_lt.mp (hpasses.range (.inl (by simp [hfrom])))
  | written self vals _ _ hpasses =>
      intro r' hr'
      obtain ⟨i, hi⟩ := List.mem_iff_getElem?.mp hr'
      obtain ⟨r, hr, ⟨hself, rfl⟩ | ⟨-, rfl⟩⟩ := Table.getElem?_assign_cases hi
      · have hold := hs r (List.mem_of_getElem? hr)
        by_cases hrange : vals.rangeFrom ≠ none ∨ vals.rangeTo ≠ none
        · exact not_lt.mp ((hpasses i hself r hr).range hrange)
        · rw [not_or, not_not, not_not] at hrange
          simpa [CommissionVals.apply, hrange.1, hrange.2] using hold
      · exact hs r (List.mem_of_getElem? hr)

theorem step_ordered (hs : Ordered table) (e : Event) : Ordered (step table e) := by
  rcases step_cases table e with h | ⟨-, h⟩
  · exact h.ordered hs
  · rwa [h]

/-- The step keeps the ranges that it writes apart from the other active ones: that of a
created record, and those of the written records where a bound is written or the records
are made active. -/
def KeepsApart (table : List Commission) : Event → Prop
  | .create vals => ∀ r, vals.record = .ok r → r.active → ∀ r' ∈ table, r'.active → r.Apart r'
  | .write self vals =>
      vals.rangeFrom ≠ none ∨ vals.rangeTo ≠ none ∨ vals.active = some true →
        ∀ i ∈ self, ∀ j r r', i ≠ j → table[i]? = some r →
          (Table.assign self vals.apply table)[j]? = some r' → (vals.apply r).active →
            r'.active → (vals.apply r).Apart r'

/-- A write of neither a bound nor the activity leaves the range as it was. -/
theorem range_of_not_moved {vals : CommissionVals} {self : List ℕ} {i : ℕ}
    (h : ¬ (vals.rangeFrom ≠ none ∨ vals.rangeTo ≠ none ∨ vals.active = some true))
    (hr' : (Table.assign self vals.apply table)[i]? = some r') (hactive : r'.active) :
    ∃ r, table[i]? = some r ∧ r.active ∧ r'.rangeFrom = r.rangeFrom ∧ r'.rangeTo = r.rangeTo := by
  rw [not_or, not_or, not_not, not_not] at h
  obtain ⟨hfrom, hto, hnone⟩ := h
  obtain ⟨r, hr, ⟨-, rfl⟩ | ⟨-, rfl⟩⟩ := Table.getElem?_assign_cases hr'
  · refine ⟨r, hr, ?_⟩
    cases hv : vals.active with
    | none => simp_all [CommissionVals.apply]
    | some a => cases a <;> simp_all [CommissionVals.apply]
  · exact ⟨r, hr, hactive, rfl, rfl⟩

theorem pairwiseApart_concat_iff (hs : PairwiseApart table) :
    PairwiseApart (table ++ [r]) ↔ (r.active → ∀ r' ∈ table, r'.active → r.Apart r') := by
  constructor
  · intro h hactive r' hr' hactive'
    obtain ⟨j, hj⟩ := List.mem_iff_getElem?.mp hr'
    have hlt : j < table.length := (List.getElem?_eq_some_iff.mp hj).1
    exact h table.length j r r' hlt.ne' List.getElem?_concat_length
      (Table.getElem?_append_of_some hj _) hactive hactive'
  · intro h i j r₁ r₂ hne h₁ h₂ hactive₁ hactive₂
    rcases Table.getElem?_concat_cases h₁ with hold₁ | ⟨hi, rfl⟩
    · rcases Table.getElem?_concat_cases h₂ with hold₂ | ⟨-, rfl⟩
      · exact hs i j r₁ r₂ hne hold₁ hold₂ hactive₁ hactive₂
      · exact (h hactive₂ r₁ (List.mem_of_getElem? hold₁) hactive₁).symm
    · rcases Table.getElem?_concat_cases h₂ with hold₂ | ⟨hj, -⟩
      · exact h hactive₁ r₂ (List.mem_of_getElem? hold₂) hactive₂
      · exact absurd (hi.trans hj.symm) hne

theorem pairwiseApart_assign_iff (hs : PairwiseApart table) {self : List ℕ}
    {vals : CommissionVals} :
    PairwiseApart (Table.assign self vals.apply table) ↔ KeepsApart table (.write self vals) := by
  constructor
  · intro h _ i hi j r r' hne hr hr' hactive hactive'
    have hget : (Table.assign self vals.apply table)[i]? = some (vals.apply r) := by
      simp [hr, hi]
    exact h i j _ r' hne hget hr' hactive hactive'
  · intro h
    by_cases hmoved : vals.rangeFrom ≠ none ∨ vals.rangeTo ≠ none ∨ vals.active = some true
    · have h := h hmoved
      intro i j r₁ r₂ hne h₁ h₂ hactive₁ hactive₂
      obtain ⟨a, ha, ⟨hi, rfl⟩ | ⟨-, rfl⟩⟩ := Table.getElem?_assign_cases h₁
      · exact h i hi j a r₂ hne ha h₂ hactive₁ hactive₂
      · obtain ⟨b, hb, ⟨hj, rfl⟩ | ⟨-, rfl⟩⟩ := Table.getElem?_assign_cases h₂
        · exact (h j hj i b a hne.symm hb h₁ hactive₂ hactive₁).symm
        · exact hs i j a b hne ha hb hactive₁ hactive₂
    · -- the ranges are as they were, and no record has become active
      intro i j r₁ r₂ hne h₁ h₂ hactive₁ hactive₂
      obtain ⟨a, ha, hactiveA, hfromA, htoA⟩ := range_of_not_moved hmoved h₁ hactive₁
      obtain ⟨b, hb, hactiveB, hfromB, htoB⟩ := range_of_not_moved hmoved h₂ hactive₂
      rw [Apart, hfromA, htoA, hfromB, htoB]
      exact hs i j a b hne ha hb hactiveA hactiveB

theorem Accepts.pairwiseApart_iff (h : Accepts table e t) (hs : PairwiseApart table) :
    PairwiseApart t ↔ KeepsApart table e := by
  cases h with
  | created vals r hr =>
      rw [pairwiseApart_concat_iff hs]
      constructor
      · intro h r' hr'
        cases hr.symm.trans hr'
        exact h
      · exact fun h => h r hr
  | written self vals => exact pairwiseApart_assign_iff hs

/-- A refused step is none, and an accepted one has to keep the ranges apart. -/
theorem step_unambiguous_iff (hordered : Ordered table) (hs : Unambiguous table) (e : Event) :
    Unambiguous (step table e) ↔ ((∃ t, Accepts table e t) → KeepsApart table e) := by
  rw [unambiguous_iff_pairwiseApart hordered] at hs
  rw [unambiguous_iff_pairwiseApart (step_ordered hordered e)]
  exact step_iff hs fun _ h => h.pairwiseApart_iff hs

/-- Along a run of creates and writes the schedule is unambiguous if and only if every
accepted step keeps the ranges that it writes apart from the other active ones. -/
theorem unambiguous_along_run_iff (es : List Event) :
    (∀ es', es' <+: es → Unambiguous (run step [] es')) ↔
      Meets step (fun table e => (∃ t, Accepts table e t) → KeepsApart table e) [] es := by
  have hnil : Unambiguous [] := by
    rw [unambiguous_iff_pairwiseApart (by simp [Ordered])]
    simp [PairwiseApart]
  exact forall_prefix_iff_meets_of_invariant (J := Ordered) (fun s e hs => step_ordered hs e)
    (fun _ e hordered hs => step_unambiguous_iff hordered hs e) es (by simp [Ordered]) hnil

/-- Two adjacent ranges that share their end point are accepted, and 100 is in both. -/
theorem adjacent_ranges_ambiguous :
    ¬ Unambiguous (run step []
      [.create { commissionType := some .amount, rangeFrom := some 0, rangeTo := some 100,
                 commissionAmount := some 5 },
       .create { commissionType := some .percent, rangeFrom := some 100, rangeTo := some 200,
                 commissionPercentage := some 10 }]) := fun h =>
  absurd (h.length_search_le_one 100) (by decide +kernel)

end Commission

end Fastrak
