import Fastrak.GroupInvoice.PenaltyEffect

/-!
# The nightly penalties

The job writes on every late group invoice the penalty of all the days since it was due, and
touches no other one. It is a function of the day and of the total, so that running it again
changes nothing and a later night gives a higher penalty. A penalty that has been entered
before the group invoice is late is lost.
-/

namespace Fastrak

open Transaction Rounding

/-- `float_round` rounds to a nearest integer, and what is larger is not rounded to less. -/
structure Accounting.RoundsToIntegers (ac : Accounting) (tolerance : ℚ → ℚ) : Prop extends
    RoundsNearest 0 tolerance ac.floatRound where
  mono : Monotone ac.floatRound

theorem Accounting.sample_roundsToIntegers :
    Accounting.sample.RoundsToIntegers fun _ => 0 where
  toRoundsNearest := roundHalfUp_roundsNearest 0
  mono _ _ h := roundHalfUp_mono h 0

namespace PenaltyGroup

variable {ac : Accounting} {tolerance : ℚ → ℚ} {s t u : PenaltyRecords} {moves : List Move}
  {today later : ℤ} {g : PenaltyGroup}

/-- The penalty that is calculated on a day. -/
def penaltyOn (ac : Accounting) (moves : List Move) (today : ℤ) (g : PenaltyGroup) : ℚ :=
  g.calculatedPenalty ac moves (today - g.dueAt)

/-- What a day of delay costs, in floats. -/
theorem dailyPenalty_nonneg (htotal : 0 ≤ g.totalAmount ac moves) :
    0 ≤ Arithmetic.double.mul (g.totalAmount ac moves) (Arithmetic.double.div g.penaltyRate 100) :=
  Arithmetic.double.mul_nonneg htotal
    (Arithmetic.double.div_nonneg g.penaltyRate_mem.1 (by norm_num))

theorem penaltyOn_nonneg (hac : ac.RoundsToIntegers tolerance)
    (htotal : 0 ≤ g.totalAmount ac moves) (hlate : g.IsLate today) :
    0 ≤ g.penaltyOn ac moves today := by
  have hdays : (0 : ℚ) ≤ (today - g.dueAt : ℤ) := by exact_mod_cast hlate.2.le
  have hraw : 0 ≤ g.rawPenalty ac moves (today - g.dueAt) :=
    Arithmetic.double.mul_nonneg hdays (dailyPenalty_nonneg htotal)
  exact hac.zero.symm.le.trans (hac.mono hraw)

theorem penaltyOn_mono (hac : ac.RoundsToIntegers tolerance)
    (htotal : 0 ≤ g.totalAmount ac moves) (h : today ≤ later) :
    g.penaltyOn ac moves today ≤ g.penaltyOn ac moves later := by
  have hdays : ((today - g.dueAt : ℤ) : ℚ) ≤ (later - g.dueAt : ℤ) := by
    exact_mod_cast Int.sub_le_sub_right h g.dueAt
  exact hac.mono (Arithmetic.double.mul_le_mul_right hdays (dailyPenalty_nonneg htotal))

/-! ## One night -/

/-- What the job writes on a group invoice. -/
def delay (ac : Accounting) (moves : List Move) (today : ℤ) (g : PenaltyGroup) : PenaltyGroup :=
  if h : 0 ≤ g.penaltyOn ac moves today then (g.setState .delayed).setPenaltyAmount _ h else g

theorem delay_of_nonneg (h : 0 ≤ g.penaltyOn ac moves today) :
    g.delay ac moves today = (g.setState .delayed).setPenaltyAmount _ h := dif_pos h

/-- A night on a group invoice. -/
def nightly (ac : Accounting) (moves : List Move) (today : ℤ) (g : PenaltyGroup) :
    PenaltyGroup :=
  if g.IsLate today then g.delay ac moves today else g

theorem nightly_of_late (hac : ac.RoundsToIntegers tolerance)
    (htotal : 0 ≤ g.totalAmount ac moves) (hlate : g.IsLate today) :
    nightly ac moves today g =
      (g.setState .delayed).setPenaltyAmount _ (penaltyOn_nonneg hac htotal hlate) := by
  rw [nightly, if_pos hlate, delay_of_nonneg]

theorem nightly_of_not_late (h : ¬ g.IsLate today) : nightly ac moves today g = g := if_neg h

@[simp] theorem delay_totalAmount (moves' : List Move) :
    (g.delay ac moves today).totalAmount ac moves' = g.totalAmount ac moves' := by
  unfold delay
  split <;> rfl

@[simp] theorem delay_penaltyOn (moves' : List Move) (later : ℤ) :
    (g.delay ac moves today).penaltyOn ac moves' later = g.penaltyOn ac moves' later := by
  unfold delay
  split <;> rfl

@[simp] theorem nightly_totalAmount (moves' : List Move) :
    (nightly ac moves today g).totalAmount ac moves' = g.totalAmount ac moves' := by
  unfold nightly
  split
  · exact delay_totalAmount moves'
  · rfl

@[simp] theorem nightly_penaltyOn (moves' : List Move) (later : ℤ) :
    (nightly ac moves today g).penaltyOn ac moves' later = g.penaltyOn ac moves' later := by
  unfold nightly
  split
  · exact delay_penaltyOn moves' later
  · rfl

theorem calculatePenalty_singleton_run {id : ℕ} (hg : s.groups[id]? = some g) {amount : ℚ}
    (hamount : g.penaltyOn ac s.moves today = amount) (h : 0 ≤ amount) :
    (calculatePenalty ac today [id]).run s =
      .ok ⟨⟩ (s.modifyGroup id (setPenaltyAmount amount h)) := by
  subst hamount
  rw [calculatePenalty, self_bind_run hg, EStateM.run_bind, calculatePenaltyAmount_run hg h]
  rfl

/-- The two writes of a round are one. -/
theorem calculateTargets_cons_run {id : ℕ} (hg : s.groups[id]? = some g)
    (h : 0 ≤ g.penaltyOn ac s.moves today) (ids : List ℕ) :
    (calculateTargets ac today (id :: ids)).run s =
      (calculateTargets ac today ids).run (s.modifyGroup id (delay ac s.moves today)) := by
  have hstate : (s.modifyGroup id (setState .delayed)).groups[id]? =
      some (g.setState .delayed) := by
    rw [PenaltyRecords.modifyGroup, Table.getElem?_modify_of_some hg, if_pos rfl]
  have hround : (s.modifyGroup id (setState .delayed)).modifyGroup id (setPenaltyAmount _ h) =
      s.modifyGroup id (delay ac s.moves today) := by
    unfold PenaltyRecords.modifyGroup
    rw [List.modify_modify_eq, Table.modify_eq_set_of_some hg (_ ∘ _),
      Table.modify_eq_set_of_some hg (delay ac s.moves today), delay_of_nonneg h]
    rfl
  rw [calculateTargets, toggleStateDelayed, modify_bind_run, EStateM.run_bind,
    calculatePenalty_singleton_run hstate rfl h, ← hround]
  rfl

theorem calculateTargets_run {ids : List ℕ} (h : ∀ id ∈ ids, ∃ g, s.groups[id]? = some g ∧
      0 ≤ g.penaltyOn ac s.moves today) :
    (calculateTargets ac today ids).run s = .ok ⟨⟩
      { s with groups :=
          ids.foldl (fun groups id => groups.modify id (delay ac s.moves today)) s.groups } := by
  induction ids generalizing s with
  | nil => rfl
  | cons id ids ih =>
      obtain ⟨⟨g, hg, hpenalty⟩, hids⟩ := List.forall_mem_cons.mp h
      rw [calculateTargets_cons_run hg hpenalty]
      refine ih fun i hi => ?_
      obtain ⟨g', hg', hpenalty'⟩ := hids i hi
      refine ⟨_, Table.getElem?_modify_of_some hg' id (delay ac s.moves today), ?_⟩
      split
      · exact (delay_penaltyOn s.moves today).symm ▸ hpenalty'
      · exact hpenalty'

/-- No total is negative. -/
def HasNonnegTotals (ac : Accounting) (s : PenaltyRecords) : Prop :=
  ∀ g ∈ s.groups, 0 ≤ g.totalAmount ac s.moves

theorem scheduledPenaltyCalculator_run (hac : ac.RoundsToIntegers tolerance)
    (hs : HasNonnegTotals ac s) (today : ℤ) :
    (scheduledPenaltyCalculator ac today).run s =
      .ok ⟨⟩ { s with groups := s.groups.map (nightly ac s.moves today) } := by
  rw [scheduledPenaltyCalculator, get_bind_run]
  dsimp only
  rw [calculateTargets_run, Table.foldl_modify_search]
  · simp only [decide_eq_true_eq]
    rfl
  · intro id hid
    obtain ⟨g, hg, hlate⟩ := Table.mem_search_iff.mp hid
    exact ⟨g, hg, penaltyOn_nonneg hac (hs g (List.mem_of_getElem? hg)) (of_decide_eq_true hlate)⟩

/-- The float product of the days, the total and the rate. -/
def penaltyProduct (ac : Accounting) (moves : List Move) (today : ℤ) (g : PenaltyGroup) : ℚ :=
  Double.round ((today - g.dueAt : ℤ) *
    Double.round (g.totalAmount ac moves * Double.round (g.penaltyRate / 100)))

/-- A night writes the state and the penalty of the late group invoices and nothing else. The
penalty is the product, rounded to an integer. -/
structure NightlyRun (ac : Accounting) (tolerance : ℚ → ℚ) (today : ℤ) (s t : PenaltyRecords) :
    Prop where
  moves : t.moves = s.moves
  length : t.groups.length = s.groups.length
  late : ∀ (id : ℕ) g, s.groups[id]? = some g → g.state = .unpaid ∨ g.state = .delayed →
    g.dueAt < today → ∃ amount, ∃ h : 0 ≤ amount,
      t.groups[id]? = some ((g.setState .delayed).setPenaltyAmount amount h) ∧
        amount = ac.floatRound (g.penaltyProduct ac s.moves today) ∧ (∃ n : ℤ, amount = n) ∧
        |amount - g.penaltyProduct ac s.moves today| ≤
          1 / 2 + tolerance (g.penaltyProduct ac s.moves today)
  others : ∀ (id : ℕ) g, s.groups[id]? = some g →
    ¬ ((g.state = .unpaid ∨ g.state = .delayed) ∧ g.dueAt < today) → t.groups[id]? = some g

theorem isLate_iff :
    g.IsLate today ↔ (g.state = .unpaid ∨ g.state = .delayed) ∧ g.dueAt < today := by
  rw [IsLate, Int.sub_pos]

theorem nightlyRun_map (hac : ac.RoundsToIntegers tolerance) (hs : HasNonnegTotals ac s)
    (today : ℤ) :
    NightlyRun ac tolerance today s
      { s with groups := s.groups.map (nightly ac s.moves today) } := by
  refine ⟨rfl, List.length_map _, fun id g hg hstate hdue => ?_, fun id g hg hother => ?_⟩
  · have hlate : g.IsLate today := isLate_iff.mpr ⟨hstate, hdue⟩
    have htotal := hs g (List.mem_of_getElem? hg)
    have hnear := hac.near (g.penaltyProduct ac s.moves today)
    rw [pow_zero, div_one] at hnear
    refine ⟨_, penaltyOn_nonneg hac htotal hlate, ?_, rfl, ?_, hnear⟩
    · rw [List.getElem?_map, hg, Option.map_some, nightly_of_late hac htotal hlate]
    · obtain ⟨n, hn⟩ := mem_decimals_iff.mp (hac.mem_decimals (g.penaltyProduct ac s.moves today))
      exact ⟨n, by rwa [pow_zero, mul_one] at hn⟩
  · rw [List.getElem?_map, hg, Option.map_some,
      nightly_of_not_late fun h => hother (isLate_iff.mp h)]

/-! ## Two nights -/

theorem nightly_penaltyAmount (hac : ac.RoundsToIntegers tolerance)
    (htotal : 0 ≤ g.totalAmount ac moves) :
    (nightly ac moves today g).penaltyAmount =
      if g.IsLate today then g.penaltyOn ac moves today else g.penaltyAmount := by
  by_cases hlate : g.IsLate today
  · rw [nightly_of_late hac htotal hlate, if_pos hlate]
    rfl
  · rw [nightly_of_not_late hlate, if_neg hlate]

/-- What is late stays late. -/
theorem isLate_nightly (hac : ac.RoundsToIntegers tolerance)
    (htotal : 0 ≤ g.totalAmount ac moves) (hlate : g.IsLate today) (h : today ≤ later) :
    (nightly ac moves today g).IsLate later := by
  rw [nightly_of_late hac htotal hlate]
  exact ⟨.inr rfl, hlate.2.trans_le (Int.sub_le_sub_right h g.dueAt)⟩

/-- A second time, the state and the penalty are already there. -/
theorem nightly_nightly (hac : ac.RoundsToIntegers tolerance)
    (htotal : 0 ≤ g.totalAmount ac moves) :
    nightly ac moves today (nightly ac moves today g) = nightly ac moves today g := by
  by_cases hlate : g.IsLate today
  · have htotal' : 0 ≤ (nightly ac moves today g).totalAmount ac moves := by
      rwa [nightly_totalAmount]
    rw [nightly_of_late hac htotal' (isLate_nightly hac htotal hlate le_rfl)]
    simp only [nightly_of_late hac htotal hlate]
    rfl
  · rw [nightly_of_not_late hlate, nightly_of_not_late hlate]

/-- The group invoice becomes late between the two days, and its penalty is higher than the
one that is then calculated. -/
def LosesPenalty (ac : Accounting) (moves : List Move) (today later : ℤ) (g : PenaltyGroup) :
    Prop :=
  ¬ g.IsLate today ∧ g.IsLate later ∧ g.penaltyOn ac moves later < g.penaltyAmount

/-- Only the total of the group invoice is read of the account moves. -/
theorem penaltyOn_congr {moves' : List Move}
    (h : g.totalAmount ac moves' = g.totalAmount ac moves) (today : ℤ) :
    g.penaltyOn ac moves' today = g.penaltyOn ac moves today := by
  rw [penaltyOn, calculatedPenalty, rawPenalty, h]
  rfl

theorem penaltyAmount_le_nightly_iff (hac : ac.RoundsToIntegers tolerance) {moves' : List Move}
    (htotal : 0 ≤ g.totalAmount ac moves)
    (heq : g.totalAmount ac moves' = g.totalAmount ac moves) (h : today ≤ later) :
    (nightly ac moves today g).penaltyAmount ≤
        (nightly ac moves' later (nightly ac moves today g)).penaltyAmount ↔
      ¬ LosesPenalty ac moves today later g := by
  have htotal' : 0 ≤ (nightly ac moves today g).totalAmount ac moves' := by
    rwa [nightly_totalAmount, heq]
  rw [nightly_penaltyAmount hac htotal', nightly_penaltyOn, penaltyOn_congr heq]
  by_cases hlate : g.IsLate today
  · refine iff_of_true ?_ fun hloses => hloses.1 hlate
    rw [nightly_penaltyAmount hac htotal, if_pos hlate, if_pos (isLate_nightly hac htotal hlate h)]
    exact penaltyOn_mono hac htotal h
  · rw [nightly_of_not_late hlate, LosesPenalty]
    by_cases hlate' : g.IsLate later
    · simp [hlate, hlate']
    · simp [hlate']

/-- The group invoices are those of `t`, and no total has changed. -/
def SameTotals (ac : Accounting) (t u : PenaltyRecords) : Prop :=
  u.groups = t.groups ∧ ∀ g ∈ t.groups, g.totalAmount ac u.moves = g.totalAmount ac t.moves

theorem nightly_totals {u : PenaltyRecords} (hu : SameTotals ac
      { s with groups := s.groups.map (nightly ac s.moves today) } u) {g : PenaltyGroup}
    (hg : g ∈ s.groups) : g.totalAmount ac u.moves = g.totalAmount ac s.moves := by
  have h := hu.2 _ (List.mem_map_of_mem hg)
  rwa [nightly_totalAmount, nightly_totalAmount] at h

theorem HasNonnegTotals.of_sameTotals (hs : HasNonnegTotals ac s) {u : PenaltyRecords}
    (hu : SameTotals ac { s with groups := s.groups.map (nightly ac s.moves today) } u) :
    HasNonnegTotals ac u := by
  intro g' hg'
  rw [hu.1] at hg'
  obtain ⟨g, hg, rfl⟩ := List.mem_map.mp hg'
  rw [nightly_totalAmount, nightly_totals hu hg]
  exact hs g hg

/-- A night raises no exception, writes the penalties of the late group invoices, and changes
nothing when it is repeated on the same day. While the totals stay as they are, a night on a
later day lowers no penalty but that of a group invoice that has only become late in
between. -/
theorem nightly_run_is_exact (hac : ac.RoundsToIntegers tolerance) (hs : HasNonnegTotals ac s)
    (today : ℤ) :
    ∃ t, (scheduledPenaltyCalculator ac today).run s = .ok ⟨⟩ t ∧
      NightlyRun ac tolerance today s t ∧
      (scheduledPenaltyCalculator ac today).run t = .ok ⟨⟩ t ∧
      ∀ u, SameTotals ac t u → ∀ later, today ≤ later →
        ∃ t', (scheduledPenaltyCalculator ac later).run u = .ok ⟨⟩ t' ∧
          ∀ (id : ℕ) g h h', s.groups[id]? = some g → u.groups[id]? = some h →
            t'.groups[id]? = some h' →
              (h.penaltyAmount ≤ h'.penaltyAmount ↔ ¬ LosesPenalty ac s.moves today later g) := by
  refine ⟨_, scheduledPenaltyCalculator_run hac hs today, nightlyRun_map hac hs today, ?_, ?_⟩
  · have htotals : SameTotals ac { s with groups := s.groups.map (nightly ac s.moves today) }
        { s with groups := s.groups.map (nightly ac s.moves today) } := ⟨rfl, fun _ _ => rfl⟩
    rw [scheduledPenaltyCalculator_run hac (hs.of_sameTotals htotals), List.map_map]
    have hmap : s.groups.map (nightly ac s.moves today ∘ nightly ac s.moves today) =
        s.groups.map (nightly ac s.moves today) :=
      List.map_congr_left fun g hg => nightly_nightly hac (hs g hg)
    rw [hmap]
  · intro u hu later hle
    refine ⟨_, scheduledPenaltyCalculator_run hac (hs.of_sameTotals hu) later, ?_⟩
    intro id g h h' hg hh hh'
    have hmem := List.mem_of_getElem? hg
    rw [hu.1, List.getElem?_map, hg, Option.map_some, Option.some.injEq] at hh
    rw [hu.1, List.getElem?_map, List.getElem?_map, hg, Option.map_some, Option.map_some,
      Option.some.injEq] at hh'
    rw [← hh', ← hh]
    exact penaltyAmount_le_nightly_iff hac (hs g hmem) (nightly_totals hu hmem) hle

def invoiceOf (amount : ℚ) : Move where
  moveType := .outInvoice
  ref := "A"
  state := .posted
  invoiceLineIds := [{ productId := some 1, name := "Shipping Fees", quantity := 1,
                       priceUnit := amount }]

/-- A group invoice of one invoice that is due on day 10, with the given penalty. -/
def dueAtRate (amount : ℚ) (rate : Set.Icc (0 : ℚ) 100) (penaltyAmount : ℚ)
    (h : 0 ≤ penaltyAmount) : PenaltyRecords where
  moves := [invoiceOf amount]
  groups :=
    [{ customer := 1, fromDate := 0, toDate := 0, fromDate_le_toDate := le_rfl, invoiceIds := [0],
       printDate := 0, dueAt := 10, printDate_le_dueAt := by norm_num, penaltyRate := rate,
       penaltyRate_mem := rate.2, penaltyAmount, penaltyAmount_nonneg := h }]

/-- A group invoice of 100 at the default rate. -/
def dueOnDayTen (penaltyAmount : ℚ) (h : 0 ≤ penaltyAmount) : PenaltyRecords :=
  dueAtRate 100 ⟨1, by norm_num⟩ penaltyAmount h

theorem dueAtRate_hasNonnegTotals {amount : ℚ} (hamount : 0 ≤ amount)
    (rate : Set.Icc (0 : ℚ) 100) {penaltyAmount : ℚ} (h : 0 ≤ penaltyAmount) :
    HasNonnegTotals .sample (dueAtRate amount rate penaltyAmount h) := by
  intro g hg
  rw [List.mem_singleton.mp hg]
  refine Arithmetic.double.add_nonneg le_rfl (Arithmetic.double.round_nonneg ?_)
  simpa [Accounting.total, Accounting.sample, dueAtRate, invoiceOf] using
    roundHalfUp_nonneg hamount 2

/-- A penalty of 50 that is entered before the group invoice is late is 1 after one day. On day
20, a group invoice of 1500 at 4.77 % has a penalty of 715 in floats, and of 716 in decimals. -/
theorem entered_penalty_decreases :
    let s := dueOnDayTen 50 (by decide)
    let s' := dueAtRate 1500 ⟨Double.round 4.77, by decide +kernel⟩ 0 le_rfl
    (HasNonnegTotals .sample s ∧ ∃ t t',
      (scheduledPenaltyCalculator .sample 10).run s = .ok ⟨⟩ t ∧
      (scheduledPenaltyCalculator .sample 11).run t = .ok ⟨⟩ t' ∧ SameTotals .sample t t ∧
      t.groups.map (·.penaltyAmount) = [50] ∧ t'.groups.map (·.penaltyAmount) = [1]) ∧
    HasNonnegTotals .sample s' ∧ ∃ t, (scheduledPenaltyCalculator .sample 20).run s' = .ok ⟨⟩ t ∧
      t.groups.map (·.penaltyAmount) = [715] ∧ roundHalfUp (10 * 1500 * 4.77 / 100) 0 = 716 := by
  intro s s'
  have hs : HasNonnegTotals .sample s := dueAtRate_hasNonnegTotals (by norm_num) _ _
  have hs' : HasNonnegTotals .sample s' := dueAtRate_hasNonnegTotals (by norm_num) _ _
  have hsame (t) : SameTotals .sample t t := ⟨rfl, fun _ _ => rfl⟩
  have hac := Accounting.sample_roundsToIntegers
  refine ⟨⟨hs, _, _, scheduledPenaltyCalculator_run hac hs 10,
    scheduledPenaltyCalculator_run hac (hs.of_sameTotals (hsame _)) 11, hsame _, ?_, ?_⟩,
    hs', _, scheduledPenaltyCalculator_run hac hs' 20, ?_, ?_⟩
  all_goals decide +kernel

theorem nightly_run_is_exact_of_dueOnDayTen :
    ∃ t, (scheduledPenaltyCalculator .sample 15).run (dueOnDayTen 0 le_rfl) = .ok ⟨⟩ t ∧
      NightlyRun .sample (fun _ => 0) 15 (dueOnDayTen 0 le_rfl) t ∧
      (scheduledPenaltyCalculator .sample 15).run t = .ok ⟨⟩ t ∧
      ∀ u, SameTotals .sample t u → ∀ later, 15 ≤ later →
        ∃ t', (scheduledPenaltyCalculator .sample later).run u = .ok ⟨⟩ t' ∧
          ∀ (id : ℕ) g h h', (dueOnDayTen 0 le_rfl).groups[id]? = some g →
            u.groups[id]? = some h → t'.groups[id]? = some h' →
              (h.penaltyAmount ≤ h'.penaltyAmount ↔
                ¬ LosesPenalty .sample (dueOnDayTen 0 le_rfl).moves 15 later g) :=
  nightly_run_is_exact Accounting.sample_roundsToIntegers
    (dueAtRate_hasNonnegTotals (by norm_num) _ le_rfl) 15

end PenaltyGroup

end Fastrak
