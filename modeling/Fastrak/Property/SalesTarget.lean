import Fastrak.Crm.Target
import Mathlib.Algebra.BigOperators.Group.List.Lemmas

/-!
# The parts of a sales target

The total of a target is compared with its lines when the total is written, and the sales
persons are compared with the team when the lines are written through the target. So a line
that is edited on its own, a list of lines that is written without the total and a team that
is written without the lines are not compared with anything.
-/

namespace Fastrak

open Transaction Run

namespace Crm

variable {st : Staff} {db : Db} {e : Event} {t : Target} {i : ℕ}

def IsMemberOrLeader (st : Staff) (t : Target) (p : ℕ) : Prop :=
  ∃ k, t.salesTeam = some k ∧ (p ∈ (st.team k).memberIds ∨ (st.team k).userId = some p)

structure EqualsParts (st : Staff) (t : Target) (lines : List TargetLine) : Prop where
  orders : t.targetOrders = (lines.map (·.target)).sum
  persons : ∀ l ∈ lines, ∀ p, l.salesPerson = some p → IsMemberOrLeader st t p

/-- Every target equals the sum of its parts. -/
def AllEqualParts (st : Staff) (db : Db) : Prop :=
  ∀ i t, db.targets[i]? = some t → EqualsParts st t (linesOf db.lines i)

/-- The event runs the check of the total on the target `i`. -/
def Event.ChecksOrders (db : Db) (e : Event) (i : ℕ) : Prop :=
  e.holds .targetOrders = true ∧ i ∈ e.self db

/-- The event runs the check of the sales persons on the target `i`, and on no other: the
persons of several targets are compared with all their teams together. -/
def Event.ChecksPersons (db : Db) (e : Event) (i : ℕ) : Prop :=
  e.holds .targetLineIds = true ∧ i ∈ e.self db ∧ ∀ j ∈ e.self db, j = i

/-- The event leaves the sum of the lines of a target as it was, unless it checks the total, and
leaves the target a team with all its sales persons, unless it checks them. -/
structure KeepsUnchecked (st : Staff) (db : Db) (e : Event) : Prop where
  orders : ∀ i < (e.targets db).length, ¬ e.ChecksOrders db i →
    total (e.lines db) i = total db.lines i
  persons : ∀ i t, (e.targets db)[i]? = some t → ¬ e.ChecksPersons db i →
    ∀ l ∈ linesOf (e.lines db) i, ∀ p, l.salesPerson = some p → IsMemberOrLeader st t p

/-! ## Totals -/

theorem total_eq_zero_of_length_le (hkeys : ForeignKeys db) (hi : db.targets.length ≤ i) :
    total db.lines i = 0 := by
  have hnone : linesOf db.lines i = [] := by
    rw [linesOf, List.filter_eq_nil_iff]
    intro l hl hof
    have hlt := hkeys l hl
    rw [of_decide_eq_true hof, Option.all_some, decide_eq_true_iff] at hlt
    exact absurd hi (not_le.mpr hlt)
  rw [total, hnone, List.map_nil, List.sum_nil]

/-- A total that is not written is what the lines came to before. -/
theorem targetOrders_eq_of_not_checksOrders (hs : AllEqualParts st db) (hkeys : ForeignKeys db)
    (ht : (e.targets db)[i]? = some t) (hno : ¬ e.ChecksOrders db i) :
    t.targetOrders = total db.lines i := by
  cases e with
  | createTargets valsList =>
      rw [Event.targets, List.getElem?_append] at ht
      split at ht
      · exact (hs i t ht).orders
      · next hi =>
          rw [List.getElem?_map, Option.map_eq_some_iff] at ht
          obtain ⟨vals, hvals, rfl⟩ := ht
          have hlt := (List.getElem?_eq_some_iff.mp hvals).1
          have hself : i ∈ Event.self db (.createTargets valsList) := by
            rw [Event.self, List.mem_range'_1]
            omega
          have hnone : vals.targetOrders = none := by
            by_contra hsome
            refine hno ⟨List.any_eq_true.mpr ⟨vals, List.mem_of_getElem? hvals, ?_⟩, hself⟩
            exact Option.isSome_iff_ne_none.mpr hsome
          rw [total_eq_zero_of_length_le hkeys (not_lt.mp hi), TargetVals.apply, hnone]
          rfl
  | writeTargets self vals =>
      obtain ⟨old, hold, hwritten⟩ := Table.getElem?_assign_cases ht
      rw [total, ← (hs i old hold).orders]
      rcases hwritten with ⟨hself, rfl⟩ | ⟨-, rfl⟩
      · have hnone : vals.targetOrders = none := by
          by_contra hsome
          exact hno ⟨Option.isSome_iff_ne_none.mpr hsome, hself⟩
        rw [TargetVals.apply, hnone]
        rfl
      · rfl
  | createLines valsList => exact (hs i t ht).orders
  | writeLines self vals => exact (hs i t ht).orders

/-! ## Sales persons -/

theorem mem_salesTeams_iff {self : List ℕ} {team : Team} :
    team ∈ salesTeams st db self ↔
      ∃ i ∈ self, ∃ t, db.targets[i]? = some t ∧ ∃ k, t.salesTeam = some k ∧ st.team k = team := by
  simp only [salesTeams, List.mem_map, List.mem_dedup, List.mem_filterMap, Option.bind_eq_some_iff]
  constructor
  · rintro ⟨k, ⟨i, hi, t, ht, hk⟩, rfl⟩
    exact ⟨i, hi, t, ht, k, hk, rfl⟩
  · rintro ⟨i, hi, t, ht, k, hk, rfl⟩
    exact ⟨k, ⟨i, hi, t, ht, hk⟩, rfl⟩

theorem exists_team_of_isPartOf {teams : List Team} {p : ℕ} (h : IsPartOf teams (some p)) :
    ∃ team ∈ teams, p ∈ team.memberIds ∨ team.userId = some p := by
  rcases h with h | ⟨h, -⟩
  · rw [Option.any_some, decide_eq_true_iff, List.mem_flatMap] at h
    obtain ⟨team, hteam, hp⟩ := h
    exact ⟨team, hteam, .inl hp⟩
  · obtain ⟨team, hteam, hp⟩ := List.mem_filterMap.mp (h (List.mem_singleton.mpr rfl))
    exact ⟨team, hteam, .inr hp⟩

/-- The check of the sales persons of one target does what it says. -/
theorem Accepts.persons_of_checksPersons (h : Accepts st db e)
    (ht : (e.targets db)[i]? = some t) (hchecks : e.ChecksPersons db i) :
    ∀ l ∈ linesOf (e.lines db) i, ∀ p, l.salesPerson = some p → IsMemberOrLeader st t p := by
  obtain ⟨hholds, hself, hone⟩ := hchecks
  intro l hl p hp
  have hpart := h.persons hholds i hself l hl
  rw [hp] at hpart
  obtain ⟨team, hteam, hof⟩ := exists_team_of_isPartOf hpart
  obtain ⟨j, hj, t', ht', k, hk, rfl⟩ := mem_salesTeams_iff.mp hteam
  obtain rfl := hone j hj
  obtain rfl := Option.some.inj (ht.symm.trans ht')
  exact ⟨k, hk, hof⟩

/-! ## Runs -/

theorem Accepts.allEqualParts_iff (h : Accepts st db e) (hkeys : ForeignKeys db)
    (hs : AllEqualParts st db) : AllEqualParts st (e.after db) ↔ KeepsUnchecked st db e := by
  constructor
  · intro hafter
    refine ⟨fun i hi hno => ?_, fun i t ht _ => (hafter i t ht).persons⟩
    have ht : (e.targets db)[i]? = some (e.targets db)[i] := List.getElem?_eq_getElem hi
    rw [← targetOrders_eq_of_not_checksOrders hs hkeys ht hno]
    exact (hafter i _ ht).orders.symm
  · intro hkeeps i t ht
    constructor
    · by_cases hchecks : e.ChecksOrders db i
      · exact h.orders hchecks.1 i hchecks.2 t ht
      · have hi : i < (e.targets db).length := (List.getElem?_eq_some_iff.mp ht).1
        rw [targetOrders_eq_of_not_checksOrders hs hkeys ht hchecks, ← hkeeps.orders i hi hchecks]
        rfl
    · by_cases hchecks : e.ChecksPersons db i
      · exact h.persons_of_checksPersons ht hchecks
      · exact hkeeps.persons i t ht hchecks

theorem step_foreignKeys (hkeys : ForeignKeys db) : ForeignKeys (step st db e) := by
  rcases step_cases st db e with ⟨h, heq⟩ | ⟨-, heq⟩
  · rw [heq]
    exact h.foreignKeys
  · rw [heq]
    exact hkeys

theorem step_allEqualParts_iff (hkeys : ForeignKeys db) (hs : AllEqualParts st db) :
    AllEqualParts st (step st db e) ↔ (Accepts st db e → KeepsUnchecked st db e) := by
  rcases step_cases st db e with ⟨h, heq⟩ | ⟨hno, heq⟩
  · rw [heq, h.allEqualParts_iff hkeys hs]
    exact ⟨fun hk _ => hk, fun hk => hk h⟩
  · rw [heq]
    exact iff_of_true hs fun h => absurd h hno

/-- Along a run of creates and writes every target equals the sum of its parts if and only if
every accepted step keeps what it does not check. -/
theorem parts_along_run_iff (st : Staff) (es : List Event) :
    (∀ es', es' <+: es → AllEqualParts st (run (step st) {} es')) ↔
      Meets (step st) (fun db e => Accepts st db e → KeepsUnchecked st db e) {} es :=
  forall_prefix_iff_meets_of_invariant (J := ForeignKeys) (I := AllEqualParts st)
    (fun _ _ hkeys => step_foreignKeys hkeys)
    (fun _ _ hkeys hs => step_allEqualParts_iff hkeys hs) es
    (by decide) (by simp [AllEqualParts])

/-- A line of five orders is set to seven on its own, and the target still asks for five. -/
theorem edited_line_breaks_total :
    ¬ AllEqualParts { team := fun _ => { memberIds := [2] } }
      (run (step { team := fun _ => { memberIds := [2] } }) {}
        [.createTargets [{ targetOrders := some 5, salesTeam := some (some 0),
                           targetLineIds := some [.create { salesPerson := some (some 2),
                                                            target := some 5 }] }],
         .writeLines [0] { target := some 7 }]) := fun h =>
  absurd (h 0 { targetOrders := 5, salesTeam := some 0 } (by decide +kernel)).orders
    (by decide +kernel)

end Crm

end Fastrak
