import Fastrak.Library.Constraint
import Fastrak.Library.Run
import Fastrak.Library.Table
import Fastrak.Order.Environment
import Mathlib.Algebra.Order.Ring.Unbundled.Rat

/-!
# The commission schedule of withdraw requests

A commission is charged for the amounts of a range, either a fixed amount or a percentage.
The table of commissions is edited by creates and by writes on any number of records, and
both run the constraints of the written fields and the unique key on the range. One that
raises is rolled back.

A record is referred to by its position in the table.
-/

namespace Fastrak

open Transaction Run

inductive CommissionType where
  | amount
  | percent
  deriving DecidableEq

structure Commission where
  commissionType : CommissionType
  rangeFrom : ℚ
  rangeTo : ℚ
  commissionAmount : ℚ := 0
  commissionPercentage : ℚ := 0
  active : Bool := true
  deriving DecidableEq

inductive CommissionField where
  | commissionType
  | rangeFrom
  | rangeTo
  | commissionAmount
  | commissionPercentage
  | active

/-- The `vals` of a create or a write: the fields they hold. -/
structure CommissionVals where
  commissionType : Option CommissionType := none
  rangeFrom : Option ℚ := none
  rangeTo : Option ℚ := none
  commissionAmount : Option ℚ := none
  commissionPercentage : Option ℚ := none
  active : Option Bool := none

namespace CommissionVals

def holds (vals : CommissionVals) : CommissionField → Bool
  | .commissionType => vals.commissionType.isSome
  | .rangeFrom => vals.rangeFrom.isSome
  | .rangeTo => vals.rangeTo.isSome
  | .commissionAmount => vals.commissionAmount.isSome
  | .commissionPercentage => vals.commissionPercentage.isSome
  | .active => vals.active.isSome

def apply (vals : CommissionVals) (r : Commission) : Commission where
  commissionType := vals.commissionType.getD r.commissionType
  rangeFrom := vals.rangeFrom.getD r.rangeFrom
  rangeTo := vals.rangeTo.getD r.rangeTo
  commissionAmount := vals.commissionAmount.getD r.commissionAmount
  commissionPercentage := vals.commissionPercentage.getD r.commissionPercentage
  active := vals.active.getD r.active

/-- The record of a create. A required field that is missing violates its not-null
constraint. -/
def record (vals : CommissionVals) : Except String Commission :=
  match vals.commissionType, vals.rangeFrom, vals.rangeTo with
  | some commissionType, some rangeFrom, some rangeTo =>
      .ok (vals.apply { commissionType, rangeFrom, rangeTo })
  | _, _, _ => .error "Missing required value"

/-- The created record holds what was given, and the required fields were given. -/
theorem record_eq_ok {vals : CommissionVals} {r : Commission} (h : vals.record = .ok r) :
    vals.commissionType = some r.commissionType ∧ vals.rangeFrom = some r.rangeFrom ∧
      vals.rangeTo = some r.rangeTo ∧
      vals.commissionAmount.getD 0 = r.commissionAmount ∧
      vals.commissionPercentage.getD 0 = r.commissionPercentage := by
  unfold record at h
  split at h
  · next htype hfrom hto =>
      cases h
      simp [apply, htype, hfrom, hto]
  · cases h

end CommissionVals

namespace Commission

/-! ## Constraints -/

/-- What `_check_commission_percentage` raises on. -/
def IsPercentageWrong (r : Commission) : Prop :=
  r.commissionType = .percent ∧ r.commissionPercentage ≠ 0 ∧
    (0 > r.commissionPercentage ∨ r.commissionPercentage > 100)

/-- What `_check_commission_amount` raises on. -/
def IsAmountWrong (r : Commission) : Prop :=
  r.commissionType = .amount ∧ r.commissionAmount ≠ 0 ∧
    (0 > r.commissionAmount ∨ r.commissionAmount > r.rangeTo)

/-- What `_check_range_duplication` raises on. -/
def IsRangeWrong (r : Commission) : Prop := r.rangeFrom > r.rangeTo

instance : DecidablePred IsPercentageWrong := fun _ => inferInstanceAs (Decidable (_ ∧ _))

instance : DecidablePred IsAmountWrong := fun _ => inferInstanceAs (Decidable (_ ∧ _))

instance : DecidablePred IsRangeWrong := fun _ => inferInstanceAs (Decidable (_ > _))

def checkCommissionPercentage : Constraint CommissionField ℕ (List Commission) String where
  fields := [.commissionPercentage]
  check := Constraint.each IsPercentageWrong
    "Commission Rate can't be less than 0 or higher than 100"

def checkCommissionAmount : Constraint CommissionField ℕ (List Commission) String where
  fields := [.commissionAmount]
  check := Constraint.each IsAmountWrong
    "Commission amount can't be less than 0 or higher than Range To"

def checkRangeDuplication : Constraint CommissionField ℕ (List Commission) String where
  fields := [.rangeFrom, .rangeTo]
  check := Constraint.each IsRangeWrong "(Range To) Can't be less than (Range From) "

def constraints : List (Constraint CommissionField ℕ (List Commission) String) :=
  [checkCommissionAmount, checkCommissionPercentage, checkRangeDuplication]

/-- `unique_commission_range` -/
def UniqueRange (table : List Commission) : Prop :=
  (table.map fun r => (r.rangeFrom, r.rangeTo)).Nodup

instance (table : List Commission) : Decidable (UniqueRange table) :=
  inferInstanceAs (Decidable (List.Nodup _))

/-! ## Creates and writes -/

abbrev Tx := EStateM String (List Commission)

def duplicatedRange : String := "Can't have same range duplicated"

def create (vals : CommissionVals) : Tx PUnit := do
  let r ← lift vals.record
  let table ← get
  modify (· ++ [r])
  raiseIf (¬ UniqueRange (table ++ [r])) duplicatedRange
  lift (Constraint.validate constraints vals.holds (table ++ [r]) [table.length])

/-- `write(vals)` on the recordset `self`. -/
def write (self : List ℕ) (vals : CommissionVals) : Tx PUnit := do
  let table ← get
  raiseIf (∃ i ∈ self, table.length ≤ i) "Record does not exist or has been deleted."
  modify (Table.assign self vals.apply)
  lift (Constraint.validate constraints vals.holds (Table.assign self vals.apply table) self)
  raiseIf (¬ UniqueRange (Table.assign self vals.apply table)) duplicatedRange

inductive Event where
  | create (vals : CommissionVals)
  | write (self : List ℕ) (vals : CommissionVals)

def perform : Event → Tx PUnit
  | .create vals => create vals
  | .write self vals => write self vals

def step (table : List Commission) (e : Event) : List Commission :=
  (atomic (fun table _ => table) (perform e) table).2

/-! ## What a step does -/

end Commission

/-- The record passes the constraints that the written fields fire. -/
structure CommissionVals.Passes (vals : CommissionVals) (r : Commission) : Prop where
  amount : vals.commissionAmount ≠ none → ¬ r.IsAmountWrong
  percentage : vals.commissionPercentage ≠ none → ¬ r.IsPercentageWrong
  range : vals.rangeFrom ≠ none ∨ vals.rangeTo ≠ none → ¬ r.IsRangeWrong

namespace Commission

/-- The create or the write is accepted, and the table that it leaves. -/
inductive Accepts (table : List Commission) : Event → List Commission → Prop
  | created (vals : CommissionVals) (r : Commission) (hr : vals.record = .ok r)
      (hunique : UniqueRange (table ++ [r])) (hpasses : vals.Passes r) :
      Accepts table (.create vals) (table ++ [r])
  | written (self : List ℕ) (vals : CommissionVals) (hself : ∀ i ∈ self, i < table.length)
      (hunique : UniqueRange (Table.assign self vals.apply table))
      (hpasses : ∀ i ∈ self, ∀ r, table[i]? = some r → vals.Passes (vals.apply r)) :
      Accepts table (.write self vals) (Table.assign self vals.apply table)

variable {table t : List Commission} {e : Event}

theorem validate_eq_ok_iff {vals : CommissionVals} {self : List ℕ} {u : PUnit} :
    Constraint.validate constraints vals.holds table self = .ok u ↔
      ∀ i ∈ self, ∀ r, table[i]? = some r → vals.Passes r := by
  simp only [Constraint.validate_eq_ok_iff, constraints, List.forall_mem_cons,
    Constraint.fires_iff, checkCommissionAmount, checkCommissionPercentage, checkRangeDuplication,
    Constraint.each_eq_ok_iff, List.exists_mem_cons_iff, CommissionVals.holds,
    Option.isSome_iff_ne_none]
  constructor
  · rintro ⟨hamount, hpercentage, hrange, -⟩ i hi r hr
    exact ⟨fun h => hamount (.inl h) i hi r hr, fun h => hpercentage (.inl h) i hi r hr,
      fun h => hrange (h.imp_right .inl) i hi r hr⟩
  · intro h
    refine ⟨fun hw i hi r hr => ?_, fun hw i hi r hr => ?_, fun hw i hi r hr => ?_, by simp⟩
    · exact (h i hi r hr).amount (by simpa using hw)
    · exact (h i hi r hr).percentage (by simpa using hw)
    · exact (h i hi r hr).range (by simpa using hw)

theorem create_run_ok_iff {vals : CommissionVals} {u : PUnit} :
    (create vals).run table = .ok u t ↔ Accepts table (.create vals) t := by
  rw [create, lift_bind_run_ok_iff]
  simp only [get_bind_run, modify_bind_run, raiseIf_bind_run_ok_iff, lift_run_ok_iff,
    validate_eq_ok_iff, not_not, List.forall_mem_singleton, List.getElem?_concat_length,
    Option.some.injEq, forall_eq']
  constructor
  · rintro ⟨r, hr, hunique, hpasses, rfl⟩
    exact .created vals r hr hunique hpasses
  · intro h
    cases h with
    | created _ r hr hunique hpasses => exact ⟨r, hr, hunique, hpasses, rfl⟩

theorem write_run_ok_iff {self : List ℕ} {vals : CommissionVals} {u : PUnit} :
    (write self vals).run table = .ok u t ↔ Accepts table (.write self vals) t := by
  have hassigned : (∀ i ∈ self, ∀ r, (Table.assign self vals.apply table)[i]? = some r →
      vals.Passes r) ↔ ∀ i ∈ self, ∀ r, table[i]? = some r → vals.Passes (vals.apply r) := by
    refine forall₂_congr fun i hi => ?_
    rw [Table.getElem?_assign]
    cases table[i]? <;> simp [hi]
  simp only [write, get_bind_run, modify_bind_run, raiseIf_bind_run_ok_iff, raiseIf_run_ok_iff,
    lift_bind_run_ok_iff, validate_eq_ok_iff, hassigned, not_not, not_exists, not_and, not_le]
  constructor
  · rintro ⟨hself, -, hpasses, hunique, rfl⟩
    exact .written self vals hself hunique hpasses
  · intro h
    cases h with
    | written _ _ hself hunique hpasses => exact ⟨hself, ⟨⟩, hpasses, hunique, rfl⟩

theorem perform_run_ok_iff {u : PUnit} : (perform e).run table = .ok u t ↔ Accepts table e t := by
  cases e with
  | create vals => exact create_run_ok_iff
  | write self vals => exact write_run_ok_iff

/-- The inversion of a step. -/
theorem step_cases (table : List Commission) (e : Event) :
    Accepts table e (step table e) ∨ (∀ t, ¬ Accepts table e t) ∧ step table e = table := by
  rcases atomic_snd_cases (perform e) table with ⟨u, h⟩ | ⟨⟨message, r, h⟩, heq⟩
  · exact .inl (perform_run_ok_iff.mp h)
  · refine .inr ⟨fun t ht => ?_, heq⟩
    cases h.symm.trans (perform_run_ok_iff (u := ⟨⟩).mpr ht)

/-- A refused step changes nothing, so that a step keeps `P` if and only if an accepted one
does. -/
theorem step_iff {P : List Commission → Prop} {K : Prop} (hs : P table)
    (haccepted : ∀ t, Accepts table e t → (P t ↔ K)) :
    P (step table e) ↔ ((∃ t, Accepts table e t) → K) := by
  rcases step_cases table e with h | ⟨hno, h⟩
  · rw [haccepted _ h]
    exact ⟨fun hk _ => hk, fun hk => hk ⟨_, h⟩⟩
  · rw [h]
    exact iff_of_true hs fun ⟨t, ht⟩ => absurd ht (hno t)

/-! ## The lookup -/

/-- The domain of the search for an amount; a search finds active records only. -/
def IsFor (amount : ℚ) (r : Commission) : Prop :=
  r.active ∧ r.rangeFrom ≤ amount ∧ r.rangeTo ≥ amount

instance (amount : ℚ) : DecidablePred (IsFor amount) :=
  fun _ => inferInstanceAs (Decidable (_ ∧ _))

/-- `search([('range_from', '<=', amount), ('range_to', '>=', amount)], limit=1)` -/
def lookup (amount : ℚ) (table : List Commission) : Option Commission :=
  limitOne (table.filter fun r => IsFor amount r)

end Commission

end Fastrak
