import Fastrak.Library.Constraint
import Fastrak.Library.Run
import Fastrak.Library.Table
import Mathlib.Algebra.Order.Group.Int
import Mathlib.Algebra.Ring.Int.Defs
import Mathlib.Data.List.Dedup

/-!
# Sales targets

A target asks a sales team for a number of orders, and its lines share them out among sales
persons. The two tables are edited by creates and writes, on the targets with commands for
their lines, and on the lines themselves. A target or a line is referred to by its position,
and a deleted line leaves its position empty.
-/

namespace Fastrak

namespace Crm

open Transaction Run

/-- A sales team; `userId` is its leader. -/
structure Team where
  displayName : String := ""
  memberIds : List ℕ := []
  userId : Option ℕ := none

/-- The teams and the users, which are not edited here. -/
structure Staff where
  team : ℕ → Team
  userName : ℕ → String := fun _ => ""

structure TargetLine where
  crmTargetId : Option ℕ := none
  salesPerson : Option ℕ := none
  target : ℤ := 0
  deriving DecidableEq

structure Target where
  name : String := ""
  startDate : Option ℤ := none
  endDate : Option ℤ := none
  targetOrders : ℤ := 0
  salesTeam : Option ℕ := none
  deriving DecidableEq

structure Db where
  targets : List Target := []
  lines : List (Option TargetLine) := []
  deriving DecidableEq

/-- `target_line_ids` of one target. -/
def linesOf (lines : List (Option TargetLine)) (i : ℕ) : List TargetLine :=
  lines.reduceOption.filter fun l => l.crmTargetId = some i

/-- `sum([line.target for line in self.target_line_ids])` -/
def total (lines : List (Option TargetLine)) (i : ℕ) : ℤ :=
  ((linesOf lines i).map (·.target)).sum

/-! ## Values of creates and writes -/

structure LineVals where
  crmTargetId : Option (Option ℕ) := none
  salesPerson : Option (Option ℕ) := none
  target : Option ℤ := none

def LineVals.apply (vals : LineVals) (l : TargetLine) : TargetLine where
  crmTargetId := vals.crmTargetId.getD l.crmTargetId
  salesPerson := vals.salesPerson.getD l.salesPerson
  target := vals.target.getD l.target

/-- The commands for `target_line_ids`: `(0, 0, vals)`, `(1, id, vals)`, `(2, id)`, `(3, id)`,
`(4, id)`, `(5,)` and `(6, 0, ids)`. -/
inductive Command where
  | create (vals : LineVals)
  | update (id : ℕ) (vals : LineVals)
  | delete (id : ℕ)
  | cut (id : ℕ)
  | link (id : ℕ)
  | clear
  | replace (ids : List ℕ)

/-- The lines that a command names. -/
def Command.ids : Command → List ℕ
  | .create _ | .clear => []
  | .update id _ | .delete id | .cut id | .link id => [id]
  | .replace ids => ids

def TargetLine.moveTo (i : Option ℕ) (l : TargetLine) : TargetLine := { l with crmTargetId := i }

/-- What a command for the targets `self` does to the lines. A line belongs to one target, so
one that is linked goes to the last of them. -/
def Command.run (self : List ℕ) (lines : List (Option TargetLine)) :
    Command → List (Option TargetLine)
  | .create vals => lines ++ self.map fun i => some ((vals.apply {}).moveTo (some i))
  | .update id vals => lines.modify id (·.map vals.apply)
  | .delete id => lines.modify id fun _ => none
  | .cut id => lines.modify id (·.map (·.moveTo none))
  | .link id => lines.modify id (·.map (·.moveTo self.getLast?))
  | .clear => lines.map (·.map fun l => if l.crmTargetId.any (· ∈ self) then l.moveTo none else l)
  | .replace ids => lines.mapIdx fun j line => line.map fun l =>
      if j ∈ ids then l.moveTo self.getLast?
      else if l.crmTargetId.any (· ∈ self) then l.moveTo none else l

structure TargetVals where
  name : Option String := none
  startDate : Option (Option ℤ) := none
  endDate : Option (Option ℤ) := none
  targetOrders : Option ℤ := none
  salesTeam : Option (Option ℕ) := none
  targetLineIds : Option (List Command) := none

inductive TargetField where
  | name
  | startDate
  | endDate
  | targetOrders
  | salesTeam
  | targetLineIds

namespace TargetVals

def holds (vals : TargetVals) : TargetField → Bool
  | .name => vals.name.isSome
  | .startDate => vals.startDate.isSome
  | .endDate => vals.endDate.isSome
  | .targetOrders => vals.targetOrders.isSome
  | .salesTeam => vals.salesTeam.isSome
  | .targetLineIds => vals.targetLineIds.isSome

def apply (vals : TargetVals) (t : Target) : Target where
  name := vals.name.getD t.name
  startDate := vals.startDate.getD t.startDate
  endDate := vals.endDate.getD t.endDate
  targetOrders := vals.targetOrders.getD t.targetOrders
  salesTeam := vals.salesTeam.getD t.salesTeam

def commands (vals : TargetVals) : List Command := vals.targetLineIds.getD []

end TargetVals

/-! ## Constraints -/

/-- `self.sales_team` -/
def salesTeams (st : Staff) (db : Db) (self : List ℕ) : List Team :=
  ((self.filterMap fun i => db.targets[i]?.bind (·.salesTeam)).dedup).map st.team

/-- The sales person is one of `sales_team.member_ids`, or the same recordset as
`sales_team.user_id`. -/
def IsPartOf (teams : List Team) (person : Option ℕ) : Prop :=
  person.any (fun p => p ∈ teams.flatMap (·.memberIds)) ∨
    person.toList ⊆ teams.filterMap (·.userId) ∧ teams.filterMap (·.userId) ⊆ person.toList

instance (teams : List Team) : DecidablePred (IsPartOf teams) :=
  fun _ => inferInstanceAs (Decidable (_ ∨ _))

def notPartOf (st : Staff) (teams : List Team) (person : Option ℕ) : String :=
  match teams with
  | _ :: _ :: _ => "Expected singleton: crm.team"
  | _ => "Sales person " ++ (person.map st.userName).getD "False" ++ " is not part of " ++
      (teams.head?.map (·.displayName)).getD "False" ++ " Team"

def checkTargetOrdersCount : Constraint TargetField ℕ Db String where
  fields := [.targetOrders]
  check
    | _, [] => pure ⟨⟩
    | db, [i] => raiseIf (db.targets[i]?.any fun t => t.targetOrders ≠ total db.lines i)
        "Target Orders Count doesn't match sales persons target lines count"
    | _, _ :: _ :: _ => throw "Expected singleton: crm.target"

def checkTargetLineIds (st : Staff) : Constraint TargetField ℕ Db String where
  fields := [.targetLineIds]
  check db self := (self.flatMap (linesOf db.lines)).forM fun line =>
    raiseIf (¬ IsPartOf (salesTeams st db self) line.salesPerson)
      (notPartOf st (salesTeams st db self) line.salesPerson)

def constraints (st : Staff) : List (Constraint TargetField ℕ Db String) :=
  [checkTargetLineIds st, checkTargetOrdersCount]

/-! ## Creates and writes -/

inductive Event where
  | createTargets (valsList : List TargetVals)
  | writeTargets (self : List ℕ) (vals : TargetVals)
  | createLines (valsList : List LineVals)
  | writeLines (self : List ℕ) (vals : LineVals)

namespace Event

/-- The targets that are created or written. -/
def self (db : Db) : Event → List ℕ
  | .createTargets valsList => List.range' db.targets.length valsList.length
  | .writeTargets self _ => self
  | .createLines _ | .writeLines _ _ => []

/-- The fields of targets that are written. -/
def holds : Event → TargetField → Bool
  | .createTargets valsList, f => valsList.any (·.holds f)
  | .writeTargets _ vals, f => vals.holds f
  | .createLines _, _ | .writeLines _ _, _ => false

/-- The targets after the event. -/
def targets (db : Db) : Event → List Target
  | .createTargets valsList => db.targets ++ valsList.map (·.apply {})
  | .writeTargets self vals => Table.assign self vals.apply db.targets
  | .createLines _ | .writeLines _ _ => db.targets

/-- The lines after the event. -/
def lines (db : Db) : Event → List (Option TargetLine)
  | .createTargets valsList =>
      (valsList.zipIdx db.targets.length).foldl
        (fun lines v => v.1.commands.foldl (Command.run [v.2]) lines) db.lines
  | .writeTargets [] _ => db.lines
  | .writeTargets self vals => vals.commands.foldl (Command.run self) db.lines
  | .createLines valsList => db.lines ++ valsList.map fun vals => some (vals.apply {})
  | .writeLines self vals => Table.assign self (·.map vals.apply) db.lines

/-- The lines that the event names. -/
def lineIds : Event → List ℕ
  | .createTargets valsList => valsList.flatMap fun vals => vals.commands.flatMap Command.ids
  | .writeTargets _ vals => vals.commands.flatMap Command.ids
  | .createLines _ => []
  | .writeLines self _ => self

def after (db : Db) (e : Event) : Db := { targets := e.targets db, lines := e.lines db }

/-- The records that the event names are there. -/
def Refers (db : Db) (e : Event) : Prop :=
  (∀ i ∈ e.self db, i < (e.targets db).length) ∧ ∀ j ∈ e.lineIds, db.lines[j]?.join.isSome

instance (db : Db) (e : Event) : Decidable (e.Refers db) := inferInstanceAs (Decidable (_ ∧ _))

end Event

/-- A line that is of a target is of one that is there. -/
def ForeignKeys (db : Db) : Prop :=
  ∀ l ∈ db.lines.reduceOption, l.crmTargetId.all fun i => i < db.targets.length

instance (db : Db) : Decidable (ForeignKeys db) := List.decidableBAll _ _

abbrev Tx := EStateM String Db

def perform (st : Staff) (e : Event) : Tx PUnit := do
  let db ← get
  raiseIf (¬ e.Refers db) "Record does not exist or has been deleted."
  modify fun _ => e.after db
  raiseIf (¬ ForeignKeys (e.after db)) "Violates foreign key constraint"
  lift (Constraint.validate (constraints st) e.holds (e.after db) (e.self db))

def step (st : Staff) (db : Db) (e : Event) : Db :=
  (atomic (fun db _ => db) (perform st e) db).2

/-! ## What a step does -/

/-- The event is accepted. -/
structure Accepts (st : Staff) (db : Db) (e : Event) : Prop where
  refers : e.Refers db
  foreignKeys : ForeignKeys (e.after db)
  single : e.holds .targetOrders → (e.self db).length ≤ 1
  orders : e.holds .targetOrders → ∀ i ∈ e.self db, ∀ t, (e.targets db)[i]? = some t →
    t.targetOrders = total (e.lines db) i
  persons : e.holds .targetLineIds → ∀ i ∈ e.self db, ∀ l ∈ linesOf (e.lines db) i,
    IsPartOf (salesTeams st (e.after db) (e.self db)) l.salesPerson

variable {st : Staff} {db : Db} {e : Event} {self : List ℕ}

theorem checkTargetOrdersCount_eq_ok_iff {u : PUnit} :
    checkTargetOrdersCount.check db self = .ok u ↔
      self.length ≤ 1 ∧ ∀ i ∈ self, ∀ t, db.targets[i]? = some t →
        t.targetOrders = total db.lines i := by
  match self with
  | [] => simp [checkTargetOrdersCount, pure, Except.pure]
  | [i] =>
      rw [checkTargetOrdersCount, raiseIf_eq_ok_iff, Option.any_eq_true, not_exists]
      simp
  | _ :: _ :: _ => simp [checkTargetOrdersCount, throw, throwThe, MonadExceptOf.throw]

theorem checkTargetLineIds_eq_ok_iff {u : PUnit} :
    (checkTargetLineIds st).check db self = .ok u ↔
      ∀ i ∈ self, ∀ l ∈ linesOf db.lines i, IsPartOf (salesTeams st db self) l.salesPerson := by
  simp only [checkTargetLineIds, forM_eq_ok_iff, raiseIf_eq_ok_iff, not_not, List.mem_flatMap,
    forall_exists_index, and_imp]
  exact forall_comm.trans (forall_congr' fun i => forall_comm)

theorem validate_eq_ok_iff {written : TargetField → Bool} {u : PUnit} :
    Constraint.validate (constraints st) written db self = .ok u ↔
      (written .targetOrders = true → self.length ≤ 1 ∧
        ∀ i ∈ self, ∀ t, db.targets[i]? = some t → t.targetOrders = total db.lines i) ∧
      (written .targetLineIds = true → ∀ i ∈ self, ∀ l ∈ linesOf db.lines i,
        IsPartOf (salesTeams st db self) l.salesPerson) := by
  have horders : checkTargetOrdersCount.Fires written ↔ written .targetOrders = true := by
    simp [Constraint.fires_iff, checkTargetOrdersCount]
  have hpersons : (checkTargetLineIds st).Fires written ↔ written .targetLineIds = true := by
    simp [Constraint.fires_iff, checkTargetLineIds]
  rw [Constraint.validate_eq_ok_iff, constraints, List.forall_mem_cons, List.forall_mem_singleton,
    horders, hpersons, checkTargetLineIds_eq_ok_iff, checkTargetOrdersCount_eq_ok_iff]
  exact and_comm

theorem perform_run_ok_iff {u : PUnit} {t : Db} :
    (perform st e).run db = .ok u t ↔ Accepts st db e ∧ e.after db = t := by
  simp only [perform, get_bind_run, modify_bind_run, raiseIf_bind_run_ok_iff, lift_run_ok_iff,
    validate_eq_ok_iff, not_not]
  constructor
  · rintro ⟨hrefers, hkeys, ⟨horders, hpersons⟩, hafter⟩
    exact ⟨⟨hrefers, hkeys, fun h => (horders h).1, fun h => (horders h).2, hpersons⟩, hafter⟩
  · rintro ⟨⟨hrefers, hkeys, hsingle, horders, hpersons⟩, hafter⟩
    exact ⟨hrefers, hkeys, ⟨fun h => ⟨hsingle h, horders h⟩, hpersons⟩, hafter⟩

/-- The inversion of a step. -/
theorem step_cases (st : Staff) (db : Db) (e : Event) :
    Accepts st db e ∧ step st db e = e.after db ∨ ¬ Accepts st db e ∧ step st db e = db := by
  rcases atomic_snd_cases (perform st e) db with ⟨u, h⟩ | ⟨⟨message, r, h⟩, heq⟩
  · obtain ⟨haccepts, hafter⟩ := perform_run_ok_iff.mp h
    exact .inl ⟨haccepts, hafter.symm⟩
  · refine .inr ⟨fun ht => ?_, heq⟩
    cases h.symm.trans (perform_run_ok_iff (u := ⟨⟩).mpr ⟨ht, rfl⟩)

end Crm

end Fastrak
