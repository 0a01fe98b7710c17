import Fastrak.Library.Table
import Fastrak.Order.System

/-!
# The lock of audited account moves

`write` raises on an account move that has been audited. It is called on recordsets of any
size, and reads the field of the recordset, which is empty for no record and cannot be read
of several.
-/

namespace Fastrak

open Transaction

namespace AccountMove

abbrev Tx := EStateM String (List Move)

/-- Each of the records is there, and is in the recordset once. -/
structure IsRecordset (moves : List Move) (ids : List ℕ) : Prop where
  nodup : ids.Nodup
  lt_length : ∀ i ∈ ids, i < moves.length

def browse (moves : List Move) (ids : List ℕ) : List Move := ids.filterMap fun i => moves[i]?

/-- `self.audit_and_lock` -/
def auditAndLock (moves : List Move) (ids : List ℕ) : Except String Bool := do
  let record ← single "account.move" (browse moves ids)
  return (record.map (·.auditAndLock)).getD false

/-- `write(vals)`, where `vals` are what is assigned to each record. -/
def write (ids : List ℕ) (vals : Move → Move) : Tx PUnit := do
  raiseIf (← lift (auditAndLock (← get) ids)) "Can't Edit Move After Being Audited"
  modify (Table.assign ids vals)

/-- `audit_and_lock_move()` -/
def auditAndLockMove (ids : List ℕ) : Tx PUnit := do
  raiseIf (ids.length ≠ 1) "Expected singleton: account.move"
  write ids Move.lock

/-- `button_cancel()`, where `cancel` are the values that accounting writes. -/
def buttonCancel (cancellationReason : ℕ → Option ℕ) (cancel : Move → Move) (ids : List ℕ) :
    Tx PUnit := do
  if ids ≠ [] then
    let reason ← lift (single "account.move" (ids.map cancellationReason))
    raiseIf (reason.join = none) "Cancellation Reason Should be Added First"
  write ids cancel

/-- One of the records has been audited. -/
def HasLocked (moves : List Move) (ids : List ℕ) : Prop :=
  ∃ i ∈ ids, (moves[i]?).any (·.auditAndLock)

instance (moves : List Move) (ids : List ℕ) : Decidable (HasLocked moves ids) :=
  inferInstanceAs (Decidable (∃ i ∈ ids, _))

/-! ## Runs -/

/-- What is called on the account moves from outside. -/
inductive Event
  | write (ids : List ℕ) (vals : Move → Move)
  | auditAndLockMove (ids : List ℕ)
  | buttonCancel (cancellationReason : ℕ → Option ℕ) (cancel : Move → Move) (ids : List ℕ)

def perform : Event → Tx PUnit
  | .write ids vals => write ids vals
  | .auditAndLockMove ids => auditAndLockMove ids
  | .buttonCancel cancellationReason cancel ids => buttonCancel cancellationReason cancel ids

/-- A call that raises is rolled back. -/
def step (moves : List Move) (e : Event) : List Move := (atomic (fun s _ => s) (perform e) moves).2

/-! ## Recordsets by size -/

section Sizes

variable {moves : List Move} {ids : List ℕ} {vals : Move → Move} {i : ℕ} {m : Move}

theorem write_nil_run : (write [] vals).run moves = .ok ⟨⟩ (Table.assign [] vals moves) := rfl

theorem write_singleton_run (hm : moves[i]? = some m) :
    (write [i] vals).run moves =
      if m.auditAndLock then .error "Can't Edit Move After Being Audited" moves
      else .ok ⟨⟩ (moves.modify i vals) := by
  have hread : auditAndLock moves [i] = .ok m.auditAndLock := by
    simp [auditAndLock, browse, hm, single]
    rfl
  rw [write, get_bind_run, lift_bind_run_of_ok hread, raiseIf_bind_run, ← Table.assign_singleton]
  rfl

theorem length_browse (h : IsRecordset moves ids) : (browse moves ids).length = ids.length :=
  List.filterMap_length_eq_length.mpr fun i hi => by
    rw [List.getElem?_eq_getElem (h.lt_length i hi)]
    rfl

/-- The field cannot be read of several records. -/
theorem write_run_of_several (h : IsRecordset moves ids) (hlength : 1 < ids.length) :
    (write ids vals).run moves = .error "Expected singleton: account.move" moves := by
  have hread : auditAndLock moves ids = .error "Expected singleton: account.move" := by
    rw [← length_browse h] at hlength
    rw [auditAndLock]
    rcases hrecords : browse moves ids with _ | ⟨m, _ | ⟨m', ms⟩⟩
    · rw [hrecords] at hlength
      cases hlength
    · rw [hrecords] at hlength
      exact absurd hlength (Nat.lt_irrefl 1)
    · rfl
  rw [write, get_bind_run, EStateM.run_bind, lift_run, hread]

end Sizes

end AccountMove

end Fastrak
