import Fastrak.GroupInvoice.Operation
import Fastrak.Order.System

/-!
# Penalties for late group invoices

A group invoice that is not paid when it is due is charged a penalty for every day. A job
recalculates the penalties every night, and a button puts the penalty on an invoice of its
own, or on the invoice that has been created for it before.

The records are the account moves and the group invoices, with the fields of the penalty.
Days are integers, and `dueAt` is the last day without a penalty.
-/

namespace Fastrak

open Transaction Run

/-- `state`, the `STATE_SELECTION` of the source. -/
inductive GroupInvoiceState
  | unpaid
  | delayed
  | paid
  deriving DecidableEq, Repr

/-- A group invoice with the fields of its penalty. -/
structure PenaltyGroup extends GroupInvoice ℤ where
  printDate : ℤ
  dueAt : ℤ
  /-- `_check_due_and_print_date` -/
  printDate_le_dueAt : printDate ≤ dueAt
  penaltyRate : ℚ := 1
  /-- `_check_penalty_rate` -/
  penaltyRate_mem : 0 ≤ penaltyRate ∧ penaltyRate ≤ 100
  penaltyAmount : ℚ := 0
  /-- `_check_penalty_amount` -/
  penaltyAmount_nonneg : 0 ≤ penaltyAmount
  state : GroupInvoiceState := .unpaid
  penaltyInvoice : Option ℕ := none

namespace PenaltyGroup

def setPenaltyAmount (amount : ℚ) (h : 0 ≤ amount) (g : PenaltyGroup) : PenaltyGroup :=
  { g with penaltyAmount := amount, penaltyAmount_nonneg := h }

def setState (state : GroupInvoiceState) (g : PenaltyGroup) : PenaltyGroup :=
  { g with state := state }

def setPenaltyInvoice (inv : ℕ) (g : PenaltyGroup) : PenaltyGroup :=
  { g with penaltyInvoice := some inv }

end PenaltyGroup

structure PenaltyRecords where
  moves : List Move
  groups : List PenaltyGroup

namespace PenaltyRecords

def modifyGroup (id : ℕ) (f : PenaltyGroup → PenaltyGroup) (s : PenaltyRecords) :
    PenaltyRecords :=
  { s with groups := s.groups.modify id f }

def modifyMove (inv : ℕ) (f : Move → Move) (s : PenaltyRecords) : PenaltyRecords :=
  { s with moves := s.moves.modify inv f }

def addMove (m : Move) (s : PenaltyRecords) : PenaltyRecords :=
  { s with moves := s.moves ++ [m] }

end PenaltyRecords

/-- The settings that the penalty invoice reads besides those of an order. -/
structure PenaltySettings extends Settings where
  /-- The products with `is_main_penalty_charge`. -/
  mainPenaltyCharges : List Product := []
  displayName : ℕ → String := fun _ => ""

def Move.addLines (lines : List InvoiceLine) (m : Move) : Move :=
  m.setLines (m.invoiceLineIds ++ lines)

namespace PenaltyGroup

variable (st : PenaltySettings) (ac : Accounting)

abbrev Tx := EStateM String PenaltyRecords

/-- The group invoice an operation is called on. -/
def self (id : ℕ) : Tx PenaltyGroup := do
  match (← get).groups[id]? with
  | some g => pure g
  | none => throw "Record does not exist or has been deleted."

/-- `total_amount`: the amounts of the invoices are read as floats. -/
def totalAmount (moves : List Move) (g : PenaltyGroup) : ℚ :=
  let ar := Arithmetic.double
  ar.sum (g.invoiceIds.map fun inv => ar.round (ac.total moves[inv]?))

/-! ## Calculating the penalty -/

/-- `penalty_days * (rec.total_amount * (rec.penalty_rate / 100))` -/
def rawPenalty (moves : List Move) (penaltyDays : ℤ) (g : PenaltyGroup) : ℚ :=
  let ar := Arithmetic.double
  ar.mul penaltyDays (ar.mul (g.totalAmount ac moves) (ar.div g.penaltyRate 100))

/-- The amount that `_calculate_penalty_amount(penalty_days)` assigns. -/
def calculatedPenalty (moves : List Move) (penaltyDays : ℤ) (g : PenaltyGroup) : ℚ :=
  ac.floatRound (g.rawPenalty ac moves penaltyDays)

/-- One round of `_calculate_penalty_amount(penalty_days)`. -/
def calculatePenaltyAmount (id : ℕ) (penaltyDays : ℤ) : Tx PUnit := do
  let g ← self id
  let moves := (← get).moves
  if h : 0 ≤ g.calculatedPenalty ac moves penaltyDays then
    modify (PenaltyRecords.modifyGroup id (setPenaltyAmount _ h))
  else throw "Penalty Amount can't be less than 0"

/-- `calculate_penalty()` on a recordset, on the day `today`. -/
def calculatePenalty (today : ℤ) : List ℕ → Tx PUnit
  | [] => pure ⟨⟩
  | id :: ids => do
      let targetPenaltyDays := today - (← self id).dueAt
      calculatePenaltyAmount ac id targetPenaltyDays
      calculatePenalty today ids

/-- `_toggle_state_delayed()` -/
def toggleStateDelayed (id : ℕ) : Tx PUnit :=
  modify (PenaltyRecords.modifyGroup id (setState .delayed))

/-- What the nightly job looks for. -/
def IsLate (today : ℤ) (g : PenaltyGroup) : Prop :=
  (g.state = .unpaid ∨ g.state = .delayed) ∧ 0 < today - g.dueAt

instance (today : ℤ) (g : PenaltyGroup) : Decidable (g.IsLate today) :=
  inferInstanceAs (Decidable (_ ∧ _))

/-- The loop of `scheduled_penalty_calculator` over the records that are left. -/
def calculateTargets (today : ℤ) : List ℕ → Tx PUnit
  | [] => pure ⟨⟩
  | rec :: recs => do
      toggleStateDelayed rec
      calculatePenalty ac today [rec]
      calculateTargets today recs

/-- `scheduled_penalty_calculator()` -/
def scheduledPenaltyCalculator (today : ℤ) : Tx PUnit := do
  let targetRecords := Table.search (fun g => IsLate today g) (← get).groups
  calculateTargets ac today targetRecords

/-- `confirm_group_invoice_payment()` on a recordset. -/
def confirmGroupInvoicePayment : List ℕ → Tx PUnit
  | [] => pure ⟨⟩
  | id :: ids => do
      modify (PenaltyRecords.modifyGroup id (setState .paid))
      confirmGroupInvoicePayment ids

/-! ## The penalty invoice -/

/-- `_get_penalty_service_lines()` -/
def getPenaltyServiceLines (g : PenaltyGroup) : Except String (List InvoiceLine) := do
  match ← single "product.product" st.mainPenaltyCharges with
  | none => throw "Missing Penalty Charge Service"
  | some product =>
      raiseIf (product.costCentersId = none) "'NoneType' object has no attribute 'id'"
      return [{ productId := some product.id, name := "Invoice Payment Delay Penalty",
                quantity := 1, priceUnit := g.penaltyAmount,
                costCentersId := product.costCentersId }]

/-- `_prepare_penalty_invoice_lines()` -/
def preparePenaltyInvoiceLines (g : PenaltyGroup) : Except String Move := do
  let journal := limitOne st.saleJournals
  raiseIf (journal = none) st.missingJournal
  let invoiceServiceLines ← getPenaltyServiceLines st g
  return { moveType := .outInvoice, ref := "Penalty Invoice " ++ st.displayName g.customer,
           partnerId := some g.customer, journalId := journal,
           invoiceLineIds := invoiceServiceLines }

/-- Raise the message of a refusal. -/
def refuse (reason : Option String) : Tx PUnit :=
  match reason with
  | some message => throw message
  | none => pure ⟨⟩

/-- A write on an account move, which accounting may refuse for a reason. -/
def writeMove (inv : ℕ) (reason : Move → Option String) (f : Move → Move) : Tx PUnit := do
  match (← get).moves[inv]? with
  | none => throw "Record does not exist or has been deleted."
  | some m =>
      refuse (reason m)
      raiseIf m.auditAndLock "Can't Edit Move After Being Audited"
      modify (PenaltyRecords.modifyMove inv f)

def buttonDraft (inv : ℕ) : Tx PUnit := writeMove inv ac.refuseDraft Move.reset

/-- `invoice_line_ids = [(5,)]` -/
def clearInvoiceLines (inv : ℕ) : Tx PUnit :=
  writeMove inv (fun m => ac.refuseLines (m.setLines [])) (Move.setLines [])

/-- `invoice_line_ids = lines`, where every line is a command that adds it. -/
def addInvoiceLines (inv : ℕ) (lines : List InvoiceLine) : Tx PUnit :=
  writeMove inv (fun m => ac.refuseLines (m.addLines lines)) (Move.addLines lines)

def actionPost (inv : ℕ) : Tx PUnit := writeMove inv ac.refusePost (Move.post ac inv)

/-- `account.move.create(vals)` -/
def createMove (vals : Move) : Tx ℕ := do
  refuse (ac.refuseCreate vals)
  let inv := (← get).moves.length
  modify (PenaltyRecords.addMove vals)
  return inv

/-- The branch of `create_penalty_invoice` without a penalty invoice. -/
def createInvoiceOf (id : ℕ) (g : PenaltyGroup) : Tx PUnit := do
  let vals ← lift (preparePenaltyInvoiceLines st g)
  let penaltyInvoice ← createMove ac vals
  actionPost ac penaltyInvoice
  modify (PenaltyRecords.modifyGroup id (setPenaltyInvoice penaltyInvoice))

/-- The branch of `create_penalty_invoice` with the penalty invoice `inv`. -/
def updateInvoiceOf (g : PenaltyGroup) (inv : ℕ) : Tx PUnit := do
  match (← get).moves[inv]? with
  | none => throw "Record does not exist or has been deleted."
  | some m =>
      raiseIf (ac.paymentState m ≠ .notPaid) "Invoice already has been paid"
      buttonDraft ac inv
      clearInvoiceLines ac inv
      let lines ← lift (getPenaltyServiceLines st g)
      addInvoiceLines ac inv lines
      actionPost ac inv

/-- One round of `create_penalty_invoice`. -/
def createPenaltyInvoiceOf (id : ℕ) : Tx PUnit := do
  let g ← self id
  raiseIf (g.penaltyAmount = 0) "No Penalty Found"
  match g.penaltyInvoice with
  | none => createInvoiceOf st ac id g
  | some inv => updateInvoiceOf st ac g inv

/-- `create_penalty_invoice()` on a recordset. -/
def createPenaltyInvoice : List ℕ → Tx PUnit
  | [] => pure ⟨⟩
  | id :: ids => do
      createPenaltyInvoiceOf st ac id
      createPenaltyInvoice ids

/-! ## Runs -/

inductive Event
  | calculatePenalty (today : ℤ) (ids : List ℕ)
  | scheduledPenaltyCalculator (today : ℤ)
  | confirmGroupInvoicePayment (ids : List ℕ)
  | createPenaltyInvoice (ids : List ℕ)
  | pay (inv : ℕ) (amount : ℚ)

def perform : Event → Tx PUnit
  | .calculatePenalty today ids => calculatePenalty ac today ids
  | .scheduledPenaltyCalculator today => scheduledPenaltyCalculator ac today
  | .confirmGroupInvoicePayment ids => confirmGroupInvoicePayment ids
  | .createPenaltyInvoice ids => createPenaltyInvoice st ac ids
  | .pay inv amount => modify (PenaltyRecords.modifyMove inv (Move.reconcile amount))

/-- An operation that raises is rolled back. -/
def step (s : PenaltyRecords) (e : Event) : PenaltyRecords :=
  (atomic (fun s _ => s) (perform st ac e) s).2

end PenaltyGroup

end Fastrak
