import Fastrak.Order.Record
import Fastrak.Library.Arithmetic
import Fastrak.Library.Transaction

/-!
# What an operation runs in

`Settings` are the configured records an operation searches: products, taxes,
journals, flagged accounts, employees, the switch of the company, and the arithmetic that
prices are computed in. `Accounting` is the part of the accounting application whose code is
outside the repository: the total of an invoice, the names it gives to posted moves, and the
checks by which it refuses to create, reset or post a move. What it does when it does not
refuse is its documented effect and is written out below on `Move`.

An operation is a `Tx`: it works on the records of one order and may raise a
message.
-/

namespace Fastrak

open Transaction

/-- The configured records, as the searches of the application find them. -/
structure Settings where
  companyName : String := ""
  companyId : ℕ := 1
  activateVatCalculation : Bool := false
  products : List Product := []
  /-- Amounts of the active sale taxes of type `percent`. -/
  percentTaxes : List ℚ := []
  /-- Active sale taxes of type `code`. -/
  codeTaxes : List ℕ := []
  saleJournals : List ℕ := []
  generalJournals : List ℕ := []
  bankJournals : List ℕ := []
  cashJournals : List ℕ := []
  custodyAccounts : List ℕ := []
  defaultBankAccounts : List ℕ := []
  bankCommissionAccounts : List ℕ := []
  moneyCollectionAccounts : List ℕ := []
  receivableAccount : ℕ → Option ℕ := fun _ => none
  drivers : List Driver := []
  arithmetic : Arithmetic := .double
  /-- `float_round(x, precision_rounding=0.000000000000001, rounding_method='UP')` -/
  floatRoundUp : ℚ → ℚ := fun x => Rounding.roundAway x (1 / 10 ^ 15)
  /-- `float(text)`, of a text that is a number. -/
  floatOfText : String → Option ℚ := fun _ => none
  /-- The uuid of a job that is queued. -/
  jobUuid : Job → String := fun _ => ""

/-- Prices are computed without the errors of floats. -/
structure Settings.Exact (st : Settings) : Prop where
  arithmetic : st.arithmetic = .exact
  floatRoundUp : ∀ x, st.floatRoundUp x = Rounding.roundAway x (1 / 10 ^ 15)

def Settings.withExactArithmetic (st : Settings) : Settings := { st with arithmetic := .exact }

/-- The accounting application: its computations, and its refusals with their
messages. -/
structure Accounting where
  amountTotal : List InvoiceLine → ℚ
  moveName : ℕ → String
  /-- `price_subtotal` -/
  priceSubtotal : InvoiceLine → ℚ := fun line =>
    Rounding.roundHalfUp (line.quantity * line.priceUnit) 2
  /-- `float_round(x, precision_digits=0)` -/
  floatRound : ℚ → ℚ := fun x => Rounding.roundHalfUp x 0
  /-- `currency.round(x)`, in a currency of two decimals. -/
  currencyRound : ℚ → ℚ := fun x => Rounding.roundHalfUp x 2
  refuseCreate : Move → Option String := fun _ => none
  refuseDraft : Move → Option String := fun _ => none
  refuseLines : Move → Option String := fun _ => none
  refusePost : Move → Option String := fun _ => none
  refuseReverse : Move → Option String := fun _ => none
  refusePayment : Payment → Option String := fun _ => none
  refusePostPayment : Payment → Option String := fun _ => none

/-- An operation on the records of one order. -/
abbrev Tx := EStateM String OrderSlice

/-! ## Computed fields of an account move -/

namespace Accounting

variable (ac : Accounting)

/-- `amount_total`; it is zero on an empty record. -/
def total (m : Option Move) : ℚ := (m.map fun m => ac.amountTotal m.invoiceLineIds).getD 0

/-- `amount_residual`; it is zero on an empty record. -/
def residual (m : Option Move) : ℚ :=
  (m.map fun m => ac.amountTotal m.invoiceLineIds - m.reconciled).getD 0

/-- `payment_state` of an existing move. -/
def paymentState (m : Move) : PaymentState :=
  if m.state = .posted ∧ m.moveType ≠ .entry then
    if ac.residual (some m) = 0 then
      if m.isReversed then .reversed else .paid
    else if m.reconciled ≠ 0 then .partiallyPaid else .notPaid
  else .notPaid

/-- `payment_state == 'paid'`; an empty record has no payment state. -/
def isPaid (m : Option Move) : Bool := m.any fun m => ac.paymentState m = .paid

end Accounting

/-! ## A small company -/

/-- One record of each kind, and no value added tax. -/
def Settings.sample : Settings where
  products :=
    [{ id := 1, name := "Shipping", isMainServiceProduct := true, costCentersId := some 1 },
     { id := 2, name := "VAT", isMainVatService := true, costCentersId := some 1 },
     { id := 3, name := "Discount", isMainDiscountService := true, costCentersId := some 1 }]
  saleJournals := [1]
  generalJournals := [2]
  bankJournals := [3]
  cashJournals := [4]
  custodyAccounts := [10]
  defaultBankAccounts := [11]
  bankCommissionAccounts := [12]
  moneyCollectionAccounts := [13]
  receivableAccount := fun _ => some 14
  drivers := [⟨7, some 70⟩]

/-- An accounting that adds up the lines in piastres and refuses nothing. -/
def Accounting.sample : Accounting where
  amountTotal lines :=
    (lines.map fun line => Rounding.roundHalfUp (line.quantity * line.priceUnit) 2).sum
  moveName id := "INV/" ++ toString id

/-! ## Searches -/

/-- `.id` of a search result: `False` when nothing is found, an error when
several records are. -/
def single {α : Type} (model : String) : List α → Except String (Option α)
  | [] => pure none
  | [x] => pure (some x)
  | _ => throw ("Expected singleton: " ++ model)

theorem single_eq_ok_iff {α : Type} {model : String} {xs : List α} {x : Option α} :
    single model xs = .ok x ↔ xs.length ≤ 1 ∧ xs.head? = x := by
  rcases xs with _ | ⟨y, _ | ⟨z, zs⟩⟩ <;> simp [single, except_pure_eq_ok_iff, throw,
    throwThe, MonadExceptOf.throw]

theorem eq_nil_of_single {α : Type} {model : String} {xs : List α}
    (h : single model xs = .ok none) : xs = [] := by
  rcases xs with _ | ⟨y, _ | ⟨z, zs⟩⟩
  · rfl
  · cases h
  · cases h

/-- A search whose single record is read has found it and no other one. -/
theorem eq_singleton_of_single {α : Type} {model : String} {xs : List α} {x : α}
    (h : single model xs = .ok (some x)) : xs = [x] := by
  rcases xs with _ | ⟨y, _ | ⟨z, zs⟩⟩
  · cases h
  · cases h
    rfl
  · cases h

/-- `search([...], limit=1)`. -/
def limitOne {α : Type} (xs : List α) : Option α := xs.head?

namespace Settings

variable (st : Settings)

def mainServiceProducts : List Product := st.products.filter (·.isMainServiceProduct)

def mainVatServices : List Product := st.products.filter (·.isMainVatService)

def mainDiscountServices : List Product := st.products.filter (·.isMainDiscountService)

/-- The message of a journal search that found nothing. -/
def missingJournal : String :=
  "Please define an accounting sales journal for the company " ++ st.companyName ++
    " (" ++ toString st.companyId ++ ")."

def driver? (id : ℕ) : Option Driver := st.drivers.find? (·.id = id)

end Settings

/-! ## Elementary reads and writes -/

/-- The order an operation is called on. -/
def self : Tx Order := do
  match (← get).order with
  | some o => pure o
  | none => throw "Record does not exist or has been deleted."

/-- `super().write` of the order's own fields. -/
def modifyOrder (f : Order → Order) : Tx Unit := modify (OrderSlice.mapOrder f)

/-- `with_delay(...)`: the call is queued and not executed. -/
def withDelay (job : Job) : Tx Unit := modify (OrderSlice.addJob job)

/-- Raise the message of a refusal. -/
def refuse (reason : Option String) : Tx Unit :=
  match reason with
  | some message => throw message
  | none => pure ()

/-- `account.move.write`, with the lock of the application around it. -/
def moveWrite (id : ℕ) (f : Move → Move) : Tx Unit := do
  raiseIf (((← get).moves[id]?).any (·.auditAndLock)) "Can't Edit Move After Being Audited"
  modify (OrderSlice.mapMoves (·.modify id f))

/-! What the elementary reads and writes do when they return. -/

section Runs

variable {s t : OrderSlice} {u : Unit}

@[simp] theorem self_run_ok_iff {o : Order} :
    self.run s = .ok o t ↔ s.order = some o ∧ s = t := by
  unfold self
  rw [run_bind_ok_iff]
  cases h : s.order with
  | none => simp [h]
  | some o' => simp [h]

@[simp] theorem modifyOrder_run_ok_iff {f : Order → Order} :
    (modifyOrder f).run s = .ok u t ↔ s.mapOrder f = t := by
  simp [modifyOrder]

@[simp] theorem withDelay_run_ok_iff {job : Job} :
    (withDelay job).run s = .ok u t ↔ s.addJob job = t := by
  simp [withDelay]

@[simp] theorem refuse_run_ok_iff {reason : Option String} :
    (refuse reason).run s = .ok u t ↔ reason = none ∧ s = t := by
  cases reason <;> simp [refuse]

@[simp] theorem moveWrite_run_ok_iff {id : ℕ} {f : Move → Move} :
    (moveWrite id f).run s = .ok u t ↔
      ¬ (s.moves[id]?).any (·.auditAndLock) ∧ s.mapMoves (·.modify id f) = t := by
  simp [-EStateM.run_bind, moveWrite, run_bind_ok_iff]

variable {β : Type} {b : β}

theorem self_bind_run_ok_iff {f : Order → Tx β} :
    (self >>= f).run s = .ok b t ↔ ∃ o, s.order = some o ∧ (f o).run s = .ok b t := by
  rw [run_bind_ok_iff]
  constructor
  · rintro ⟨o, _, hs, hf⟩
    obtain ⟨ho, rfl⟩ := self_run_ok_iff.mp hs
    exact ⟨o, ho, hf⟩
  · rintro ⟨o, ho, hf⟩
    exact ⟨o, s, self_run_ok_iff.mpr ⟨ho, rfl⟩, hf⟩

theorem self_bind_run {o : Order} (ho : s.order = some o) (f : Order → Tx β) :
    (self >>= f).run s = (f o).run s := by
  simp [self, ho]

theorem modifyOrder_bind_run (g : Order → Order) (f : Unit → Tx β) :
    (modifyOrder g >>= f).run s = (f ()).run (s.mapOrder g) := rfl

theorem refuse_bind_run_ok_iff {reason : Option String} {f : Unit → Tx β} :
    (refuse reason >>= f).run s = .ok b t ↔ reason = none ∧ (f ()).run s = .ok b t := by
  cases reason with
  | none => simp [refuse]
  | some message => simp [refuse, throw_run]

theorem moveWrite_bind_run_ok_iff {id : ℕ} {g : Move → Move} {f : Unit → Tx β} :
    (moveWrite id g >>= f).run s = .ok b t ↔
      ¬ (s.moves[id]?).any (·.auditAndLock) ∧
        (f ()).run (s.mapMoves (·.modify id g)) = .ok b t := by
  rw [run_bind_ok_iff]
  constructor
  · rintro ⟨_, _, hs, hf⟩
    obtain ⟨hl, rfl⟩ := moveWrite_run_ok_iff.mp hs
    exact ⟨hl, hf⟩
  · rintro ⟨hl, hf⟩
    exact ⟨(), _, moveWrite_run_ok_iff.mpr ⟨hl, rfl⟩, hf⟩

end Runs

end Fastrak
