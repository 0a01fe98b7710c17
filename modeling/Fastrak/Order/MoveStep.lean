import Fastrak.Library.Table
import Fastrak.Order.System
import Mathlib.Logic.Relation

/-!
# The writes on account moves

The operations write on account moves in four ways. A move is created, one that is not locked
is written, an amount of one is settled, and one that is not locked is reversed by a credit
note. What each of these keeps is kept by every operation, whatever it does in which order.
-/

namespace Fastrak

open Relation

/-- What a write leaves in place of the move `id`. It has no other name than before, or the one
of its number. -/
structure Move.Rewritten (ac : Accounting) (id : ℕ) (m m' : Move) : Prop where
  moveType : m'.moveType = m.moveType
  ref : m'.ref = m.ref
  name : m'.name = m.name ∨ m'.name = ac.moveName id

/-- A move as it is created, other than a credit note. -/
structure Move.Fresh (m : Move) : Prop where
  moveType : m.moveType ≠ .outRefund
  name : m.name = ""

/-- One write on the account moves. -/
inductive MoveStep (ac : Accounting) (moves : List Move) : List Move → Prop
  | create {m : Move} (hm : m.Fresh) : MoveStep ac moves (moves ++ [m])
  | write {i : ℕ} {m m' : Move} (hm : moves[i]? = some m) (hlock : m.auditAndLock = false)
      (h : m.Rewritten ac i m') : MoveStep ac moves (moves.set i m')
  | settle (i : ℕ) (amount : ℚ) : MoveStep ac moves (moves.modify i (Move.reconcile amount))
  | reverse {i : ℕ} {m : Move} (hm : moves[i]? = some m) (hlock : m.auditAndLock = false) :
      MoveStep ac moves (moves.modify i (Move.reverse ac) ++
        [m.creditNote ac i moves.length ("Reversal of " ++ m.name)])

/-- The writes of an operation. -/
abbrev MoveSteps (ac : Accounting) : List Move → List Move → Prop := ReflTransGen (MoveStep ac)

variable {ac : Accounting} {moves moves' : List Move} {i : ℕ} {m : Move}

namespace Move

theorem Rewritten.trans {m' m'' : Move} (h : m.Rewritten ac i m') (h' : m'.Rewritten ac i m'') :
    m.Rewritten ac i m'' where
  moveType := h'.moveType.trans h.moveType
  ref := h'.ref.trans h.ref
  name := h'.name.elim (fun heq => h.name.imp heq.trans heq.trans) .inr

theorem rewritten_post (ac : Accounting) (i : ℕ) (m : Move) : m.Rewritten ac i (m.post ac i) where
  moveType := rfl
  ref := rfl
  name := by
    rw [post]
    split
    · exact .inr rfl
    · exact .inl rfl

theorem rewritten_reset (ac : Accounting) (i : ℕ) (m : Move) : m.Rewritten ac i m.reset :=
  ⟨rfl, rfl, .inl rfl⟩

theorem rewritten_setLines (ac : Accounting) (i : ℕ) (lines : List InvoiceLine) (m : Move) :
    m.Rewritten ac i (m.setLines lines) :=
  ⟨rfl, rfl, .inl rfl⟩

end Move

/-- A write on a move that is not there does nothing. -/
theorem moveSteps_modify {f : Move → Move} (hlock : (moves[i]?).any (·.auditAndLock) = false)
    (hf : ∀ m : Move, m.Rewritten ac i (f m)) : MoveSteps ac moves (moves.modify i f) := by
  cases hm : moves[i]? with
  | none =>
      rw [List.modify_eq_self (List.getElem?_eq_none_iff.mp hm)]
  | some m =>
      rw [Table.modify_eq_set_of_some hm]
      exact .single (.write hm (by simpa [hm] using hlock) (hf m))

/-! ## What the writes keep -/

/-- The locked moves are as they were, but for the amount that has been settled. -/
def KeepsLocked (moves moves' : List Move) : Prop :=
  ∀ (i : ℕ) (m : Move), moves[i]? = some m → m.auditAndLock →
    ∃ amount, moves'[i]? = some { m with reconciled := amount }

theorem KeepsLocked.refl (moves : List Move) : KeepsLocked moves moves :=
  fun _ m hm _ => ⟨m.reconciled, hm⟩

theorem KeepsLocked.trans {moves'' : List Move} (h : KeepsLocked moves moves')
    (h' : KeepsLocked moves' moves'') : KeepsLocked moves moves'' := by
  intro i m hm hlock
  obtain ⟨amount, hm'⟩ := h i m hm hlock
  exact h' i { m with reconciled := amount } hm' hlock

/-- A write on a move that is not locked. -/
theorem KeepsLocked.modify {f : Move → Move} (hlock : (moves[i]?).any (·.auditAndLock) = false) :
    KeepsLocked moves (moves.modify i f) := by
  intro j m hm hlocked
  refine ⟨m.reconciled, ?_⟩
  rw [Table.getElem?_modify_of_some hm, if_neg]
  rintro rfl
  simp [hm, hlocked] at hlock

theorem KeepsLocked.append (created : List Move) : KeepsLocked moves (moves ++ created) :=
  fun _ m hm _ => ⟨m.reconciled, Table.getElem?_append_of_some hm created⟩

theorem MoveStep.keepsLocked (h : MoveStep ac moves moves') : KeepsLocked moves moves' := by
  cases h with
  | create => exact .append _
  | @write i m m' hm hlock =>
      have hset : moves.modify i (fun _ => m') = moves.set i m' :=
        Table.modify_eq_set_of_some hm _
      rw [← hset]
      exact .modify (by simpa [hm] using hlock)
  | settle i amount =>
      intro j m hm _
      rw [Table.getElem?_modify_of_some hm]
      split
      · exact ⟨m.reconciled + amount, rfl⟩
      · exact ⟨m.reconciled, rfl⟩
  | @reverse i m hm hlock =>
      exact (KeepsLocked.modify (by simpa [hm] using hlock)).trans (.append _)

/-- Whatever an operation does, the locked moves are kept. -/
theorem MoveSteps.keepsLocked (h : MoveSteps ac moves moves') : KeepsLocked moves moves' := by
  induction h with
  | refl => exact .refl moves
  | tail _ hstep ih => exact ih.trans hstep.keepsLocked

/-! ## Names and references -/

/-- What the name of a move can be. -/
def Accounting.IsName (ac : Accounting) (name : String) : Prop :=
  name = "" ∨ ∃ i, name = ac.moveName i

/-- The move has a name that accounting gives, and a credit note the reference of one. -/
structure Move.WellNamed (ac : Accounting) (m : Move) : Prop where
  name : ac.IsName m.name
  ref : m.moveType = .outRefund → ∃ name, ac.IsName name ∧ m.ref = "Reversal of " ++ name

/-- A move that charges a fee: no credit note, and with one line at most. -/
structure Move.IsFee (ac : Accounting) (m : Move) : Prop where
  moveType : m.moveType ≠ .outRefund
  name : ac.IsName m.name
  invoiceLineIds : m.invoiceLineIds.length ≤ 1

namespace Move

theorem Fresh.wellNamed (h : m.Fresh) : m.WellNamed ac where
  name := .inl h.name
  ref hrefund := absurd hrefund h.moveType

theorem Rewritten.isName {m' : Move} (h : m.Rewritten ac i m') (hm : ac.IsName m.name) :
    ac.IsName m'.name := by
  rcases h.name with hname | hname
  · rwa [hname]
  · exact .inr ⟨i, hname⟩

theorem Rewritten.wellNamed {m' : Move} (h : m.Rewritten ac i m') (hm : m.WellNamed ac) :
    m'.WellNamed ac where
  name := h.isName hm.name
  ref hrefund := by
    rw [h.ref]
    exact hm.ref (h.moveType ▸ hrefund)

theorem IsFee.post (h : m.IsFee ac) (i : ℕ) : (m.post ac i).IsFee ac where
  moveType := h.moveType
  name := (rewritten_post ac i m).isName h.name
  invoiceLineIds := h.invoiceLineIds

theorem IsFee.reconcile (h : m.IsFee ac) (amount : ℚ) : (m.reconcile amount).IsFee ac :=
  ⟨h.moveType, h.name, h.invoiceLineIds⟩

end Move

theorem MoveStep.wellNamed (h : MoveStep ac moves moves')
    (hmoves : ∀ m ∈ moves, m.WellNamed ac) : ∀ m ∈ moves', m.WellNamed ac := by
  have hmodify : ∀ {i : ℕ} {f : Move → Move}, (∀ m : Move, m.WellNamed ac → (f m).WellNamed ac) →
      ∀ m ∈ moves.modify i f, m.WellNamed ac := by
    intro i f hf m hm
    rcases Table.mem_modify_cases hm with hold | ⟨m₀, hm₀, rfl⟩
    · exact hmoves m hold
    · exact hf m₀ (hmoves m₀ hm₀)
  cases h with
  | create hm =>
      intro m' hm'
      rcases List.mem_append.mp hm' with hold | hnew
      · exact hmoves m' hold
      · rw [List.mem_singleton.mp hnew]
        exact hm.wellNamed
  | @write i m m' hm _ h =>
      intro m'' hm''
      rcases List.mem_or_eq_of_mem_set hm'' with hold | rfl
      · exact hmoves m'' hold
      · exact h.wellNamed (hmoves m (List.mem_of_getElem? hm))
  | settle i amount => exact hmodify fun m hm => ⟨hm.name, hm.ref⟩
  | @reverse i m hm =>
      intro m' hm'
      rcases List.mem_append.mp hm' with hold | hnew
      · exact @hmodify i (Move.reverse ac) (fun m hm => ⟨hm.name, hm.ref⟩) m' hold
      · rw [List.mem_singleton.mp hnew]
        have hnamed := hmoves m (List.mem_of_getElem? hm)
        exact ⟨.inr ⟨moves.length, rfl⟩, fun _ => ⟨m.name, hnamed.name, rfl⟩⟩

theorem MoveSteps.wellNamed (h : MoveSteps ac moves moves')
    (hmoves : ∀ m ∈ moves, m.WellNamed ac) : ∀ m ∈ moves', m.WellNamed ac := by
  induction h with
  | refl => exact hmoves
  | tail _ hstep ih => exact hstep.wellNamed ih

end Fastrak
