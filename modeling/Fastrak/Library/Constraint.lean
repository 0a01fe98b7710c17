import Fastrak.Library.Transaction
import Mathlib.Data.Nat.Notation

/-!
# Checks that run when a field is written

A constraint names the fields it is about. A create or a write runs it on the records it has
written if it holds one of these fields, and else it does not run, whatever else changes.
`validate` runs the constraints of a model one after the other, up to the first that raises.

So a write is only checked as far as the constraints that it fires go: `validate_eq_ok_iff`
says what an accepted write has passed.
-/

namespace Fastrak

universe u

open Transaction

/-- A method with `@api.constrains(fields)`, and what it does on the written records. -/
structure Constraint (φ ι σ ε : Type u) where
  fields : List φ
  check : σ → List ι → Except ε PUnit.{u + 1}

namespace Constraint

variable {φ ι σ ε : Type u}

/-- One of the fields is written. -/
def Fires (c : Constraint φ ι σ ε) (written : φ → Bool) : Prop := c.fields.any written = true

instance (c : Constraint φ ι σ ε) (written : φ → Bool) : Decidable (c.Fires written) :=
  inferInstanceAs (Decidable (_ = true))

theorem fires_iff {c : Constraint φ ι σ ε} {written : φ → Bool} :
    c.Fires written ↔ ∃ f ∈ c.fields, written f = true := List.any_eq_true

def validate (cs : List (Constraint φ ι σ ε)) (written : φ → Bool) (s : σ) (ids : List ι) :
    Except ε PUnit.{u + 1} :=
  cs.forM fun c => if c.Fires written then c.check s ids else pure ⟨⟩

theorem validate_eq_ok_iff {cs : List (Constraint φ ι σ ε)} {written : φ → Bool} {s : σ}
    {ids : List ι} {r : PUnit} :
    validate cs written s ids = .ok r ↔ ∀ c ∈ cs, c.Fires written → c.check s ids = .ok ⟨⟩ := by
  rw [validate, forM_eq_ok_iff]
  refine forall₂_congr fun c _ => ?_
  by_cases h : c.Fires written
  · simp [h]
  · simp [h, pure, Except.pure]

/-! ## Checks on single records -/

section Each

variable {ρ : Type}

/-- `for rec in self: if bad: raise`, where `self` is given by positions in a table. -/
def each (bad : ρ → Prop) [DecidablePred bad] (message : String) (table : List ρ)
    (self : List ℕ) : Except String PUnit :=
  self.forM fun i => raiseIf ((table[i]?).any fun r => bad r) message

theorem each_eq_ok_iff {bad : ρ → Prop} [DecidablePred bad] {message : String}
    {table : List ρ} {self : List ℕ} {r : PUnit} :
    each bad message table self = .ok r ↔
      ∀ i ∈ self, ∀ r, table[i]? = some r → ¬ bad r := by
  rw [each, forM_eq_ok_iff]
  refine forall₂_congr fun i _ => ?_
  rw [raiseIf_eq_ok_iff, Option.any_eq_true, not_exists]
  refine forall_congr' fun r => ?_
  rw [not_and, decide_eq_true_iff]

end Each

end Constraint

end Fastrak
