import Mathlib.Data.Finset.Option
import Fastrak.JobRunner.PriorityQueue

/-!
# Removed objects cannot be seen

The priority queue only marks an object as removed, and drops it when it comes up. Nobody
who uses the queue can tell: over any run of calls its answers are those of a plain set
from which an object is removed at once.
-/

namespace Fastrak

namespace JobRunner

variable {α κ : Type} [DecidableEq α] [LinearOrder κ] {key : α → κ}

/-- The calls of a priority queue. -/
inductive QueueCall (α : Type)
  | add (o : α)
  | remove (o : α)
  | getitem
  | pop
  | contains (o : α)
  | len

inductive Answer (α : Type)
  | nothing
  | object (o : Option α)
  | truth (b : Bool)
  | number (n : ℕ)

namespace PriorityQueue

def call (q : PriorityQueue key) : QueueCall α → Answer α × PriorityQueue key
  | .add o => (.nothing, q.add o)
  | .remove o => (.nothing, q.remove o)
  | .getitem => (.object q.getitem, q.pruned)
  | .pop => (.object q.pop.1, q.pop.2)
  | .contains o => (.truth (q.contains o), q)
  | .len => (.number q.len, q)

def answers (q : PriorityQueue key) : List (QueueCall α) → List (Answer α)
  | [] => []
  | c :: cs => (q.call c).1 :: (q.call c).2.answers cs

end PriorityQueue

/-- A least object of a set, if it has any. -/
def IsLeast? (key : α → κ) (s : Finset α) : Option α → Prop
  | none => s = ∅
  | some o => o ∈ s ∧ ∀ a ∈ s, key o ≤ key a

/-- What a call answers on a plain set, and the set after it. -/
inductive Permits (key : α → κ) (s : Finset α) : QueueCall α → Answer α → Finset α → Prop
  | add (o : α) : Permits key s (.add o) .nothing (insert o s)
  | remove (o : α) : Permits key s (.remove o) .nothing (s.erase o)
  | getitem {o : Option α} (h : IsLeast? key s o) : Permits key s .getitem (.object o) s
  | pop {o : Option α} (h : IsLeast? key s o) :
      Permits key s .pop (.object o) (s \ o.toFinset)
  | contains (o : α) : Permits key s (.contains o) (.truth (o ∈ s)) s
  | len : Permits key s .len (.number s.card) s

/-- The answers to a run of calls on a plain set. -/
inductive PermitsAll (key : α → κ) : Finset α → List (QueueCall α) → List (Answer α) → Prop
  | nil (s : Finset α) : PermitsAll key s [] []
  | cons {s s' : Finset α} {c : QueueCall α} {cs : List (QueueCall α)} {a : Answer α}
      {as : List (Answer α)} (h : Permits key s c a s') (hs : PermitsAll key s' cs as) :
      PermitsAll key s (c :: cs) (a :: as)

namespace PriorityQueue

theorem isLeast?_getitem (q : PriorityQueue key) : IsLeast? key q.objects q.getitem := by
  cases h : q.getitem with
  | none => exact getitem_eq_none_iff.mp h
  | some o => exact getitem_eq_some h

theorem isLeast?_pop (q : PriorityQueue key) : IsLeast? key q.objects q.pop.1 := by
  cases h : q.pop.1 with
  | none => exact pop_eq_none_iff.mp h
  | some o => exact ⟨(pop_eq_some h).1, (pop_eq_some h).2.1⟩

theorem objects_pop (q : PriorityQueue key) :
    q.pop.2.objects = q.objects \ q.pop.1.toFinset := by
  cases h : q.pop.1 with
  | none =>
      rw [(pop_eq_none h).1, (pop_eq_none h).2]
      rfl
  | some o =>
      rw [(pop_eq_some h).2.2, Finset.erase_eq]
      rfl

/-- One call, on the objects that have not been removed. -/
theorem permits_call (q : PriorityQueue key) (c : QueueCall α) :
    Permits key q.objects c (q.call c).1 (q.call c).2.objects := by
  cases c with
  | add o =>
      rw [call, objects_add]
      exact .add o
  | remove o =>
      rw [call, objects_remove]
      exact .remove o
  | getitem =>
      rw [call, objects_pruned]
      exact .getitem q.isLeast?_getitem
  | pop =>
      rw [call, objects_pop]
      exact .pop q.isLeast?_pop
  | contains o =>
      have h : q.contains o = decide (o ∈ q.objects) := by
        rw [Bool.eq_iff_iff, contains_iff, decide_eq_true_eq]
      rw [call, h]
      exact .contains o
  | len =>
      rw [call, len_eq_card]
      exact .len

theorem permitsAll_answers (q : PriorityQueue key) (cs : List (QueueCall α)) :
    PermitsAll key q.objects cs (q.answers cs) := by
  induction cs generalizing q with
  | nil => exact .nil _
  | cons c cs ih => exact .cons (q.permits_call c) (ih _)

/-- A new queue answers any run of calls as the empty set does. -/
theorem lazy_removal_unseen (key : α → κ) (cs : List (QueueCall α)) :
    PermitsAll key ∅ cs ((empty key).answers cs) := by
  have h := (empty key).permitsAll_answers cs
  rwa [objects_empty] at h

end PriorityQueue

end JobRunner

end Fastrak
