import Mathlib.Data.Finset.Card
import Mathlib.Data.Finset.SDiff
import Mathlib.Data.List.Sort

/-!
# The priority queue

A `PriorityQueue` removes lazily: an object that is removed is marked and stays in the
heap until it comes up. `heapq` pushes an object in front of those whose keys are not
smaller and pops the first, which has a least key; which of two objects with one key is
popped first it does not promise.

`objects` is what the queue stands for, the set of the objects that are in the heap
without a mark, and the lemmas about the operations are in its terms.
-/

namespace Fastrak

namespace JobRunner

universe u v

variable {α : Type u} {κ : Type v} [DecidableEq α] [LinearOrder κ] {key : α → κ}

/-- The heap, all objects in it, and those of them that have been removed. -/
structure LazyHeap (α : Type u) where
  heap : List α := []
  known : Finset α := ∅
  removed : Finset α := ∅

namespace LazyHeap

variable {q : LazyHeap α} {o o' : α}

/-- What the operations rely on. -/
structure Valid (key : α → κ) (q : LazyHeap α) : Prop where
  sorted : q.heap.Pairwise fun a b => key a ≤ key b
  nodup : q.heap.Nodup
  mem_known : ∀ o, o ∈ q.known ↔ o ∈ q.heap
  removed_subset : q.removed ⊆ q.known

/-- The objects of the queue. -/
def objects (q : LazyHeap α) : Finset α := q.known \ q.removed

def add (key : α → κ) (q : LazyHeap α) (o : α) : LazyHeap α :=
  let q := { q with removed := q.removed.erase o }
  if o ∈ q.known then q
  else { q with
    known := insert o q.known
    heap := q.heap.orderedInsert (fun a b => key a ≤ key b) o }

def remove (q : LazyHeap α) (o : α) : LazyHeap α :=
  if o ∈ q.known then { q with removed := insert o q.removed } else q

/-- The loop of `queue[0]`: what has been removed is dropped as it comes up. -/
def dropRemoved : List α → Finset α → Finset α → LazyHeap α
  | [], known, removed => ⟨[], known, removed⟩
  | o :: heap, known, removed =>
      if o ∈ removed then dropRemoved heap (known.erase o) (removed.erase o)
      else ⟨o :: heap, known, removed⟩

/-- The loop of `pop`. -/
def popFrom : List α → Finset α → Finset α → Option α × LazyHeap α
  | [], known, removed => (none, ⟨[], known, removed⟩)
  | o :: heap, known, removed =>
      if o ∈ removed then popFrom heap (known.erase o) (removed.erase o)
      else (some o, ⟨heap, known.erase o, removed⟩)

theorem mem_objects : o ∈ q.objects ↔ o ∈ q.known ∧ o ∉ q.removed := Finset.mem_sdiff

omit [DecidableEq α] in
theorem Valid.empty : (⟨[], ∅, ∅⟩ : LazyHeap α).Valid key :=
  ⟨.nil, .nil, by simp, by simp⟩

theorem Valid.add (h : q.Valid key) (o : α) : (q.add key o).Valid key := by
  unfold LazyHeap.add
  by_cases ho : o ∈ q.known
  · rw [if_pos ho]
    exact ⟨h.sorted, h.nodup, h.mem_known, (q.removed.erase_subset o).trans h.removed_subset⟩
  · rw [if_neg ho]
    have hheap : o ∉ q.heap := fun hm => ho ((h.mem_known o).mpr hm)
    have hperm := List.perm_orderedInsert (fun a b => key a ≤ key b) o q.heap
    refine ⟨?_, hperm.nodup_iff.mpr (List.nodup_cons.mpr ⟨hheap, h.nodup⟩), fun o' => ?_, ?_⟩
    · have : Std.Total fun a b : α => key a ≤ key b := ⟨fun a b => le_total _ _⟩
      have : IsTrans α fun a b => key a ≤ key b := ⟨fun a b c => le_trans⟩
      exact h.sorted.orderedInsert o q.heap
    · simp [h.mem_known o']
    · exact (q.removed.erase_subset o).trans (h.removed_subset.trans (Finset.subset_insert o _))

theorem Valid.remove (h : q.Valid key) (o : α) : (q.remove o).Valid key := by
  unfold LazyHeap.remove
  by_cases ho : o ∈ q.known
  · rw [if_pos ho]
    exact ⟨h.sorted, h.nodup, h.mem_known, Finset.insert_subset ho h.removed_subset⟩
  · rwa [if_neg ho]

theorem Valid.tail {heap : List α} {known removed : Finset α}
    (h : (⟨o :: heap, known, removed⟩ : LazyHeap α).Valid key) :
    (⟨heap, known.erase o, removed.erase o⟩ : LazyHeap α).Valid key := by
  have hnd := List.nodup_cons.mp h.nodup
  refine ⟨h.sorted.of_cons, hnd.2, fun o' => ?_, Finset.erase_subset_erase o h.removed_subset⟩
  have hmem := h.mem_known o'
  simp only [List.mem_cons] at hmem
  rw [Finset.mem_erase, hmem]
  constructor
  · rintro ⟨hne, heq | ho'⟩
    · exact absurd heq hne
    · exact ho'
  · intro ho'
    exact ⟨fun heq => hnd.1 (heq ▸ ho'), .inr ho'⟩

/-- Of a heap that starts with an object that has not been removed, this is a least one. -/
theorem Valid.head {heap : List α} {known removed : Finset α} (ho : o ∉ removed)
    (h : (⟨o :: heap, known, removed⟩ : LazyHeap α).Valid key) :
    o ∈ objects ⟨o :: heap, known, removed⟩ ∧
      ∀ a ∈ objects ⟨o :: heap, known, removed⟩, key o ≤ key a := by
  refine ⟨mem_objects.mpr ⟨(h.mem_known o).mpr (by simp), ho⟩, fun a ha => ?_⟩
  rcases List.mem_cons.mp ((h.mem_known a).mp (mem_objects.mp ha).1) with rfl | hm
  · exact le_rfl
  · exact List.rel_of_pairwise_cons h.sorted hm

theorem objects_tail {heap : List α} {known removed : Finset α} (ho : o ∈ removed) :
    objects ⟨heap, known.erase o, removed.erase o⟩ = objects ⟨o :: heap, known, removed⟩ := by
  ext a
  simp only [mem_objects, Finset.mem_erase]
  constructor
  · rintro ⟨⟨hne, hk⟩, hr⟩
    exact ⟨hk, fun h => hr ⟨hne, h⟩⟩
  · rintro ⟨hk, hr⟩
    exact ⟨⟨fun h => hr (h ▸ ho), hk⟩, fun h => hr h.2⟩

theorem Valid.objects_add (h : q.Valid key) (o : α) :
    (q.add key o).objects = insert o q.objects := by
  have hsub : o ∈ q.removed → o ∈ q.known := fun hr => h.removed_subset hr
  ext a
  unfold LazyHeap.add
  by_cases ho : o ∈ q.known
  · rw [if_pos ho]
    simp only [mem_objects, Finset.mem_insert, Finset.mem_erase]
    by_cases ha : a = o
    · simp [ha, ho]
    · simp [ha]
  · rw [if_neg ho]
    simp only [mem_objects, Finset.mem_insert, Finset.mem_erase]
    by_cases ha : a = o
    · simp [ha]
    · simp [ha]

theorem objects_remove (q : LazyHeap α) (o : α) : (q.remove o).objects = q.objects.erase o := by
  ext a
  unfold LazyHeap.remove
  rw [Finset.mem_erase]
  by_cases ho : o ∈ q.known
  · rw [if_pos ho]
    simp only [mem_objects, Finset.mem_insert, not_or]
    tauto
  · rw [if_neg ho, mem_objects]
    exact ⟨fun h => ⟨fun heq => ho (heq ▸ h.1), h⟩, fun h => h.2⟩

theorem dropRemoved_spec : ∀ (heap : List α) (known removed : Finset α),
    (⟨heap, known, removed⟩ : LazyHeap α).Valid key →
      (dropRemoved heap known removed).Valid key ∧
      (dropRemoved heap known removed).objects = objects ⟨heap, known, removed⟩ ∧
      ∀ o ∈ (dropRemoved heap known removed).heap.head?,
        o ∉ (dropRemoved heap known removed).removed
  | [], known, removed, h => ⟨h, rfl, by simp [dropRemoved]⟩
  | o :: heap, known, removed, h => by
      unfold dropRemoved
      by_cases ho : o ∈ removed
      · rw [if_pos ho, ← objects_tail ho]
        exact dropRemoved_spec heap _ _ h.tail
      · rw [if_neg ho]
        refine ⟨h, rfl, fun a ha => ?_⟩
        obtain rfl : o = a := by simpa using ha
        exact ho

/-- What `pop` leaves of the queue, and what it returns. -/
theorem popFrom_spec : ∀ (heap : List α) (known removed : Finset α),
    (⟨heap, known, removed⟩ : LazyHeap α).Valid key →
      (popFrom heap known removed).2.Valid key ∧
      match (popFrom heap known removed).1 with
      | none => objects ⟨heap, known, removed⟩ = ∅ ∧
          (popFrom heap known removed).2.objects = ∅
      | some o => o ∈ objects ⟨heap, known, removed⟩ ∧
          (∀ a ∈ objects ⟨heap, known, removed⟩, key o ≤ key a) ∧
          (popFrom heap known removed).2.objects = (objects ⟨heap, known, removed⟩).erase o
  | [], known, removed, h => by
      have hk : known = ∅ :=
        Finset.eq_empty_of_forall_notMem fun o ho => by simpa using (h.mem_known o).mp ho
      exact ⟨h, by simp [popFrom, objects, hk]⟩
  | o :: heap, known, removed, h => by
      unfold popFrom
      by_cases ho : o ∈ removed
      · rw [if_pos ho, ← objects_tail ho]
        exact popFrom_spec heap _ _ h.tail
      · rw [if_neg ho]
        obtain ⟨hmem, hmin⟩ := h.head ho
        have hr : removed.erase o = removed := Finset.erase_eq_of_notMem ho
        refine ⟨hr ▸ h.tail, hmem, hmin, ?_⟩
        ext a
        simp only [mem_objects, Finset.mem_erase, and_assoc]

end LazyHeap

/-- A queue of objects in the order of their keys. -/
structure PriorityQueue (key : α → κ) extends LazyHeap α where
  valid : toLazyHeap.Valid key

namespace PriorityQueue

variable {q : PriorityQueue key} {o : α}

def empty (key : α → κ) : PriorityQueue key := ⟨⟨[], ∅, ∅⟩, .empty⟩

/-- `len(queue)` -/
def len (q : PriorityQueue key) : ℕ := q.known.card - q.removed.card

/-- `o in queue` -/
def contains (q : PriorityQueue key) (o : α) : Bool := o ∈ q.known ∧ o ∉ q.removed

def add (q : PriorityQueue key) (o : α) : PriorityQueue key :=
  ⟨q.toLazyHeap.add key o, q.valid.add o⟩

def remove (q : PriorityQueue key) (o : α) : PriorityQueue key :=
  ⟨q.toLazyHeap.remove o, q.valid.remove o⟩

/-- The queue after `queue[0]`. -/
def pruned (q : PriorityQueue key) : PriorityQueue key :=
  ⟨.dropRemoved q.heap q.known q.removed, (LazyHeap.dropRemoved_spec _ _ _ q.valid).1⟩

/-- `queue[0]`, which raises an `IndexError` when the queue is empty. -/
def getitem (q : PriorityQueue key) : Option α := q.pruned.heap.head?

def pop (q : PriorityQueue key) : Option α × PriorityQueue key :=
  ((LazyHeap.popFrom q.heap q.known q.removed).1,
    ⟨(LazyHeap.popFrom q.heap q.known q.removed).2, (LazyHeap.popFrom_spec _ _ _ q.valid).1⟩)

@[simp] theorem objects_empty : (empty key).objects = ∅ := rfl

theorem contains_iff : q.contains o ↔ o ∈ q.objects := by
  simp [contains, LazyHeap.mem_objects]

theorem len_eq_card (q : PriorityQueue key) : q.len = q.objects.card := by
  unfold len LazyHeap.objects
  rw [Finset.card_sdiff_of_subset q.valid.removed_subset]

@[simp] theorem objects_add (q : PriorityQueue key) (o : α) :
    (q.add o).objects = insert o q.objects :=
  q.valid.objects_add o

@[simp] theorem objects_remove (q : PriorityQueue key) (o : α) :
    (q.remove o).objects = q.objects.erase o :=
  q.toLazyHeap.objects_remove o

@[simp] theorem objects_pruned (q : PriorityQueue key) : q.pruned.objects = q.objects :=
  (LazyHeap.dropRemoved_spec _ _ _ q.valid).2.1

theorem notMem_removed_of_getitem (h : q.getitem = some o) : o ∉ q.pruned.removed :=
  (LazyHeap.dropRemoved_spec _ _ _ q.valid).2.2 o h

/-- `queue[0]` is a least object of the queue. -/
theorem getitem_eq_some (h : q.getitem = some o) :
    o ∈ q.objects ∧ ∀ a ∈ q.objects, key o ≤ key a := by
  obtain ⟨heap, hheap⟩ := List.head?_eq_some_iff.mp h
  have hq : (⟨o :: heap, q.pruned.known, q.pruned.removed⟩ : LazyHeap α) =
      q.pruned.toLazyHeap := by rw [← hheap]
  have hhead := (hq ▸ q.pruned.valid).head (notMem_removed_of_getitem h)
  rwa [hq, q.objects_pruned] at hhead

theorem getitem_eq_none_iff : q.getitem = none ↔ q.objects = ∅ := by
  constructor
  · intro h
    have hheap : q.pruned.heap = [] := List.head?_eq_none_iff.mp h
    rw [← q.objects_pruned]
    refine Finset.eq_empty_of_forall_notMem fun o ho => ?_
    simpa [hheap] using (q.pruned.valid.mem_known o).mp (LazyHeap.mem_objects.mp ho).1
  · intro h
    cases hg : q.getitem with
    | none => rfl
    | some o => simpa [h] using (getitem_eq_some hg).1

/-- What `pop` returns and what it leaves. -/
theorem pop_spec (q : PriorityQueue key) :
    match q.pop.1 with
    | none => q.objects = ∅ ∧ q.pop.2.objects = ∅
    | some o => o ∈ q.objects ∧ (∀ a ∈ q.objects, key o ≤ key a) ∧
        q.pop.2.objects = q.objects.erase o :=
  (LazyHeap.popFrom_spec _ _ _ q.valid).2

theorem pop_eq_none (h : q.pop.1 = none) : q.objects = ∅ ∧ q.pop.2.objects = ∅ := by
  have hs := q.pop_spec
  rwa [h] at hs

/-- `pop` returns a least object and removes it. -/
theorem pop_eq_some (h : q.pop.1 = some o) :
    o ∈ q.objects ∧ (∀ a ∈ q.objects, key o ≤ key a) ∧ q.pop.2.objects = q.objects.erase o := by
  have hs := q.pop_spec
  rwa [h] at hs

theorem pop_eq_none_iff : q.pop.1 = none ↔ q.objects = ∅ := by
  refine ⟨fun h => (pop_eq_none h).1, fun h => ?_⟩
  cases hp : q.pop.1 with
  | none => rfl
  | some o => simpa [h] using (pop_eq_some hp).1

end PriorityQueue

end JobRunner

end Fastrak
