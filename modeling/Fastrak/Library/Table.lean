import Mathlib.Data.List.Basic
import Mathlib.Data.List.Induction
import Mathlib.Data.List.Nodup

/-!
# Tables of records

A table is a list: a record is created at its end, keeps its position for ever,
and is written in place. A reference to a record is its position, and a search returns
the positions of the records it finds.
-/

namespace Fastrak

namespace Table

universe u v

variable {α : Type u} {β : Type v} {l : List α} {a : α} {i : ℕ}

/-- A write on the record created last. -/
@[simp] theorem modify_concat (l : List α) (a : α) (f : α → α) :
    (l ++ [a]).modify l.length f = l ++ [f a] := by
  induction l with
  | nil => rfl
  | cons b l ih => simp [ih]

/-- A record stays where it is when others are created. -/
theorem getElem?_append_of_some (h : l[i]? = some a) (l' : List α) :
    (l ++ l')[i]? = some a := by
  have hi : i < l.length := (List.getElem?_eq_some_iff.mp h).1
  rw [List.getElem?_append_left hi, h]

/-- A record of the table is an old one or the one created last. -/
theorem getElem?_concat_cases {b : α} (h : (l ++ [b])[i]? = some a) :
    l[i]? = some a ∨ i = l.length ∧ a = b := by
  rw [List.getElem?_append] at h
  split at h
  · exact .inl h
  · next hi =>
      have hi' : i - l.length = 0 := by
        by_contra hne
        rw [List.getElem?_eq_none (by simp; omega)] at h
        cases h
      rw [hi'] at h
      exact .inr ⟨by omega, (Option.some.inj h).symm⟩

/-- A record keeps its position when some record is written. -/
theorem getElem?_modify_of_some (h : l[i]? = some a) (j : ℕ) (f : α → α) :
    (l.modify j f)[i]? = some (if j = i then f a else a) := by
  rw [List.getElem?_modify, h]
  rfl

/-- A record after a write is an old one or the one that has been written. -/
theorem mem_modify_cases {f : α → α} (h : a ∈ l.modify i f) : a ∈ l ∨ ∃ b ∈ l, a = f b := by
  obtain ⟨j, hj⟩ := List.mem_iff_getElem?.mp h
  rw [List.getElem?_modify] at hj
  cases hb : l[j]? with
  | none => simp [hb] at hj
  | some b =>
      have hmem : b ∈ l := List.mem_of_getElem? hb
      by_cases hij : i = j
      · exact .inr ⟨b, hmem, by simpa [hb, hij, eq_comm] using hj⟩
      · obtain rfl : b = a := by simpa [hb, hij] using hj
        exact .inl hmem

/-- A write on a record that is there puts the new record in its place. -/
theorem modify_eq_set_of_some (h : l[i]? = some a) (f : α → α) :
    l.modify i f = l.set i (f a) := by
  apply List.ext_getElem?
  intro j
  rw [List.getElem?_modify, List.getElem?_set]
  by_cases hj : i = j
  · subst hj
    have hi : i < l.length := (List.getElem?_eq_some_iff.mp h).1
    rw [h]
    simp [hi]
  · simp [hj]

/-- A write on a part of a record is a write on this part. -/
theorem map_modify_of_comm {f : α → α} {f' : β → β} {g : α → β} (h : ∀ a, g (f a) = f' (g a))
    (l : List α) (i : ℕ) : (l.modify i f).map g = (l.map g).modify i f' := by
  apply List.ext_getElem?
  intro j
  rw [List.getElem?_map, List.getElem?_modify, List.getElem?_modify, List.getElem?_map]
  cases l[j]? with
  | none => rfl
  | some a => by_cases hj : i = j <;> simp [hj, h]

/-- A field that the write does not touch. -/
theorem map_modify_of_eq {f : α → α} {g : α → β} (h : ∀ a, g (f a) = g a) (l : List α) (i : ℕ) :
    (l.modify i f).map g = l.map g := by
  have hid : ∀ a, g (f a) = id (g a) := h
  rw [map_modify_of_comm hid, List.modify_id]

/-- A write on every record creates none. -/
theorem length_eq_of_getElem? {l' : List β} {f : ℕ → α → β}
    (h : ∀ i : ℕ, l'[i]? = l[i]?.map (f i)) : l'.length = l.length := by
  have hle : ∀ i : ℕ, l'.length ≤ i ↔ l.length ≤ i := by
    intro i
    rw [← List.getElem?_eq_none_iff, ← List.getElem?_eq_none_iff, h, Option.map_eq_none_iff]
  exact Nat.le_antisymm ((hle _).mpr (Nat.le_refl _)) ((hle _).mp (Nat.le_refl _))

/-- A write on all the records at the given positions. -/
def assign (ids : List ℕ) (f : α → α) (l : List α) : List α :=
  l.mapIdx fun i a => if i ∈ ids then f a else a

@[simp] theorem getElem?_assign (ids : List ℕ) (f : α → α) (l : List α) (i : ℕ) :
    (assign ids f l)[i]? = l[i]?.map fun a => if i ∈ ids then f a else a :=
  List.getElem?_mapIdx ..

@[simp] theorem length_assign (ids : List ℕ) (f : α → α) (l : List α) :
    (assign ids f l).length = l.length :=
  List.length_mapIdx ..

/-- A record after the write has been written on, or is as it was. -/
theorem getElem?_assign_cases {ids : List ℕ} {f : α → α} {i : ℕ} {b : α}
    (h : (assign ids f l)[i]? = some b) :
    ∃ a, l[i]? = some a ∧ (i ∈ ids ∧ f a = b ∨ i ∉ ids ∧ a = b) := by
  rw [getElem?_assign, Option.map_eq_some_iff] at h
  obtain ⟨a, ha, hb⟩ := h
  refine ⟨a, ha, ?_⟩
  split at hb
  · next hi => exact .inl ⟨hi, hb⟩
  · next hi => exact .inr ⟨hi, hb⟩

theorem assign_singleton (i : ℕ) (f : α → α) (l : List α) : assign [i] f l = l.modify i f := by
  apply List.ext_getElem?
  intro j
  rw [getElem?_assign, List.getElem?_modify]
  simp [eq_comm]

theorem mem_mapIdx_iff {f : ℕ → α → β} {b : β} :
    b ∈ l.mapIdx f ↔ ∃ i a, l[i]? = some a ∧ f i a = b := by
  rw [List.mem_iff_getElem?]
  simp only [List.getElem?_mapIdx, Option.map_eq_some_iff]

/-- Only one element of the list can give a value. -/
theorem length_filterMap_le_one {g : α → Option β} (hl : l.Nodup) (a : α)
    (h : ∀ b ∈ l, b ≠ a → g b = none) : (l.filterMap g).length ≤ 1 := by
  induction l with
  | nil => exact Nat.zero_le 1
  | cons b l ih =>
      obtain ⟨hb, hl⟩ := List.nodup_cons.mp hl
      by_cases hba : b = a
      · have hrest : l.filterMap g = [] := List.filterMap_eq_nil_iff.mpr fun b' hb' =>
          h b' (List.mem_cons_of_mem b hb') fun heq => hb (hba.trans heq.symm ▸ hb')
        rw [List.filterMap_cons, hrest]
        split <;> simp
      · rw [List.filterMap_cons_none (h b List.mem_cons_self hba)]
        exact ih hl fun b' hb' => h b' (List.mem_cons_of_mem b hb')

/-- Another entry of a list is still there when one has been erased. -/
theorem mem_eraseIdx_of_ne {b : α} (h : l[i]? = some b) (hne : a ≠ b) (ha : a ∈ l) :
    a ∈ l.eraseIdx i := by
  obtain ⟨j, hj⟩ := List.mem_iff_getElem?.mp ha
  refine List.mem_eraseIdx_iff_getElem?.mpr ⟨j, ?_, hj⟩
  rintro rfl
  exact hne (Option.some.inj (hj.symm.trans h))

/-- An entry that is alone in giving its value is not there any more when it has been
erased. -/
theorem ne_of_mem_eraseIdx {f : α → Option β} {a' : α} {b : β} (hl : (l.filterMap f).Nodup)
    (h : l[i]? = some a) (hb : f a = some b) (ha' : a' ∈ l.eraseIdx i) : f a' ≠ some b := by
  obtain ⟨hi, rfl⟩ := List.getElem?_eq_some_iff.mp h
  rw [← List.take_append_drop i l, List.drop_eq_getElem_cons hi, List.filterMap_append,
    List.filterMap_cons_some hb, List.nodup_middle, List.nodup_cons] at hl
  intro hb'
  rw [List.eraseIdx_eq_take_drop_succ] at ha'
  refine hl.1 ?_
  rw [← List.filterMap_append]
  exact List.mem_filterMap.mpr ⟨a', ha', hb'⟩

/-- A loop that writes each of the given records once. -/
theorem getElem?_foldl_modify {ids : List ℕ} (hnodup : ids.Nodup) (f : α → α) (l : List α)
    (j : ℕ) : (ids.foldl (fun l i => l.modify i f) l)[j]? =
      if j ∈ ids then l[j]?.map f else l[j]? := by
  induction ids generalizing l with
  | nil => rfl
  | cons i ids ih =>
      obtain ⟨hi, hnodup⟩ := List.nodup_cons.mp hnodup
      rw [List.foldl_cons, ih hnodup, List.getElem?_modify]
      by_cases hj : i = j
      · subst hj
        simp [hi]
      · simp [hj, Ne.symm hj]

/-! ## Searches -/

section Search

variable {p : α → Bool}

/-- The positions of the records that `p` holds of. -/
def search (p : α → Bool) (l : List α) : List ℕ :=
  (List.range l.length).filter fun i => l[i]?.any p

theorem mem_search_iff : i ∈ search p l ↔ ∃ a, l[i]? = some a ∧ p a = true := by
  rw [search, List.mem_filter, List.mem_range, Option.any_eq_true]
  constructor
  · exact fun h => h.2
  · rintro ⟨a, ha, hp⟩
    exact ⟨(List.getElem?_eq_some_iff.mp ha).1, a, ha, hp⟩

theorem nodup_search (p : α → Bool) (l : List α) : (search p l).Nodup := List.nodup_range.filter _

theorem search_concat (p : α → Bool) (l : List α) (a : α) :
    search p (l ++ [a]) = search p l ++ if p a then [l.length] else [] := by
  have hold : ∀ i ∈ List.range l.length, ((l ++ [a])[i]?.any p) = (l[i]?.any p) := by
    intro i hi
    rw [List.getElem?_append_left (List.mem_range.mp hi)]
  rw [search, List.length_append, List.length_singleton, List.range_succ, List.filter_append,
    List.filter_congr hold, search]
  by_cases h : p a <;> simp [h]

theorem length_search (p : α → Bool) (l : List α) : (search p l).length = (l.filter p).length := by
  induction l using List.reverseRecOn with
  | nil => rfl
  | append_singleton l a ih =>
      rw [search_concat, List.length_append, ih, List.filter_append, List.length_append]
      by_cases h : p a <;> simp [h]

/-- A loop over the records that a search finds writes the records that `p` holds of. -/
theorem foldl_modify_search (f : α → α) (l : List α) :
    (search p l).foldl (fun l i => l.modify i f) l = l.map fun a => if p a then f a else a := by
  apply List.ext_getElem?
  intro j
  rw [getElem?_foldl_modify (nodup_search p l), List.getElem?_map]
  cases hj : l[j]? with
  | none => simp
  | some a => by_cases hp : p a <;> simp [mem_search_iff, hj, hp]

/-- `p` holds of at most one record of the table. -/
def Sole (p : α → Bool) (l : List α) : Prop :=
  ∀ (i j : ℕ) a b, l[i]? = some a → p a = true → l[j]? = some b → p b = true → i = j

theorem Sole.nil : Sole p [] := by
  intro i j a b ha
  simp at ha

/-- A table of one record each is what a search with one result at most needs. -/
theorem length_search_le_one_iff : (search p l).length ≤ 1 ↔ Sole p l := by
  have hnodup := nodup_search p l
  constructor
  · intro h i j a b ha hpa hb hpb
    have hi : i ∈ search p l := mem_search_iff.mpr ⟨a, ha, hpa⟩
    have hj : j ∈ search p l := mem_search_iff.mpr ⟨b, hb, hpb⟩
    obtain ⟨k, hk⟩ := List.length_eq_one_iff.mp (Nat.le_antisymm h (List.length_pos_of_mem hi))
    rw [hk, List.mem_singleton] at hi hj
    exact hi.trans hj.symm
  · intro h
    rcases hs : search p l with _ | ⟨i, _ | ⟨j, js⟩⟩
    · exact Nat.zero_le 1
    · exact Nat.le_refl 1
    · rw [hs] at hnodup
      obtain ⟨a, ha, hpa⟩ := mem_search_iff.mp (hs ▸ List.mem_cons_self)
      obtain ⟨b, hb, hpb⟩ := mem_search_iff.mp (hs ▸ List.mem_cons_of_mem i List.mem_cons_self)
      exact absurd (h i j a b ha hpa hb hpb) (by simp at hnodup; exact hnodup.1.1)

/-- Where `p` holds afterwards, it held before. -/
theorem Sole.of_held {l' : List α} (hl : Sole p l)
    (h : ∀ (i : ℕ) a, l'[i]? = some a → p a = true → ∃ b, l[i]? = some b ∧ p b = true) :
    Sole p l' := by
  intro i j a b ha hpa hb hpb
  obtain ⟨a', ha', hpa'⟩ := h i a ha hpa
  obtain ⟨b', hb', hpb'⟩ := h j b hb hpb
  exact hl i j a' b' ha' hpa' hb' hpb'

/-- `p` holds of no record but one. -/
theorem Sole.of_only (k : ℕ) (h : ∀ (i : ℕ) a, l[i]? = some a → p a = true → i = k) : Sole p l := by
  intro i j a b ha hpa hb hpb
  exact (h i a ha hpa).trans (h j b hb hpb).symm

end Search

end Table

end Fastrak
