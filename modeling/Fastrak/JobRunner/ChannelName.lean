import Fastrak.JobRunner.Manager
import Fastrak.JobRunner.Poll

/-!
# The names of the channels

Channels are created along the names that lead to them. What exists stays, siblings keep
different names, and with a channel the ones above it exist.
-/

namespace Fastrak

namespace JobRunner

variable {p p' : Path}

namespace Subchannels

variable {children siblings : Subchannels} {names : List Text}

theorem names_line (name : Text) (names : List Text) : (line (name :: names)).names = [name] := rfl

theorem distinct_line (names : List Text) : (line names).Distinct := by
  induction names with
  | nil => exact trivial
  | cons name names ih => exact ⟨List.not_mem_nil, ih, trivial⟩

theorem names_create (children : Subchannels) (names : List Text) :
    (children.create names).names ⊆ names.head?.toList ++ children.names := by
  induction children with
  | nil =>
      cases names with
      | nil => exact List.nil_subset _
      | cons name names => simp [create, names_line]
  | cons n children siblings _ ih' =>
      cases names with
      | nil => exact List.subset_append_right ..
      | cons name names =>
          rw [create]
          split
          · exact List.subset_append_right ..
          · intro a ha
            rcases List.mem_cons.mp ha with rfl | ha
            · exact List.mem_append_right _ List.mem_cons_self
            · rcases List.mem_append.mp (ih' ha) with ha | ha
              · exact List.mem_append_left _ ha
              · exact List.mem_append_right _ (List.mem_cons_of_mem _ ha)

theorem distinct_create (children : Subchannels) (names : List Text) (h : children.Distinct) :
    (children.create names).Distinct := by
  induction children generalizing names with
  | nil =>
      cases names with
      | nil => exact h
      | cons name names => exact distinct_line _
  | cons n children siblings ih ih' =>
      obtain ⟨hname, hchildren, hsiblings⟩ := h
      cases names with
      | nil => exact ⟨hname, hchildren, hsiblings⟩
      | cons name names =>
          rw [create]
          split
          · exact ⟨hname, ih names hchildren, hsiblings⟩
          · rename_i hne
            refine ⟨fun hmem => ?_, hchildren, ih' _ hsiblings⟩
            rcases List.mem_append.mp (names_create _ _ hmem) with hmem | hmem
            · exact hne (by simpa using hmem)
            · exact hname hmem

theorem isSome_subtree_line (names names' : List Text) (h : names' <+: names) :
    ((line names).subtree names').isSome := by
  induction names generalizing names' with
  | nil =>
      rw [List.prefix_nil.mp h]
      rfl
  | cons name names ih =>
      rcases List.prefix_cons_iff.mp h with rfl | ⟨names', rfl, hnames⟩
      · rfl
      · simpa [line, subtree] using ih names' hnames

/-- The channels that names lead through exist once they have been created. -/
theorem isSome_subtree_create (children : Subchannels) (names : List Text) :
    ((children.create names).subtree names).isSome := by
  induction children generalizing names with
  | nil =>
      cases names with
      | nil => rfl
      | cons name names => exact isSome_subtree_line _ _ List.prefix_rfl
  | cons n children siblings ih ih' =>
      cases names with
      | nil => rfl
      | cons name names =>
          rw [create]
          split
          · rename_i hn
            simpa [subtree, hn] using ih names
          · rename_i hn
            simpa [subtree, hn] using ih' (name :: names)

/-- And what existed still exists. -/
theorem isSome_subtree_create_of (children : Subchannels) (names names' : List Text)
    (h : (children.subtree names').isSome) :
    ((children.create names).subtree names').isSome := by
  induction children generalizing names names' with
  | nil =>
      cases names' with
      | nil => cases names <;> rfl
      | cons name' names' => simp [subtree] at h
  | cons n children siblings ih ih' =>
      cases names with
      | nil => exact h
      | cons name names =>
          cases names' with
          | nil =>
              rw [create]
              split <;> rfl
          | cons name' names' =>
              rw [subtree] at h
              rw [create]
              split <;> rw [subtree] <;> split at h <;> rename_i hn'
              · rw [if_pos hn']
                exact ih names names' h
              · rw [if_neg hn']
                exact h
              · rw [if_pos hn']
                exact h
              · rw [if_neg hn']
                exact ih' _ _ h

theorem has_create (children : Subchannels) (p : Path) : (children.create p.reverse).has p :=
  isSome_subtree_create ..

theorem has_create_of (names : List Text) (h : children.has p) : (children.create names).has p :=
  isSome_subtree_create_of _ _ _ h

theorem All.of_subtree {P : Path → Prop} {names' : List Text} (h : children.All P p)
    (hsome : (children.subtree names).isSome) (hstart : names' <+: names) (hne : names' ≠ []) :
    P (names'.reverse ++ p) := by
  induction children generalizing p names names' with
  | nil =>
      cases names with
      | nil => exact absurd (List.prefix_nil.mp hstart) hne
      | cons name names => simp [subtree] at hsome
  | cons n children siblings ih ih' =>
      obtain ⟨hself, hchildren, hsiblings⟩ := h
      obtain ⟨name', names', rfl⟩ := List.exists_cons_of_ne_nil hne
      obtain ⟨rest, rfl⟩ := hstart
      rw [List.cons_append, subtree] at hsome
      split at hsome
      · rename_i hn
        subst hn
        by_cases hnil : names' = []
        · subst hnil
          exact hself
        · simpa using ih hchildren hsome (List.prefix_append _ _) hnil
      · exact ih' hsiblings hsome (List.prefix_append _ _) hne

/-- What holds for all channels holds for a channel that exists and for those above it. -/
theorem All.of_has {P : Path → Prop} (h : children.All P []) (hp : children.has p)
    (hsuffix : p' <:+ p) (hne : p' ≠ []) : P p' := by
  have := h.of_subtree hp (List.reverse_prefix.mpr hsuffix) (by simpa using hne)
  simpa using this

end Subchannels

end JobRunner

end Fastrak
