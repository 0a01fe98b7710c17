import Fastrak.Asset.Lifecycle
import Fastrak.Library.Run
import Fastrak.Property.DepreciationBoard

/-!
# Depreciation in full

In every run in which each write of the fields leaves a round to depreciate what is left, the
lines of the asset add up to its value less the salvage value, and every amount has the decimals
of the currency (`depreciated_in_full`). A posted line is never changed or removed, whatever
happens (`posted_lines_stay`).
-/

namespace Fastrak

namespace Asset

open Rounding Run

section Posting

variable {lines lines' : List Line}

/-- The line stays as it is, or gets an entry. -/
def Line.Posts (line line' : Line) : Prop := line' = line ∨ line' = line.post

theorem forall₂_posts_refl (lines : List Line) : lines.Forall₂ Line.Posts lines :=
  List.forall₂_same.mpr fun _ _ => .inl rfl

theorem forall₂_posts_modify (i : ℕ) (lines : List Line) :
    lines.Forall₂ Line.Posts (lines.modify i Line.post) := by
  induction lines generalizing i with
  | nil => simp
  | cons line lines ih =>
      cases i with
      | zero => exact .cons (.inr rfl) (forall₂_posts_refl lines)
      | succ i => exact .cons (.inl rfl) (ih i)

theorem forall₂_posts_map (date : Date) (lines : List Line) :
    lines.Forall₂ Line.Posts (lines.map fun line => if line.Due date then line.post else line) := by
  rw [List.forall₂_map_right_iff]
  refine List.forall₂_same.mpr fun line _ => ?_
  split
  · exact .inr rfl
  · exact .inl rfl

theorem Line.Posts.amount {line line' : Line} (h : line.Posts line') :
    line'.amount = line.amount := by
  rcases h with rfl | rfl <;> rfl

theorem total_of_posts (h : lines.Forall₂ Line.Posts lines') : total lines' = total lines := by
  induction h with
  | nil => rfl
  | cons hline _ ih => rw [total_cons, total_cons, hline.amount, ih]

theorem amount_mem_of_posts {digits : ℕ} (h : lines.Forall₂ Line.Posts lines')
    (hlines : ∀ line ∈ lines, line.amount ∈ decimals digits) :
    ∀ line ∈ lines', line.amount ∈ decimals digits := by
  induction h with
  | nil => simp
  | cons hline _ ih =>
      rw [List.forall_mem_cons] at hlines ⊢
      exact ⟨hline.amount ▸ hlines.1, ih hlines.2⟩

theorem sublist_posted_of_posts (h : lines.Forall₂ Line.Posts lines') :
    (lines.filter (·.moveCheck)).Sublist (lines'.filter (·.moveCheck)) := by
  induction h with
  | nil => exact List.Sublist.refl _
  | @cons line line' _ _ hline _ ih =>
      cases hposted : line.moveCheck with
      | true =>
          have hsame : line' = line := by
            rcases hline with rfl | rfl
            · rfl
            · rw [Line.post, ← hposted]
          rw [hsame, List.filter_cons_of_pos hposted, List.filter_cons_of_pos hposted]
          exact ih.cons_cons line
      | false =>
          rw [List.filter_cons_of_neg (by simp [hposted]), List.filter_cons]
          split
          · exact ih.cons line'
          · exact ih

end Posting

namespace AccountAsset

variable {c : Company} {a : AccountAsset} {fields : Fields} {event : Event}

/-- The lines make up what there is to depreciate, in decimals of the currency. -/
structure Complete (a : AccountAsset) : Prop where
  value : a.fields.value ∈ decimals a.fields.digits
  salvageValue : a.fields.salvageValue ∈ decimals a.fields.digits
  amounts : ∀ line ∈ a.depreciationLines, line.amount ∈ decimals a.fields.digits
  total_eq : total a.depreciationLines = a.fields.value - a.fields.salvageValue

/-- The fields leave a round to depreciate what is left. -/
structure Plans (c : Company) (a : AccountAsset) : Prop where
  period : 0 < a.fields.methodPeriod
  value : a.fields.value ∈ decimals a.fields.digits
  salvageValue : a.fields.salvageValue ∈ decimals a.fields.digits
  round_left : a.valueResidual = 0 ∨
    ∀ undone ∈ a.undoneDotationNb c, (a.posted.length : ℤ) < undone

/-- What a write may do: the currency keeps its decimals. -/
def Allowed (c : Company) (a : AccountAsset) : Event → Prop
  | .write fields =>
      fields.digits = a.fields.digits ∧ Plans c { a with fields := fields }
  | _ => True

theorem mem_posted_iff {line : Line} :
    line ∈ a.posted ↔ line ∈ a.depreciationLines ∧ line.moveCheck = true := List.mem_filter

theorem Complete.computeDepreciationBoard (h : Plans c a)
    (hposted : ∀ line ∈ a.posted, line.amount ∈ decimals a.fields.digits) :
    ∃ a', a.computeDepreciationBoard c = some a' ∧ a'.Complete := by
  obtain ⟨undone, planned, hundone, heq, hboard, htotal⟩ :=
    computeDepreciationBoard_spec c h.period ⟨h.value, h.salvageValue, hposted⟩
  refine ⟨_, heq, h.value, h.salvageValue, fun line hline => ?_, htotal.mpr ?_⟩
  · rcases List.mem_append.mp hline with hline | hline
    · exact hposted line hline
    · exact (hboard.rounded line hline).1
  · exact h.round_left.imp_right fun hleft => hleft undone hundone

theorem Complete.of_posts (h : a.Complete) {lines : List Line}
    (hlines : a.depreciationLines.Forall₂ Line.Posts lines) :
    Complete { a with depreciationLines := lines } where
  value := h.value
  salvageValue := h.salvageValue
  amounts := amount_mem_of_posts hlines h.amounts
  total_eq := (total_of_posts hlines).trans h.total_eq

theorem Complete.setToClose (h : a.Complete) (today : Date) : (a.setToClose today).Complete := by
  have hposted : ∀ line ∈ a.posted, line.amount ∈ decimals a.fields.digits :=
    fun line hline => h.amounts line (mem_posted_iff.mp hline).1
  have hdecimal : a.Decimal := ⟨h.value, h.salvageValue, hposted⟩
  unfold AccountAsset.setToClose
  split
  · refine ⟨h.value, h.salvageValue, fun line hline => ?_, ?_⟩
    · rcases List.mem_append.mp hline with hline | hline
      · exact hposted line hline
      · obtain rfl := List.mem_singleton.mp hline
        exact hdecimal.valueResidual
    · have hresidual : a.valueResidual =
          a.fields.value - total a.posted - a.fields.salvageValue := rfl
      rw [total_append, total_cons, total_nil, hresidual]
      ring
  · exact h

theorem Complete.step (h : a.Complete) (hallowed : Allowed c a event) :
    (step c a event).Complete := by
  cases event with
  | write fields =>
      obtain ⟨hdigits, hplans⟩ := hallowed
      have hposted : ∀ line ∈ a.posted, line.amount ∈ decimals fields.digits := by
        rw [hdigits]
        exact fun line hline => h.amounts line (mem_posted_iff.mp hline).1
      obtain ⟨a', heq, hcomplete⟩ := Complete.computeDepreciationBoard hplans hposted
      rw [AccountAsset.step, heq]
      exact hcomplete
  | createMove i => exact h.of_posts (forall₂_posts_modify i _)
  | computeEntries date => exact h.of_posts (forall₂_posts_map date _)
  | setToClose today => exact h.setToClose today

/-- From its creation on, the lines of an asset add up to its value less the salvage value. -/
theorem depreciated_in_full (c : Company) (fields : Fields)
    (hcreate : Plans c { fields := fields }) :
    ∃ a, create c fields = some a ∧ ∀ events, Meets (step c) (Allowed c) a events →
      (∀ line ∈ (run (step c) a events).depreciationLines,
        line.amount ∈ decimals (run (step c) a events).fields.digits) ∧
      total (run (step c) a events).depreciationLines =
        (run (step c) a events).fields.value - (run (step c) a events).fields.salvageValue := by
  obtain ⟨a, heq, hcomplete⟩ :=
    Complete.computeDepreciationBoard hcreate (by simp [AccountAsset.posted])
  refine ⟨a, heq, fun events hm => ?_⟩
  have hrun := invariant (fun _ _ h hallowed => h.step hallowed) hcomplete hm
  exact ⟨hrun.amounts, hrun.total_eq⟩

theorem depreciated_in_full_of_closed_asset :
    ∃ a, create calendarYear threeRounds = some a ∧
      total (run (step calendarYear) a
          [.computeEntries ⟨24241, 28⟩, .setToClose ⟨24242, 1⟩]).depreciationLines =
        (run (step calendarYear) a
            [.computeEntries ⟨24241, 28⟩, .setToClose ⟨24242, 1⟩]).fields.value -
          (run (step calendarYear) a
            [.computeEntries ⟨24241, 28⟩, .setToClose ⟨24242, 1⟩]).fields.salvageValue := by
  have hplans : Plans calendarYear { fields := threeRounds } := by
    refine ⟨by decide, hundred_mem_decimals, zero_mem _, .inr fun undone hundone => ?_⟩
    have hthree : (3 : ℤ) = undone := Option.some.inj hundone
    rw [← hthree]
    decide
  obtain ⟨a, heq, h⟩ := depreciated_in_full calendarYear threeRounds hplans
  exact ⟨a, heq, (h [.computeEntries ⟨24241, 28⟩, .setToClose ⟨24242, 1⟩]
    ⟨True.intro, True.intro, True.intro⟩).2⟩

theorem posted_computeDepreciationBoard {a' : AccountAsset}
    (h : a.computeDepreciationBoard c = some a') : a'.posted = a.posted := by
  have hsame : a.posted.filter (·.moveCheck) = a.posted := by
    rw [posted, List.filter_filter]
    simp
  unfold AccountAsset.computeDepreciationBoard at h
  split at h
  · obtain rfl := Option.some.inj h
    exact hsame
  · obtain ⟨undone, -, rfl⟩ := Option.map_eq_some_iff.mp h
    have hplanned : (a.plannedLines c undone).filter (·.moveCheck) = [] := by
      refine List.filter_eq_nil_iff.mpr fun line hline => ?_
      rw [board_plannedLines.unposted line hline]
      exact Bool.false_ne_true
    change (a.posted ++ a.plannedLines c undone).filter (·.moveCheck) = a.posted
    rw [List.filter_append, hsame, hplanned, List.append_nil]

theorem sublist_posted_step (c : Company) (a : AccountAsset) (event : Event) :
    a.posted.Sublist (step c a event).posted := by
  cases event with
  | write fields =>
      rw [AccountAsset.step]
      cases hboard : AccountAsset.computeDepreciationBoard c { a with fields := fields } with
      | none => exact List.Sublist.refl _
      | some a' =>
          rw [Option.getD_some, posted_computeDepreciationBoard hboard]
          exact List.Sublist.refl _
  | createMove i => exact sublist_posted_of_posts (forall₂_posts_modify i _)
  | computeEntries date => exact sublist_posted_of_posts (forall₂_posts_map date _)
  | setToClose today =>
      rw [AccountAsset.step, AccountAsset.setToClose]
      split
      · change a.posted.Sublist (List.filter _ (a.posted ++ _))
        rw [List.filter_append]
        refine List.Sublist.trans ?_ (List.sublist_append_left _ _)
        rw [posted, List.filter_filter]
        simp
      · exact List.Sublist.refl _

/-- In every run the posted lines stay as they are. -/
theorem posted_lines_stay (c : Company) (a : AccountAsset) (events : List Event) :
    a.posted.Sublist (run (step c) a events).posted :=
  relation (I := fun _ => True) (R := fun a a' : AccountAsset => a.posted.Sublist a'.posted)
    (fun _ _ _ _ => True.intro) (fun _ => List.Sublist.refl _) (fun h h' => h.trans h')
    (fun a event _ _ => sublist_posted_step c a event) True.intro (Meets.trivial a events)

end AccountAsset

end Asset

end Fastrak
