import Mathlib.Logic.Function.Basic
import Mathlib.Data.Nat.Notation

/-!
# Runs of an event-driven system

A system is a function `step : σ → ε → σ`; an event that the system refuses is
one whose step does nothing. `run step s es` is the state after the events `es`,
and `Meets step C s es` says that every event of the run meets the condition `C`
in the state it is taken in. An interleaving of several parties is one list of
events, so a statement about all lists is a statement about all interleavings.

`family copy` runs many independent systems, one for each index in `ι`: an event
of the family names the index it is addressed to. Invariants and relations of one
copy carry over to the family, under conditions on the events that are addressed to
this copy.
-/

namespace Fastrak

namespace Run

universe u v w

variable {σ : Type u} {ε : Type v} {ι : Type w}

/-- The state after the events `es`. -/
def run (step : σ → ε → σ) (s : σ) (es : List ε) : σ := es.foldl step s

/-- Every event of the run meets `C` in the state it is taken in. -/
def Meets (step : σ → ε → σ) (C : σ → ε → Prop) : σ → List ε → Prop
  | _, [] => True
  | s, e :: es => C s e ∧ Meets step C (step s e) es

variable {step : σ → ε → σ} {C : σ → ε → Prop}

@[simp] theorem run_nil (s : σ) : run step s [] = s := rfl

@[simp] theorem run_cons (s : σ) (e : ε) (es : List ε) :
    run step s (e :: es) = run step (step s e) es := rfl

theorem run_append (s : σ) (es es' : List ε) :
    run step s (es ++ es') = run step (run step s es) es' :=
  List.foldl_append ..

theorem meets_append_iff (s : σ) (es es' : List ε) :
    Meets step C s (es ++ es') ↔
      Meets step C s es ∧ Meets step C (run step s es) es' := by
  induction es generalizing s with
  | nil => simp [Meets]
  | cons e es ih =>
      simp only [List.cons_append, Meets, run_cons, ih, and_assoc]

theorem Meets.mono {D : σ → ε → Prop} (h : ∀ s e, C s e → D s e)
    {s : σ} {es : List ε} (hm : Meets step C s es) : Meets step D s es := by
  induction es generalizing s with
  | nil => exact True.intro
  | cons e es ih => exact ⟨h s e hm.1, ih hm.2⟩

theorem Meets.and {D : σ → ε → Prop} {s : σ} {es : List ε} (h : Meets step C s es)
    (h' : Meets step D s es) : Meets step (fun s e => C s e ∧ D s e) s es := by
  induction es generalizing s with
  | nil => exact True.intro
  | cons e es ih => exact ⟨⟨h.1, h'.1⟩, ih h.2 h'.2⟩

theorem Meets.trivial (s : σ) (es : List ε) : Meets step (fun _ _ => True) s es := by
  induction es generalizing s with
  | nil => exact True.intro
  | cons e es ih => exact ⟨True.intro, ih _⟩

theorem Meets.of_forall {D : ε → Prop} {es : List ε} (h : ∀ e ∈ es, D e) (s : σ) :
    Meets step (fun _ => D) s es := by
  induction es generalizing s with
  | nil => exact True.intro
  | cons e es ih =>
      exact ⟨h e List.mem_cons_self, ih (fun e he => h e (List.mem_cons_of_mem _ he)) _⟩

instance Meets.decidable [∀ s e, Decidable (C s e)] :
    ∀ (s : σ) (es : List ε), Decidable (Meets step C s es)
  | _, [] => inferInstanceAs (Decidable True)
  | s, e :: es =>
      have := Meets.decidable (step s e) es
      inferInstanceAs (Decidable (C s e ∧ Meets step C (step s e) es))

/-- The invariant rule: what holds at the start and is kept by every step that
meets the condition holds after the run. -/
theorem invariant {I : σ → Prop} (hstep : ∀ s e, I s → C s e → I (step s e))
    {s : σ} {es : List ε} (hs : I s) (hm : Meets step C s es) : I (run step s es) := by
  induction es generalizing s with
  | nil => exact hs
  | cons e es ih => exact ih (hstep s e hs hm.1) hm.2

/-- The rule for the steps of a run: each of them is taken in a state where the
invariant holds. -/
theorem meets_of_invariant {I : σ → Prop} {D : σ → ε → Prop}
    (hstep : ∀ s e, I s → C s e → I (step s e)) (hD : ∀ s e, I s → C s e → D s e)
    {s : σ} {es : List ε} (hs : I s) (hm : Meets step C s es) : Meets step D s es := by
  induction es generalizing s with
  | nil => exact True.intro
  | cons e es ih => exact ⟨hD s e hs hm.1, ih (hstep s e hs hm.1) hm.2⟩

/-- The rule for what relates two states of a run: a relation that composes and
that every step is in relates the first state to the last. -/
theorem relation {I : σ → Prop} {R : σ → σ → Prop}
    (hstep : ∀ s e, I s → C s e → I (step s e))
    (hrefl : ∀ s, R s s) (htrans : ∀ {s t r}, R s t → R t r → R s r)
    (hR : ∀ s e, I s → C s e → R s (step s e))
    {s : σ} {es : List ε} (hs : I s) (hm : Meets step C s es) : R s (run step s es) := by
  induction es generalizing s with
  | nil => exact hrefl s
  | cons e es ih => exact htrans (hR s e hs hm.1) (ih (hstep s e hs hm.1) hm.2)

/-- Where `J` always holds and each step keeps `I` exactly if it meets the condition, `I` holds
all along the runs whose steps meet it, and along no other. -/
theorem forall_prefix_iff_meets_of_invariant {I J : σ → Prop} (hJ : ∀ s e, J s → J (step s e))
    (hstep : ∀ s e, J s → I s → (I (step s e) ↔ C s e)) {s : σ} (es : List ε) (hJs : J s)
    (hs : I s) : (∀ es', es' <+: es → I (run step s es')) ↔ Meets step C s es := by
  induction es generalizing s with
  | nil =>
      refine ⟨fun _ => True.intro, fun _ es' h => ?_⟩
      rw [List.prefix_nil.mp h]
      exact hs
  | cons e es ih =>
      constructor
      · intro h
        have he : I (step s e) := h [e] ⟨es, rfl⟩
        refine ⟨(hstep s e hJs hs).mp he, (ih (hJ s e hJs) he).mp fun es' h' => ?_⟩
        exact h (e :: es') ((List.prefix_cons_inj e).mpr h')
      · rintro ⟨he, hes⟩ es' h'
        rcases List.prefix_cons_iff.mp h' with rfl | ⟨es'', rfl, h''⟩
        · exact hs
        · exact (ih (hJ s e hJs) ((hstep s e hJs hs).mpr he)).mpr hes es'' h''

theorem forall_prefix_iff_meets {I : σ → Prop} (hstep : ∀ s e, I s → (I (step s e) ↔ C s e))
    {s : σ} (es : List ε) (hs : I s) :
    (∀ es', es' <+: es → I (run step s es')) ↔ Meets step C s es :=
  forall_prefix_iff_meets_of_invariant (J := fun _ => True) (fun _ _ _ => True.intro)
    (fun s e _ => hstep s e) es True.intro hs

/-! ## Counting -/

/-- The number of steps of the run that meet `C` in the state they are taken in. -/
def count (step : σ → ε → σ) (C : σ → ε → Prop) [∀ s e, Decidable (C s e)] : σ → List ε → ℕ
  | _, [] => 0
  | s, e :: es => (if C s e then 1 else 0) + count step C (step s e) es

/-- Where the mark is, and from there on, there is no step of the kind. -/
theorem count_eq_zero [∀ s e, Decidable (C s e)] {D : σ → Prop}
    (hkeep : ∀ s e, D s → D (step s e)) (hno : ∀ s e, D s → ¬ C s e)
    {s : σ} (es : List ε) (hs : D s) : count step C s es = 0 := by
  induction es generalizing s with
  | nil => rfl
  | cons e es ih => rw [count, if_neg (hno s e hs), ih (hkeep s e hs)]

/-- The rule for what happens once: a step of the kind leaves a mark that stays. -/
theorem count_le_one [∀ s e, Decidable (C s e)] {D : σ → Prop}
    (hset : ∀ s e, C s e → D (step s e)) (hkeep : ∀ s e, D s → D (step s e))
    (hno : ∀ s e, D s → ¬ C s e) (s : σ) (es : List ε) : count step C s es ≤ 1 := by
  induction es generalizing s with
  | nil => exact Nat.zero_le 1
  | cons e es ih =>
      by_cases h : C s e
      · have hzero : count step C (step s e) es = 0 := count_eq_zero hkeep hno es (hset s e h)
        exact Nat.le_of_eq (by rw [count, if_pos h, hzero])
      · rw [count, if_neg h, Nat.zero_add]
        exact ih (step s e)

/-- The rule for what happens a limited number of times: every step of the kind uses up some of
what is left. -/
theorem count_le [∀ s e, Decidable (C s e)] {I : σ → Prop} {D : σ → ε → Prop} {f : σ → ℕ}
    (hstep : ∀ s e, I s → D s e → I (step s e))
    (hf : ∀ s e, I s → D s e → f (step s e) + (if C s e then 1 else 0) ≤ f s)
    {s : σ} {es : List ε} (hs : I s) (hm : Meets step D s es) :
    count step C s es ≤ f s := by
  induction es generalizing s with
  | nil => exact Nat.zero_le _
  | cons e es ih =>
      have hrest := ih (hstep s e hs hm.1) hm.2
      rw [count, Nat.add_comm]
      exact Nat.le_trans (Nat.add_le_add_right hrest _) (hf s e hs hm.1)

section Changes

variable {β : Type w} {f : σ → Option β}

/-- The number of steps of the run that change `f`. -/
def changes [DecidableEq β] (step : σ → ε → σ) (f : σ → Option β) (s : σ) (es : List ε) : ℕ :=
  count step (fun s e => f (step s e) ≠ f s) s es

/-- What is never unset or replaced is set at most once. -/
theorem changes_le_one [DecidableEq β] (hf : ∀ s e b, f s = some b → f (step s e) = some b) (s : σ)
    (es : List ε) : changes step f s es ≤ 1 := by
  refine count_le_one (D := fun s => f s ≠ none) ?_ ?_ ?_ s es
  · intro s e hne hnone
    cases h : f s with
    | none => exact hne (hnone.trans h.symm)
    | some b => simp [hf s e b h] at hnone
  · intro s e hs
    obtain ⟨b, hb⟩ := Option.ne_none_iff_exists'.mp hs
    simp [hf s e b hb]
  · intro s e hs hne
    obtain ⟨b, hb⟩ := Option.ne_none_iff_exists'.mp hs
    exact hne ((hf s e b hb).trans hb.symm)

theorem run_eq_some (hf : ∀ s e b, f s = some b → f (step s e) = some b) {s : σ} {b : β}
    (hs : f s = some b) (es : List ε) : f (run step s es) = some b :=
  invariant (I := fun s => f s = some b) (fun s e h _ => hf s e b h) hs (Meets.trivial s es)

end Changes

/-! ## Families -/

section Family

variable [DecidableEq ι] {copy : ι → σ → ε → σ}

/-- Independent systems, one for each index. -/
def family (copy : ι → σ → ε → σ) (db : ι → σ) (e : ι × ε) : ι → σ :=
  Function.update db e.1 (copy e.1 (db e.1) e.2)

/-- A condition on the events that are addressed to one copy, read at that copy. -/
def addressedTo (i : ι) (C : σ → ε → Prop) (db : ι → σ) (e : ι × ε) : Prop :=
  e.1 = i → C (db i) e.2

instance (i : ι) {C : σ → ε → Prop} [∀ s e, Decidable (C s e)] (db : ι → σ) (e : ι × ε) :
    Decidable (addressedTo i C db e) :=
  inferInstanceAs (Decidable (e.1 = i → C (db i) e.2))

theorem family_apply_self (db : ι → σ) (i : ι) (e : ε) :
    family copy db (i, e) i = copy i (db i) e :=
  Function.update_self ..

theorem family_apply_of_ne {db : ι → σ} {i j : ι} (e : ε) (h : j ≠ i) :
    family copy db (i, e) j = db j :=
  Function.update_of_ne h ..

variable {i : ι} {C D : σ → ε → Prop} {I : σ → Prop} {db : ι → σ} {es : List (ι × ε)}

theorem family_step_invariant (hstep : ∀ s e, I s → C s e → I (copy i s e)) (db : ι → σ)
    (e : ι × ε) (hs : I (db i)) (hC : addressedTo i C db e) : I (family copy db e i) := by
  obtain ⟨j, e⟩ := e
  by_cases h : i = j
  · subst h
    rw [family_apply_self]
    exact hstep _ _ hs (hC rfl)
  · rw [family_apply_of_ne e h]
    exact hs

/-- An invariant of one copy, under a condition on its own events. -/
theorem family_invariant (hstep : ∀ s e, I s → C s e → I (copy i s e)) (hs : I (db i))
    (hm : Meets (family copy) (addressedTo i C) db es) : I (run (family copy) db es i) :=
  invariant (I := fun db => I (db i)) (family_step_invariant hstep) hs hm

theorem family_meets (hstep : ∀ s e, I s → C s e → I (copy i s e))
    (hD : ∀ s e, I s → C s e → D s e) (hs : I (db i))
    (hm : Meets (family copy) (addressedTo i C) db es) :
    Meets (family copy) (addressedTo i D) db es :=
  meets_of_invariant (I := fun db => I (db i)) (family_step_invariant hstep)
    (fun _ e h hC hi => hD _ e.2 h (hC hi)) hs hm

/-- A relation along the steps of one copy relates its first state to its last. -/
theorem family_relation (copy : ι → σ → ε → σ) {R : σ → σ → Prop}
    (hstep : ∀ s e, I s → C s e → I (copy i s e))
    (hrefl : ∀ s, R s s) (htrans : ∀ {s t r}, R s t → R t r → R s r)
    (hR : ∀ s e, I s → C s e → R s (copy i s e)) (hs : I (db i))
    (hm : Meets (family copy) (addressedTo i C) db es) :
    R (db i) (run (family copy) db es i) := by
  refine relation (I := fun db => I (db i)) (R := fun db db' => R (db i) (db' i))
    (family_step_invariant hstep) (fun db => hrefl (db i)) htrans ?_ hs hm
  rintro db ⟨j, e⟩ h hC
  by_cases hij : i = j
  · subst hij
    rw [family_apply_self]
    exact hR _ _ h (hC rfl)
  · rw [family_apply_of_ne e hij]
    exact hrefl (db i)

/-- Without a condition every run will do. -/
theorem family_meets_trivial (i : ι) (db : ι → σ) (es : List (ι × ε)) :
    Meets (family copy) (addressedTo i fun _ _ => True) db es :=
  Meets.mono (D := addressedTo i fun _ _ => True) (fun _ _ _ _ => True.intro)
    (Meets.trivial db es)

end Family

end Run

end Fastrak
