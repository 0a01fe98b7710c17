import Mathlib.Logic.Basic

/-!
# Transactions that may raise

A transaction is a computation `x : EStateM ε σ α`: it reads and writes a state
and may raise an exception, and the writes made before the exception are still
there when it is raised. What becomes of them is decided by the caller.
`committed` keeps them, as a handler that catches the exception does;
`atomic` undoes them, as a rolled back transaction does.

A `Frame` is a reflexive and transitive relation between the state before and
the state after. Because it composes, a transaction respects a frame as soon as
each of its elementary writes does (`Respects.bind`), on the path that returns
and on the path that raises alike.
-/

namespace Fastrak

namespace Transaction

universe u v

variable {ε σ α β : Type u}

/-! ## Running -/

/-- The state a run stops in, whether it returned or raised. -/
def stop : EStateM.Result ε σ α → σ
  | .ok _ s => s
  | .error _ s => s

@[simp] theorem stop_ok (a : α) (s : σ) :
    stop (.ok a s : EStateM.Result ε σ α) = s := rfl

@[simp] theorem stop_error (e : ε) (s : σ) :
    stop (.error e s : EStateM.Result ε σ α) = s := rfl

theorem run_bind_ok_iff {x : EStateM ε σ α} {f : α → EStateM ε σ β} {s s' : σ} {b : β} :
    (x >>= f).run s = .ok b s' ↔
      ∃ a t, x.run s = .ok a t ∧ (f a).run t = .ok b s' := by
  rw [EStateM.run_bind]
  cases h : x.run s with
  | ok a t =>
      constructor
      · intro hf
        exact ⟨a, t, rfl, hf⟩
      · rintro ⟨_, _, ⟨rfl, rfl⟩, hf⟩
        exact hf
  | error e t => simp

theorem throw_run (e : ε) (s : σ) : (throw e : EStateM ε σ α).run s = .error e s := rfl

@[simp] theorem throw_run_ok_iff {e : ε} {s t : σ} {a : α} :
    (throw e : EStateM ε σ α).run s = .ok a t ↔ False := by
  simp [throw_run]

/-! ## Guards -/

/-- `if p: raise e`. -/
def raiseIf {m : Type u → Type v} [Monad m] [MonadExceptOf ε m]
    (p : Prop) [Decidable p] (e : ε) : m PUnit :=
  if p then throw e else pure ⟨⟩

theorem raiseIf_run (p : Prop) [Decidable p] (e : ε) (s : σ) :
    (raiseIf p e : EStateM ε σ PUnit).run s = if p then .error e s else .ok ⟨⟩ s := by
  unfold raiseIf
  split <;> rfl

@[simp] theorem raiseIf_run_ok_iff {p : Prop} [Decidable p] {e : ε} {s s' : σ} {a : PUnit} :
    (raiseIf p e : EStateM ε σ PUnit).run s = .ok a s' ↔ ¬ p ∧ s = s' := by
  rw [raiseIf_run]
  by_cases h : p <;> simp [h]

@[simp] theorem raiseIf_eq_ok_iff {p : Prop} [Decidable p] {e : ε} {a : PUnit} :
    (raiseIf p e : Except ε PUnit) = .ok a ↔ ¬ p := by
  unfold raiseIf
  by_cases h : p
  · simp [h, throw, throwThe, MonadExceptOf.throw]
  · simp [h, pure, Except.pure]

theorem except_bind_ok_iff {x : Except ε α} {f : α → Except ε β} {b : β} :
    (x >>= f) = .ok b ↔ ∃ a, x = .ok a ∧ f a = .ok b := by
  cases x with
  | ok a => simp [bind, Except.bind]
  | error e => simp [bind, Except.bind]

theorem except_pure_eq_ok_iff {a b : α} : (pure a : Except ε α) = .ok b ↔ a = b := by
  simp [pure, Except.pure]

/-- A traversal of a list, given what one element needs and what it gives. -/
theorem mapM_eq_ok_iff {f : α → Except ε β} {p : α → Prop} {g : α → β}
    (hf : ∀ x y, f x = .ok y ↔ p x ∧ g x = y) (xs : List α) {ys : List β} :
    xs.mapM f = .ok ys ↔ (∀ x ∈ xs, p x) ∧ xs.map g = ys := by
  induction xs generalizing ys with
  | nil => simp [except_pure_eq_ok_iff]
  | cons x xs ih =>
      simp only [List.mapM_cons, except_bind_ok_iff, except_pure_eq_ok_iff, hf, ih,
        List.forall_mem_cons, List.map_cons]
      constructor
      · rintro ⟨y, ⟨hx, rfl⟩, zs, ⟨hxs, rfl⟩, rfl⟩
        exact ⟨⟨hx, hxs⟩, rfl⟩
      · rintro ⟨⟨hx, hxs⟩, rfl⟩
        exact ⟨g x, ⟨hx, rfl⟩, xs.map g, ⟨hxs, rfl⟩, rfl⟩

/-- A traversal returns a value for each element if it returns one for every element. -/
theorem exists_mapM_eq_ok_iff {f : α → Except ε β} (xs : List α) :
    (∃ ys, xs.mapM f = .ok ys ∧ ys.length = xs.length) ↔ ∀ x ∈ xs, ∃ y, f x = .ok y := by
  induction xs with
  | nil => exact iff_of_true ⟨[], rfl, rfl⟩ fun _ hx => absurd hx List.not_mem_nil
  | cons x xs ih =>
      rw [List.forall_mem_cons, ← ih, List.mapM_cons]
      simp only [except_bind_ok_iff, except_pure_eq_ok_iff]
      constructor
      · rintro ⟨_, ⟨y, hy, ys, hys, rfl⟩, hlength⟩
        exact ⟨⟨y, hy⟩, ys, hys, Nat.succ.inj hlength⟩
      · rintro ⟨⟨y, hy⟩, ys, hys, hlength⟩
        exact ⟨y :: ys, ⟨y, hy, ys, hys, rfl⟩, congrArg Nat.succ hlength⟩

theorem forM_eq_ok_iff {f : α → Except ε PUnit.{u + 1}} (xs : List α) {r : PUnit} :
    xs.forM f = .ok r ↔ ∀ x ∈ xs, f x = .ok ⟨⟩ := by
  induction xs with
  | nil => exact iff_of_true rfl fun _ hx => absurd hx List.not_mem_nil
  | cons x xs ih =>
      rw [List.forM, except_bind_ok_iff, List.forall_mem_cons]
      constructor
      · rintro ⟨⟨⟩, hx, hxs⟩
        exact ⟨hx, ih.mp hxs⟩
      · rintro ⟨hx, hxs⟩
        exact ⟨⟨⟩, hx, ih.mpr hxs⟩

/-- A pure computation that may raise, run inside a transaction. -/
def lift (x : Except ε α) : EStateM ε σ α := fun s =>
  match x with
  | .ok a => .ok a s
  | .error e => .error e s

theorem lift_run (x : Except ε α) (s : σ) :
    (lift x : EStateM ε σ α).run s =
      match x with
      | .ok a => .ok a s
      | .error e => .error e s := rfl

@[simp] theorem lift_run_ok_iff {x : Except ε α} {s s' : σ} {a : α} :
    (lift x : EStateM ε σ α).run s = .ok a s' ↔ x = .ok a ∧ s = s' := by
  cases x <;> simp [lift_run]

theorem lift_map (f : α → β) (x : Except ε α) :
    (lift (f <$> x) : EStateM ε σ β) = f <$> lift x := by
  cases x <;> rfl

/-! Peeling the first part off a sequence. -/

section Peel

variable {s t : σ} {b : β}

theorem get_bind_run (f : σ → EStateM ε σ β) : (get >>= f).run s = (f s).run s := rfl

theorem modify_bind_run (g : σ → σ) (f : PUnit → EStateM ε σ β) :
    (modify g >>= f).run s = (f ⟨⟩).run (g s) := rfl

theorem raiseIf_bind_run (p : Prop) [Decidable p] (e : ε) (f : PUnit → EStateM ε σ β) :
    (raiseIf p e >>= f).run s = if p then .error e s else (f ⟨⟩).run s := by
  rw [EStateM.run_bind, raiseIf_run]
  by_cases h : p <;> simp [h]

theorem raiseIf_bind_run_ok_iff {p : Prop} [Decidable p] {e : ε} {f : PUnit → EStateM ε σ β} :
    (raiseIf p e >>= f).run s = .ok b t ↔ ¬ p ∧ (f ⟨⟩).run s = .ok b t := by
  rw [raiseIf_bind_run]
  by_cases h : p <;> simp [h]

theorem lift_bind_run_of_ok {x : Except ε α} {a : α} (h : x = .ok a)
    (f : α → EStateM ε σ β) : (lift x >>= f).run s = (f a).run s := by
  subst h
  rfl

theorem lift_bind_run_ok_iff {x : Except ε α} {f : α → EStateM ε σ β} :
    (lift x >>= f).run s = .ok b t ↔ ∃ a, x = .ok a ∧ (f a).run s = .ok b t := by
  rw [run_bind_ok_iff]
  constructor
  · rintro ⟨a, r, hr, hf⟩
    obtain ⟨hx, rfl⟩ := lift_run_ok_iff.mp hr
    exact ⟨a, hx, hf⟩
  · rintro ⟨a, hx, hf⟩
    exact ⟨a, s, lift_run_ok_iff.mpr ⟨hx, rfl⟩, hf⟩

end Peel

/-! ## Frames -/

/-- What a transaction leaves in place: a relation between the state before and
the state after that composes along a sequence of writes. -/
structure Frame (σ : Type u) where
  rel : σ → σ → Prop
  refl : ∀ s, rel s s
  trans : ∀ {s t r}, rel s t → rel t r → rel s r

namespace Frame

/-- The frame of the transactions that leave `f` as it was. -/
def same {β : Type v} (f : σ → β) : Frame σ where
  rel s t := f t = f s
  refl _ := rfl
  trans h h' := h'.trans h

/-- A frame on a part of the state. -/
def comap {τ : Type u} (f : σ → τ) (F : Frame τ) : Frame σ where
  rel s t := F.rel (f s) (f t)
  refl s := F.refl (f s)
  trans := F.trans

end Frame

/-- `x` respects `F` from every state, whether it returns or raises. -/
def Respects (F : Frame σ) (x : EStateM ε σ α) : Prop :=
  ∀ s, F.rel s (stop (x.run s))

section Rules

variable {F : Frame σ}

theorem Respects.mono {G : Frame σ} {x : EStateM ε σ α} (hx : Respects F x)
    (h : ∀ s t, F.rel s t → G.rel s t) : Respects G x :=
  fun s => h s _ (hx s)

theorem respects_pure (a : α) : Respects F (pure a : EStateM ε σ α) := fun s => F.refl s

theorem respects_throw (e : ε) : Respects F (throw e : EStateM ε σ α) := fun s => F.refl s

theorem respects_get : Respects F (get : EStateM ε σ σ) := fun s => F.refl s

theorem respects_modify {g : σ → σ} (h : ∀ s, F.rel s (g s)) :
    Respects F (modify g : EStateM ε σ PUnit) := h

theorem respects_raiseIf (p : Prop) [Decidable p] (e : ε) :
    Respects F (raiseIf p e : EStateM ε σ PUnit) := by
  intro s
  rw [raiseIf_run]
  split <;> exact F.refl s

theorem respects_lift (x : Except ε α) : Respects F (lift x : EStateM ε σ α) := by
  intro s
  cases x <;> exact F.refl s

/-- The rule of sequencing at one state. -/
theorem rel_bind {x : EStateM ε σ α} {f : α → EStateM ε σ β} {s : σ}
    (hx : F.rel s (stop (x.run s)))
    (hf : ∀ a t, x.run s = .ok a t → F.rel t (stop ((f a).run t))) :
    F.rel s (stop ((x >>= f).run s)) := by
  rw [EStateM.run_bind]
  cases h : x.run s with
  | ok a t =>
      rw [h] at hx
      exact F.trans hx (hf a t h)
  | error e t =>
      rw [h] at hx
      exact hx

/-- The rule of sequencing, where the second part may use what the first one
returned. -/
theorem respects_bind_of {x : EStateM ε σ α} {f : α → EStateM ε σ β}
    (hx : Respects F x)
    (hf : ∀ s a t, x.run s = .ok a t → F.rel t (stop ((f a).run t))) :
    Respects F (x >>= f) :=
  fun s => rel_bind (hx s) (hf s)

theorem respects_bind {x : EStateM ε σ α} {f : α → EStateM ε σ β}
    (hx : Respects F x) (hf : ∀ a, Respects F (f a)) : Respects F (x >>= f) :=
  respects_bind_of hx fun _ a t _ => hf a t

/-- The value of a pure computation is known in what comes after it. -/
theorem respects_lift_bind {x : Except ε α} {f : α → EStateM ε σ β}
    (hf : ∀ a, x = .ok a → Respects F (f a)) : Respects F (lift x >>= f) := by
  refine respects_bind_of (respects_lift x) fun s a t h => ?_
  exact hf a (lift_run_ok_iff.mp h).1 t

theorem respects_ite {p : Prop} [Decidable p] {x y : EStateM ε σ α}
    (hx : Respects F x) (hy : Respects F y) : Respects F (if p then x else y) := by
  split
  · exact hx
  · exact hy

end Rules

/-! ## Ending a transaction -/

/-- A caught exception: what was written stays written. -/
def committed (x : EStateM ε σ α) (s : σ) : Except ε α × σ :=
  match x.run s with
  | .ok a t => (.ok a, t)
  | .error e t => (.error e, t)

/-- A rolled back exception: `undo s t` is the state `t` with its writes since
`s` taken back. -/
def atomic (undo : σ → σ → σ) (x : EStateM ε σ α) (s : σ) : Except ε α × σ :=
  match x.run s with
  | .ok a t => (.ok a, t)
  | .error e t => (.error e, undo s t)

theorem committed_snd (x : EStateM ε σ α) (s : σ) : (committed x s).2 = stop (x.run s) := by
  unfold committed
  cases x.run s <;> rfl

/-- A rolled back transaction either returned, or left `undo s t`. -/
theorem atomic_cases (undo : σ → σ → σ) (x : EStateM ε σ α) (s : σ) :
    (∃ a t, x.run s = .ok a t ∧ atomic undo x s = (.ok a, t)) ∨
      ∃ e t, x.run s = .error e t ∧ atomic undo x s = (.error e, undo s t) := by
  unfold atomic
  cases h : x.run s with
  | ok a t => exact .inl ⟨a, t, rfl, rfl⟩
  | error e t => exact .inr ⟨e, t, rfl, rfl⟩

theorem atomic_of_run_ok {undo : σ → σ → σ} {x : EStateM ε σ α} {s t : σ} {a : α}
    (h : x.run s = .ok a t) : atomic undo x s = (.ok a, t) := by
  rw [atomic, h]

/-- Where nothing survives an exception, the state is that of the return or as it was. -/
theorem atomic_snd_cases (x : EStateM ε σ α) (s : σ) :
    (∃ a, x.run s = .ok a (atomic (fun s _ => s) x s).2) ∨
      (∃ e t, x.run s = .error e t) ∧ (atomic (fun s _ => s) x s).2 = s := by
  rcases atomic_cases (fun s _ => s) x s with ⟨a, t, hrun, h⟩ | ⟨e, t, hrun, h⟩
  · exact .inl ⟨a, by rw [h]; exact hrun⟩
  · exact .inr ⟨⟨e, t, hrun⟩, by rw [h]⟩

/-- Where nothing survives an exception, the frames of the transaction are respected. -/
theorem rel_atomic {F : Frame σ} {x : EStateM ε σ α} (hx : Respects F x) (s : σ) :
    F.rel s (atomic (fun s _ => s) x s).2 := by
  rcases atomic_snd_cases x s with ⟨a, hrun⟩ | ⟨-, h⟩
  · have hs := hx s
    rw [hrun] at hs
    exact hs
  · rw [h]
    exact F.refl s

end Transaction

end Fastrak
