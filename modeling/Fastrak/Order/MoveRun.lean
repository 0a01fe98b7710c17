import Fastrak.Order.Computation

/-!
# The account moves of an order

Every step of the system of orders does nothing to the account moves but the writes of
`MoveStep`: a call by the frame of its operation, and an update request by the move that a
rebuild ends with or leaves when it is interrupted.
-/

namespace Fastrak

open Transaction Run Relation

variable {st : Settings} {ac : Accounting} {orderId : String} {s t : OrderSlice} {o : Order}

/-! ## Calls -/

/-- The account moves change by writes of `MoveStep` only. -/
def moveFrame (ac : Accounting) : Frame OrderSlice where
  rel s t := MoveSteps ac s.moves t.moves
  refl _ := .refl
  trans := ReflTransGen.trans

theorem admitsWrites_moveFrame (ac : Accounting) : AdmitsWrites ac (moveFrame ac) where
  order _ _ _ := .refl
  moves _ _ h := h
  payments _ _ := .refl

theorem Call.respects_moveFrame (c : Call) : Respects (moveFrame ac) (c.body st ac) := by
  by_cases hc : c = .confirmBillLoading
  · subst hc
    exact (admitsWrites_moveFrame ac).confirmBillLoading (fun _ _ => .refl) fun _ _ => .refl
  · exact (admitsWrites_moveFrame ac).body hc

/-! ## Requests -/

/-- A rebuild writes on an invoice that is not locked, or leaves it as it was. -/
theorem rebuildMove_rewritten {i : ℕ} {discount : Option ℚ} {m m' : Move}
    (h : rebuildMove st ac i o discount m = .ok m' ∨
      rebuildMove st ac i o discount m = .error m') :
    m' = m ∨ m.auditAndLock = false ∧ m.Rewritten ac i m' := by
  have hreset := Move.rewritten_reset ac i m
  have hlines := fun lines => hreset.trans (Move.rewritten_setLines ac i lines m.reset)
  rcases h with h | h
  · have hlock := auditAndLock_of_rebuildMove_eq_ok h
    obtain ⟨lines, -, rfl⟩ := rebuildMove_eq_ok h
    exact .inr ⟨hlock, (hlines lines).trans (Move.rewritten_post ac i _)⟩
  · rcases rebuildMove_eq_error h with rfl | ⟨hlock, rfl | ⟨lines, rfl⟩⟩
    · exact .inl rfl
    · exact .inr ⟨hlock, hreset⟩
    · exact .inr ⟨hlock, hlines lines⟩

/-- The account moves when the invoice has been rebuilt. -/
theorem moveSteps_rebuild {o' : Order} {discount : Option ℚ} {m : Option Move}
    (hid : o'.invoiceId = o.invoiceId)
    (h : rebuild st ac o' discount (s.invoice? o) = .ok m ∨
      rebuild st ac o' discount (s.invoice? o) = .error m) :
    MoveSteps ac s.moves (o.putInvoice m s.moves) := by
  cases hinv : s.invoice? o with
  | none =>
      obtain rfl : m = none := by
        have hsome := rebuild_isSome h
        rw [hinv] at hsome
        simpa using hsome
      unfold Order.putInvoice
      split
      · next heq => cases heq
      · exact .refl
  | some m₀ =>
      obtain ⟨i, hi, hm₀⟩ := OrderSlice.invoice?_eq_some_iff.mp hinv
      obtain ⟨m, rfl⟩ := Option.isSome_iff_exists.mp ((rebuild_isSome h).trans (by rw [hinv]; rfl))
      have hmove : rebuildMove st ac i o' discount m₀ = .ok m ∨
          rebuildMove st ac i o' discount m₀ = .error m := by
        rw [hinv, rebuild, hid, hi, Option.getD_some] at h
        cases hr : rebuildMove st ac i o' discount m₀ <;> simpa [hr] using h
      have hput : o.putInvoice (some m) s.moves = s.moves.set i m := by
        unfold Order.putInvoice
        rw [hi]
      rw [hput]
      rcases rebuildMove_rewritten hmove with rfl | ⟨hlock, hwritten⟩
      · obtain ⟨hlt, rfl⟩ := List.getElem?_eq_some_iff.mp hm₀
        rw [List.set_getElem_self]
      · exact .single (.write hm₀ hlock hwritten)

/-- The account moves when the invoice has been rebuilt twice. -/
theorem moveSteps_rebuild_rebuild {o₁ o₂ : Order} {discount discount' : Option ℚ}
    {m m' : Option Move} (h₁ : o₁.invoiceId = o.invoiceId) (h₂ : o₂.invoiceId = o.invoiceId)
    (hr : rebuild st ac o₁ discount (s.invoice? o) = .ok m)
    (hr' : rebuild st ac o₂ discount' m = .ok m' ∨ rebuild st ac o₂ discount' m = .error m') :
    MoveSteps ac s.moves (o.putInvoice m' s.moves) := by
  have hinv : OrderSlice.invoice? { s with moves := o.putInvoice m s.moves } o = m :=
    Order.putInvoice_invoice? (rebuild_isSome (.inl hr)) rfl
  have hput : o.putInvoice m' (o.putInvoice m s.moves) = o.putInvoice m' s.moves :=
    Order.putInvoice_putInvoice (rebuild_isSome hr') rfl
  rw [← hput]
  rw [← hinv] at hr'
  exact (moveSteps_rebuild h₁ (.inl hr)).trans (moveSteps_rebuild h₂ hr')

theorem Updates.moveSteps {kw : UpdateKwargs} {accepted : Bool}
    (h : Updates st ac kw s o accepted t) : MoveSteps ac s.moves t.moves := by
  cases h with
  | refused | lineCreated | queued | stored => exact .refl
  | feesInterrupted fees p m cs he hr =>
      exact moveSteps_rebuild (o.withFees_invoiceId p fees) (.inr hr)
  | discountClosed fees discount p m he hr | feesRebuilt fees p m he hr =>
      exact moveSteps_rebuild (o.withFees_invoiceId p fees) (.inl hr)
  | discountInterrupted fees discount p m m' cs he hr _ _ hr' =>
      have hid : ((o.withFees p fees).withDiscount fees discount).invoiceId = o.invoiceId :=
        o.withFees_invoiceId p fees
      exact moveSteps_rebuild_rebuild (o.withFees_invoiceId p fees) hid hr (.inr hr')
  | discountRebuilt fees discount p m m' he hr _ _ hr' =>
      have hid : ((o.withFees p fees).withDiscount fees discount).invoiceId = o.invoiceId :=
        o.withFees_invoiceId p fees
      exact moveSteps_rebuild_rebuild (o.withFees_invoiceId p fees) hid hr (.inl hr')

theorem Serves.moveSteps {r : Request} {response : Response}
    (h : Serves st ac orderId s r response t) : MoveSteps ac s.moves t.moves := by
  cases h with
  | updated kw o _ _ ho h => exact h.moveSteps
  | _ => exact .refl

/-! ## Runs -/

theorem Call.transact_moveSteps (c : Call) (s : OrderSlice) :
    MoveSteps ac s.moves (transact (c.body st ac) s).2.moves := by
  unfold transact
  rcases atomic_cases OrderSlice.rollback (c.body st ac) s with
    ⟨⟨⟩, t, hrun, h⟩ | ⟨message, t, -, h⟩
  · have hframe : Respects (moveFrame ac) (c.body st ac) := c.respects_moveFrame
    have hmoves := hframe s
    rw [hrun] at hmoves
    rw [h]
    exact hmoves
  · rw [h]
    exact .refl

theorem step_moveSteps (st : Settings) (ac : Accounting) (orderId : String) (s : OrderSlice)
    (e : Event) : MoveSteps ac s.moves (step st ac orderId s e).moves := by
  rw [step]
  cases hc : e.call? s with
  | some p =>
      obtain ⟨c, base⟩ := p
      rw [perform_of_call hc, ← (Event.call?_records hc).2.1]
      exact c.transact_moveSteps base
  | none =>
      cases e with
      | request r => exact (handle_serves orderId r s).moveSteps
      | _ =>
          simp only [perform, hc]
          exact .refl

/-- Over every run, the account moves of an order change by writes of `MoveStep` only. -/
theorem run_moveSteps (st : Settings) (ac : Accounting) (db : Database)
    (es : List (String × Event)) (id : String) :
    MoveSteps ac (db id).moves (run (dbStep st ac) db es id).moves :=
  family_relation (step st ac) (I := fun _ => True) (C := fun _ _ => True)
    (R := fun s t => MoveSteps ac s.moves t.moves) (fun _ _ _ _ => True.intro) (fun _ => .refl)
    ReflTransGen.trans (fun s e _ _ => step_moveSteps st ac id s e) True.intro
    (family_meets_trivial id db es)

end Fastrak
