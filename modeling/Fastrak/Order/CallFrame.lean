import Fastrak.Order.MoveStep

/-!
# Frames of the calls

A call that is not a confirmation writes on moves, on payments and on the order. None of its
writes on the order takes the payment status `paid` away, and its writes on moves are those of
`MoveStep`. It respects every frame that such writes respect, whether it returns or raises.
-/

namespace Fastrak

open Transaction

/-- The write leaves a paid order paid. -/
def KeepsPaid (f : Order → Order) : Prop :=
  ∀ o, o.orderPaymentStatus = some .paid → (f o).orderPaymentStatus = some .paid

theorem keepsPaid_of_eq {f : Order → Order}
    (h : ∀ o, (f o).orderPaymentStatus = o.orderPaymentStatus) : KeepsPaid f :=
  fun o ho => (h o).trans ho

/-- The frame is respected by the writes of a call. -/
structure AdmitsWrites (ac : Accounting) (F : Frame OrderSlice) : Prop where
  order : ∀ f s, KeepsPaid f → F.rel s (s.mapOrder f)
  moves : ∀ f s, MoveSteps ac s.moves (f s.moves) → F.rel s (s.mapMoves f)
  payments : ∀ f s, F.rel s (s.mapPayments f)

/-- The frame is respected by the writes of a call, and by every other write on moves. -/
structure AdmitsCalls (F : Frame OrderSlice) : Prop where
  order : ∀ f s, KeepsPaid f → F.rel s (s.mapOrder f)
  moves : ∀ f s, F.rel s (s.mapMoves f)
  payments : ∀ f s, F.rel s (s.mapPayments f)

theorem AdmitsCalls.admitsWrites {F : Frame OrderSlice} (h : AdmitsCalls F) (ac : Accounting) :
    AdmitsWrites ac F :=
  ⟨h.order, fun f s _ => h.moves f s, h.payments⟩

/-! ## The values of new moves -/

section Fresh

variable {st : Settings} {ac : Accounting} {s : OrderSlice} {o : Order} {data : Move}

theorem prepareInvoice_fresh (h : prepareInvoice st o = .ok data) : data.Fresh := by
  simp only [prepareInvoice, except_bind_ok_iff, except_pure_eq_ok_iff] at h
  obtain ⟨-, -, -, -, rfl⟩ := h
  exact ⟨by simp, rfl⟩

theorem prepareRegisterPaymentEntry_fresh
    (h : prepareRegisterPaymentEntry st ac s o = .ok data) : data.Fresh := by
  simp only [prepareRegisterPaymentEntry, except_bind_ok_iff, except_pure_eq_ok_iff] at h
  obtain ⟨-, -, -, -, rfl⟩ := h
  exact ⟨by simp, rfl⟩

theorem prepareBankCommissionEntry_fresh (h : prepareBankCommissionEntry st o = .ok data) :
    data.Fresh := by
  simp only [prepareBankCommissionEntry, except_bind_ok_iff, except_pure_eq_ok_iff] at h
  obtain ⟨-, -, -, -, -, -, rfl⟩ := h
  exact ⟨by simp, rfl⟩

theorem prepareMoneyCollectionEntry_fresh (h : prepareMoneyCollectionEntry st o = .ok data) :
    data.Fresh := by
  simp only [prepareMoneyCollectionEntry, except_bind_ok_iff, except_pure_eq_ok_iff] at h
  obtain ⟨-, -, -, -, rfl⟩ := h
  exact ⟨by simp, rfl⟩

end Fresh

section Reads

variable {F : Frame OrderSlice}

theorem respects_self : Respects F self := by
  refine respects_bind respects_get fun s => ?_
  cases s.order with
  | none => exact respects_throw _
  | some o => exact respects_pure o

theorem respects_refuse (reason : Option String) : Respects F (refuse reason) := by
  cases reason with
  | none => exact respects_pure _
  | some message => exact respects_throw message

end Reads

namespace AdmitsWrites

variable {F : Frame OrderSlice} {st : Settings} {ac : Accounting}

/-- A write on fields other than the payment status. -/
theorem modifyOrder (hF : AdmitsWrites ac F) {f : Order → Order}
    (hf : ∀ o, (f o).orderPaymentStatus = o.orderPaymentStatus) : Respects F (modifyOrder f) :=
  respects_modify fun s => hF.order f s (keepsPaid_of_eq hf)

theorem moveWrite (hF : AdmitsWrites ac F) (id : ℕ) {f : Move → Move}
    (hf : ∀ m : Move, m.Rewritten ac id (f m)) : Respects F (moveWrite id f) := by
  intro s
  rw [Fastrak.moveWrite, get_bind_run, raiseIf_bind_run]
  split
  · exact F.refl s
  · next hlock => exact hF.moves _ s (moveSteps_modify (Bool.not_eq_true _ ▸ hlock) hf)

theorem onMove (hF : AdmitsWrites ac F) (id : Option ℕ) (reason : Move → Option String)
    {f : ℕ → Move → Move} (hf : ∀ id (m : Move), m.Rewritten ac id (f id m)) :
    Respects F (onMove id reason f) := by
  refine respects_bind respects_get fun s => ?_
  split
  · exact respects_bind (respects_refuse _) fun _ => hF.moveWrite _ (hf _)
  · exact respects_pure _

theorem actionPost (hF : AdmitsWrites ac F) (id : Option ℕ) : Respects F (actionPost ac id) :=
  hF.onMove id _ (Move.rewritten_post ac)

theorem createMove (hF : AdmitsWrites ac F) {vals : Move} (hvals : vals.Fresh) :
    Respects F (createMove ac vals) :=
  respects_bind (respects_refuse _) fun _ => respects_bind respects_get fun _ =>
    respects_bind (respects_modify fun s => hF.moves _ s (.single (.create hvals))) fun _ =>
      respects_pure _

theorem createPayment (hF : AdmitsWrites ac F) (vals : Payment) :
    Respects F (createPayment ac vals) :=
  respects_bind (respects_refuse _) fun _ => respects_bind respects_get fun _ =>
    respects_bind (respects_modify fun s => hF.payments _ s) fun _ => respects_pure _

theorem toggleOrderPaymentStatus (hF : AdmitsWrites ac F) :
    Respects F (toggleOrderPaymentStatus ac) :=
  respects_bind respects_self fun _ => respects_bind respects_get fun _ =>
    respects_ite (respects_modify fun s => hF.order _ s fun _ _ => rfl) (respects_pure _)

theorem postPayment (hF : AdmitsWrites ac F) (id : ℕ) : Respects F (postPayment ac id) := by
  refine respects_bind respects_get fun s => ?_
  split
  · exact respects_bind (respects_refuse _) fun _ =>
      respects_bind (respects_modify fun s => hF.payments _ s) fun _ =>
        respects_bind respects_self fun _ =>
          respects_ite hF.toggleOrderPaymentStatus (respects_pure _)
  · exact respects_pure _

theorem createBankCommissionEntry (hF : AdmitsWrites ac F) :
    Respects F (createBankCommissionEntry st ac) :=
  respects_bind respects_self fun _ => respects_lift_bind fun _ hdata =>
    respects_bind (hF.createMove (prepareBankCommissionEntry_fresh hdata)) fun _ =>
      respects_bind (hF.modifyOrder fun _ => rfl) fun _ => hF.actionPost _

theorem registerPosPayment (hF : AdmitsWrites ac F) (apiAction : Bool) :
    Respects F (registerPosPayment st ac apiAction) := by
  have hpost : ∀ payment, Respects F
      (if apiAction then pure () else Fastrak.postPayment ac payment) :=
    fun payment => respects_ite (respects_pure _) (hF.postPayment payment)
  exact respects_bind respects_self fun _ => respects_bind (respects_raiseIf _ _) fun _ =>
    respects_bind respects_get fun _ => respects_bind (respects_raiseIf _ _) fun _ =>
      respects_bind (respects_raiseIf _ _) fun _ => respects_bind respects_get fun _ =>
        respects_bind (hF.createPayment _) fun payment =>
          respects_bind (hF.modifyOrder fun _ => rfl) fun _ =>
            respects_bind hF.toggleOrderPaymentStatus fun _ =>
              respects_ite (respects_bind hF.createBankCommissionEntry fun _ => hpost payment)
                (hpost payment)

theorem registerCashPayment (hF : AdmitsWrites ac F) : Respects F (registerCashPayment st ac) :=
  respects_bind respects_self fun _ => respects_bind respects_get fun _ =>
    respects_bind (respects_raiseIf _ _) fun _ => respects_bind (respects_raiseIf _ _) fun _ =>
      respects_bind respects_get fun _ => respects_lift_bind fun _ hdata =>
        respects_bind (hF.createMove (prepareRegisterPaymentEntry_fresh hdata)) fun _ =>
          respects_bind (hF.modifyOrder fun _ => rfl) fun _ => hF.actionPost _

theorem registerPayment (hF : AdmitsWrites ac F) (apiAction : Bool) :
    Respects F (registerPayment st ac apiAction) :=
  respects_bind respects_self fun _ => respects_bind (respects_raiseIf _ _) fun _ =>
    respects_ite (respects_throw _) <| respects_ite
      (respects_ite (hF.registerPosPayment apiAction) hF.registerCashPayment) (respects_pure _)

theorem createMoneyCollectionEntry (hF : AdmitsWrites ac F) (raiseException : Bool) :
    Respects F (createMoneyCollectionEntry st ac raiseException) :=
  respects_bind respects_self fun _ => respects_ite (respects_raiseIf _ _) <|
    respects_bind (respects_raiseIf _ _) fun _ => respects_bind (respects_raiseIf _ _) fun _ =>
      respects_lift_bind fun _ hdata =>
        respects_bind (hF.createMove (prepareMoneyCollectionEntry_fresh hdata)) fun _ =>
          respects_bind (hF.modifyOrder fun _ => rfl) fun _ => hF.actionPost _

theorem checkTripStatus (hF : AdmitsWrites ac F) (res : Trip) :
    Respects F (checkTripStatus res) := by
  unfold Fastrak.checkTripStatus
  split
  · exact respects_bind respects_self fun _ => respects_bind (respects_raiseIf _ _) fun _ =>
      hF.modifyOrder fun _ => rfl
  · exact respects_bind respects_self fun _ => respects_bind (respects_raiseIf _ _) fun _ =>
      respects_bind respects_self fun _ => respects_bind (respects_raiseIf _ _) fun _ =>
        hF.modifyOrder fun _ => rfl
  · exact respects_pure _

theorem createTrips (hF : AdmitsWrites ac F) (trips : List Trip) :
    Respects F (createTrips trips) := by
  refine respects_bind (hF.modifyOrder fun _ => rfl) fun _ => ?_
  match trips with
  | [] => exact respects_pure _
  | [trip] => exact hF.checkTripStatus trip
  | _ :: _ :: _ => exact respects_throw _

/-- The reversal of a move that the lock has been checked of. -/
theorem reverseMoves (hF : AdmitsWrites ac F) {id : ℕ} {s : OrderSlice}
    (hlock : (s.moves[id]?).any (·.auditAndLock) = false) :
    F.rel s (stop ((Fastrak.reverseMoves ac id
      ("Reversal of " ++ ((s.move? (some id)).map (·.name)).getD "")).run s)) := by
  rw [Fastrak.reverseMoves, get_bind_run]
  cases hm : s.moves[id]? with
  | none => exact F.refl s
  | some m =>
      have hname : ((s.move? (some id)).map (·.name)).getD "" = m.name := by
        rw [OrderSlice.move?, Option.bind_some, hm]
        rfl
      rw [hname]
      refine rel_bind (respects_refuse (ac.refuseReverse m) s) fun _ t ht => ?_
      obtain rfl := (refuse_run_ok_iff.mp ht).2
      exact hF.moves (fun moves => moves.modify id (Move.reverse ac) ++
        [m.creditNote ac id moves.length _]) s (.single (.reverse hm (by simpa [hm] using hlock)))

theorem refundBillLoading (hF : AdmitsWrites ac F) : Respects F (refundBillLoading ac) := by
  refine respects_bind respects_self fun o => respects_bind (respects_raiseIf _ _) fun _ => ?_
  split
  · next i _ =>
    refine respects_bind_of (hF.moveWrite i fun m => ⟨rfl, rfl, .inl rfl⟩) fun s _ t ht => ?_
    obtain ⟨hlock, rfl⟩ := moveWrite_run_ok_iff.mp ht
    rw [get_bind_run]
    refine rel_bind (hF.reverseMoves ?_) fun _ t _ =>
      hF.modifyOrder (f := Order.setStatus .refund) (fun _ => rfl) t
    rw [OrderSlice.mapMoves_moves, List.getElem?_modify_eq, Option.map_eq_map, Option.any_map]
    exact Bool.not_eq_true _ ▸ hlock
  · exact hF.modifyOrder fun _ => rfl

theorem payInvoice (hF : AdmitsWrites ac F) (amount : ℚ) : Respects F (payInvoice ac amount) := by
  refine respects_bind respects_self fun o => respects_bind respects_get fun s => ?_
  split
  · exact respects_bind (respects_raiseIf _ _) fun _ => respects_modify fun s =>
      hF.moves _ s (.single (.settle _ amount))
  · exact respects_throw _

theorem auditAndLockMove (hF : AdmitsWrites ac F) : Respects F auditAndLockMove := by
  refine respects_bind respects_self fun o => ?_
  split
  · exact hF.moveWrite _ fun m => ⟨rfl, rfl, .inl rfl⟩
  · exact respects_throw _

theorem writeUpdateDict (hF : AdmitsWrites ac F) (d : UpdateDict) :
    Respects F (Fastrak.writeUpdateDict d) := by
  unfold Fastrak.writeUpdateDict
  split
  · exact respects_throw _
  · exact hF.modifyOrder fun _ => rfl

/-- A call that is not a confirmation. -/
theorem body (hF : AdmitsWrites ac F) {c : Call} (hc : c ≠ .confirmBillLoading) :
    Respects F (c.body st ac) := by
  cases c with
  | confirmBillLoading => exact absurd rfl hc
  | write d => exact hF.writeUpdateDict d
  | resetToDraft | setCancellationReason | setRefundReason =>
      exact hF.modifyOrder fun _ => rfl
  | createTrips trips => exact hF.createTrips trips
  | registerPayment apiAction => exact hF.registerPayment apiAction
  | createMoneyCollectionEntry raiseException => exact hF.createMoneyCollectionEntry raiseException
  | refundBillLoading => exact hF.refundBillLoading
  | cancelBillLoading =>
      exact respects_bind respects_self fun _ => respects_bind (respects_raiseIf _ _) fun _ =>
        hF.modifyOrder fun _ => rfl
  | auditedBillOfLoading =>
      exact respects_bind respects_self fun _ => respects_bind (respects_lift _) fun _ =>
        hF.modifyOrder fun _ => rfl
  | payInvoice amount => exact hF.payInvoice amount
  | auditAndLockMove => exact hF.auditAndLockMove

/-- A confirmation, for a frame that is respected by every write on the order. -/
theorem confirmBillLoading (hF : AdmitsWrites ac F) (horder : ∀ f s, F.rel s (s.mapOrder f))
    (hcomputed : ∀ o s, F.rel s (s.recordComputation o)) :
    Respects F (confirmBillLoading st ac) := by
  refine respects_bind (respects_modify fun s => horder _ s) fun _ =>
    respects_bind respects_self fun o => ?_
  split
  · refine respects_ite (respects_bind ?_ fun _ => respects_bind (hF.actionPost _) fun _ =>
      respects_modify fun s => horder _ s) (respects_pure _)
    exact respects_bind respects_self fun o => respects_bind (respects_modify (hcomputed o))
      fun _ => respects_lift_bind fun _ hdata => hF.createMove (prepareInvoice_fresh hdata)
  · exact respects_bind respects_get fun _ => respects_ite (respects_pure _) (hF.actionPost _)

end AdmitsWrites

theorem AdmitsCalls.body {F : Frame OrderSlice} {st : Settings} {ac : Accounting}
    (hF : AdmitsCalls F) {c : Call} (hc : c ≠ .confirmBillLoading) : Respects F (c.body st ac) :=
  (hF.admitsWrites ac).body hc

end Fastrak
