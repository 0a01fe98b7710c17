import Fastrak.Order.Frame

/-!
# The queue and the account moves

Jobs are queued by requests that are accepted and leave the queue when they are run.
Account moves are created by calls and never removed; a move keeps its type, and only
an update request takes the posting of a move back.
-/

namespace Fastrak

open Transaction

variable {st : Settings} {ac : Accounting} {orderId : String} {s t : OrderSlice} {o o' : Order}

/-! ## The queue -/

/-- What an accepted request queues for the order `o`. -/
def Request.queues (o : Order) : Request → List Job
  | .update kw => [.write kw.updateDict]
  | .pickup _ => if o.paymentMethod = .onPickup then [.confirmBillLoading] else []
  | .delivery (some driverId) => deliveryJobs driverId o
  | .moneyCollection (some (some collectionType)) => collectionJobs collectionType
  | _ => []

def Event.queues (o : Order) : Event → List Job
  | .request r => r.queues o
  | _ => []

/-- The queue when the event has taken its job from it. -/
def Event.left (s : OrderSlice) : Event → List Job
  | .job i => s.jobs.eraseIdx i
  | _ => s.jobs

theorem Event.mem_of_mem_left {e : Event} {job : Job} (h : job ∈ e.left s) : job ∈ s.jobs := by
  cases e with
  | job i => exact List.mem_of_mem_eraseIdx h
  | _ => exact h

theorem Event.left_eq_base {e : Event} {c : Call} {base : OrderSlice}
    (h : e.call? s = some (c, base)) : base.jobs = e.left s := by
  cases e with
  | request => simp [Event.call?] at h
  | job i =>
      obtain ⟨job, -, -, rfl⟩ := Event.call?_job.mp h
      rfl
  | _ =>
      obtain ⟨-, rfl⟩ : _ ∧ s = base := by simpa [Event.call?] using h
      rfl

theorem Serves.jobs {r : Request} {response : Response} (ho : s.order = some o)
    (h : Serves st ac orderId s r response t) :
    t.jobs = s.jobs ++ if response.accepted then r.queues o else [] := by
  cases h with
  | refused _ _ hr => simp [hr]
  | created _ _ _ _ hn => simp [hn] at ho
  | updated kw o₁ _ _ _ h =>
      rw [h.jobs]
      split <;> simp [Request.queues]
  | picked _ o₁ _ hr ho₁ | delivered _ o₁ _ hr ho₁ =>
      obtain rfl : o₁ = o := by simpa [ho₁] using ho
      simp [hr, Request.queues]
  | halfPicked _ _ _ hr => simp [hr]
  | collected _ _ _ hr => simp [hr, Request.queues]

/-- The queue after a step. -/
theorem Steps.jobs {e : Event} {out : Outcome} (ho : s.order = some o)
    (h : Steps st ac orderId s e out t) :
    t.jobs = e.left s ++ if out.isSuccess then e.queues o else [] := by
  cases h with
  | request r response _ h => exact h.jobs ho
  | ignored _ hc =>
      cases e with
      | job i =>
          have hi : s.jobs.length ≤ i := by simpa [Event.call?] using hc
          simp [Event.left, Outcome.isSuccess, List.eraseIdx_of_length_le hi]
      | request => simp [Event.left, Outcome.isSuccess]
      | _ => simp [Event.call?] at hc
  | raised _ c base _ _ hc =>
      simp [Outcome.isSuccess, OrderSlice.rollback, Event.left_eq_base hc]
  | returned _ c base _ _ hc _ h =>
      have hq : e.queues o = [] := by
        cases e with
        | request => simp [Event.call?] at hc
        | _ => rfl
      rw [h.jobs, Event.left_eq_base hc, hq]
      simp
  | vacuous _ c _ hc hn => simp [(Event.call?_records hc).1, ho] at hn

/-- Without an order nothing is queued. -/
theorem Steps.jobs_of_none {e : Event} {out : Outcome} (ho : s.order = none)
    (hs : s.jobs = []) (h : Steps st ac orderId s e out t) : t.jobs = [] := by
  rcases h.of_none ho with ⟨-, hj⟩ | ⟨kw, lines, -, rfl⟩
  · exact List.eq_nil_iff_forall_not_mem.mpr fun job hm => by simpa [hs] using hj job hm
  · exact hs

/-- What the queue of an order is: a job is there for an order, the values to be written can
be stored, and the trips to be written are single delivered ones. -/
structure OrderSlice.Queued (s : OrderSlice) : Prop where
  free : s.order = none → s.jobs = []
  write : ∀ d, .write d ∈ s.jobs → d.unread = none
  writeTrips : ∀ trips, .writeTrips trips ∈ s.jobs →
    ∃ driverId, trips = [{ driverId, tripStatus := some .delivered }]

theorem OrderSlice.IsNew.queued (h : s.IsNew) : s.Queued :=
  ⟨fun _ => h.jobs, by simp [h.jobs], by simp [h.jobs]⟩

theorem Request.unread_of_mem_queues {r : Request} {d : UpdateDict}
    (h : .write d ∈ r.queues o) : d.unread = none := by
  unfold Request.queues at h
  split at h
  · obtain rfl : d = _ := by simpa using h
    rfl
  · split at h <;> simp at h
  · unfold deliveryJobs at h
    split at h <;> simp at h
  · rename_i collectionType
    cases collectionType <;> simp [collectionJobs] at h
  · simp at h

theorem Request.writeTrips_of_mem_queues {r : Request} {trips : List Trip}
    (h : .writeTrips trips ∈ r.queues o) :
    ∃ driverId, trips = [{ driverId, tripStatus := some .delivered }] := by
  unfold Request.queues at h
  split at h
  · simp at h
  · split at h <;> simp at h
  · rename_i driverId
    unfold deliveryJobs at h
    split at h <;> exact ⟨driverId, by simpa using h⟩
  · rename_i collectionType
    cases collectionType <;> simp [collectionJobs] at h
  · simp at h

theorem Event.writeTrips_of_mem_queues {e : Event} {trips : List Trip}
    (h : .writeTrips trips ∈ e.queues o) :
    ∃ driverId, trips = [{ driverId, tripStatus := some .delivered }] := by
  cases e with
  | request r => exact r.writeTrips_of_mem_queues h
  | _ => simp [Event.queues] at h

theorem Event.unread_of_mem_queues {e : Event} {d : UpdateDict} (h : .write d ∈ e.queues o) :
    d.unread = none := by
  cases e with
  | request r => exact r.unread_of_mem_queues h
  | _ => simp [Event.queues] at h

theorem step_queued (orderId : String) (s : OrderSlice) (e : Event) (hs : s.Queued) :
    (step st ac orderId s e).Queued := by
  have h := perform_steps st ac orderId e s
  cases ho : s.order with
  | none =>
      have hjobs := h.jobs_of_none ho (hs.free ho)
      refine ⟨fun _ => hjobs, fun d hm => ?_, fun trips hm => ?_⟩
      · rw [step, hjobs] at hm
        cases hm
      · rw [step, hjobs] at hm
        cases hm
  | some o =>
      obtain ⟨o', ho'⟩ := h.order_isSome ho
      constructor
      · intro hn
        rw [step, ho'] at hn
        cases hn
      · intro d hm
        rw [step, h.jobs ho, List.mem_append] at hm
        rcases hm with hm | hm
        · exact hs.write d (Event.mem_of_mem_left hm)
        · split at hm
          · exact Event.unread_of_mem_queues hm
          · cases hm
      · intro trips hm
        rw [step, h.jobs ho, List.mem_append] at hm
        rcases hm with hm | hm
        · exact hs.writeTrips trips (Event.mem_of_mem_left hm)
        · split at hm
          · exact Event.writeTrips_of_mem_queues hm
          · cases hm

/-! ## Account moves -/

theorem prepareInvoice_moveType {data : Move} (h : prepareInvoice st o = .ok data) :
    data.moveType = .outInvoice := by
  simp only [prepareInvoice, except_bind_ok_iff, except_pure_eq_ok_iff] at h
  obtain ⟨-, -, -, -, rfl⟩ := h
  rfl

theorem prepareRegisterPaymentEntry_moveType {data : Move}
    (h : prepareRegisterPaymentEntry st ac s o = .ok data) : data.moveType = .entry := by
  simp only [prepareRegisterPaymentEntry, except_bind_ok_iff, except_pure_eq_ok_iff] at h
  obtain ⟨-, -, -, -, rfl⟩ := h
  rfl

theorem prepareMoneyCollectionEntry_moveType {data : Move}
    (h : prepareMoneyCollectionEntry st o = .ok data) : data.moveType = .entry := by
  simp only [prepareMoneyCollectionEntry, except_bind_ok_iff, except_pure_eq_ok_iff] at h
  obtain ⟨-, -, -, -, rfl⟩ := h
  rfl

namespace OrderSlice

/-- The types of the account moves made for the order. -/
def moveTypes (s : OrderSlice) : List MoveType := s.moves.map (·.moveType)

theorem moveTypes_of_eq (h : t.moves = s.moves) : t.moveTypes = s.moveTypes := by
  rw [moveTypes, h, moveTypes]

/-- A move is created. -/
theorem moveTypes_concat {m : Move} (h : t.moves = s.moves ++ [m]) :
    t.moveTypes = s.moveTypes ++ [m.moveType] := by
  simp [moveTypes, h]

/-- A move is written. -/
theorem moveTypes_modify {i : ℕ} (f : Move → Move) (hf : ∀ m, (f m).moveType = m.moveType)
    (h : t.moves = s.moves.modify i f) : t.moveTypes = s.moveTypes := by
  rw [moveTypes, h, Table.map_modify_of_eq hf, moveTypes]

/-- The invoice is replaced by a move of its type. -/
theorem moveTypes_putInvoice {m : Option Move}
    (hm : m.map (·.moveType) = (s.invoice? o).map (·.moveType))
    (h : t.moves = o.putInvoice m s.moves) : t.moveTypes = s.moveTypes := by
  cases m with
  | none =>
      refine moveTypes_of_eq (h.trans ?_)
      unfold Order.putInvoice
      split <;> simp_all
  | some m =>
      obtain ⟨m₀, hm₀, htype⟩ := Option.map_eq_some_iff.mp hm.symm
      obtain ⟨i, hi, hs⟩ := invoice?_eq_some_iff.mp hm₀
      rw [moveTypes, h, moveTypes]
      simp only [Order.putInvoice, hi]
      apply List.ext_getElem?
      intro j
      rw [List.getElem?_map, List.getElem?_map, List.getElem?_set]
      by_cases hj : i = j
      · subst hj
        have hlt : i < s.moves.length := (List.getElem?_eq_some_iff.mp hs).1
        rw [hs, if_pos rfl, if_pos hlt]
        exact congrArg some htype.symm
      · rw [if_neg hj]

end OrderSlice

open OrderSlice

/-- A confirmation creates at most one invoice, which it assigns to the order. -/
theorem Confirms.moveTypes (h : Confirms st ac s o t) :
    (t.moveTypes = s.moveTypes ∧ t.order = some o.confirmed) ∨
      (o.invoiceId = none ∧ t.moveTypes = s.moveTypes ++ [.outInvoice] ∧
        t.order = some (o.confirmed.setInvoice s.moves.length)) := by
  cases h with
  | billed data hi hf hd =>
      refine .inr ⟨hi, ?_, rfl⟩
      rw [← prepareInvoice_moveType hd]
      exact moveTypes_concat (m := data.post ac s.moves.length) rfl
  | unbilled | kept => exact .inl ⟨rfl, rfl⟩
  | posted => exact .inl ⟨moveTypes_modify (Move.post ac _) (fun _ => rfl) rfl, rfl⟩

/-- What a call does to the account moves `moves`: it writes one of them, which keeps
its type and does not lose its posting, and it creates some. -/
structure Call.Writes (c : Call) (moves moves' : List Move) : Prop where
  eq : ∃ i f created, moves' = moves.modify i f ++ created ∧
    (∀ m, (f m).moveType = m.moveType ∧ (m.state = .posted → (f m).state = .posted)) ∧
    (c ≠ .confirmBillLoading → ∀ m ∈ created, m.moveType ≠ .outInvoice) ∧
    (c ≠ .refundBillLoading → ∀ m ∈ created, m.moveType ≠ .outRefund)

namespace Call.Writes

variable {c : Call} {moves moves' : List Move}

theorem refl (c : Call) (moves : List Move) : c.Writes moves moves :=
  ⟨0, id, [], by simp, by simp, by simp, by simp⟩

/-- A journal entry is created. -/
theorem of_entry {m : Move} (hm : m.moveType = .entry) (h : moves' = moves ++ [m]) :
    c.Writes moves moves' :=
  ⟨0, id, [m], by simp [h], by simp, by simp [hm], by simp [hm]⟩

theorem of_modify {i : ℕ} (f : Move → Move)
    (hf : ∀ m, (f m).moveType = m.moveType ∧ (m.state = .posted → (f m).state = .posted))
    (h : moves' = moves.modify i f) : c.Writes moves moves' :=
  ⟨i, f, [], by simp [h], hf, by simp, by simp⟩

/-- A posted move stays posted. -/
theorem posted {i : ℕ} {m : Move} (h : c.Writes moves moves') (hm : moves[i]? = some m)
    (hp : m.state = .posted) : ∃ m', moves'[i]? = some m' ∧ m'.state = .posted := by
  obtain ⟨j, f, created, rfl, hf, -, -⟩ := h.eq
  refine ⟨_, Table.getElem?_append_of_some (Table.getElem?_modify_of_some hm j f) created, ?_⟩
  split
  · exact (hf m).2 hp
  · exact hp

theorem map_moveType (h : c.Writes moves moves') :
    ∃ l, moves'.map (·.moveType) = moves.map (·.moveType) ++ l ∧
      (c ≠ .confirmBillLoading → .outInvoice ∉ l) ∧
      (c ≠ .refundBillLoading → .outRefund ∉ l) := by
  obtain ⟨j, f, created, rfl, hf, hinv, href⟩ := h.eq
  refine ⟨created.map (·.moveType), ?_, ?_, ?_⟩
  · rw [List.map_append, Table.map_modify_of_eq fun m => (hf m).1]
  · intro hc
    simpa using hinv hc
  · intro hc
    simpa using href hc

end Call.Writes

/-- Only a confirmation creates an invoice, and only a refund a credit note. -/
theorem Call.Effect.writes {c : Call} (h : c.Effect st ac s o t) : c.Writes s.moves t.moves := by
  cases c with
  | confirmBillLoading =>
      cases h with
      | billed data hi hf hd =>
          have htype := prepareInvoice_moveType hd
          exact ⟨0, id, [data.post ac s.moves.length], by simp, by simp, by simp,
            by simp [Move.post, htype]⟩
      | unbilled | kept => exact .refl _ _
      | posted i => exact .of_modify (Move.post ac i) (fun _ => ⟨rfl, fun _ => rfl⟩) rfl
  | refundBillLoading =>
      cases h with
      | reversed i m note hi hm hn =>
          exact ⟨i, Move.reverse ac ∘ Move.setRefundReason o.refundReasonComment, [note], rfl,
            fun _ => ⟨rfl, id⟩, by simp [hn], by simp⟩
      | unbilled => exact .refl _ _
  | write | cancelBillLoading | resetToDraft | setCancellationReason | setRefundReason =>
      obtain rfl := h
      exact .refl _ _
  | createTrips trips =>
      cases h <;> exact .refl _ _
  | registerPayment apiAction =>
      cases h with
      | pos payment bankEntry status hf hm hi hu ha hb =>
          cases bankEntry with
          | none => exact ⟨0, id, [], by simp, by simp, by simp, by simp⟩
          | some entry => exact .of_entry (hb entry rfl) rfl
      | cash data hf hm hu hd =>
          have htype := prepareRegisterPaymentEntry_moveType hd
          exact .of_entry (m := data.post ac s.moves.length) htype rfl
      | free => exact .refl _ _
  | createMoneyCollectionEntry raiseException =>
      cases h with
      | booked data hm hu hd =>
          have htype := prepareMoneyCollectionEntry_moveType hd
          exact .of_entry (m := data.post ac s.moves.length) htype rfl
      | free => exact .refl _ _
  | auditedBillOfLoading =>
      obtain ⟨-, -, rfl⟩ := h
      exact .refl _ _
  | payInvoice amount =>
      cases h
      exact .of_modify (Move.reconcile amount) (fun _ => ⟨rfl, id⟩) rfl
  | auditAndLockMove =>
      obtain ⟨i, -, rfl⟩ := h
      exact .of_modify Move.lock (fun _ => ⟨rfl, id⟩) rfl

theorem Call.Effect.moveTypes {c : Call} (h : c.Effect st ac s o t) :
    ∃ l, t.moveTypes = s.moveTypes ++ l ∧
      (c ≠ .confirmBillLoading → .outInvoice ∉ l) ∧
      (c ≠ .refundBillLoading → .outRefund ∉ l) :=
  h.writes.map_moveType

/-- A request creates no move. -/
theorem Serves.moveTypes {r : Request} {response : Response}
    (h : Serves st ac orderId s r response t) : t.moveTypes = s.moveTypes := by
  cases h with
  | updated kw o _ _ ho h =>
      rcases h.moves with h | ⟨-, m, h, htype, -⟩
      · exact moveTypes_of_eq h
      · exact moveTypes_putInvoice htype h
  | _ => rfl

/-! ## The posted invoice -/

/-- The invoice of the order is there and posted, if it has one. -/
def OrderSlice.InvoicePosted (s : OrderSlice) : Prop :=
  ∀ o i, s.order = some o → o.invoiceId = some i →
    ∃ m, s.moves[i]? = some m ∧ m.state = .posted

theorem OrderSlice.IsNew.invoicePosted (h : s.IsNew) : s.InvoicePosted := by
  intro o i ho hi
  rw [(h.order o ho).invoiceId] at hi
  cases hi

theorem Call.Effect.invoicePosted {c : Call} (ho : s.order = some o) (hs : s.InvoicePosted)
    (h : c.Effect st ac s o t) : t.InvoicePosted := by
  intro o' i ho' hi
  have hkept : o.invoiceId = some i → ∃ m, t.moves[i]? = some m ∧ m.state = .posted := by
    intro hi
    obtain ⟨m, hm, hp⟩ := hs o i ho hi
    exact h.writes.posted hm hp
  by_cases hc : c = .confirmBillLoading
  · subst hc
    cases h with
    | billed data =>
        obtain rfl : s.moves.length = i := by cases ho'; simpa [Order.setInvoice] using hi
        exact ⟨data.post ac s.moves.length, by simp, rfl⟩
    | unbilled | kept | posted =>
        cases ho'
        exact hkept hi
  · obtain ⟨o'', ho'', hk⟩ := h.keeps ho
    obtain rfl : o' = o'' := by simpa [ho'] using ho''
    exact hkept ((hk.invoiceId hc).symm.trans hi)

/-- A rebuild of the invoice is interrupted, and leaves the invoice other than it was. -/
inductive UpdateKwargs.Interrupts (st : Settings) (ac : Accounting) (kw : UpdateKwargs)
    (o : Order) (invoice : Option Move) : Prop
  | fees (fees : ℚ) (p : Option Product) (m : Option Move)
      (he : kw.EntersRebuild st ac o invoice fees p)
      (hr : rebuild st ac (o.withFees p fees) none invoice = .error m) (hm : m ≠ invoice)
  | discount (fees discount : ℚ) (p : Option Product) (m m' : Option Move)
      (he : kw.EntersRebuild st ac o invoice fees p)
      (hr : rebuild st ac (o.withFees p fees) none invoice = .ok m)
      (hx : kw.discountAmount = some discount) (hc : ac.isPaid m = false)
      (hr' : rebuild st ac ((o.withFees p fees).withDiscount fees discount) (some discount) m =
        .error m') (hm : m' ≠ m)

theorem putInvoice_posted {m : Option Move} (ho : s.order = some o) (hs : s.InvoicePosted)
    (hsome : m.isSome = (s.invoice? o).isSome) (hp : ∀ m' ∈ m, m'.state = .posted)
    (hid : o'.invoiceId = o.invoiceId) (ho' : t.order = some o')
    (hmoves : t.moves = o.putInvoice m s.moves) : t.InvoicePosted := by
  intro o'' i ho'' hi
  obtain rfl : o'' = o' := Option.some.inj (ho''.symm.trans ho')
  rw [hid] at hi
  obtain ⟨m₀, hm₀, -⟩ := hs o i ho hi
  have hinv : s.invoice? o = some m₀ := invoice?_eq_some_iff.mpr ⟨i, hi, hm₀⟩
  obtain ⟨m', rfl⟩ : ∃ m', m = some m' := Option.isSome_iff_exists.mp (by rw [hsome, hinv]; rfl)
  have hlt : i < s.moves.length := (List.getElem?_eq_some_iff.mp hm₀).1
  refine ⟨m', ?_, hp m' rfl⟩
  rw [hmoves]
  simp [Order.putInvoice, hi, hlt]

theorem OrderSlice.InvoicePosted.invoice? (hs : s.InvoicePosted) (ho : s.order = some o)
    {m : Move} (hm : s.invoice? o = some m) : m.state = .posted := by
  obtain ⟨i, hi, hm⟩ := invoice?_eq_some_iff.mp hm
  obtain ⟨m', hm', hp⟩ := hs o i ho hi
  obtain rfl : m = m' := Option.some.inj (hm.symm.trans hm')
  exact hp

theorem Updates.invoicePosted {kw : UpdateKwargs} {accepted : Bool} (ho : s.order = some o)
    (hs : s.InvoicePosted)
    (hu : accepted = true ∨ ¬ kw.Interrupts st ac o (s.invoice? o))
    (h : Updates st ac kw s o accepted t) : t.InvoicePosted := by
  have hsame : t.moves = s.moves → t.InvoicePosted := by
    intro hmoves o'' i ho'' hi
    obtain ⟨o', ho', _, _, _, rfl⟩ := h.order ho
    obtain rfl : o'' = _ := Option.some.inj (ho''.symm.trans ho')
    rw [hmoves]
    exact hs o i ho hi
  have hid : ∀ p fees discount,
      ((o.withFees p fees).withDiscount fees discount).invoiceId = o.invoiceId :=
    fun p fees _ => o.withFees_invoiceId p fees
  cases h with
  | refused | lineCreated | queued | stored => exact hsame rfl
  | feesInterrupted fees p m cs he hr =>
      obtain rfl : m = s.invoice? o := by
        by_contra hm
        exact hu.elim (by simp) fun hu => hu (.fees fees p m he hr hm)
      exact putInvoice_posted ho hs rfl (fun m' hm => hs.invoice? ho hm)
        (o.withFees_invoiceId p fees) rfl rfl
  | discountClosed fees discount p m he hr
  | feesRebuilt fees p m he hr =>
      exact putInvoice_posted ho hs (rebuild_isSome (.inl hr)) ((rebuild_cases (.inl hr)).2 hr)
        (o.withFees_invoiceId p fees) rfl rfl
  | discountInterrupted fees discount p m m' cs he hr hx hc hr' =>
      obtain rfl : m' = m := by
        by_contra hm
        exact hu.elim (by simp) fun hu => hu (.discount fees discount p m m' he hr hx hc hr' hm)
      exact putInvoice_posted ho hs (rebuild_isSome (.inl hr)) ((rebuild_cases (.inl hr)).2 hr)
        (hid p fees discount) rfl rfl
  | discountRebuilt fees discount p m m' he hr hx hc hr' =>
      exact putInvoice_posted ho hs
        ((rebuild_isSome (.inl hr')).trans (rebuild_isSome (.inl hr)))
        ((rebuild_cases (.inl hr')).2 hr') (hid p fees discount) rfl rfl

/-- Only an update request that is refused half way takes the posting back. -/
theorem Steps.invoicePosted {e : Event} {out : Outcome} (hs : s.InvoicePosted)
    (hu : ∀ kw o, e.update? = some kw → s.order = some o →
      out.isSuccess = true ∨ ¬ kw.Interrupts st ac o (s.invoice? o))
    (h : Steps st ac orderId s e out t) : t.InvoicePosted := by
  have hbase : ∀ {r : OrderSlice}, r.order = s.order → r.moves = s.moves → r.InvoicePosted :=
    fun ho hm o i ho' hi => hm ▸ hs o i (ho ▸ ho') hi
  cases h with
  | ignored => exact hs
  | raised _ c base t' _ hc =>
      obtain ⟨ho, hm, -⟩ := Event.call?_records hc
      exact hbase (r := base.rollback t') ho hm
  | vacuous _ c _ hc =>
      obtain ⟨ho, hm, -⟩ := Event.call?_records hc
      exact hbase ho hm
  | returned _ c base o _ hc ho h =>
      obtain ⟨ho', hm, -⟩ := Event.call?_records hc
      exact h.invoicePosted ho (hbase ho' hm)
  | request r _ _ h =>
      cases h with
      | refused | delivered | collected => exact hs
      | created =>
          intro o i ho hi
          cases ho
          cases hi
      | updated kw o _ _ ho h => exact h.invoicePosted ho hs (hu kw o rfl ho)
      | picked driverId o _ _ ho | halfPicked driverId o _ _ ho =>
          intro o' i ho' hi
          cases ho'
          exact hs o i ho hi

end Fastrak
