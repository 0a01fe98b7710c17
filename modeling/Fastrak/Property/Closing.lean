import Fastrak.Order.Ledger
import Mathlib.Data.List.Count

/-!
# Closed orders

An order is closed by a button, and no job that is run later looks at its status. So
it stays as it was closed when nothing is pending at that moment that could still
write to it, and when no pickup or delivery request follows that could.
-/

namespace Fastrak

open Transaction Run

variable {st : Settings} {ac : Accounting} {orderId : String} {s t : OrderSlice} {o o' : Order}

/-! ## Closing -/

/-- The order is canceled, refunded or audited. -/
def Order.isClosed (o : Order) : Bool :=
  o.orderStatus = .canceled ∨ o.orderStatus = .refund ∨ o.orderStatus = .audited

/-- The buttons that close an order. -/
def Button.closes : Button → Bool
  | .cancelBillLoading | .refundBillLoading | .auditedBillOfLoading => true
  | _ => false

/-- The job cannot write to the status, the trips or the accounting of the order. -/
def Job.idle (o : Order) : Job → Bool
  | .write _ => true
  | .writeTrips _ => o.orderDeliveryStatus = some .delivered
  | .createMoneyCollectionEntry _ => o.moneyCollectionEntry ≠ none
  | _ => false

theorem Job.idle_mono {job : Job}
    (hd : o.orderDeliveryStatus = some .delivered → o'.orderDeliveryStatus = some .delivered)
    (hm : o.moneyCollectionEntry ≠ none → o'.moneyCollectionEntry ≠ none)
    (h : job.idle o) : job.idle o' := by
  cases job with
  | write => rfl
  | writeTrips => simpa [Job.idle] using hd (by simpa [Job.idle] using h)
  | createMoneyCollectionEntry => simpa [Job.idle] using hm (by simpa [Job.idle] using h)
  | _ => cases h

/-- A pickup, delivery or money collection request, or a job. -/
def Event.isFlow : Event → Bool
  | .request (.pickup _) | .request (.delivery _) | .request (.moneyCollection _) => true
  | .job _ => true
  | _ => false

/-- Buttons are pressed only where the form view shows them. -/
def PressedWhereShown (s : OrderSlice) : Event → Prop
  | .button b => ∀ o ∈ s.order, b.shown o
  | _ => True

instance (s : OrderSlice) (e : Event) : Decidable (PressedWhereShown s e) := by
  unfold PressedWhereShown
  split <;> infer_instance

/-- An order is closed only when every pending job is idle, and afterwards no pickup
request passes its guards and no delivery request is made, except that of an order
paid on pickup that has been delivered. -/
structure ClosesCleanly (st : Settings) (orderId : String) (s : OrderSlice) (e : Event) :
    Prop where
  idle : ∀ b o, e = .button b → b.closes → s.order = some o → ∀ job ∈ s.jobs, job.idle o
  pickup : ∀ driverId o, e = .request (.pickup (some driverId)) → s.order = some o →
    o.isClosed → ¬ PickupPasses st orderId driverId o
  delivery : ∀ driverId o, e = .request (.delivery (some driverId)) → s.order = some o →
    o.isClosed → st.driver? driverId ≠ none →
      o.paymentMethod = .onPickup ∧ o.orderDeliveryStatus = some .delivered

theorem ClosesCleanly.of_idle {e : Event}
    (hj : (∀ b, e ≠ .button b) ∨ ∀ o ∈ s.order, ∀ job ∈ s.jobs, job.idle o)
    (hr : (∀ r, e ≠ .request r) ∨ ∀ o ∈ s.order, o.isClosed = false) :
    ClosesCleanly st orderId s e where
  idle b o he _ ho := hj.elim (fun hj => absurd he (hj b)) fun hj => hj o ho
  pickup driverId o he ho hcl := by
    rcases hr with hr | hr
    · exact absurd he (hr _)
    · simp [hr o ho] at hcl
  delivery driverId o he ho hcl := by
    rcases hr with hr | hr
    · exact absurd he (hr _)
    · simp [hr o ho] at hcl

/-- On a closed order a request or a job leaves the status, the trips, the moves and
the payments as they are. -/
def StaysClosed (st : Settings) (ac : Accounting) (orderId : String) (s : OrderSlice)
    (e : Event) : Prop :=
  e.isFlow → ∀ o, s.order = some o → o.isClosed →
    ∃ o', (step st ac orderId s e).order = some o' ∧ o'.orderStatus = o.orderStatus ∧
      o'.tripsIds = o.tripsIds ∧ (step st ac orderId s e).moves = s.moves ∧
      (step st ac orderId s e).payments = s.payments

/-! ## Steps on a closed order -/

/-- What a step leaves of a closed order. -/
structure Rests (e : Event) (s t : OrderSlice) (o o' : Order) : Prop where
  orderStatus : o'.orderStatus = o.orderStatus
  idle : ∀ job : Job, job.idle o → job.idle o'
  jobs : ∀ job ∈ t.jobs, job ∈ s.jobs ∨ job.idle o
  flow : e.isFlow → o'.tripsIds = o.tripsIds ∧ t.moves = s.moves ∧ t.payments = s.payments

theorem Serves.rests {r : Request} {response : Response} (ho : s.order = some o)
    (hcl : o.isClosed) (hcond : ClosesCleanly st orderId s (.request r))
    (h : Serves st ac orderId s r response t) :
    ∃ o', t.order = some o' ∧ Rests (.request r) s t o o' := by
  cases h with
  | refused => exact ⟨o, ho, rfl, fun _ => id, fun _ => .inl, fun _ => ⟨rfl, rfl, rfl⟩⟩
  | created _ _ _ _ hn => simp [hn] at ho
  | updated kw o₁ response _ ho₁ h =>
      obtain rfl : o₁ = o := Option.some.inj (ho₁.symm.trans ho)
      obtain ⟨o', ho', _, _, _, rfl⟩ := h.order ho
      refine ⟨_, ho', rfl, fun _ => Job.idle_mono id id, fun job hj => ?_,
        fun hflow => by cases hflow⟩
      rw [h.jobs] at hj
      split at hj
      · rcases List.mem_append.mp hj with hj | hj
        · exact .inl hj
        · obtain rfl : job = _ := by simpa using hj
          exact .inr rfl
      · exact .inl hj
  | picked driverId o₁ _ _ ho₁ hk | halfPicked driverId o₁ _ _ ho₁ hk =>
      obtain rfl : o₁ = o := Option.some.inj (ho₁.symm.trans ho)
      exact absurd hk (hcond.pickup driverId o₁ rfl ho hcl)
  | delivered driverId o₁ _ _ ho₁ hv =>
      obtain rfl : o₁ = o := Option.some.inj (ho₁.symm.trans ho)
      obtain ⟨hpm, hd⟩ := hcond.delivery driverId o₁ rfl ho hcl hv
      refine ⟨o₁, ho, rfl, fun _ => id, fun job hj => ?_, fun _ => ⟨rfl, rfl, rfl⟩⟩
      rcases List.mem_append.mp hj with hj | hj
      · exact .inl hj
      · obtain rfl : job = _ := by simpa [deliveryJobs, hpm] using hj
        exact .inr (by simp [Job.idle, hd])
  | collected _ o₁ _ _ ho₁ hs =>
      obtain rfl : o₁ = o := Option.some.inj (ho₁.symm.trans ho)
      simp [Order.isClosed, hs] at hcl

/-- A call that neither gives a status nor creates trips. -/
theorem Call.Effect.rests {c : Call} {e : Event} {base : OrderSlice} (ho : base.order = some o)
    (hjobs : ∀ job ∈ base.jobs, job ∈ s.jobs) (hst : c.newStatus = none)
    (htrips : ∀ trips, c ≠ .createTrips trips) (hflow : ¬ e.isFlow)
    (h : c.Effect st ac base o t) : ∃ o', t.order = some o' ∧ Rests e s t o o' := by
  obtain ⟨o', ho', hk⟩ := h.keeps ho
  have hd := congrArg Tracking.orderDeliveryStatus (hk.tracking htrips)
  refine ⟨o', ho', ?_, fun _ => Job.idle_mono (fun h => hd.trans h) fun hm => ?_,
    fun job hj => .inl (hjobs job (h.jobs ▸ hj)), fun h => absurd h hflow⟩
  · rw [hk.orderStatus, hst]
    rfl
  · rwa [h.moneyCollectionEntry ho hm ho']

/-- What the form view shows on a closed order closes nothing. -/
theorem Button.eq_of_shown_of_isClosed {b : Button} (hcl : o.isClosed) (h : b.shown o) :
    b = .createMoneyCollectionEntry := by
  cases b <;> simp_all [Button.shown, Order.isClosed]

/-- A job that is idle on the order leaves it and its records as they are. -/
theorem Call.Effect.rests_of_idle {i : ℕ} {job : Job} (ho : s.order = some o) (hq : s.Queued)
    (hj : s.jobs[i]? = some job) (hidle : job.idle o)
    (h : job.call.Effect st ac (s.dropJob i) o t) :
    ∃ o', t.order = some o' ∧ Rests (.job i) s t o o' := by
  have hmem : job ∈ s.jobs := List.mem_of_getElem? hj
  have hjobs : ∀ job ∈ t.jobs, job ∈ s.jobs ∨ job.idle o :=
    fun _ hm => .inl (List.mem_of_mem_eraseIdx (h.jobs ▸ hm))
  cases job with
  | write d =>
      obtain rfl := h
      exact ⟨_, rfl, rfl, fun _ => Job.idle_mono id id, hjobs, fun _ => ⟨rfl, rfl, rfl⟩⟩
  | writeTrips trips =>
      -- the order has been delivered, so that the trip is refused
      obtain ⟨driverId, rfl⟩ := hq.writeTrips trips hmem
      have hd : o.orderDeliveryStatus = some .delivered := by simpa [Job.idle] using hidle
      cases h with
      | picked trip _ _ hd' => simp [hd] at hd'
      | delivered trip _ _ hd' => simp [hd] at hd'
      | other h => simp at h
  | createMoneyCollectionEntry raiseException =>
      have hmc : o.moneyCollectionEntry ≠ none := by simpa [Job.idle] using hidle
      cases h with
      | booked _ _ hu => exact absurd hu hmc
      | free => exact ⟨o, ho, rfl, fun _ => id, hjobs, fun _ => ⟨rfl, rfl, rfl⟩⟩
  | _ => cases hidle

/-- Trips that the form adds can move the delivery on, nothing else. -/
theorem Call.Effect.rests_of_createTrips {trips : List Trip}
    (h : (Call.createTrips trips).Effect st ac s o t) :
    ∃ o', t.order = some o' ∧ Rests (.addTrips trips) s t o o' := by
  have hjobs : ∀ job ∈ t.jobs, job ∈ s.jobs ∨ job.idle o := fun _ hj => .inl (h.jobs ▸ hj)
  have hflow : ¬ (Event.addTrips trips).isFlow := by simp [Event.isFlow]
  cases h with
  | picked trip _ _ hd =>
      exact ⟨_, rfl, rfl, fun _ => Job.idle_mono (by simp [hd]) id, hjobs,
        fun h => absurd h hflow⟩
  | delivered =>
      exact ⟨_, rfl, rfl, fun _ => Job.idle_mono (fun _ => rfl) id, hjobs,
        fun h => absurd h hflow⟩
  | other =>
      exact ⟨_, rfl, rfl, fun _ => Job.idle_mono id id, hjobs, fun h => absurd h hflow⟩

theorem Steps.rests {e : Event} {out : Outcome} (ho : s.order = some o) (hcl : o.isClosed)
    (hq : s.Queued) (hidle : ∀ job ∈ s.jobs, job.idle o) (hshown : PressedWhereShown s e)
    (hcond : ClosesCleanly st orderId s e) (h : Steps st ac orderId s e out t) :
    ∃ o', t.order = some o' ∧ Rests e s t o o' := by
  cases h with
  | request r _ _ h => exact h.rests ho hcl hcond
  | ignored => exact ⟨o, ho, rfl, fun _ => id, fun _ => .inl, fun _ => ⟨rfl, rfl, rfl⟩⟩
  | raised _ c base _ _ hc =>
      obtain ⟨ho', hm, hp, -, hj⟩ := Event.call?_records hc
      exact ⟨o, ho'.trans ho, rfl, fun _ => id, fun job h => .inl (hj job h),
        fun _ => ⟨rfl, hm, hp⟩⟩
  | vacuous _ c _ hc hn => simp [(Event.call?_records hc).1, ho] at hn
  | returned _ c base o₁ _ hc ho₁ h =>
      obtain ⟨ho', -, -, -, hj⟩ := Event.call?_records hc
      obtain rfl : o₁ = o := Option.some.inj (ho₁.symm.trans (ho'.trans ho))
      cases e with
      | request => simp [Event.call?] at hc
      | job i =>
          obtain ⟨job, hji, rfl, rfl⟩ := Event.call?_job.mp hc
          exact h.rests_of_idle ho hq hji (hidle job (List.mem_of_getElem? hji))
      | button b =>
          obtain rfl := Button.eq_of_shown_of_isClosed hcl (hshown o₁ ho)
          obtain ⟨rfl, rfl⟩ : Call.createMoneyCollectionEntry true = c ∧ s = base := by
            simpa [Event.call?, Button.call] using hc
          exact Call.Effect.rests ho hj rfl (by simp) (by simp [Event.isFlow]) h
      | addTrips trips =>
          obtain ⟨rfl, rfl⟩ : Call.createTrips trips = c ∧ s = base := by
            simpa [Event.call?] using hc
          exact h.rests_of_createTrips
      | _ =>
          obtain ⟨rfl, rfl⟩ := by simpa [Event.call?] using hc
          exact Call.Effect.rests ho hj rfl (by simp) (by simp [Event.isFlow]) h

/-! ## Refunds -/

/-- The number of credit notes made for the order. -/
def OrderSlice.refunds (s : OrderSlice) : ℕ := s.moveTypes.count .outRefund

theorem OrderSlice.refunds_append {l : List MoveType} (h : t.moveTypes = s.moveTypes ++ l) :
    t.refunds = s.refunds + l.count .outRefund := by
  rw [refunds, h, List.count_append, refunds]

theorem OrderSlice.refunds_of_moves (h : t.moves = s.moves) : t.refunds = s.refunds := by
  rw [refunds, OrderSlice.moveTypes_of_eq h, refunds]

theorem Refunds.refunds_le (h : Refunds ac s o t) : t.refunds ≤ s.refunds + 1 := by
  cases h with
  | unbilled => exact (OrderSlice.refunds_of_moves rfl).le.trans (Nat.le_succ _)
  | reversed i m note =>
      let f := Move.reverse ac ∘ Move.setRefundReason o.refundReasonComment
      have hf : ∀ m, (f m).moveType = m.moveType := fun _ => rfl
      have hmap := Table.map_modify_of_eq hf s.moves i
      simp only [OrderSlice.refunds, OrderSlice.moveTypes, List.map_append, List.count_append]
      rw [hmap]
      exact Nat.add_le_add_left List.count_le_length _

/-- A call that closes is made by a button that closes. -/
theorem Event.button_of_call {e : Event} {c : Call} {base : OrderSlice}
    (hc : e.call? s = some (c, base)) {status : OrderStatus} (hst : c.newStatus = some status)
    (hcl : status ≠ .done ∧ status ≠ .draft) :
    ∃ b : Button, e = .button b ∧ b.closes ∧ b.call = c ∧ base = s := by
  cases e with
  | request => simp [Event.call?] at hc
  | job i =>
      obtain ⟨job, -, rfl, -⟩ := Event.call?_job.mp hc
      cases job with
      | confirmBillLoading => exact absurd (Option.some.inj hst).symm hcl.1
      | _ => cases hst
  | button b =>
      obtain ⟨rfl, rfl⟩ : b.call = c ∧ s = base := by simpa [Event.call?] using hc
      refine ⟨b, rfl, ?_, rfl, rfl⟩
      cases b with
      | cancelBillLoading | refundBillLoading | auditedBillOfLoading => rfl
      | confirmBillLoading => exact absurd (Option.some.inj hst).symm hcl.1
      | resetToDraft => exact absurd (Option.some.inj hst).symm hcl.2
      | _ => cases hst
  | _ =>
      obtain ⟨rfl, -⟩ := by simpa [Event.call?] using hc
      cases hst

/-- Only the refund button makes a credit note, and it makes one. -/
theorem Steps.refunds {e : Event} {out : Outcome} (h : Steps st ac orderId s e out t) :
    t.refunds = s.refunds ∨
      e = .button .refundBillLoading ∧ t.refunds ≤ s.refunds + 1 ∧
        ∃ o', t.order = some o' ∧ o'.orderStatus = .refund := by
  cases h with
  | request r _ _ h => exact .inl (by rw [OrderSlice.refunds, h.moveTypes, OrderSlice.refunds])
  | ignored => exact .inl rfl
  | raised _ c base _ _ hc | vacuous _ c _ hc =>
      exact .inl (OrderSlice.refunds_of_moves (Event.call?_records hc).2.1)
  | returned _ c base o _ hc ho h =>
      have hbase : base.refunds = s.refunds :=
        OrderSlice.refunds_of_moves (Event.call?_records hc).2.1
      by_cases hr : c = .refundBillLoading
      · subst hr
        have hnew : Call.newStatus .refundBillLoading = some .refund := rfl
        obtain ⟨b, rfl, hb, hcall, -⟩ := Event.button_of_call hc hnew (by simp)
        obtain ⟨o', ho', hk⟩ := h.keeps ho
        refine .inr ⟨?_, (Refunds.refunds_le h).trans (by rw [hbase]), o', ho', hk.orderStatus⟩
        cases b <;> simp_all [Button.call]
      · obtain ⟨l, hl, -, hnot⟩ := h.moveTypes
        refine .inl ?_
        rw [OrderSlice.refunds_append hl, List.count_eq_zero_of_not_mem (hnot hr), hbase,
          Nat.add_zero]

/-! ## The invariant -/

/-- A closed order has only idle jobs, and an order that has been refunded is closed. -/
structure OrderSlice.Closes (s : OrderSlice) : Prop where
  queued : s.Queued
  idle : ∀ o, s.order = some o → o.isClosed → ∀ job ∈ s.jobs, job.idle o
  refunds_le_one : s.refunds ≤ 1
  refunded : s.refunds ≠ 0 → ∃ o, s.order = some o ∧ o.isClosed

theorem OrderSlice.IsNew.closes (h : s.IsNew) : s.Closes where
  queued := h.queued
  idle := by simp [h.jobs]
  refunds_le_one := by simp [OrderSlice.refunds, OrderSlice.moveTypes, h.moves]
  refunded := by simp [OrderSlice.refunds, OrderSlice.moveTypes, h.moves]

/-- Only a button closes an order, and it leaves the jobs as they were. -/
theorem Steps.closing {e : Event} {out : Outcome} (ho : s.order = some o)
    (hopen : ¬ o.isClosed) (ho' : t.order = some o') (hcl : o'.isClosed)
    (h : Steps st ac orderId s e out t) :
    ∃ b : Button, e = .button b ∧ b.closes ∧ t.jobs = s.jobs ∧
      ∀ job : Job, job.idle o → job.idle o' := by
  have hsame : o'.orderStatus = o.orderStatus → False := by
    intro hst
    rw [Order.isClosed, hst] at hcl
    exact hopen hcl
  cases h with
  | ignored => exact (hsame (by rw [Option.some.inj (ho.symm.trans ho')])).elim
  | raised _ c base _ _ hc | vacuous _ c _ hc =>
      have ho'' : s.order = some o' := (Event.call?_records hc).1.symm.trans ho'
      exact (hsame (by rw [Option.some.inj (ho''.symm.trans ho)])).elim
  | request r _ _ h =>
      obtain ⟨o'', ho'', hk⟩ := h.keeps ho
      obtain rfl : o'' = o' := Option.some.inj (ho''.symm.trans ho')
      by_cases hr : ∃ driverId, r = .pickup driverId
      · obtain ⟨driverId, rfl⟩ := hr
        cases h with
        | refused => exact (hsame (by rw [Option.some.inj (ho.symm.trans ho')])).elim
        | picked | halfPicked =>
            cases ho'
            simp [Order.isClosed, Order.picked, Order.halfPicked, Order.setStatus,
              Order.addTrips, Order.setDeliveryStatus] at hcl
      · exact (hsame (hk.orderStatus fun d hd => hr ⟨d, hd⟩)).elim
  | returned _ c base o₁ _ hc ho₁ h =>
      obtain rfl : o₁ = o :=
        Option.some.inj (ho₁.symm.trans ((Event.call?_records hc).1.trans ho))
      obtain ⟨o'', ho'', hk⟩ := h.keeps ho₁
      obtain rfl : o'' = o' := Option.some.inj (ho''.symm.trans ho')
      have hst := hk.orderStatus
      cases hnew : c.newStatus with
      | none =>
          rw [hnew] at hst
          exact (hsame hst).elim
      | some status =>
          obtain rfl : o''.orderStatus = status := by rw [hst, hnew]; rfl
          obtain ⟨b, rfl, hb, rfl, rfl⟩ := Event.button_of_call hc hnew (by
            constructor <;> intro hst' <;> simp [Order.isClosed, hst'] at hcl)
          refine ⟨b, rfl, hb, h.jobs, fun job => Job.idle_mono ?_ fun hm => ?_⟩
          · have hd := congrArg Tracking.orderDeliveryStatus
              (hk.tracking (by cases b <;> simp [Button.call]))
            exact fun h => hd.trans h
          · rwa [h.moneyCollectionEntry ho₁ hm ho']

theorem step_closes (orderId : String) (s : OrderSlice) (e : Event) (hs : s.Closes)
    (hshown : PressedWhereShown s e) (hcond : ClosesCleanly st orderId s e) :
    (step st ac orderId s e).Closes := by
  have h := perform_steps st ac orderId e s
  cases ho : s.order with
  | none =>
      have hzero : (step st ac orderId s e).refunds = 0 := by
        have hs0 : s.refunds = 0 := by
          by_contra hne
          obtain ⟨o, ho', -⟩ := hs.refunded hne
          simp [ho] at ho'
        rcases h.refunds with heq | ⟨rfl, -, o', ho', hst⟩
        · exact heq.trans hs0
        · rcases h.order_of_none ho with hn | ⟨_, _, he, -⟩
          · simp [hn] at ho'
          · cases he
      refine ⟨step_queued orderId s e hs.queued, fun o' ho' hcl job hj => ?_, by simp [hzero],
        fun hne => absurd hzero hne⟩
      have hjobs : (step st ac orderId s e).jobs = [] :=
        h.jobs_of_none ho (hs.queued.free ho)
      simp [hjobs] at hj
  | some o =>
      by_cases hcl : o.isClosed
      · obtain ⟨o', ho', hr⟩ := h.rests ho hcl hs.queued (hs.idle o ho hcl) hshown hcond
        have hcl' : o'.isClosed := by rwa [Order.isClosed, hr.orderStatus]
        have href : (step st ac orderId s e).refunds = s.refunds := by
          rcases h.refunds with heq | ⟨rfl, -⟩
          · exact heq
          · cases Button.eq_of_shown_of_isClosed hcl (hshown o ho)
        refine ⟨step_queued orderId s e hs.queued, fun o'' ho'' _ job hj => ?_,
          href ▸ hs.refunds_le_one, fun _ => ⟨o', ho', hcl'⟩⟩
        obtain rfl : o'' = o' := Option.some.inj (ho''.symm.trans ho')
        exact hr.idle job ((hr.jobs job hj).elim (hs.idle o ho hcl job) id)
      · have hs0 : s.refunds = 0 := by
          by_contra hne
          obtain ⟨o₁, ho₁, hcl₁⟩ := hs.refunded hne
          exact hcl (Option.some.inj (ho₁.symm.trans ho) ▸ hcl₁)
        refine ⟨step_queued orderId s e hs.queued, fun o' ho' hcl' job hj => ?_, ?_, ?_⟩
        · obtain ⟨b, rfl, hb, hjobs, hidle⟩ := h.closing ho hcl ho' hcl'
          exact hidle job (hcond.idle b o rfl hb ho job (hjobs ▸ hj))
        · rcases h.refunds with heq | ⟨-, hle, -⟩
          · exact heq.le.trans (hs0.le.trans zero_le_one)
          · exact hle.trans (by rw [hs0])
        · intro hne
          rcases h.refunds with heq | ⟨-, -, o', ho', hst⟩
          · exact absurd (heq.trans hs0) hne
          · exact ⟨o', ho', by simp [Order.isClosed, hst]⟩

theorem step_staysClosed (orderId : String) (s : OrderSlice) (e : Event) (hs : s.Closes)
    (hshown : PressedWhereShown s e) (hcond : ClosesCleanly st orderId s e) :
    StaysClosed st ac orderId s e := by
  intro hflow o ho hcl
  obtain ⟨o', ho', hr⟩ := (perform_steps st ac orderId e s).rests ho hcl hs.queued
    (hs.idle o ho hcl) hshown hcond
  exact ⟨o', ho', hr.orderStatus, hr.flow hflow⟩

/-! ## Runs -/

variable {db : Database} {es : List (String × Event)} {id : String}

/-- In a run in which orders are closed cleanly, no pickup, delivery or money
collection request and no job does anything to a closed order but write its terms, and
an invoice is reversed at most once. -/
theorem closed_orders_stay_closed (st : Settings) (ac : Accounting) (hdb : (db id).IsNew)
    (hm : Meets (dbStep st ac)
      (addressedTo id fun s e => PressedWhereShown s e ∧ ClosesCleanly st id s e) db es) :
    Meets (dbStep st ac) (addressedTo id (StaysClosed st ac id)) db es ∧
      (run (dbStep st ac) db es id).refunds ≤ 1 :=
  ⟨family_meets (I := OrderSlice.Closes)
    (fun s e hs hC => step_closes id s e hs hC.1 hC.2)
    (fun s e hs hC => step_staysClosed id s e hs hC.1 hC.2) hdb.closes hm,
  (family_invariant (I := OrderSlice.Closes)
    (fun s e hs hC => step_closes id s e hs hC.1 hC.2) hdb.closes hm).refunds_le_one⟩

/-- The run of an order that is billed, delivered and audited while the deferred write of
an update is pending. -/
theorem closed_orders_stay_closed_of_audited :
    Meets (dbStep .sample .sample) (addressedTo "A" (StaysClosed .sample .sample "A"))
      Database.empty
      [("A", sampleCreate .onDelivery), ("A", .request (.pickup (some 7))),
       ("A", .request (.delivery (some 7))), ("A", .job 0), ("A", .job 0),
       ("A", .request (.update { pickupAddress := some "Cairo" })),
       ("A", .button .auditedBillOfLoading), ("A", .job 0)] := by
  refine (closed_orders_stay_closed .sample .sample (Database.empty_isNew "A") ?_).1
  have hrequest : ∀ (s : OrderSlice) (r : Request), (∀ o ∈ s.order, o.isClosed = false) →
      "A" = "A" → PressedWhereShown s (.request r) ∧ ClosesCleanly .sample "A" s (.request r) :=
    fun s r ho _ => ⟨True.intro, .of_idle (.inl (by simp)) (.inr ho)⟩
  have hjob : ∀ (s : OrderSlice) (i : ℕ),
      "A" = "A" → PressedWhereShown s (.job i) ∧ ClosesCleanly .sample "A" s (.job i) :=
    fun s i _ => ⟨True.intro, .of_idle (.inl (by simp)) (.inl (by simp))⟩
  have hbutton : ∀ (s : OrderSlice) (b : Button), (∀ o ∈ s.order, b.shown o) →
      (∀ o ∈ s.order, ∀ job ∈ s.jobs, job.idle o) →
        "A" = "A" → PressedWhereShown s (.button b) ∧ ClosesCleanly .sample "A" s (.button b) :=
    fun s b hshown hidle _ => ⟨hshown, .of_idle (.inr hidle) (.inl (by simp))⟩
  refine ⟨hrequest _ _ ?_, hrequest _ _ ?_, hrequest _ _ ?_, hjob _ _, hjob _ _,
    hrequest _ _ ?_, hbutton _ _ ?_ ?_, hjob _ _, True.intro⟩ <;> decide +kernel

/-- The billing that a pickup has queued is run after the order has been refunded: the
order is confirmed again and gets an invoice. -/
theorem closed_order_is_confirmed :
    let es := [("A", sampleCreate .onPickup), ("A", .request (.pickup (some 7))),
      ("A", .editRefundReason "lost"), ("A", .button .refundBillLoading)] ++ [("A", .job 0)]
    Meets (dbStep .sample .sample) (addressedTo "A" PressedWhereShown) Database.empty es ∧
      ¬ Meets (dbStep .sample .sample) (addressedTo "A" (StaysClosed .sample .sample "A"))
        Database.empty es := by
  intro es
  refine ⟨by decide +kernel, fun h => ?_⟩
  obtain ⟨-, h, -⟩ := (meets_append_iff _ _ _).mp h
  have h := h rfl rfl
  generalize hs : run (dbStep .sample .sample) Database.empty _ "A" = s at h
  have hrun : s.order.map (·.orderStatus) = some .refund ∧
      (step .sample .sample "A" s (.job 0)).order.map (·.orderStatus) = some .done := by
    rw [← hs]
    decide +kernel
  obtain ⟨hrun, hrun'⟩ := hrun
  obtain ⟨o, ho, hst⟩ := Option.map_eq_some_iff.mp hrun
  obtain ⟨o', ho', hsame, -⟩ := h o ho (by simp [Order.isClosed, hst])
  rw [ho', Option.map_some, hsame, hst] at hrun'
  cases hrun'

end Fastrak
