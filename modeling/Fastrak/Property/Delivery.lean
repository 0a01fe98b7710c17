import Fastrak.Order.Ledger
import Fastrak.Property.TripAgreement

/-!
# A billed order is delivered

A delivery request queues the confirmation that bills the order and the delivery trip,
as two jobs. Of an order that is not paid on pickup nothing else queues a confirmation,
so that as long as the last of these trips is not written too early, the order is
delivered when it is billed, or the trip is queued.
-/

namespace Fastrak

open Transaction Run Tracking

variable {st : Settings} {ac : Accounting} {orderId : String} {s t : OrderSlice} {o o' : Order}

/-! ## The invariant -/

namespace OrderSlice

/-- An order with an invoice and no pending job has been picked up and delivered. -/
def BilledDelivered (s : OrderSlice) : Prop :=
  ∀ o, s.order = some o → s.jobs = [] → o.invoiceId ≠ none →
    o.tripsWith .picked ≠ [] ∧ o.tripsWith .delivered ≠ [] ∧
      o.orderDeliveryStatus = some .delivered

/-- The order is billed, or its billing is queued. -/
def Billing (s : OrderSlice) (o : Order) : Prop :=
  o.invoiceId ≠ none ∨ .confirmBillLoading ∈ s.jobs

/-- The order is delivered, or its delivery is queued. -/
def Delivering (s : OrderSlice) (o : Order) : Prop :=
  o.orderDeliveryStatus = some .delivered ∨ ∃ trips, .writeTrips trips ∈ s.jobs

/-- What is billed is delivered, or will be by a job that is queued. -/
structure Delivers (s : OrderSlice) : Prop where
  queued : s.Queued
  tripsAgree : s.TripsAgree
  delivering : ∀ o, s.order = some o → s.Billing o → s.Delivering o

/-- `payment_method` is `on_delivery` or `on_credit`. -/
def PaidLater (s : OrderSlice) : Prop :=
  ∀ o ∈ s.order, o.paymentMethod ≠ .onPickup

instance (s : OrderSlice) : Decidable s.PaidLater :=
  inferInstanceAs (Decidable (∀ o ∈ s.order, _))

end OrderSlice

/-- A delivery trip is not written before the pickup, unless another one is queued, or
the order is not billed and no billing is queued. -/
def DeliversInTime (s : OrderSlice) (e : Event) : Prop :=
  ∀ trips base o, e.call? s = some (.createTrips trips, base) → s.order = some o →
    o.orderDeliveryStatus = none → s.Billing o → ∃ trips', .writeTrips trips' ∈ base.jobs

theorem DeliversInTime.of_call {e : Event}
    (h : e.call? s = none ∨ ∀ o ∈ s.order, o.orderDeliveryStatus ≠ none) :
    DeliversInTime s e := by
  intro trips base o hc ho hd
  rcases h with h | h
  · simp [h] at hc
  · exact absurd hd (h o ho)

theorem OrderSlice.IsNew.delivers (h : s.IsNew) : s.Delivers where
  queued := h.queued
  tripsAgree := h.tripsAgree
  delivering o ho hb := by
    simp [Billing, (h.order o ho).invoiceId, h.jobs] at hb

theorem OrderSlice.Delivers.billedDelivered (h : s.Delivers) : s.BilledDelivered := by
  intro o ho hjobs hi
  have hd : o.orderDeliveryStatus = some .delivered := by
    rcases h.delivering o ho (.inl hi) with hd | ⟨trips, hm⟩
    · exact hd
    · simp [hjobs] at hm
  have hcount := (h.tripsAgree o ho).delivered_iff.mp hd
  simp only [Tracking.count, Order.tracking, List.countP_eq_length_filter] at hcount
  refine ⟨fun hp => ?_, fun hd' => ?_, hd⟩
  · have hp' := hcount.1
    rw [show o.tripsIds.filter _ = [] from hp] at hp'
    cases hp'
  · have hd'' := hcount.2
    rw [show o.tripsIds.filter _ = [] from hd'] at hd''
    cases hd''

theorem OrderSlice.Delivering.mono (hd : o.orderDeliveryStatus = some .delivered →
      o'.orderDeliveryStatus = some .delivered)
    (ht : ∀ trips, .writeTrips trips ∈ s.jobs → .writeTrips trips ∈ t.jobs)
    (h : s.Delivering o) : t.Delivering o' :=
  h.imp hd fun ⟨trips, hm⟩ => ⟨trips, ht trips hm⟩

/-! ## Steps -/

theorem Serves.delivering {r : Request} {response : Response} (ho : s.order = some o)
    (hs : s.Billing o → s.Delivering o) (hpm : o.paymentMethod ≠ .onPickup)
    (ho' : t.order = some o') (hb : t.Billing o')
    (h : Serves st ac orderId s r response t) : t.Delivering o' := by
  have hjobs := h.jobs ho
  have ht : ∀ trips, .writeTrips trips ∈ s.jobs → .writeTrips trips ∈ t.jobs :=
    fun trips hm => hjobs ▸ List.mem_append_left _ hm
  cases h with
  | refused =>
      obtain rfl : o = o' := by simpa [ho] using ho'
      exact hs hb
  | created _ _ _ _ hn => simp [hn] at ho
  | updated kw o₁ response _ ho₁ h =>
      obtain rfl : o₁ = o := by simpa [ho₁] using ho
      obtain ⟨o'', ho'', _, _, _, rfl⟩ := h.order ho
      obtain rfl : o' = _ := by simpa [ho'] using ho''
      have hb' : s.Billing o₁ := hb.imp_right fun hc => by
        rw [h.jobs] at hc
        split at hc <;> simpa using hc
      exact (hs hb').mono id ht
  | picked driverId o₁ _ _ ho₁ hn hd =>
      obtain rfl : o₁ = o := by simpa [ho₁] using ho
      cases ho'
      have hb' : s.Billing o₁ := hb.imp_right fun hc => by simpa [hpm] using hc
      exact (hs hb').mono (by simp [hd]) ht
  | halfPicked driverId o₁ _ _ ho₁ =>
      obtain rfl : o₁ = o := by simpa [ho₁] using ho
      cases ho'
      exact hs hb
  | delivered driverId =>
      exact .inr ⟨[{ driverId, tripStatus := some .delivered }], by simp [deliveryJobs]⟩
  | collected collectionType =>
      obtain rfl : o = o' := by simpa [ho] using ho'
      have hb' : s.Billing o := hb.imp_right fun hc => by
        cases collectionType <;> simpa [collectionJobs] using hc
      exact (hs hb').mono id ht

/-- A job other than a delivery trip leaves the order where it is. -/
theorem Call.Effect.delivering {i : ℕ} {job : Job} (hj : s.jobs[i]? = some job)
    (hq : s.Queued) (ho : s.order = some o) (hs : s.Billing o → s.Delivering o)
    (ho' : t.order = some o') (hb : t.Billing o')
    (h : job.call.Effect st ac (s.dropJob i) o t) : t.Delivering o' := by
  have hjobs : t.jobs = s.jobs.eraseIdx i := h.jobs
  have hmem : job ∈ s.jobs := List.mem_of_getElem? hj
  by_cases hw : ∃ trips, job = .writeTrips trips
  · obtain ⟨trips, rfl⟩ := hw
    obtain ⟨driverId, rfl⟩ := hq.writeTrips trips hmem
    cases h with
    | picked trip h hp => simp [← (List.cons.inj h).1] at hp
    | other h => simp at h
    | delivered =>
        cases ho'
        exact .inl rfl
  · obtain ⟨o'', ho'', hk⟩ := h.keeps (s := s.dropJob i) ho
    obtain rfl : o' = o'' := by simpa [ho'] using ho''
    have hd := congrArg Tracking.orderDeliveryStatus
      (hk.tracking fun trips hc => hw ⟨trips, by cases job <;> simp_all [Job.call]⟩)
    have hb' : s.Billing o := by
      by_cases hc : job = .confirmBillLoading
      · exact .inr (hc ▸ hmem)
      · refine hb.imp (fun hi => ?_) fun hm => List.mem_of_mem_eraseIdx (hjobs ▸ hm)
        rwa [← hk.invoiceId fun hc' => hc (by cases job <;> simp_all [Job.call])]
    refine (hs hb').mono (fun h => hd.trans h) fun trips hm => ?_
    exact hjobs ▸ Table.mem_eraseIdx_of_ne hj (fun h => hw ⟨trips, h.symm⟩) hm

/-- A job that raises has left the queue, and nothing else has changed. -/
theorem Delivering.of_raised {i : ℕ} {job : Job} {message : String} {t' : OrderSlice}
    (hj : s.jobs[i]? = some job) (hs : s.Delivers) (ho : s.order = some o)
    (hcond : DeliversInTime s (.job i)) (hb : (s.dropJob i).Billing o)
    (h : (job.call.body st ac).run (s.dropJob i) = .error message t') :
    (s.dropJob i).Delivering o := by
  have hmem : job ∈ s.jobs := List.mem_of_getElem? hj
  have hb' : s.Billing o := hb.imp_right fun hc => List.mem_of_mem_eraseIdx hc
  by_cases hw : ∃ trips, job = .writeTrips trips
  · obtain ⟨trips, rfl⟩ := hw
    match hd : o.orderDeliveryStatus with
    | some .delivered => exact .inl hd
    | none =>
        refine .inr (hcond trips (s.dropJob i) o ?_ ho hd hb')
        simp [Event.call?, hj, Job.call]
    | some .picked =>
        obtain ⟨driverId, rfl⟩ := hs.queued.writeTrips trips hmem
        have hrun := createTrips_delivered_run (s := s.dropJob i)
          { driverId, tripStatus := some .delivered } ho rfl hd
        rw [Job.call, Call.body, hrun] at h
        cases h
  · refine (hs.delivering o ho hb').mono id fun trips hm => ?_
    exact Table.mem_eraseIdx_of_ne hj (fun h => hw ⟨trips, h.symm⟩) hm

theorem Steps.delivering {e : Event} {out : Outcome} (hs : s.Delivers) (hapi : e.isApi)
    (hpm : s.PaidLater) (hcond : DeliversInTime s e) (ho : s.order = some o)
    (ho' : t.order = some o') (hb : t.Billing o') (h : Steps st ac orderId s e out t) :
    t.Delivering o' := by
  have hs' := hs.delivering o ho
  cases h with
  | request r _ _ h => exact h.delivering ho hs' (hpm o ho) ho' hb
  | ignored =>
      obtain rfl : o = o' := Option.some.inj (ho.symm.trans ho')
      exact hs' hb
  | vacuous _ c _ hc hn => simp [(Event.call?_records hc).1, ho] at hn
  | raised _ c base t' _ hc h =>
      cases e with
      | job i =>
          obtain ⟨job, hj, rfl, rfl⟩ := Event.call?_job.mp hc
          obtain rfl : o = o' := Option.some.inj (ho.symm.trans ho')
          exact Delivering.of_raised hj hs ho hcond hb h
      | request => simp [Event.call?] at hc
      | _ => cases hapi
  | returned _ c base o₁ _ hc ho₁ h =>
      cases e with
      | job i =>
          obtain ⟨job, hj, rfl, rfl⟩ := Event.call?_job.mp hc
          obtain rfl : o₁ = o := Option.some.inj (ho₁.symm.trans ho)
          exact Call.Effect.delivering hj hs.queued ho hs' ho' hb h
      | request => simp [Event.call?] at hc
      | _ => cases hapi

theorem step_delivers (orderId : String) (s : OrderSlice) (e : Event) (hs : s.Delivers)
    (hapi : e.isApi) (hpm : s.PaidLater) (hcond : DeliversInTime s e) :
    (step st ac orderId s e).Delivers := by
  have h := perform_steps st ac orderId e s
  refine ⟨step_queued orderId s e hs.queued, step_tripsAgree orderId s e hs.tripsAgree,
    fun o' ho' hb => ?_⟩
  cases ho : s.order with
  | some o => exact h.delivering hs hapi hpm hcond ho ho' hb
  | none =>
      obtain ⟨kw, lines, rfl⟩ := h.newOrder_of_none ho ho'
      have hjobs : (step st ac orderId s e).jobs = [] :=
        h.jobs_of_none ho (hs.queued.free ho)
      simp [OrderSlice.Billing, hjobs, newOrder] at hb

/-! ## Runs -/

variable {db : Database} {es : List (String × Event)} {id : String}

/-- In a run of requests and jobs on an order that is not paid on pickup, in which its
delivery trips are written in time, the order is delivered when it is billed. -/
theorem billed_order_is_delivered (st : Settings) (ac : Accounting) (hdb : (db id).IsNew)
    (hm : Meets (dbStep st ac)
      (addressedTo id fun s e => e.isApi ∧ s.PaidLater ∧ DeliversInTime s e) db es) :
    (run (dbStep st ac) db es id).BilledDelivered :=
  (family_invariant (I := OrderSlice.Delivers)
    (fun s e hs hC => step_delivers id s e hs hC.1 hC.2.1 hC.2.2) hdb.delivers
    hm).billedDelivered

/-- The run of an order that is picked up and delivered. -/
theorem billed_order_is_delivered_on_delivery :
    (run (dbStep .sample .sample) Database.empty
      [("A", sampleCreate .onDelivery), ("A", .request (.pickup (some 7))),
       ("A", .request (.delivery (some 7))), ("A", .job 1), ("A", .job 0)]
      "A").BilledDelivered := by
  refine billed_order_is_delivered .sample .sample (Database.empty_isNew "A") ?_
  have hC : ∀ (s : OrderSlice) (e : Event), e.isApi → s.PaidLater →
      e.call? s = none ∨ (∀ o ∈ s.order, o.orderDeliveryStatus ≠ none) →
        "A" = "A" → e.isApi ∧ s.PaidLater ∧ DeliversInTime s e :=
    fun s e hapi hpm hd _ => ⟨hapi, hpm, .of_call hd⟩
  refine ⟨hC _ _ ?_ ?_ ?_, hC _ _ ?_ ?_ ?_, hC _ _ ?_ ?_ ?_, hC _ _ ?_ ?_ ?_, hC _ _ ?_ ?_ ?_,
    True.intro⟩ <;> decide +kernel

/-- A delivery request on an order that nobody has picked up: the job of the trip raises,
the job that bills does not. -/
theorem billed_order_is_not_delivered :
    let es := [("A", sampleCreate .onDelivery), ("A", .request (.delivery (some 7))),
      ("A", .job 1), ("A", .job 0)]
    Meets (dbStep .sample .sample) (addressedTo "A" fun s e => e.isApi ∧ s.PaidLater)
        Database.empty es ∧
      ¬ (run (dbStep .sample .sample) Database.empty es "A").BilledDelivered := by
  intro es
  refine ⟨by decide +kernel, fun h => ?_⟩
  generalize hs : run (dbStep .sample .sample) Database.empty es "A" = s at h
  have hrun : s.jobs = [] ∧ s.order.map (fun o => (o.orderDeliveryStatus, o.invoiceId)) =
      some (none, some 0) := by
    rw [← hs]
    decide +kernel
  obtain ⟨hjobs, hrun⟩ := hrun
  obtain ⟨o, ho, hfields⟩ := Option.map_eq_some_iff.mp hrun
  obtain ⟨hd, hi⟩ : o.orderDeliveryStatus = none ∧ o.invoiceId = some 0 := by
    simpa using hfields
  obtain ⟨-, -, hd'⟩ := h o ho hjobs (by simp [hi])
  simp [hd] at hd'

end Fastrak
