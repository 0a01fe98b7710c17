import Fastrak.Order.Computation

/-!
# Creating several trips at once

An order has to be picked up and then to be delivered. Trips that are created one by one are
accepted if their statuses are the next stages of the order. Created in one call the same trips
are read as one record, so that two trips or more always raise.
-/

namespace Fastrak

open Transaction

variable {s t : OrderSlice} {o : Order} {trip : Trip} {trips : List Trip}
  {status : Option DeliveryStatus}

/-! ## The stages of an order -/

/-- The stage that a trip brings the order to. -/
def Trip.stage (trip : Trip) : Option DeliveryStatus :=
  match trip.tripStatus with
  | some .picked => some .picked
  | some .delivered => some .delivered
  | _ => none

theorem Trip.stage_eq_none_iff : trip.stage = none ↔
    trip.tripStatus ≠ some .picked ∧ trip.tripStatus ≠ some .delivered := by
  unfold Trip.stage
  split <;> simp_all

theorem Trip.stage_eq_picked_iff : trip.stage = some .picked ↔
    trip.tripStatus = some .picked := by
  unfold Trip.stage
  split <;> simp_all

theorem Trip.stage_eq_delivered_iff : trip.stage = some .delivered ↔
    trip.tripStatus = some .delivered := by
  unfold Trip.stage
  split <;> simp_all

/-- The stages that an order has not come to. -/
def stagesAhead : Option DeliveryStatus → List DeliveryStatus
  | none => [.picked, .delivered]
  | some .picked => [.delivered]
  | some .delivered => []

/-- The trips bring the order to its next stages, one after the other. -/
def ComeNext (status : Option DeliveryStatus) (trips : List Trip) : Prop :=
  trips.filterMap Trip.stage <+: stagesAhead status

instance : Decidable (ComeNext status trips) := inferInstanceAs (Decidable (_ <+: _))

theorem comeNext_singleton_of_none (h : trip.stage = none) : ComeNext status [trip] := by
  simp [ComeNext, h]

theorem comeNext_singleton_iff {x : DeliveryStatus} (h : trip.stage = some x) :
    ComeNext status [trip] ↔ [x] <+: stagesAhead status := by
  simp [ComeNext, h]

theorem picked_next_iff : [.picked] <+: stagesAhead status ↔ status = none := by
  cases status with
  | none => decide
  | some status => cases status <;> decide

theorem delivered_next_iff : [.delivered] <+: stagesAhead status ↔ status = some .picked := by
  cases status with
  | none => decide
  | some status => cases status <;> decide

theorem cons_prefix_stagesAhead_iff {x : DeliveryStatus} {xs : List DeliveryStatus} :
    x :: xs <+: stagesAhead status ↔
      [x] <+: stagesAhead status ∧ xs <+: stagesAhead (some x) := by
  cases status with
  | none => cases x <;> simp [stagesAhead, List.cons_prefix_cons]
  | some status => cases status <;> cases x <;> simp [stagesAhead, List.cons_prefix_cons]

theorem comeNext_cons : ComeNext status (trip :: trips) ↔
    ComeNext status [trip] ∧ ComeNext (trip.stage <|> status) trips := by
  unfold ComeNext
  cases hstage : trip.stage with
  | none => simp [hstage]
  | some x =>
      simp only [List.filterMap_cons, hstage, List.filterMap_nil]
      exact cons_prefix_stagesAhead_iff

/-! ## One call for each trip -/

/-- `create` is called for one element after the other. -/
def createOneByOne (valsList : List Trip) : Tx Unit :=
  valsList.forM fun vals => createTrips [vals]

/-- The order with a trip that brings it to its next stage, if to any. -/
def Order.addTrip (o : Order) (trip : Trip) : Order :=
  { o.addTrips [trip] with orderDeliveryStatus := trip.stage <|> o.orderDeliveryStatus }

theorem Order.addTrip_of_stage {x : DeliveryStatus} (h : trip.stage = some x) :
    o.addTrip trip = (o.addTrips [trip]).setDeliveryStatus x := by
  rw [Order.addTrip, h]
  rfl

theorem Order.addTrip_of_stage_none (h : trip.stage = none) :
    o.addTrip trip = o.addTrips [trip] := by
  rw [Order.addTrip, h]
  rfl

/-- A trip of no stage is not looked at. -/
theorem createTrips_run_of_stage_none (ho : s.order = some o) (h : trip.stage = none) :
    (createTrips [trip]).run s = .ok () { s with order := some (o.addTrip trip) } := by
  obtain ⟨hp, hd⟩ := Trip.stage_eq_none_iff.mp h
  rw [createTrips, modifyOrder_bind_run, OrderSlice.mapOrder_eq_of_order ho,
    Order.addTrip_of_stage_none h]
  unfold checkTripStatus
  split
  · next hstatus => exact absurd hstatus hp
  · next hstatus => exact absurd hstatus hd
  · rfl

/-- A single trip is accepted if its stage is the next one. -/
theorem createTrip_run_ok_iff (ho : s.order = some o) :
    (createTrips [trip]).run s = .ok () t ↔
      ComeNext o.orderDeliveryStatus [trip] ∧ { s with order := some (o.addTrip trip) } = t := by
  constructor
  · intro h
    cases createTrips_run_ok ho h with
    | picked _ ht hp hd =>
        obtain rfl := List.singleton_inj.mp ht
        have hstage := Trip.stage_eq_picked_iff.mpr hp
        rw [comeNext_singleton_iff hstage, Order.addTrip_of_stage hstage]
        exact ⟨picked_next_iff.mpr hd, rfl⟩
    | delivered _ ht hp hd =>
        obtain rfl := List.singleton_inj.mp ht
        have hstage := Trip.stage_eq_delivered_iff.mpr hp
        rw [comeNext_singleton_iff hstage, Order.addTrip_of_stage hstage]
        exact ⟨delivered_next_iff.mpr hd, rfl⟩
    | other ht =>
        have hstage := Trip.stage_eq_none_iff.mpr (ht trip List.mem_cons_self)
        rw [Order.addTrip_of_stage_none hstage]
        exact ⟨comeNext_singleton_of_none hstage, rfl⟩
  · rintro ⟨hnext, rfl⟩
    cases hstage : trip.stage with
    | none => exact createTrips_run_of_stage_none ho hstage
    | some x =>
        rw [comeNext_singleton_iff hstage] at hnext
        rw [Order.addTrip_of_stage hstage]
        cases x with
        | picked =>
            exact createTrips_picked_run trip ho (Trip.stage_eq_picked_iff.mp hstage)
              (picked_next_iff.mp hnext)
        | delivered =>
            exact createTrips_delivered_run trip ho (Trip.stage_eq_delivered_iff.mp hstage)
              (delivered_next_iff.mp hnext)

/-- All the single calls succeed if the trips come next, and add them one after the other. -/
theorem createOneByOne_run_ok_iff (ho : s.order = some o) :
    (createOneByOne trips).run s = .ok () t ↔
      ComeNext o.orderDeliveryStatus trips ∧
        { s with order := some (trips.foldl Order.addTrip o) } = t := by
  induction trips generalizing s o with
  | nil =>
      have hnext : ComeNext o.orderDeliveryStatus [] := List.nil_prefix
      rw [and_iff_right hnext, List.foldl_nil, ← ho]
      exact ⟨fun h => (EStateM.Result.ok.inj h).2, fun h => h ▸ rfl⟩
  | cons trip trips ih =>
      change (createTrips [trip] >>= fun _ => createOneByOne trips).run s = _ ↔ _
      rw [run_bind_ok_iff, comeNext_cons, List.foldl_cons]
      constructor
      · rintro ⟨⟨⟩, r, htrip, htrips⟩
        obtain ⟨hnext, rfl⟩ := (createTrip_run_ok_iff ho).mp htrip
        obtain ⟨hrest, rfl⟩ := (ih rfl).mp htrips
        exact ⟨⟨hnext, hrest⟩, rfl⟩
      · rintro ⟨⟨hnext, hrest⟩, rfl⟩
        exact ⟨(), _, (createTrip_run_ok_iff ho).mpr ⟨hnext, rfl⟩, (ih rfl).mpr ⟨hrest, rfl⟩⟩

/-! ## One call for all trips -/

/-- The call with the list has the outcome of the single calls: what they make of the order when
all of them succeed, and an error that changes nothing when one of them fails. -/
structure SameAsOneByOne (s : OrderSlice) (valsList : List Trip) : Prop where
  succeeds : ∀ t, (createOneByOne valsList).run s = .ok () t →
    transact (createTrips valsList) s = (.done, t)
  fails : (∀ t, (createOneByOne valsList).run s ≠ .ok () t) →
    ∃ message, transact (createTrips valsList) s = (.raised message, s)

/-- A call that raises is rolled back, and has computed no invoice lines. -/
theorem transact_createTrips_of_not_ok (h : ∀ t, (createTrips trips).run s ≠ .ok () t) :
    ∃ message, transact (createTrips trips) s = (.raised message, s) := by
  unfold transact
  rcases atomic_cases OrderSlice.rollback (createTrips trips) s with
    ⟨⟨⟩, t, hrun, -⟩ | ⟨message, t, hrun, heq⟩
  · exact absurd hrun (h t)
  · have hframe : Uncomputed (createTrips trips) :=
      (admitsCalls_uncomputed.admitsWrites .sample).createTrips trips
    have hcomputed := hframe s
    rw [hrun] at hcomputed
    have hrollback : s.rollback t = s := by
      rw [OrderSlice.rollback, show t.computedFor = s.computedFor from hcomputed]
    rw [heq, hrollback]
    exact ⟨message, rfl⟩

theorem transact_of_run_ok {x : Tx Unit} (h : x.run s = .ok () t) :
    transact x s = (.done, t) := by
  rw [transact, atomic_of_run_ok h]

/-- Several trips are read as one record. -/
theorem createTrips_run_of_several (h : 1 < trips.length) :
    (createTrips trips).run s =
      .error "Expected singleton: bill.of.loading.trips" (s.mapOrder (Order.addTrips trips)) := by
  rcases trips with _ | ⟨trip, _ | ⟨trip', trips⟩⟩
  · exact absurd h (Nat.not_lt_zero 1)
  · exact absurd h (Nat.lt_irrefl 1)
  · rfl

/-- One trip at most is created by one call at most. -/
theorem createOneByOne_run_of_length_le_one (ho : s.order = some o) (h : trips.length ≤ 1) :
    (createOneByOne trips).run s = (createTrips trips).run s := by
  rcases trips with _ | ⟨trip, _ | ⟨trip', trips⟩⟩
  · have hnone : o.addTrips [] = o := by rw [Order.addTrips, List.append_nil]
    rw [createTrips, modifyOrder_bind_run, OrderSlice.mapOrder_eq_self ho hnone]
    rfl
  · change (createTrips [trip] >>= fun _ => pure ()).run s = _
    rw [EStateM.run_bind]
    cases (createTrips [trip]).run s <;> rfl
  · exact absurd h (by simp)

theorem sameAsOneByOne_of_run_eq
    (h : (createOneByOne trips).run s = (createTrips trips).run s) : SameAsOneByOne s trips := by
  constructor
  · intro t ht
    exact transact_of_run_ok (h.symm.trans ht)
  · intro hfails
    exact transact_createTrips_of_not_ok fun t ht => hfails t (h.trans ht)

/-- The call with the list has the outcome of the single calls if and only if there is one trip
at most, or one of the single calls fails. -/
theorem create_is_one_by_one_iff (ho : s.order = some o) (valsList : List Trip) :
    SameAsOneByOne s valsList ↔
      valsList.length ≤ 1 ∨ ¬ ComeNext o.orderDeliveryStatus valsList := by
  by_cases hlength : valsList.length ≤ 1
  · have hrun := createOneByOne_run_of_length_le_one ho hlength
    exact iff_of_true (sameAsOneByOne_of_run_eq hrun) (.inl hlength)
  · have hraises : ∀ t, (createTrips valsList).run s ≠ .ok () t := by
      intro t ht
      rw [createTrips_run_of_several (not_le.mp hlength)] at ht
      cases ht
    obtain ⟨message, hbatch⟩ := transact_createTrips_of_not_ok hraises
    rw [or_iff_right hlength]
    constructor
    · intro hsame hnext
      have hsingle := (createOneByOne_run_ok_iff ho).mpr ⟨hnext, rfl⟩
      cases hbatch.symm.trans (hsame.succeeds _ hsingle)
    · intro hno
      refine ⟨fun t ht => ?_, fun _ => ⟨message, hbatch⟩⟩
      exact absurd ((createOneByOne_run_ok_iff ho).mp ht).1 hno

/-- An order that has been confirmed and not picked up. -/
def confirmedSlice : OrderSlice where
  order := some { orderId := "A", customer := 5, orderStatus := .done }

def pickupAndDelivery : List Trip :=
  [{ driverId := 7, tripStatus := some .picked }, { driverId := 8, tripStatus := some .delivered }]

theorem create_is_one_by_one_of_delivery :
    SameAsOneByOne confirmedSlice
      [{ driverId := 8, tripStatus := some .delivered }, { driverId := 7, tripStatus := none }] :=
  (create_is_one_by_one_iff (s := confirmedSlice) rfl _).mpr (.inr (by decide))

/-- The two trips are accepted one by one, and raise when they are saved together. -/
theorem pickup_and_delivery_raise_together :
    (∃ t, (createOneByOne pickupAndDelivery).run confirmedSlice = .ok () t) ∧
      transact (createTrips pickupAndDelivery) confirmedSlice =
        (.raised "Expected singleton: bill.of.loading.trips", confirmedSlice) ∧
      ¬ SameAsOneByOne confirmedSlice pickupAndDelivery := by
  refine ⟨⟨_, rfl⟩, rfl, fun h => ?_⟩
  have hbatch := h.succeeds _ rfl
  cases hbatch

end Fastrak
