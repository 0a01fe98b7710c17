import Fastrak.Order.Frame
import Mathlib.Data.List.Count

/-!
# Delivery status and trips

The delivery status of an order is a summary of its trips: it says how many trips
with status `picked` and `delivered` there are. `Tracking.Agrees` is the relation
between the two. A creation of trips keeps it or is refused, and no other event writes
the status or the trips, so it holds in every state of every run, whatever events the
run has.
-/

namespace Fastrak

open Transaction Run

variable {st : Settings} {ac : Accounting} {orderId : String} {s t : OrderSlice} {o : Order}

/-! ## The relation -/

/-- How far a delivery has come. -/
def deliveryRank : Option DeliveryStatus → ℕ
  | none => 0
  | some .picked => 1
  | some .delivered => 2

/-- The number of trips with the given status. -/
def Tracking.count (k : Tracking) (status : TripStatus) : ℕ :=
  k.tripsIds.countP (·.tripStatus = some status)

/-- The trips are those that the delivery status tells of. -/
structure Tracking.Agrees (k : Tracking) : Prop where
  picked_le_one : k.count .picked ≤ 1
  delivered_le_one : k.count .delivered ≤ 1
  none_iff : k.orderDeliveryStatus = none ↔ k.count .picked = 0 ∧ k.count .delivered = 0
  picked_iff : k.orderDeliveryStatus = some .picked ↔
    k.count .picked = 1 ∧ k.count .delivered = 0
  delivered_iff : k.orderDeliveryStatus = some .delivered ↔
    k.count .picked = 1 ∧ k.count .delivered = 1

namespace Tracking

/-- The delivery status determines both numbers. -/
theorem agrees_iff {k : Tracking} :
    k.Agrees ↔ k.count .picked = min 1 (deliveryRank k.orderDeliveryStatus) ∧
      k.count .delivered = deliveryRank k.orderDeliveryStatus - 1 := by
  constructor
  · intro h
    match hs : k.orderDeliveryStatus with
    | none => simpa [deliveryRank] using h.none_iff.mp hs
    | some .picked => simpa [deliveryRank] using h.picked_iff.mp hs
    | some .delivered => simpa [deliveryRank] using h.delivered_iff.mp hs
  · rintro ⟨hp, hd⟩
    match hs : k.orderDeliveryStatus with
    | none | some .picked | some .delivered =>
        simp only [hs, deliveryRank] at hp hd
        constructor <;> simp [hp, hd, hs]

theorem count_append (trips trips' : List Trip) (status : Option DeliveryStatus)
    (status' : Option DeliveryStatus) (x : TripStatus) :
    count ⟨trips ++ trips', status'⟩ x =
      count ⟨trips, status⟩ x + trips'.countP (·.tripStatus = some x) :=
  List.countP_append

theorem Agrees.picked {trips : List Trip} (h : Agrees ⟨trips, none⟩) {trip : Trip}
    (ht : trip.tripStatus = some .picked) : Agrees ⟨trips ++ [trip], some .picked⟩ := by
  obtain ⟨hp, hd⟩ := agrees_iff.mp h
  rw [agrees_iff, count_append _ _ none, count_append _ _ none, hp, hd]
  simp [deliveryRank, ht]

theorem Agrees.delivered {trips : List Trip} (h : Agrees ⟨trips, some .picked⟩) {trip : Trip}
    (ht : trip.tripStatus = some .delivered) :
    Agrees ⟨trips ++ [trip], some .delivered⟩ := by
  obtain ⟨hp, hd⟩ := agrees_iff.mp h
  rw [agrees_iff, count_append _ _ (some .picked), count_append _ _ (some .picked), hp, hd]
  simp [deliveryRank, ht]

/-- Trips of any other status do not count. -/
theorem Agrees.other {trips trips' : List Trip} {status : Option DeliveryStatus}
    (h : Agrees ⟨trips, status⟩) (ht : ∀ trip ∈ trips',
      trip.tripStatus ≠ some .picked ∧ trip.tripStatus ≠ some .delivered) :
    Agrees ⟨trips ++ trips', status⟩ := by
  have hp : trips'.countP (·.tripStatus = some .picked) = 0 :=
    List.countP_eq_zero.mpr fun trip hm => by simpa using (ht trip hm).1
  have hd : trips'.countP (·.tripStatus = some .delivered) = 0 :=
    List.countP_eq_zero.mpr fun trip hm => by simpa using (ht trip hm).2
  rw [agrees_iff, count_append _ _ status, count_append _ _ status, hp, hd]
  exact agrees_iff.mp h

theorem Agrees.of_isNew (h : o.IsNew) : o.tracking.Agrees := by
  rw [agrees_iff]
  simp [Order.tracking, count, h.tripsIds, h.orderDeliveryStatus, deliveryRank]

/-- An order without a pickup trip has not been picked up. -/
theorem Agrees.orderDeliveryStatus_eq_none (h : o.tracking.Agrees)
    (hn : o.tripsWith .picked = []) : o.orderDeliveryStatus = none := by
  have hcount : o.tracking.count .picked = 0 := by
    rw [count, List.countP_eq_length_filter, List.length_eq_zero_iff]
    exact hn
  have hp := (agrees_iff.mp h).1
  match hs : o.orderDeliveryStatus with
  | none => rfl
  | some .picked | some .delivered =>
      have hs' : o.tracking.orderDeliveryStatus = o.orderDeliveryStatus := rfl
      simp [hcount, hs', hs, deliveryRank] at hp

/-- An order with a delivery trip has been delivered. -/
theorem Agrees.orderDeliveryStatus_eq_delivered (h : o.tracking.Agrees)
    (hn : o.tripsWith .delivered ≠ []) : o.orderDeliveryStatus = some .delivered := by
  have hcount : o.tracking.count .delivered ≠ 0 := by
    rw [count, List.countP_eq_length_filter, Ne, List.length_eq_zero_iff]
    exact hn
  have hd := (agrees_iff.mp h).2
  match hs : o.orderDeliveryStatus with
  | some .delivered => rfl
  | none | some .picked =>
      have hs' : o.tracking.orderDeliveryStatus = o.orderDeliveryStatus := rfl
      exact absurd (hd.trans (by rw [hs', hs]; rfl)) hcount

/-- The delivery has moved on, and its trips still agree with its status. -/
def Advances (k k' : Tracking) : Prop :=
  k'.Agrees ∧ deliveryRank k.orderDeliveryStatus ≤ deliveryRank k'.orderDeliveryStatus

theorem Agrees.advances {k : Tracking} (h : k.Agrees) : k.Advances k := ⟨h, le_rfl⟩

end Tracking

/-! ## Steps -/

open Tracking

theorem CreatesTrips.advances {trips : List Trip} (hk : o.tracking.Agrees)
    (h : CreatesTrips s o trips t) :
    ∃ o', t.order = some o' ∧ o.tracking.Advances o'.tracking := by
  cases h with
  | picked trip ht hp hd =>
      subst ht
      have hk' : Agrees ⟨o.tripsIds, none⟩ := by simpa [Order.tracking, hd] using hk
      exact ⟨_, rfl, hk'.picked hp, by simp [Order.tracking, hd, deliveryRank]⟩
  | delivered trip ht hp hd =>
      subst ht
      have hk' : Agrees ⟨o.tripsIds, some .picked⟩ := by simpa [Order.tracking, hd] using hk
      exact ⟨_, rfl, hk'.delivered hp, by
        simp [Order.tracking, Order.setDeliveryStatus, hd, deliveryRank]⟩
  | other ht => exact ⟨_, rfl, hk.other ht, le_rfl⟩

theorem Serves.advances {r : Request} {response : Response} (ho : s.order = some o)
    (hk : o.tracking.Agrees) (h : Serves st ac orderId s r response t) :
    ∃ o', t.order = some o' ∧ o.tracking.Advances o'.tracking := by
  by_cases hr : ∃ driverId, r = .pickup driverId
  · obtain ⟨driverId, rfl⟩ := hr
    cases h with
    | refused => exact ⟨o, ho, hk.advances⟩
    | picked driverId o₁ _ _ ho₁ hn hd =>
        obtain rfl : o₁ = o := by simpa [ho₁] using ho
        have hk' : Agrees ⟨o₁.tripsIds, none⟩ := by simpa [Order.tracking, hd] using hk
        exact ⟨_, rfl, hk'.picked rfl, by simp [Order.tracking, hd, deliveryRank]⟩
    | halfPicked driverId o₁ _ _ ho₁ hn hd =>
        obtain rfl : o₁ = o := by simpa [ho₁] using ho
        exact absurd (hk.orderDeliveryStatus_eq_none hn.first) hd
  · obtain ⟨o', ho', hkeep⟩ := h.keeps ho
    refine ⟨o', ho', ?_⟩
    rw [hkeep.tracking fun driverId hr' => hr ⟨driverId, hr'⟩]
    exact hk.advances

/-- Every step keeps the agreement and moves the status forward. -/
theorem Steps.advances {e : Event} {out : Outcome} (ho : s.order = some o)
    (hk : o.tracking.Agrees) (h : Steps st ac orderId s e out t) :
    ∃ o', t.order = some o' ∧ o.tracking.Advances o'.tracking := by
  cases h with
  | request r _ _ h => exact h.advances ho hk
  | ignored => exact ⟨o, ho, hk.advances⟩
  | raised _ c base _ _ hc => exact ⟨o, (Event.call?_records hc).1.trans ho, hk.advances⟩
  | vacuous _ c _ hc => exact ⟨o, (Event.call?_records hc).1.trans ho, hk.advances⟩
  | returned _ c base o₁ _ hc ho₁ h =>
      obtain rfl : o₁ = o := by simpa [(Event.call?_records hc).1, ho] using ho₁.symm
      by_cases hc' : ∃ trips, c = .createTrips trips
      · obtain ⟨trips, rfl⟩ := hc'
        exact CreatesTrips.advances hk h
      · obtain ⟨o', ho', hkeep⟩ := h.keeps ho₁
        refine ⟨o', ho', ?_⟩
        rw [hkeep.tracking fun trips hc'' => hc' ⟨trips, hc''⟩]
        exact hk.advances

/-- The trips of the order, if there is one, agree with its delivery status. -/
def OrderSlice.TripsAgree (s : OrderSlice) : Prop :=
  ∀ o, s.order = some o → o.tracking.Agrees

theorem step_tripsAgree (orderId : String) (s : OrderSlice) (e : Event) (hs : s.TripsAgree) :
    (step st ac orderId s e).TripsAgree := by
  intro o' ho'
  have h := perform_steps st ac orderId e s
  cases ho : s.order with
  | none =>
      obtain ⟨kw, lines, rfl⟩ := h.newOrder_of_none ho ho'
      exact agrees_iff.mpr ⟨rfl, rfl⟩
  | some o =>
      obtain ⟨o'', ho'', hk, -⟩ := h.advances ho (hs o ho)
      rw [step, ho''] at ho'
      cases ho'
      exact hk

/-- The delivery of the order has moved on. -/
def OrderSlice.DeliveryAdvances (s t : OrderSlice) : Prop :=
  ∀ o, s.order = some o → ∃ o', t.order = some o' ∧
    deliveryRank o.orderDeliveryStatus ≤ deliveryRank o'.orderDeliveryStatus

theorem step_deliveryAdvances (orderId : String) (s : OrderSlice) (e : Event)
    (hs : s.TripsAgree) : s.DeliveryAdvances (step st ac orderId s e) := by
  intro o ho
  obtain ⟨o', ho', -, hrank⟩ := (perform_steps st ac orderId e s).advances ho (hs o ho)
  exact ⟨o', ho', hrank⟩

/-! ## Runs -/

variable {db : Database} {id : String}

theorem OrderSlice.IsNew.tripsAgree (h : s.IsNew) : s.TripsAgree :=
  fun o ho => .of_isNew (h.order o ho)

theorem run_tripsAgree (st : Settings) (ac : Accounting) (hdb : (db id).IsNew)
    (es : List (String × Event)) :
    (run (dbStep st ac) db es id).TripsAgree :=
  family_invariant (fun s e hs _ => step_tripsAgree id s e hs) hdb.tripsAgree
    (family_meets_trivial id db es)

/-- In every state of every run, an order has at most one trip of either kind, and
its delivery status says which ones it has; and the status only moves forward. -/
theorem deliveryStatus_agrees_and_advances (st : Settings) (ac : Accounting)
    (hdb : (db id).IsNew) (es es' : List (String × Event)) {o : Order}
    (ho : (run (dbStep st ac) db es id).order = some o) :
    o.tracking.Agrees ∧
      ∃ o', (run (dbStep st ac) db (es ++ es') id).order = some o' ∧
        deliveryRank o.orderDeliveryStatus ≤ deliveryRank o'.orderDeliveryStatus := by
  refine ⟨run_tripsAgree st ac hdb es o ho, ?_⟩
  have hrel := family_relation (step st ac) (R := OrderSlice.DeliveryAdvances)
    (fun s e hs _ => step_tripsAgree id s e hs)
    (fun s o ho => ⟨o, ho, le_rfl⟩)
    (fun hst htr o ho => by
      obtain ⟨o', ho', h⟩ := hst o ho
      obtain ⟨o'', ho'', h'⟩ := htr o' ho'
      exact ⟨o'', ho'', h.trans h'⟩)
    (fun s e hs _ => step_deliveryAdvances id s e hs)
    (run_tripsAgree st ac hdb es) (family_meets_trivial id _ es')
  rw [run_append]
  exact hrel o ho

/-- The run of a delivered order. -/
theorem deliveryStatus_agrees_and_advances_of_delivered :
    ∃ o, (run (dbStep .sample .sample) Database.empty
        [("A", sampleCreate .onDelivery), ("A", .request (.pickup (some 7))),
         ("A", .request (.delivery (some 7))), ("A", .job 1)] "A").order = some o ∧
      o.orderDeliveryStatus = some .delivered ∧ o.tracking.Agrees := by
  have hrun : ((run (dbStep .sample .sample) Database.empty
        [("A", sampleCreate .onDelivery), ("A", .request (.pickup (some 7))),
         ("A", .request (.delivery (some 7))), ("A", .job 1)] "A").order.map
      (·.orderDeliveryStatus)) = some (some .delivered) := by decide +kernel
  obtain ⟨o, ho, hd⟩ := Option.map_eq_some_iff.mp hrun
  exact ⟨o, ho, hd,
    (deliveryStatus_agrees_and_advances .sample .sample (Database.empty_isNew "A") _ [] ho).1⟩

end Fastrak
