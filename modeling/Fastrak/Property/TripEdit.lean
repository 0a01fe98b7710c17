import Fastrak.Property.TripAgreement

/-!
# Editing a trip

`BillOfLoadingTrips.write` looks at the trip after every edit, and treats a trip that is
picked or delivered as a pickup that has just been assigned. So it may raise or move the
delivery status back when the edit has nothing to do with the status, and it never makes an
order delivered.
-/

namespace Fastrak

open Transaction Tracking

variable {s : OrderSlice} {o : Order} {i : ℕ} {trip : Trip} {vals : TripVals}

/-- The statuses that the delivery status tells of. -/
def Counted (status : Option TripStatus) : Prop :=
  status = some .picked ∨ status = some .delivered

/-! ## What the edit does -/

section Run

variable (ho : s.order = some o)

include ho

theorem writeTrip_run (hi : o.tripsIds[i]? = some trip) (vals : TripVals) :
    (writeTrip i vals).run s = (checkEditedTrip (vals.apply trip)).run
      { s with order := some (o.modifyTrip i vals.apply) } := by
  have ht : (o.modifyTrip i vals.apply).tripsIds[i]? = some (vals.apply trip) := by
    simp [Order.modifyTrip, hi]
  rw [writeTrip, modifyOrder_bind_run, OrderSlice.mapOrder_eq_of_order ho,
    self_bind_run (o := o.modifyTrip i vals.apply) rfl, ht]

omit ho in
/-- A trip of any other status is not looked at. -/
theorem checkEditedTrip_run_of_not_counted (h : ¬ Counted trip.tripStatus) :
    (checkEditedTrip trip).run s = .ok () s := by
  rw [checkEditedTrip, if_neg fun hp => h (.inl hp), if_neg fun hd => h (.inr hd)]
  rfl

/-- The delivery status is written, and the check raises when there is nothing to write. -/
theorem checkEditedTrip_run_of_counted (h : Counted trip.tripStatus) :
    (checkEditedTrip trip).run s =
      if o.orderDeliveryStatus = some .picked then .error "Pick-Up Driver Already Assigned" s
      else .ok () { s with order := some (o.setDeliveryStatus .picked) } := by
  rcases h with h | h
  · simp only [checkEditedTrip, h, if_true, reduceCtorEq, if_false, Option.some.injEq]
    rw [self_bind_run ho, raiseIf_bind_run, modifyOrder_bind_run,
      OrderSlice.mapOrder_eq_of_order ho]
    rfl
  · simp only [checkEditedTrip, h, if_true, reduceCtorEq, if_false, Option.some.injEq]
    rw [self_bind_run ho, raiseIf_bind_run, ← OrderSlice.mapOrder_eq_of_order ho]
    rfl

end Run

/-! ## The trips after the edit -/

@[simp] theorem Order.modifyTrip_orderDeliveryStatus (i : ℕ) (f : Trip → Trip) (o : Order) :
    (o.modifyTrip i f).orderDeliveryStatus = o.orderDeliveryStatus := rfl

/-- An edit takes the trip from the number of its old status to that of its new one. -/
theorem count_modifyTrip (hi : o.tripsIds[i]? = some trip) (vals : TripVals) (x : TripStatus) :
    (o.modifyTrip i vals.apply).tracking.count x + (if trip.tripStatus = some x then 1 else 0) =
      o.tracking.count x + if (vals.apply trip).tripStatus = some x then 1 else 0 := by
  obtain ⟨hlt, htrip⟩ := List.getElem?_eq_some_iff.mp hi
  have hle := List.boole_getElem_le_countP (p := (·.tripStatus = some x)) hlt
  have hset : o.tripsIds.modify i vals.apply = o.tripsIds.set i (vals.apply trip) := by
    rw [List.modify_eq_set_getElem?, hi]
    rfl
  simp only [Tracking.count, Order.tracking, Order.modifyTrip, hset, List.countP_set hlt, htrip,
    decide_eq_true_eq] at hle ⊢
  omega

theorem count_pos_of_getElem? (hi : o.tripsIds[i]? = some trip) {x : TripStatus}
    (hx : trip.tripStatus = some x) : 0 < o.tracking.count x :=
  List.countP_pos_iff.mpr ⟨trip, List.mem_of_getElem? hi, by simp [hx]⟩

/-- The edit succeeds and leaves the delivery status alone when it does not change the status
of the trip, and it is refused or ends in agreement when it does. -/
structure KeepsDeliveryStatus (s : OrderSlice) (o : Order) (i : ℕ) (trip : Trip)
    (vals : TripVals) : Prop where
  unchanged : (vals.apply trip).tripStatus = trip.tripStatus →
    ∃ t o', (writeTrip i vals).run s = .ok () t ∧ t.order = some o' ∧
      o'.orderDeliveryStatus = o.orderDeliveryStatus
  changed : (vals.apply trip).tripStatus ≠ trip.tripStatus →
    ∀ t, (writeTrip i vals).run s = .ok () t → ∃ o', t.order = some o' ∧ o'.tracking.Agrees

section Edit

variable (ho : s.order = some o) (hi : o.tripsIds[i]? = some trip)

include ho hi

theorem keepsDeliveryStatus_iff_of_not_counted (hk : o.tracking.Agrees)
    (h : ¬ Counted (vals.apply trip).tripStatus) :
    KeepsDeliveryStatus s o i trip vals ↔ ¬ Counted trip.tripStatus := by
  have hrun := (writeTrip_run ho hi vals).trans (checkEditedTrip_run_of_not_counted h)
  have hcount := count_modifyTrip hi vals
  constructor
  · intro hkeeps hold
    have hne : (vals.apply trip).tripStatus ≠ trip.tripStatus := fun heq => h (heq ▸ hold)
    obtain ⟨o', ho', hk'⟩ := hkeeps.changed hne _ hrun
    cases ho'
    -- the trip no longer counts, and the delivery status still tells of it
    obtain ⟨x, hx⟩ : ∃ x, trip.tripStatus = some x := hold.elim (fun h => ⟨_, h⟩) fun h => ⟨_, h⟩
    have hnew : (vals.apply trip).tripStatus ≠ some x := fun heq => hne (heq.trans hx.symm)
    have hcountx := hcount x
    rw [if_pos hx, if_neg hnew] at hcountx
    have hagree := agrees_iff.mp hk
    have hagree' := agrees_iff.mp hk'
    have hstatus : (o.modifyTrip i vals.apply).tracking.orderDeliveryStatus =
        o.tracking.orderDeliveryStatus := rfl
    rw [hstatus] at hagree'
    rcases hold with hp | hd
    · obtain rfl : x = .picked := Option.some.inj (hx.symm.trans hp)
      omega
    · obtain rfl : x = .delivered := Option.some.inj (hx.symm.trans hd)
      omega
  · intro hold
    refine ⟨fun _ => ⟨_, _, hrun, rfl, rfl⟩, fun _ t ht => ?_⟩
    cases hrun.symm.trans ht
    refine ⟨_, rfl, agrees_iff.mpr ?_⟩
    have hp := hcount .picked
    have hd := hcount .delivered
    rw [if_neg fun hx => hold (.inl hx), if_neg fun hx => h (.inl hx)] at hp
    rw [if_neg fun hx => hold (.inr hx), if_neg fun hx => h (.inr hx)] at hd
    have hagree := agrees_iff.mp hk
    exact ⟨hp.trans hagree.1, hd.trans hagree.2⟩

theorem keepsDeliveryStatus_iff_of_picked (h : Counted (vals.apply trip).tripStatus)
    (hd : o.orderDeliveryStatus = some .picked) :
    KeepsDeliveryStatus s o i trip vals ↔ (vals.apply trip).tripStatus ≠ trip.tripStatus := by
  have hrun := writeTrip_run ho hi vals
  rw [checkEditedTrip_run_of_counted (o := o.modifyTrip i vals.apply) rfl h,
    Order.modifyTrip_orderDeliveryStatus, if_pos hd] at hrun
  constructor
  · intro hkeeps heq
    obtain ⟨t, o', ht, -⟩ := hkeeps.unchanged heq
    cases hrun.symm.trans ht
  · intro hne
    exact ⟨fun heq => absurd heq hne, fun _ t ht => nomatch hrun.symm.trans ht⟩

omit ho in
/-- The trips of an order without a delivery status do not count. -/
theorem not_counted_of_none (hk : o.tracking.Agrees) (hnone : o.orderDeliveryStatus = none) :
    ¬ Counted trip.tripStatus := by
  have hagree : o.tracking.count .picked = min 1 (deliveryRank o.orderDeliveryStatus) ∧
      o.tracking.count .delivered = deliveryRank o.orderDeliveryStatus - 1 := agrees_iff.mp hk
  rw [hnone] at hagree
  simp only [deliveryRank] at hagree
  rintro (hold | hold)
  · have := count_pos_of_getElem? hi hold
    omega
  · have := count_pos_of_getElem? hi hold
    omega

omit ho in
/-- An order that is not picked agrees with its trips as a picked one after the edit, if and
only if the edit makes the first pickup of it. -/
theorem agrees_setPicked_iff (hk : o.tracking.Agrees)
    (hd : o.orderDeliveryStatus ≠ some .picked) (h : Counted (vals.apply trip).tripStatus)
    (hne : (vals.apply trip).tripStatus ≠ trip.tripStatus) :
    ((o.modifyTrip i vals.apply).setDeliveryStatus .picked).tracking.Agrees ↔
      (vals.apply trip).tripStatus = some .picked ∧ o.orderDeliveryStatus = none := by
  have hp := count_modifyTrip hi vals .picked
  have hdel := count_modifyTrip hi vals .delivered
  have hagree : o.tracking.count .picked = min 1 (deliveryRank o.orderDeliveryStatus) ∧
      o.tracking.count .delivered = deliveryRank o.orderDeliveryStatus - 1 := agrees_iff.mp hk
  have hagree' : ((o.modifyTrip i vals.apply).setDeliveryStatus .picked).tracking.Agrees ↔
      (o.modifyTrip i vals.apply).tracking.count .picked = 1 ∧
        (o.modifyTrip i vals.apply).tracking.count .delivered = 0 := agrees_iff
  rw [hagree']
  constructor
  · rintro ⟨hp', hdel'⟩
    have hnew : (vals.apply trip).tripStatus = some .picked := by
      refine h.resolve_right fun hnew => ?_
      rw [hdel', if_pos hnew, if_neg fun hold => hne (hnew.trans hold.symm)] at hdel
      omega
    refine ⟨hnew, ?_⟩
    rw [hp', if_pos hnew, if_neg fun hold => hne (hnew.trans hold.symm)] at hp
    match hstatus : o.orderDeliveryStatus with
    | none => rfl
    | some .picked => exact absurd hstatus hd
    | some .delivered =>
        rw [hstatus] at hagree
        simp only [deliveryRank] at hagree
        omega
  · rintro ⟨hnew, hnone⟩
    have hold := not_counted_of_none hi hk hnone
    rw [hnone] at hagree
    simp only [deliveryRank] at hagree
    rw [if_pos hnew, if_neg fun heq => hold (.inl heq)] at hp
    rw [if_neg fun heq => hold (.inr heq), if_neg (by rw [hnew]; decide)] at hdel
    exact ⟨by omega, by omega⟩

theorem keepsDeliveryStatus_iff_of_not_picked (hk : o.tracking.Agrees)
    (h : Counted (vals.apply trip).tripStatus)
    (hd : o.orderDeliveryStatus ≠ some .picked) :
    KeepsDeliveryStatus s o i trip vals ↔
      (vals.apply trip).tripStatus = some .picked ∧ o.orderDeliveryStatus = none := by
  have hrun := writeTrip_run ho hi vals
  rw [checkEditedTrip_run_of_counted (o := o.modifyTrip i vals.apply) rfl h,
    Order.modifyTrip_orderDeliveryStatus, if_neg hd] at hrun
  constructor
  · intro hkeeps
    have hne : (vals.apply trip).tripStatus ≠ trip.tripStatus := by
      intro heq
      obtain ⟨t, o', ht, ho', hstatus⟩ := hkeeps.unchanged heq
      cases hrun.symm.trans ht
      cases ho'
      exact hd hstatus.symm
    obtain ⟨o', ho', hk'⟩ := hkeeps.changed hne _ hrun
    cases ho'
    exact (agrees_setPicked_iff hi hk hd h hne).mp hk'
  · rintro ⟨hnew, hnone⟩
    have hold := not_counted_of_none hi hk hnone
    refine ⟨fun heq => absurd (heq ▸ h) hold, fun hne t ht => ?_⟩
    cases hrun.symm.trans ht
    exact ⟨_, rfl, (agrees_setPicked_iff hi hk hd h hne).mpr ⟨hnew, hnone⟩⟩

/-- An edit of a trip of an order in agreement keeps its delivery status true if and only if
the trip is neither picked nor delivered before and after it, or its new status is refused
because the order is picked, or it is the first pickup of the order. -/
theorem trip_edit_keeps_deliveryStatus_iff (hk : o.tracking.Agrees) (vals : TripVals) :
    KeepsDeliveryStatus s o i trip vals ↔
      ¬ Counted trip.tripStatus ∧ ¬ Counted (vals.apply trip).tripStatus ∨
        Counted (vals.apply trip).tripStatus ∧
            (vals.apply trip).tripStatus ≠ trip.tripStatus ∧
            o.orderDeliveryStatus = some .picked ∨
        (vals.apply trip).tripStatus = some .picked ∧ o.orderDeliveryStatus = none := by
  by_cases h : Counted (vals.apply trip).tripStatus
  · by_cases hd : o.orderDeliveryStatus = some .picked
    · rw [keepsDeliveryStatus_iff_of_picked ho hi h hd]
      simp [h, hd]
    · rw [keepsDeliveryStatus_iff_of_not_picked ho hi hk h hd]
      simp [h, hd]
  · rw [keepsDeliveryStatus_iff_of_not_counted ho hi hk h]
    have hnew : (vals.apply trip).tripStatus ≠ some .picked := fun hp => h (.inl hp)
    simp [h, hnew]

end Edit

/-- The records of a delivered order, with the trips of its two drivers. -/
def deliveredSlice : OrderSlice where
  order := some
    { orderId := "A", customer := 5, orderStatus := .done, orderDeliveryStatus := some .delivered
      tripsIds := [⟨7, some .picked⟩, ⟨8, some .delivered⟩] }

theorem deliveredSlice_agrees : ∀ o ∈ deliveredSlice.order, o.tracking.Agrees := by
  intro o ho
  cases ho
  exact agrees_iff.mpr ⟨rfl, rfl⟩

/-- Another driver for the delivery trip of a delivered order makes the order picked. -/
theorem driver_edit_changes_deliveryStatus :
    ∃ o ∈ deliveredSlice.order, o.tracking.Agrees ∧
      o.tripsIds[1]? = some ⟨8, some .delivered⟩ ∧
      ¬ KeepsDeliveryStatus deliveredSlice o 1 ⟨8, some .delivered⟩ { driverId := some 9 } := by
  refine ⟨_, rfl, deliveredSlice_agrees _ rfl, rfl, fun h => ?_⟩
  obtain ⟨t, o', ht, ho', hstatus⟩ := h.unchanged rfl
  cases ht
  cases ho'
  cases hstatus

theorem trip_edit_keeps_deliveryStatus_iff_of_delivered :
    ∃ o ∈ deliveredSlice.order,
      (KeepsDeliveryStatus deliveredSlice o 1 ⟨8, some .delivered⟩ { driverId := some 9 } ↔
        ¬ Counted (some .delivered) ∧ ¬ Counted (some .delivered) ∨
          Counted (some .delivered) ∧ some TripStatus.delivered ≠ some .delivered ∧
            o.orderDeliveryStatus = some .picked ∨
          some TripStatus.delivered = some .picked ∧ o.orderDeliveryStatus = none) :=
  ⟨_, rfl, trip_edit_keeps_deliveryStatus_iff rfl rfl (deliveredSlice_agrees _ rfl) _⟩

end Fastrak
