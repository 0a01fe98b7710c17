import Fastrak.Order.Controller

/-!
# What the update endpoint checks

The sections before the shipping fees read the order as it stands, fill
`update_dict` and write nothing. `Passes` collects what they demand of a request,
and `checkSections_eq_ok_iff` says that this is all they do.
-/

namespace Fastrak

open Transaction

variable {V : Type} {ac : Accounting} {o : Order}

/-- What the checking sections demand of a request. -/
structure UpdateKwargs.Passes [Amount V] (ac : Accounting) (kw : UpdateKwargs V) (o : Order)
    (invoice : Option Move) : Prop where
  paymentMethod : kw.paymentMethod ≠ none → o.orderStatus ≠ .done
  posOnPickup : kw.isPosPayment ≠ none → o.orderStatus = .done → kw.meets o .onPickup →
    o.orderDeliveryStatus = none
  posOnDelivery : kw.isPosPayment ≠ none → o.orderStatus = .done → ¬ kw.meets o .onPickup →
    kw.meets o .onDelivery → o.orderDeliveryStatus ≠ some .delivered
  weightOnPickup : kw.weight? ≠ none → o.orderStatus = .done →
    ¬ kw.meets o .onPickup
  weightOnDelivery : kw.weight? ≠ none → o.orderStatus = .done →
    kw.meets o .onDelivery → o.orderDeliveryStatus ≠ some .delivered
  weightOnCredit : kw.weight? ≠ none → o.orderStatus = .done →
    ¬ kw.meets o .onDelivery → kw.meets o .onCredit →
      o.orderDeliveryStatus ≠ some .delivered ∧ ac.isPaid invoice = false
  moneyCollected : kw.moneyCollected ≠ none → o.moneyCollectionEntry = none
  moneyCollectionPaymentMethod : kw.moneyCollectionPaymentMethod ≠ none →
    o.moneyCollectionEntry = none

/-- The fields of the request, as `update_dict` holds them when it is queued. -/
def UpdateKwargs.updateDict [Amount V] (kw : UpdateKwargs V) : UpdateDict V where
  pickupAddress := kw.pickupAddress?
  deliveryAddress := kw.deliveryAddress?
  paymentMethod := kw.paymentMethod
  isPosPayment := kw.isPosPayment
  weight := kw.weight?
  moneyCollected := kw.moneyCollected
  moneyCollectionPaymentMethod := kw.moneyCollectionPaymentMethod
  shippingFees := kw.shippingFees
  discountAmount := kw.discountAmount

theorem paymentMethodSection_eq_ok_iff {kw : UpdateKwargs V} {d d' : UpdateDict V}
    (hd : d.paymentMethod = none) :
    paymentMethodSection kw o d = .ok d' ↔
      (kw.paymentMethod ≠ none → o.orderStatus ≠ .done) ∧
        { d with paymentMethod := kw.paymentMethod } = d' := by
  obtain ⟨⟩ := d
  obtain rfl := hd
  cases h : kw.paymentMethod with
  | none => simp [paymentMethodSection, h, except_pure_eq_ok_iff]
  | some m =>
      simp only [paymentMethodSection, h, except_bind_ok_iff, raiseIf_eq_ok_iff,
        except_pure_eq_ok_iff]
      simp

theorem posSection_eq_ok_iff {kw : UpdateKwargs V} {d d' : UpdateDict V}
    (hd : d.isPosPayment = none) :
    posSection kw o d = .ok d' ↔
      (kw.isPosPayment ≠ none → o.orderStatus = .done →
        (kw.meets o .onPickup → o.orderDeliveryStatus = none) ∧
        (¬ kw.meets o .onPickup → kw.meets o .onDelivery →
          o.orderDeliveryStatus ≠ some .delivered)) ∧
        { d with isPosPayment := kw.isPosPayment } = d' := by
  obtain ⟨⟩ := d
  obtain rfl := hd
  cases h : kw.isPosPayment with
  | none => simp [posSection, h, except_pure_eq_ok_iff]
  | some m =>
      simp only [posSection, h]
      by_cases hs : o.orderStatus = .done <;> by_cases hp : kw.meets o .onPickup <;>
        by_cases hdv : kw.meets o .onDelivery <;>
        simp [-bind_pure_comp, hs, hp, hdv, except_bind_ok_iff, except_pure_eq_ok_iff]

theorem weightSection_eq_ok_iff [Amount V] {kw : UpdateKwargs V} {invoice : Option Move}
    {d d' : UpdateDict V} (hd : d.weight = none) :
    weightSection ac kw o invoice d = .ok d' ↔
      (kw.weight? ≠ none → o.orderStatus = .done →
        ¬ kw.meets o .onPickup ∧
        (kw.meets o .onDelivery → o.orderDeliveryStatus ≠ some .delivered) ∧
        (¬ kw.meets o .onDelivery → kw.meets o .onCredit →
          o.orderDeliveryStatus ≠ some .delivered ∧ ac.isPaid invoice = false)) ∧
        { d with weight := kw.weight? } = d' := by
  obtain ⟨⟩ := d
  obtain rfl := hd
  cases h : kw.weight? with
  | none => simp [weightSection, h, except_pure_eq_ok_iff]
  | some m =>
      simp only [weightSection, h]
      by_cases hs : o.orderStatus = .done <;> by_cases hp : kw.meets o .onPickup <;>
        by_cases hdv : kw.meets o .onDelivery <;> by_cases hc : kw.meets o .onCredit <;>
        simp [-bind_pure_comp, hs, hp, hdv, hc, except_bind_ok_iff, except_pure_eq_ok_iff,
          throw, throwThe, MonadExceptOf.throw, and_assoc]

theorem moneyCollectedSection_eq_ok_iff {kw : UpdateKwargs V} {d d' : UpdateDict V}
    (hd : d.moneyCollected = none) (hd' : d.moneyCollectionPaymentMethod = none) :
    moneyCollectedSection kw o d = .ok d' ↔
      (kw.moneyCollected ≠ none → o.moneyCollectionEntry = none) ∧
      (kw.moneyCollectionPaymentMethod ≠ none → o.moneyCollectionEntry = none) ∧
        { d with
          moneyCollected := kw.moneyCollected
          moneyCollectionPaymentMethod := kw.moneyCollectionPaymentMethod } = d' := by
  obtain ⟨⟩ := d
  obtain rfl := hd
  obtain rfl := hd'
  cases h : kw.moneyCollected <;> cases h' : kw.moneyCollectionPaymentMethod <;>
    simp [-bind_pure_comp, moneyCollectedSection, h, h', except_bind_ok_iff, except_pure_eq_ok_iff]

/-- The checks are `Passes`, and the dictionary is filled from the request alone. -/
theorem checkSections_eq_ok_iff [Amount V] {kw : UpdateKwargs V} {invoice : Option Move}
    {d : UpdateDict V} :
    checkSections ac kw o invoice = .ok d ↔
      kw.Passes ac o invoice ∧
        { kw.updateDict with shippingFees := none, discountAmount := none } = d := by
  simp only [checkSections, except_bind_ok_iff]
  constructor
  · rintro ⟨d₁, h₁, d₂, h₂, d₃, h₃, h₄⟩
    obtain ⟨hpm, rfl⟩ := (paymentMethodSection_eq_ok_iff rfl).mp h₁
    obtain ⟨hpos, rfl⟩ := (posSection_eq_ok_iff rfl).mp h₂
    obtain ⟨hw, rfl⟩ := (weightSection_eq_ok_iff rfl).mp h₃
    obtain ⟨hmc, hmcm, rfl⟩ := (moneyCollectedSection_eq_ok_iff rfl rfl).mp h₄
    exact ⟨⟨hpm, fun h hs => (hpos h hs).1, fun h hs => (hpos h hs).2, fun h hs => (hw h hs).1,
      fun h hs => (hw h hs).2.1, fun h hs => (hw h hs).2.2, hmc, hmcm⟩, rfl⟩
  · rintro ⟨h, rfl⟩
    refine ⟨_, (paymentMethodSection_eq_ok_iff rfl).mpr ⟨h.paymentMethod, rfl⟩,
      _, (posSection_eq_ok_iff rfl).mpr
        ⟨fun hk hs => ⟨h.posOnPickup hk hs, h.posOnDelivery hk hs⟩, rfl⟩,
      _, (weightSection_eq_ok_iff rfl).mpr
        ⟨fun hk hs => ⟨h.weightOnPickup hk hs, h.weightOnDelivery hk hs,
          h.weightOnCredit hk hs⟩, rfl⟩,
      (moneyCollectedSection_eq_ok_iff rfl rfl).mpr
        ⟨h.moneyCollected, h.moneyCollectionPaymentMethod, rfl⟩⟩

end Fastrak
