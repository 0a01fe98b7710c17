import Fastrak.Property.TripAgreement
import Mathlib.Algebra.Order.Ring.Unbundled.Rat
import Mathlib.Tactic.Linarith

/-!
# The money collected for the customer

`create_money_collection_entry` books the money that the driver has collected for the
customer. The driver is that of the one delivered trip, so that the order has been
delivered when the entry is made; and the entry is made once, since the operation refuses
an order that has one and nothing else writes the field.
-/

namespace Fastrak

open Transaction Run

variable {st : Settings} {ac : Accounting} {orderId : String} {s t : OrderSlice} {o : Order}

/-! ## The entry -/

/-- Accounting creates no entry with a line without an account. -/
def Accounting.RequiresAccounts (ac : Accounting) : Prop :=
  ∀ m : Move, (∃ line ∈ m.lineIds, line.accountId = none) → ac.refuseCreate m ≠ none

/-- The small company with an accounting that looks at the accounts. -/
def Accounting.strict : Accounting where
  amountTotal := Accounting.sample.amountTotal
  moveName := Accounting.sample.moveName
  refuseCreate m :=
    if m.lineIds.any (·.accountId = none) then some "Missing required account" else none

theorem Accounting.strict_requiresAccounts : Accounting.strict.RequiresAccounts := by
  intro m h
  simpa [Accounting.strict] using h

/-- The commission for the use of the POS machine. -/
def Order.moneyCommission (o : Order) : ℚ :=
  max 2 (o.moneyCollected * o.moneyCollectionBankCommissionFees / 100)

/-- The lines credit the customer with the money collected, against the custody of the
driver or against the bank. -/
inductive BooksCustomerMoney (st : Settings) (o : Order) (lines : List EntryLine) : Prop
  | cash (custody collection : ℕ) (trip : Trip) (driver : Driver)
      (hm : o.moneyCollectionPaymentMethod = .cash)
      (ht : o.tripsWith .delivered = [trip]) (hd : st.driver? trip.driverId = some driver)
      (hcustody : st.custodyAccounts = [custody])
      (hcollection : st.moneyCollectionAccounts = [collection])
      (hl : lines =
        [{ accountId := some custody, partnerId := driver.addressHomeId,
           debit := o.moneyCollected },
         { accountId := some collection, partnerId := some o.customer,
           credit := o.moneyCollected }])
  | pos (bank commission collection : ℕ) (hm : o.moneyCollectionPaymentMethod = .pos)
      (hbank : st.defaultBankAccounts = [bank])
      (hcommission : st.bankCommissionAccounts = [commission])
      (hcollection : st.moneyCollectionAccounts = [collection])
      (hl : lines =
        [{ accountId := some bank, debit := o.moneyCollected + o.moneyCommission },
         { accountId := some collection, partnerId := some o.customer,
           credit := o.moneyCollected },
         { accountId := some commission, credit := o.moneyCommission }])

/-- Debits equal credits. -/
def IsBalanced (lines : List EntryLine) : Prop :=
  (lines.map (·.debit)).sum = (lines.map (·.credit)).sum

theorem BooksCustomerMoney.isBalanced {lines : List EntryLine}
    (h : BooksCustomerMoney st o lines) : IsBalanced lines := by
  cases h with
  | cash _ _ _ _ _ _ _ _ _ hl => simp [IsBalanced, hl]
  | pos _ _ _ _ _ _ _ hl => simp [IsBalanced, hl]

theorem bankCommission_eq_max (st : Settings) (amount percent : ℚ) :
    bankCommission st amount percent =
      max 2 (st.arithmetic.mul amount (st.arithmetic.div percent 100)) := by
  rw [bankCommission]
  by_cases h : st.arithmetic.mul amount (st.arithmetic.div percent 100) < 2
  · rw [if_pos h, max_eq_left h.le]
  · rw [if_neg h, max_eq_right (not_lt.mp h)]

theorem bankCommission_of_exact (har : st.arithmetic = .exact) (o : Order) :
    bankCommission st o.moneyCollected o.moneyCollectionBankCommissionFees =
      o.moneyCommission := by
  rw [bankCommission_eq_max, har, Arithmetic.exact_mul, Arithmetic.exact_div, ← mul_div_assoc,
    Order.moneyCommission]

theorem getMoneyCollectionEntryDriver_eq_ok {driver : Option Driver}
    (h : getMoneyCollectionEntryDriver st o = .ok driver) :
    ∃ trip, o.tripsWith .delivered = [trip] ∧ st.driver? trip.driverId = driver := by
  unfold getMoneyCollectionEntryDriver at h
  split at h
  · rename_i trip ht
    exact ⟨trip, ht, except_pure_eq_ok_iff.mp h⟩
  · cases h
  · cases h

/-- The lines that are prepared, when accounting lets them pass. -/
theorem prepareMoneyCollectionEntry_books (har : st.arithmetic = .exact) {data : Move}
    (hd : prepareMoneyCollectionEntry st o = .ok data)
    (ha : ∀ line ∈ data.lineIds, line.accountId ≠ none) :
    BooksCustomerMoney st o data.lineIds ∧ (o.tripsWith .delivered).length = 1 := by
  simp only [prepareMoneyCollectionEntry, except_bind_ok_iff, except_pure_eq_ok_iff] at hd
  obtain ⟨-, -, lines, hlines, rfl⟩ := hd
  simp only [getMoneyCollectionEntryLines, except_bind_ok_iff] at hlines
  obtain ⟨driver, hdriver, hlines⟩ := hlines
  obtain ⟨trip, ht, hdriver⟩ := getMoneyCollectionEntryDriver_eq_ok hdriver
  refine ⟨?_, by rw [ht]; rfl⟩
  cases driver with
  | none => cases hlines
  | some driver =>
      have haccount : ∀ line ∈ lines, ∃ account, line.accountId = some account :=
        fun line hline => Option.ne_none_iff_exists'.mp (ha line hline)
      cases hm : o.moneyCollectionPaymentMethod with
      | cash =>
          simp only [hm, except_bind_ok_iff, except_pure_eq_ok_iff, exists_eq_left'] at hlines
          obtain ⟨custody, hcustody, collection, hcollection, rfl⟩ := hlines
          obtain ⟨custody, rfl⟩ := haccount _ (List.mem_cons_self ..)
          obtain ⟨collection, rfl⟩ := haccount _ (List.mem_cons_of_mem _ (List.mem_cons_self ..))
          exact .cash custody collection trip driver hm ht hdriver
            (eq_singleton_of_single hcustody) (eq_singleton_of_single hcollection) rfl
      | pos =>
          simp only [hm, except_bind_ok_iff, except_pure_eq_ok_iff, exists_eq_left'] at hlines
          obtain ⟨bank, hbank, commission, hcommission, collection, hcollection, rfl⟩ := hlines
          rw [bankCommission_of_exact har] at haccount ⊢
          rw [har, Arithmetic.exact_add] at haccount ⊢
          obtain ⟨bank, rfl⟩ := haccount _ (List.mem_cons_self ..)
          obtain ⟨collection, rfl⟩ := haccount _ (List.mem_cons_of_mem _ (List.mem_cons_self ..))
          obtain ⟨commission, rfl⟩ := haccount _
            (List.mem_cons_of_mem _ (List.mem_cons_of_mem _ (List.mem_cons_self ..)))
          exact .pos bank commission collection hm (eq_singleton_of_single hbank)
            (eq_singleton_of_single hcommission) (eq_singleton_of_single hcollection) rfl

/-! ## Steps -/

/-- `money_collection_entry` of the order, if there is an order. -/
def OrderSlice.bookedEntry (s : OrderSlice) : Option ℕ :=
  s.order.bind (·.moneyCollectionEntry)

/-- The order has been delivered by one driver, and the step has created and posted the
entry of its customer. -/
structure BooksAfterDelivery (st : Settings) (s t : OrderSlice) (o : Order) (entry : Move) :
    Prop where
  order : s.order = some o
  oneTrip : (o.tripsWith .delivered).length = 1
  delivered : o.orderDeliveryStatus = some .delivered
  created : t.moves = s.moves ++ [entry]
  assigned : t.bookedEntry = some s.moves.length
  posted : entry.state = .posted
  books : BooksCustomerMoney st o entry.lineIds
  isBalanced : IsBalanced entry.lineIds

/-- A step that writes `money_collection_entry` books the money after delivery. -/
def BooksMoney (st : Settings) (ac : Accounting) (orderId : String) (s : OrderSlice) (e : Event) :
    Prop :=
  (step st ac orderId s e).bookedEntry ≠ s.bookedEntry →
    ∃ o entry, BooksAfterDelivery st s (step st ac orderId s e) o entry

theorem CollectsMoney.booksAfterDelivery {base : OrderSlice} (har : st.arithmetic = .exact)
    (hac : ac.RequiresAccounts) (hs : s.TripsAgree) (ho : s.order = some o)
    (hbase : base.order = s.order) (hmoves : base.moves = s.moves)
    (hne : t.bookedEntry ≠ s.bookedEntry) (h : CollectsMoney st ac base o t) :
    ∃ o entry, BooksAfterDelivery st s t o entry := by
  cases h with
  | free => exact absurd (by rw [OrderSlice.bookedEntry, hbase]; rfl) hne
  | booked data _ _ hd ha =>
      have haccount : ∀ line ∈ data.lineIds, line.accountId ≠ none :=
        fun line hline hnone => hac data ⟨line, hline, hnone⟩ ha
      obtain ⟨hbooks, hone⟩ := prepareMoneyCollectionEntry_books har hd haccount
      have hdelivered : o.orderDeliveryStatus = some .delivered :=
        (hs o ho).orderDeliveryStatus_eq_delivered fun hnil => by simp [hnil] at hone
      rw [hmoves]
      exact ⟨o, data.post ac s.moves.length, ho, hone, hdelivered, rfl, rfl, rfl, hbooks,
        hbooks.isBalanced⟩

/-- The operation refuses an order that has an entry. -/
theorem CollectsMoney.bookedEntry_eq {base : OrderSlice} {i : ℕ} (hi : s.bookedEntry = some i)
    (ho : s.order = some o) (hbase : base.order = s.order)
    (h : CollectsMoney st ac base o t) : t.bookedEntry = s.bookedEntry := by
  cases h with
  | booked _ _ hu => simp [OrderSlice.bookedEntry, ho, hu] at hi
  | free => rw [OrderSlice.bookedEntry, hbase, OrderSlice.bookedEntry]

/-- A step that writes the field is one of the operation that books the money. -/
theorem Steps.collectsMoney {e : Event} {out : Outcome} (hne : t.bookedEntry ≠ s.bookedEntry)
    (h : Steps st ac orderId s e out t) :
    ∃ o base, s.order = some o ∧ base.order = s.order ∧ base.moves = s.moves ∧
      CollectsMoney st ac base o t := by
  have hkeep : ∀ {o o'}, s.order = some o → t.order = some o' →
      o'.moneyCollectionEntry ≠ o.moneyCollectionEntry := by
    intro o o' ho ho' heq
    exact hne (by simp [OrderSlice.bookedEntry, ho, ho', heq])
  cases ho : s.order with
  | none =>
      rcases h.order_of_none ho with hn | ⟨kw, lines, -, hn⟩
      · exact absurd (by simp [OrderSlice.bookedEntry, ho, hn]) hne
      · exact absurd (by simp [OrderSlice.bookedEntry, ho, hn, newOrder]) hne
  | some o =>
      cases h with
      | request r _ _ h =>
          obtain ⟨o', ho', hk⟩ := h.keeps ho
          exact absurd hk.moneyCollectionEntry (hkeep ho ho')
      | ignored => exact absurd rfl hne
      | raised _ c base _ _ hc | vacuous _ c base hc =>
          exact absurd rfl (hkeep ho ((Event.call?_records hc).1.trans ho))
      | returned _ c base o₁ _ hc ho₁ h =>
          obtain ⟨hbase, hmoves, -⟩ := Event.call?_records hc
          obtain rfl : o₁ = o := Option.some.inj (ho₁.symm.trans (hbase.trans ho))
          by_cases hc' : ∃ raiseException, c = .createMoneyCollectionEntry raiseException
          · obtain ⟨raiseException, rfl⟩ := hc'
            exact ⟨o₁, base, rfl, ho₁, hmoves, h⟩
          · obtain ⟨o', ho', hk⟩ := h.keeps ho₁
            exact absurd (hk.moneyCollectionEntry fun a ha => hc' ⟨a, ha⟩) (hkeep ho ho')

theorem step_booksMoney (har : st.arithmetic = .exact) (hac : ac.RequiresAccounts)
    (orderId : String) (s : OrderSlice) (e : Event) (hs : s.TripsAgree) :
    BooksMoney st ac orderId s e := by
  intro hne
  obtain ⟨o, base, ho, hbase, hmoves, h⟩ := (perform_steps st ac orderId e s).collectsMoney hne
  exact h.booksAfterDelivery har hac hs ho hbase hmoves hne

/-- An entry that is there is not replaced. -/
theorem step_bookedEntry (orderId : String) (s : OrderSlice) (e : Event) (i : ℕ)
    (hi : s.bookedEntry = some i) : (step st ac orderId s e).bookedEntry = some i := by
  rw [← hi]
  by_contra hne
  obtain ⟨o, base, ho, hbase, -, h⟩ := (perform_steps st ac orderId e s).collectsMoney hne
  exact hne (h.bookedEntry_eq hi ho hbase)

/-! ## Runs -/

variable {db : Database} {id : String}

theorem dbStep_bookedEntry (id : String) (db : Database) (e : String × Event) (i : ℕ)
    (hi : (db id).bookedEntry = some i) : (dbStep st ac db e id).bookedEntry = some i :=
  family_step_invariant (C := fun _ _ => True) (I := fun s => s.bookedEntry = some i)
    (fun s e hs _ => step_bookedEntry id s e i hs) db e hi fun _ => True.intro

/-- In every run the money collected for the customer is booked at most once, and after the
delivery of the order; and the entry is not replaced. -/
theorem customer_money_is_booked_once (st : Settings) (har : st.arithmetic = .exact)
    (hac : ac.RequiresAccounts) (hdb : (db id).IsNew) (es es' : List (String × Event)) :
    changes (dbStep st ac) (fun db => (db id).bookedEntry) db es ≤ 1 ∧
      Meets (dbStep st ac) (addressedTo id (BooksMoney st ac id)) db es ∧
      ∀ i, (run (dbStep st ac) db es id).bookedEntry = some i →
        (run (dbStep st ac) db (es ++ es') id).bookedEntry = some i := by
  refine ⟨changes_le_one (dbStep_bookedEntry id) db es, ?_, fun i hi => ?_⟩
  · exact family_meets (C := fun _ _ => True) (fun s e hs _ => step_tripsAgree id s e hs)
      (fun s e hs _ => step_booksMoney har hac id s e hs) hdb.tripsAgree
      (family_meets_trivial id db es)
  · rw [run_append]
    exact run_eq_some (f := fun db : Database => (db id).bookedEntry) (dbStep_bookedEntry id) hi es'

/-- A delivered order whose collection is requested twice. -/
def collectedTwice : List (String × Event) :=
  [("A", .request (.create (some
     { userId := 5, paymentMethod := .onDelivery, shippingFees := 100, moneyCollected := 70 }))),
   ("A", .request (.pickup (some 7))), ("A", .request (.delivery (some 7))), ("A", .job 1),
   ("A", .job 0), ("A", .request (.moneyCollection (some (some .moneyCollection)))),
   ("A", .request (.moneyCollection (some (some .moneyCollection)))), ("A", .job 1),
   ("A", .job 0)]

theorem customer_money_is_booked_once_on_delivery :
    (run (dbStep Settings.sample.withExactArithmetic .strict) Database.empty collectedTwice
        "A").bookedEntry = some 1 ∧
      changes (dbStep Settings.sample.withExactArithmetic .strict)
        (fun db => (db "A").bookedEntry) Database.empty collectedTwice ≤ 1 :=
  ⟨by decide +kernel, (customer_money_is_booked_once Settings.sample.withExactArithmetic rfl
    Accounting.strict_requiresAccounts (Database.empty_isNew "A") collectedTwice []).1⟩

end Fastrak
