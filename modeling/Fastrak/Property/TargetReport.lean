import Fastrak.Crm.TargetReport
import Fastrak.Library.Grouping

/-!
# The customers of a sales target

The report searches the customers of the sales persons line by line. A sales person on two
lines has his customers listed twice, and a line without one lists the partners that have no
sales person. Nothing else is listed twice or counted without reason.
-/

namespace Fastrak

open Grouping Run

namespace Crm

variable {w : Clientele} {startDate endDate : ℤ} {persons : List (Option ℕ)} {c : Partner}

/-- A customer of one of the sales persons. -/
def IsCustomerOf (persons : List (Option ℕ)) (c : Partner) : Prop :=
  c.active ∧ c.userId ≠ none ∧ c.userId ∈ persons

instance (persons : List (Option ℕ)) : DecidablePred (IsCustomerOf persons) :=
  fun _ => inferInstanceAs (Decidable (_ ∧ _ ∧ _))

/-- The customers of the sales persons. -/
def customersOf (w : Clientele) (persons : List (Option ℕ)) : List ℕ :=
  (w.partners.filter fun c => IsCustomerOf persons c).map (·.id)

/-- The orders created on a day of the range. -/
def ordersWithin (w : Clientele) (startDate endDate : ℤ) : List (Order × ℤ) :=
  w.orders.filter fun o => startDate ≤ o.2 / 86400 ∧ o.2 / 86400 ≤ endDate

/-- Each customer of the sales persons is listed once, and the printed total is the number of
their orders. -/
structure CountsOnce (w : Clientele) (startDate endDate : ℤ) (persons : List (Option ℕ))
    (doc : ReportTarget) : Prop where
  listed : ∀ c ∈ w.partners, IsCustomerOf persons c →
    (doc.customersOrders.map (·.customerCode)).count c.id = 1
  total : doc.totalOrdersCount =
    (ordersWithin w startDate endDate).countP fun o => o.1.customer ∈ customersOf w persons

/-- No sales person with a customer is on two lines, and if a line is without one, the partners
without a sales person had no order created in the range. -/
structure ListsApart (w : Clientele) (startDate endDate : ℤ) (persons : List (Option ℕ)) :
    Prop where
  lines : ∀ c ∈ w.partners, c.active → c.userId ≠ none → persons.count c.userId ≤ 1
  unassigned : none ∈ persons → ∀ c ∈ w.partners, c.active → c.userId = none →
    ∀ o ∈ ordersWithin w startDate endDate, o.1.customer ≠ c.id

/-! ## Lists of customers -/

theorem eq_of_id_eq {c' : Partner} (hc : c ∈ w.partners) (hc' : c' ∈ w.partners)
    (h : c'.id = c.id) : c' = c :=
  List.inj_on_of_nodup_map w.nodup hc' hc h

theorem mem_salesPersonCustomer_iff {person : Option ℕ} :
    c ∈ w.salesPersonCustomer person ↔ c ∈ w.partners ∧ c.active ∧ c.userId = person := by
  rw [Clientele.salesPersonCustomer, List.mem_filter, decide_eq_true_iff]

/-- The list of a sales person holds his own customers only. -/
theorem mem_map_salesPersonCustomer_iff {person : Option ℕ} (hc : c ∈ w.partners)
    (hactive : c.active) :
    c.id ∈ (w.salesPersonCustomer person).map (·.id) ↔ person = c.userId := by
  rw [List.mem_map]
  constructor
  · rintro ⟨c', hc', hid⟩
    obtain ⟨hin, -, huser⟩ := mem_salesPersonCustomer_iff.mp hc'
    rw [← huser, eq_of_id_eq hc hin hid]
  · rintro rfl
    exact ⟨c, mem_salesPersonCustomer_iff.mpr ⟨hc, hactive, rfl⟩, rfl⟩

/-- The `customer_code` column. -/
def listedCodes (w : Clientele) (persons : List (Option ℕ)) : List ℕ :=
  (persons.flatMap w.salesPersonCustomer).map (·.id)

/-- A customer is listed once for each line of his sales person. -/
theorem count_listedCodes (hc : c ∈ w.partners) (hactive : c.active) :
    (listedCodes w persons).count c.id = persons.count c.userId := by
  induction persons with
  | nil => rfl
  | cons person persons ih =>
      have hnodup : ((w.salesPersonCustomer person).map (·.id)).Nodup :=
        w.nodup.sublist (List.filter_sublist.map _)
      rw [listedCodes, List.flatMap_cons, List.map_append, List.count_append, hnodup.count,
        List.count_cons, ← ih, listedCodes, Nat.add_comm]
      simp only [mem_map_salesPersonCustomer_iff hc hactive, beq_iff_eq]

theorem exists_partner_of_mem_listedCodes {code : ℕ} (h : code ∈ listedCodes w persons) :
    ∃ c ∈ w.partners, c.active ∧ c.userId ∈ persons ∧ c.id = code := by
  obtain ⟨c, hc, rfl⟩ := List.mem_map.mp h
  obtain ⟨person, hperson, hc⟩ := List.mem_flatMap.mp hc
  obtain ⟨hin, hactive, rfl⟩ := mem_salesPersonCustomer_iff.mp hc
  exact ⟨c, hin, hactive, hperson, rfl⟩

theorem mem_customersOf_iff (hc : c ∈ w.partners) :
    c.id ∈ customersOf w persons ↔ IsCustomerOf persons c := by
  rw [customersOf, List.mem_map]
  constructor
  · rintro ⟨c', hc', hid⟩
    obtain ⟨hin, hof⟩ := List.mem_filter.mp hc'
    rw [← eq_of_id_eq hc hin hid]
    exact of_decide_eq_true hof
  · intro h
    exact ⟨c, List.mem_filter.mpr ⟨hc, decide_eq_true h⟩, rfl⟩

/-- The partners without a sales person. -/
def unassigned (w : Clientele) : List ℕ := (w.salesPersonCustomer none).map (·.id)

/-- A code of the column is that of a customer of the sales persons, or of a partner without a
sales person, who is listed for every line without one. -/
theorem count_listedCodes_eq (hlisted : ∀ c ∈ w.partners, IsCustomerOf persons c →
    (listedCodes w persons).count c.id = 1) (code : ℕ) :
    (listedCodes w persons).count code =
      (if code ∈ customersOf w persons then 1 else 0) +
        if code ∈ unassigned w then persons.count none else 0 := by
  by_cases hin : ∃ c ∈ w.partners, c.active ∧ c.id = code
  · obtain ⟨c, hc, hactive, rfl⟩ := hin
    have hunassigned : c.id ∈ unassigned w ↔ c.userId = none :=
      (mem_map_salesPersonCustomer_iff hc hactive).trans eq_comm
    simp only [mem_customersOf_iff hc, hunassigned]
    by_cases huser : c.userId = none
    · simp [IsCustomerOf, huser, count_listedCodes hc hactive]
    · by_cases hperson : c.userId ∈ persons
      · have hof : IsCustomerOf persons c := ⟨hactive, huser, hperson⟩
        rw [hlisted c hc hof, if_pos hof, if_neg huser]
      · have hno : ¬ IsCustomerOf persons c := fun h => hperson h.2.2
        rw [if_neg hno, if_neg huser, count_listedCodes hc hactive]
        exact List.count_eq_zero_of_not_mem hperson
  · have hlist : code ∉ listedCodes w persons := by
      intro h
      obtain ⟨c, hc, hactive, -, hid⟩ := exists_partner_of_mem_listedCodes h
      exact hin ⟨c, hc, hactive, hid⟩
    have hcustomer : code ∉ customersOf w persons := by
      intro h
      obtain ⟨c, hc, hid⟩ := List.mem_map.mp h
      obtain ⟨hc, hof⟩ := List.mem_filter.mp hc
      exact hin ⟨c, hc, (of_decide_eq_true hof).1, hid⟩
    have hunassigned : code ∉ unassigned w := by
      intro h
      obtain ⟨c, hc, hid⟩ := List.mem_map.mp h
      obtain ⟨hc, hactive, -⟩ := mem_salesPersonCustomer_iff.mp hc
      exact hin ⟨c, hc, hactive, hid⟩
    rw [List.count_eq_zero_of_not_mem hlist, if_neg hcustomer, if_neg hunassigned]

/-! ## The total -/

theorem customerOrders_eq (code : ℕ) :
    w.customerOrders code startDate endDate =
      (ordersWithin w startDate endDate).countP fun o => o.1.customer = code := by
  rw [Clientele.customerOrders, ordersWithin, List.countP_eq_length_filter, List.filter_filter]
  simp only [createdWithin_iff, Bool.decide_and]

theorem totalOrdersCount_reportTarget (st : Staff) (db : Db) (w : Clientele)
    (team : ℕ × String) (id : ℕ) :
    (reportTarget st db w
      { dateFrom := startDate, dateTo := endDate, salesTeam := team } id).totalOrdersCount =
      ((ordersWithin w startDate endDate).map fun o =>
        (listedCodes w (targetSalesPersons db id)).count o.1.customer).sum := by
  rw [ReportTarget.totalOrdersCount, ← sum_map_countP, List.sum_eq_foldl_nat, List.foldl_map,
    listedCodes, List.foldl_map, reportTarget, Clientele.customersOrders, List.foldl_map]
  simp only [customerOrders_eq]

/-- The printed total counts each order of a customer of the sales persons, and for each line
without a sales person each order of a partner without one. -/
theorem totalOrdersCount_eq (st : Staff) (db : Db) (team : ℕ × String) (id : ℕ)
    (hlisted : ∀ c ∈ w.partners, IsCustomerOf (targetSalesPersons db id) c →
      (listedCodes w (targetSalesPersons db id)).count c.id = 1) :
    (reportTarget st db w
      { dateFrom := startDate, dateTo := endDate, salesTeam := team } id).totalOrdersCount =
      ((ordersWithin w startDate endDate).countP fun o =>
        o.1.customer ∈ customersOf w (targetSalesPersons db id)) +
      ((ordersWithin w startDate endDate).map fun o =>
        if o.1.customer ∈ unassigned w then (targetSalesPersons db id).count none else 0).sum := by
  rw [totalOrdersCount_reportTarget]
  simp only [count_listedCodes_eq hlisted, List.sum_map_add, sum_map_ite_eq_countP]

/-! ## The report -/

theorem listed_iff : (∀ c ∈ w.partners, IsCustomerOf persons c →
      (listedCodes w persons).count c.id = 1) ↔
    ∀ c ∈ w.partners, c.active → c.userId ≠ none → persons.count c.userId ≤ 1 := by
  refine forall₂_congr fun c hc => ?_
  constructor
  · intro h hactive huser
    by_cases hperson : c.userId ∈ persons
    · rw [← count_listedCodes hc hactive, h ⟨hactive, huser, hperson⟩]
    · rw [List.count_eq_zero_of_not_mem hperson]
      exact Nat.zero_le 1
  · rintro h ⟨hactive, huser, hperson⟩
    rw [count_listedCodes hc hactive]
    exact Nat.le_antisymm (h hactive huser) (List.one_le_count_iff.mpr hperson)

theorem unassigned_iff : ((ordersWithin w startDate endDate).map fun o =>
      if o.1.customer ∈ unassigned w then persons.count none else 0).sum = 0 ↔
    (none ∈ persons → ∀ c ∈ w.partners, c.active → c.userId = none →
      ∀ o ∈ ordersWithin w startDate endDate, o.1.customer ≠ c.id) := by
  rw [List.sum_eq_zero_iff_forall_eq_nat, List.forall_mem_map]
  constructor
  · intro h hnone c hc hactive huser o ho hid
    have hmem : o.1.customer ∈ unassigned w :=
      List.mem_map.mpr ⟨c, mem_salesPersonCustomer_iff.mpr ⟨hc, hactive, huser⟩, hid.symm⟩
    have hzero := h o ho
    rw [if_pos hmem, List.count_eq_zero] at hzero
    exact hzero hnone
  · intro h o ho
    split
    · next hmem =>
        obtain ⟨c, hc, hid⟩ := List.mem_map.mp hmem
        obtain ⟨hc, hactive, huser⟩ := mem_salesPersonCustomer_iff.mp hc
        rw [List.count_eq_zero]
        exact fun hnone => h hnone c hc hactive huser o ho hid.symm
    · rfl

/-- The report on one target. -/
theorem countsOnce_iff (st : Staff) (db : Db) (team : ℕ × String) (id : ℕ) :
    CountsOnce w startDate endDate (targetSalesPersons db id)
        (reportTarget st db w { dateFrom := startDate, dateTo := endDate, salesTeam := team } id) ↔
      ListsApart w startDate endDate (targetSalesPersons db id) := by
  have hcodes : (reportTarget st db w
        { dateFrom := startDate, dateTo := endDate, salesTeam := team } id).customersOrders.map
        (·.customerCode) = listedCodes w (targetSalesPersons db id) := by
    rw [reportTarget, Clientele.customersOrders, List.map_map, listedCodes]
    rfl
  constructor
  · rintro ⟨hlisted, htotal⟩
    rw [hcodes] at hlisted
    rw [totalOrdersCount_eq st db team id hlisted, Nat.add_eq_left, unassigned_iff] at htotal
    exact ⟨listed_iff.mp hlisted, htotal⟩
  · rintro ⟨hlines, hunassigned⟩
    have hlisted := listed_iff.mpr hlines
    refine ⟨hcodes ▸ hlisted, ?_⟩
    rw [totalOrdersCount_eq st db team id hlisted, Nat.add_eq_left, unassigned_iff]
    exact hunassigned

/-- With no sales person chosen, the report on a target lists each customer of its sales persons
once and prints the number of their orders if and only if the lines list apart. -/
theorem report_counts_once_iff (st : Staff) (db : Db) (w : Clientele) (dateFrom dateTo : ℤ)
    (team : ℕ × String) :
    ∃ docs, getReportLinesData st db w { dateFrom, dateTo, salesTeam := team } = .ok docs ∧
      List.Forall₂ (fun id doc =>
          CountsOnce w dateFrom dateTo (targetSalesPersons db id) doc ↔
            ListsApart w dateFrom dateTo (targetSalesPersons db id))
        (foundTargets db { dateFrom, dateTo, salesTeam := team }) docs := by
  refine ⟨_, rfl, ?_⟩
  rw [List.forall₂_map_right_iff, List.forall₂_same]
  exact fun id _ => countsOnce_iff st db team id

/-- The only member of the team takes the ten orders of the target on two lines of five. -/
def sharedTarget : Db :=
  run (step { team := fun _ => { memberIds := [2] } }) {}
    [.createTargets [{ startDate := some (some 0), endDate := some (some 30),
                       targetOrders := some 10, salesTeam := some (some 0),
                       targetLineIds := some
                        [.create { salesPerson := some (some 2), target := some 5 },
                         .create { salesPerson := some (some 2), target := some 5 }] }]]

/-- His customer is listed twice. -/
theorem customer_listed_twice :
    ∃ doc, getReportLinesData { team := fun _ => { memberIds := [2] } } sharedTarget
        { partners := [{ id := 7, userId := some 2 }], nodup := List.nodup_singleton 7 }
        { dateFrom := 0, dateTo := 30, salesTeam := (0, "Cairo") } = .ok [doc] ∧
      ¬ CountsOnce { partners := [{ id := 7, userId := some 2 }], nodup := List.nodup_singleton 7 }
        0 30 (targetSalesPersons sharedTarget 0) doc := by
  refine ⟨_, rfl, fun h => ?_⟩
  have hcount := h.listed { id := 7, userId := some 2 } List.mem_cons_self (by decide +kernel)
  exact absurd hcount (by decide +kernel)

end Crm

end Fastrak
