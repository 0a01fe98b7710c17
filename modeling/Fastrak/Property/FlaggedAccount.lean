import Fastrak.Account.Chart
import Fastrak.Withdraw.Operation

/-!
# The accounts of a flag

A constraint counts the accounts of one company, while a lookup searches in all the
companies of the user. So the lookups find one account at most exactly as long as no
flag is given in one company while an account of another company carries it.
-/

namespace Fastrak

open Transaction Run Table

namespace Chart

/-! ## What an event does -/

section Effect

variable (chart : Chart)

/-- The records a create or a write is called on. -/
def Event.self : Event → List ℕ
  | .create _ valsList => (List.range valsList.length).map (chart.length + ·)
  | .write self _ => self

/-- The chart that an event leaves when it does not raise. -/
def Event.records : Event → Chart
  | .create companyId valsList => chart ++ valsList.map (·.apply { companyId })
  | .write self vals => chart.mapIdx fun i a => if i ∈ self then vals.apply a else a

def Event.given : Event → Flag → Bool
  | .create _ valsList, f => valsList.any fun vals => (vals.flag f).isSome
  | .write _ vals, f => (vals.flag f).isSome

def Event.Passes (e : Event) : Prop :=
  (∀ i ∈ e.self chart, i < (e.records chart).length) ∧
    ∀ f, e.given f = true → constraint f (e.records chart) (e.self chart) = .ok ⟨⟩

end Effect

variable {chart chart' : Chart} {e : Event} {f : Flag} {i j : ℕ} {a b : CustomAccount}

theorem constraint_eq_checkFlag (f : Flag) :
    ∃ message, constraint f = checkFlag (·.flag f) message := by
  cases f <;> exact ⟨_, rfl⟩

theorem companyIds_singleton (h : chart[i]? = some a) : companyIds chart [i] = [a.companyId] := by
  rw [companyIds, List.filterMap_cons_some (by rw [h]; rfl), List.filterMap_nil]
  rfl

/-- A constraint that is run on one account looks at the accounts of its company. -/
theorem constraint_singleton_ok_iff (h : chart[i]? = some a) :
    constraint f chart [i] = .ok ⟨⟩ ↔ ¬ (a.flag f = true ∧
      ∃ j b, j ≠ i ∧ chart[j]? = some b ∧ b.flag f = true ∧ b.companyId = a.companyId) := by
  obtain ⟨message, hm⟩ := constraint_eq_checkFlag f
  have hfound :
      (search (fun b => b.flag f && b.companyId == a.companyId) chart).filter (· ≠ i) ≠ [] ↔
        ∃ j b, j ≠ i ∧ chart[j]? = some b ∧ b.flag f = true ∧ b.companyId = a.companyId := by
    rw [List.ne_nil_iff_length_pos, List.length_pos_iff_exists_mem]
    constructor
    · rintro ⟨j, hj⟩
      obtain ⟨hj, hne⟩ := List.mem_filter.mp hj
      obtain ⟨b, hb, hp⟩ := mem_search_iff.mp hj
      exact ⟨j, b, by simpa using hne, hb, by simpa using hp⟩
    · rintro ⟨j, b, hne, hb, hp⟩
      have hj : j ∈ search (fun b => b.flag f && b.companyId == a.companyId) chart :=
        mem_search_iff.mpr ⟨b, hb, by simpa using hp⟩
      exact ⟨j, List.mem_filter.mpr ⟨hj, by simpa using hne⟩⟩
  rw [hm, checkFlag, companyIds_singleton h]
  change raiseIf _ message = _ ↔ _
  rw [raiseIf_eq_ok_iff, hfound, h, Option.any_some, and_comm]

/-- A constraint that is run on several accounts raises. -/
theorem constraint_ne_ok {self : List ℕ} (h : 2 ≤ self.length) :
    constraint f chart self ≠ .ok ⟨⟩ := by
  obtain ⟨message, hm⟩ := constraint_eq_checkFlag f
  rcases self with _ | ⟨i, _ | ⟨j, self⟩⟩
  · simp at h
  · simp at h
  · intro hok
    rw [hm, checkFlag, except_bind_ok_iff] at hok
    obtain ⟨companyId, -, hok⟩ := hok
    rw [except_bind_ok_iff] at hok
    obtain ⟨id, hid, -⟩ := hok
    cases hid

theorem validateField_ok_iff {given : Flag → Bool} {self : List ℕ} :
    validateField given chart self f = .ok ⟨⟩ ↔
      (given f = true → constraint f chart self = .ok ⟨⟩) := by
  unfold validateField
  by_cases hf : given f = true
  · simp [hf]
  · simp [hf, pure, Except.pure]

theorem validateFields_ok_iff {given : Flag → Bool} {self : List ℕ} :
    validateFields given chart self = .ok ⟨⟩ ↔
      ∀ f, given f = true → constraint f chart self = .ok ⟨⟩ := by
  simp only [validateFields, except_bind_ok_iff]
  constructor
  · rintro ⟨⟨⟩, hcommission, ⟨⟩, hcustody, ⟨⟩, hbank, hcollection⟩ f
    rw [← validateField_ok_iff]
    cases f
    · exact hcommission
    · exact hcustody
    · exact hbank
    · exact hcollection
  · intro h
    have hfield : ∀ f, validateField given chart self f = .ok ⟨⟩ :=
      fun f => validateField_ok_iff.mpr (h f)
    exact ⟨⟨⟩, hfield _, ⟨⟩, hfield _, ⟨⟩, hfield _, hfield _⟩

theorem perform_run_ok_iff :
    (perform e).run chart = .ok ⟨⟩ chart' ↔ e.Passes chart ∧ e.records chart = chart' := by
  cases e with
  | create companyId valsList =>
      change (create companyId valsList).run chart = _ ↔ _
      rw [create, get_bind_run, modify_bind_run, get_bind_run, lift_run_ok_iff,
        validateFields_ok_iff]
      refine and_congr_left fun _ => (and_iff_right ?_).symm
      intro i hi
      simp only [Event.self, List.mem_map, List.mem_range] at hi
      obtain ⟨k, hk, rfl⟩ := hi
      simpa [Event.records] using hk
  | write self vals =>
      change (write self vals).run chart = _ ↔ _
      rw [write, get_bind_run, raiseIf_bind_run_ok_iff, modify_bind_run, get_bind_run,
        lift_run_ok_iff, validateFields_ok_iff, ← and_assoc]
      refine and_congr_left fun _ => and_congr_left fun _ => ?_
      simp [Event.self, Event.records]

/-- An event that passes does what it says, and another one does nothing. -/
theorem step_cases (chart : Chart) (e : Event) :
    e.Passes chart ∧ step chart e = e.records chart ∨ ¬ e.Passes chart ∧ step chart e = chart := by
  rcases atomic_snd_cases (perform e) chart with ⟨⟨⟩, h⟩ | ⟨⟨message, chart', h⟩, hs⟩
  · obtain ⟨hp, hs⟩ := perform_run_ok_iff.mp h
    exact .inl ⟨hp, hs.symm⟩
  · refine .inr ⟨fun hp => ?_, hs⟩
    rw [perform_run_ok_iff.mpr ⟨hp, rfl⟩] at h
    cases h

/-- The accounts an event is not called on stay. -/
theorem records_of_notMem (h : i ∉ e.self chart) : (e.records chart)[i]? = chart[i]? := by
  cases e with
  | create companyId valsList =>
      rw [Event.records, List.getElem?_append]
      split
      · rfl
      · next hi =>
          have hlen : valsList.length ≤ i - chart.length := by
            by_contra hlt
            refine h (List.mem_map.mpr ⟨i - chart.length, List.mem_range.mpr (by omega), ?_⟩)
            omega
          rw [List.getElem?_eq_none (by simpa using hlen), List.getElem?_eq_none (by omega)]
  | write self vals =>
      have hi : i ∉ self := h
      rw [Event.records, List.getElem?_mapIdx]
      simp [hi]

/-- A flag is carried since before, or is given. -/
theorem flag_of_records (h : (e.records chart)[i]? = some a) (ha : a.flag f = true) :
    (∃ b, chart[i]? = some b ∧ b.flag f = true) ∨ i ∈ e.self chart ∧ e.given f = true := by
  by_cases hi : i ∈ e.self chart
  · cases e with
    | create companyId valsList =>
        obtain ⟨k, hk, rfl⟩ := List.mem_map.mp hi
        rw [Event.records, List.getElem?_append_right (Nat.le_add_right ..),
          Nat.add_sub_cancel_left, List.getElem?_map, Option.map_eq_some_iff] at h
        obtain ⟨vals, hvals, rfl⟩ := h
        refine .inr ⟨hi, List.any_eq_true.mpr ⟨vals, List.mem_of_getElem? hvals, ?_⟩⟩
        rw [AccountVals.apply_flag] at ha
        cases hf : vals.flag f with
        | none =>
            rw [hf] at ha
            cases f <;> cases ha
        | some v => rfl
    | write self vals =>
        rw [Event.records, List.getElem?_mapIdx, Option.map_eq_some_iff] at h
        obtain ⟨b, hb, rfl⟩ := h
        have hself : i ∈ self := hi
        rw [if_pos hself, AccountVals.apply_flag] at ha
        cases hf : vals.flag f with
        | none =>
            rw [hf] at ha
            exact .inl ⟨b, hb, ha⟩
        | some v => exact .inr ⟨hi, by rw [Event.given, hf]; rfl⟩
  · rw [records_of_notMem hi] at h
    exact .inl ⟨a, h, ha⟩

/-! ## One account for each flag -/

/-- The event puts the flag on the single account it is called on, which becomes `a`. -/
structure Event.Gives (e : Event) (chart : Chart) (f : Flag) (i : ℕ) (a : CustomAccount) :
    Prop where
  self : e.self chart = [i]
  account : (e.records chart)[i]? = some a
  given : e.given f = true
  flag : a.flag f = true

/-- The event puts a flag on an account, which becomes `a`, while the other account `b`
carries it. -/
def Event.Doubles (e : Event) (chart : Chart) (a b : CustomAccount) : Prop :=
  ∃ f i j, e.Gives chart f i a ∧ j ≠ i ∧ chart[j]? = some b ∧ b.flag f = true

/-- An event that gives a flag which an account of another company carries gives one that
another account of the same company carries too. -/
def Event.KeepsCompaniesApart (e : Event) (chart : Chart) : Prop :=
  (∃ a b, e.Doubles chart a b ∧ b.companyId ≠ a.companyId) →
    ∃ a b, e.Doubles chart a b ∧ b.companyId = a.companyId

def IsFlaggedOnce (chart : Chart) : Prop := ∀ f, Sole (·.flag f) chart

/-- The constraints refuse a second account of the same company. -/
theorem Event.Passes.companyId_ne (h : e.Passes chart) (hd : e.Doubles chart a b) :
    b.companyId ≠ a.companyId := by
  obtain ⟨f, i, j, hg, hne, hb, hf⟩ := hd
  have hj : j ∉ e.self chart := by simpa [hg.self] using hne
  have hok := h.2 f hg.given
  rw [hg.self, constraint_singleton_ok_iff hg.account] at hok
  exact fun heq => hok ⟨hg.flag, j, b, hne, (records_of_notMem hj).trans hb, hf, heq⟩

/-- What is refused for one account is refused for a flag of the same company. -/
theorem Event.Gives.exists_doubles_of_not_passes (hg : e.Gives chart f i a) (h : ¬ e.Passes chart) :
    ∃ a b, e.Doubles chart a b ∧ b.companyId = a.companyId := by
  by_contra hno
  refine h ⟨?_, ?_⟩
  · rw [hg.self]
    intro k hk
    rw [List.mem_singleton.mp hk]
    exact (List.getElem?_eq_some_iff.mp hg.account).1
  · intro f' hf'
    rw [hg.self, constraint_singleton_ok_iff hg.account]
    rintro ⟨ha, j, b, hne, hb, hbf, heq⟩
    have hj : j ∉ e.self chart := by simpa [hg.self] using hne
    rw [records_of_notMem hj] at hb
    exact hno ⟨a, b, ⟨f', i, j, ⟨hg.self, hg.account, hf', ha⟩, hne, hb, hbf⟩, heq⟩

/-- An accepted event under which no flag is doubled. -/
theorem Event.Passes.sole_records (h : e.Passes chart) (hc : Sole (·.flag f) chart)
    (hd : ∀ a b, ¬ e.Doubles chart a b) : Sole (·.flag f) (e.records chart) := by
  by_cases hf : e.given f = true
  · rcases hself : e.self chart with _ | ⟨i, _ | ⟨i', self⟩⟩
    · refine hc.of_held fun k b hb hbf => ?_
      rcases flag_of_records hb hbf with hheld | ⟨hk, -⟩
      · exact hheld
      · rw [hself] at hk
        cases hk
    · have hi : i < (e.records chart).length := h.1 i (by rw [hself]; exact List.mem_cons_self)
      obtain ⟨a, ha⟩ : ∃ a, (e.records chart)[i]? = some a := ⟨_, List.getElem?_eq_getElem hi⟩
      by_cases haf : a.flag f = true
      · refine .of_only i fun k b hb hbf => ?_
        by_contra hne
        have hk : k ∉ e.self chart := by simpa [hself] using hne
        rw [records_of_notMem hk] at hb
        exact hd a b ⟨f, i, k, ⟨hself, ha, hf, haf⟩, hne, hb, hbf⟩
      · refine hc.of_held fun k b hb hbf => ?_
        rcases flag_of_records hb hbf with hheld | ⟨hk, -⟩
        · exact hheld
        · rw [hself, List.mem_singleton] at hk
          rw [hk, ha, Option.some.injEq] at hb
          exact absurd (hb ▸ hbf) haf
    · exact absurd (h.2 f hf) (constraint_ne_ok (by simp [hself]))
  · refine hc.of_held fun k b hb hbf => ?_
    rcases flag_of_records hb hbf with hheld | ⟨-, hgiven⟩
    · exact hheld
    · exact absurd hgiven hf

theorem Event.Doubles.not_isFlaggedOnce (hd : e.Doubles chart a b) :
    ¬ IsFlaggedOnce (e.records chart) := by
  obtain ⟨f, i, j, hg, hne, hb, hf⟩ := hd
  intro h
  have hj : j ∉ e.self chart := by simpa [hg.self] using hne
  exact hne (h f j i b a ((records_of_notMem hj).trans hb) hf hg.account hg.flag)

/-- The step lemma. -/
theorem isFlaggedOnce_step_iff (h : IsFlaggedOnce chart) :
    IsFlaggedOnce (step chart e) ↔ e.KeepsCompaniesApart chart := by
  rcases step_cases chart e with ⟨hp, hs⟩ | ⟨hp, hs⟩
  · rw [hs]
    constructor
    · rintro hr ⟨a, b, hd, -⟩
      exact absurd hr hd.not_isFlaggedOnce
    · intro hk f
      refine hp.sole_records (h f) fun a b hd => ?_
      obtain ⟨a', b', hd', heq⟩ := hk ⟨a, b, hd, hp.companyId_ne hd⟩
      exact hp.companyId_ne hd' heq
  · rw [hs]
    refine ⟨?_, fun _ => h⟩
    rintro - ⟨a, b, ⟨f, i, j, hg, -⟩, -⟩
    exact hg.exists_doubles_of_not_passes hp

theorem isFlaggedOnce_nil : IsFlaggedOnce [] := fun _ => Sole.nil

/-! ## Lookups -/

/-- Each lookup finds one account at most, whose `.id` is read without an error. -/
def LooksUpOne (chart : Chart) : Prop :=
  ∀ companies f, (lookup companies f chart).length ≤ 1 ∧
    ∃ id, single "account.account" (lookup companies f chart) = .ok id

theorem exists_single_eq_ok {α : Type} {model : String} {xs : List α} (h : xs.length ≤ 1) :
    ∃ x, single model xs = .ok x := by
  rcases xs with _ | ⟨x, _ | ⟨y, xs⟩⟩
  · exact ⟨none, rfl⟩
  · exact ⟨some x, rfl⟩
  · simp at h

theorem looksUpOne_iff : LooksUpOne chart ↔ IsFlaggedOnce chart := by
  constructor
  · intro h f i j a b ha haf hb hbf
    refine length_search_le_one_iff.mp (h [a.companyId, b.companyId] f).1 i j a b ha ?_ hb ?_
    · simpa using haf
    · simpa using hbf
  · intro h companies f
    have hle : (lookup companies f chart).length ≤ 1 := by
      refine length_search_le_one_iff.mpr fun i j a b ha hpa hb hpb => ?_
      rw [Bool.and_eq_true] at hpa hpb
      exact h f i j a b ha hpa.1 hb hpb.1
    exact ⟨hle, exists_single_eq_ok hle⟩

end Chart

/-! ## Call sites -/

/-- The accounts that operations search are read without an error. -/
structure Settings.FindsOne (st : Settings) : Prop where
  custody : ∃ id, single "account.account" st.custodyAccounts = .ok id
  defaultBank : ∃ id, single "account.account" st.defaultBankAccounts = .ok id
  bankCommission : ∃ id, single "account.account" st.bankCommissionAccounts = .ok id
  moneyCollection : ∃ id, single "account.account" st.moneyCollectionAccounts = .ok id

theorem Chart.LooksUpOne.findsOne {chart : Chart} (h : chart.LooksUpOne) (st : Settings)
    (companies : List ℕ) : (st.withChart companies chart).FindsOne where
  custody := (h companies .custody).2
  defaultBank := (h companies .defaultBank).2
  bankCommission := (h companies .bankCommission).2
  moneyCollection := (h companies .moneyCollection).2

section CallSites

variable {st : Settings} {o : Order} {message : String}

theorem Settings.FindsOne.getRegisterPaymentLines_error {ac : Accounting} {s : OrderSlice}
    (hst : st.FindsOne) (h : getRegisterPaymentLines st ac s o = .error message) :
    getInvoiceMoneyCollectionDriver st o = none ∧
      message = "Something Wrong with the Drivers Assigned Kindly Check it" := by
  obtain ⟨custodyAccount, hcustody⟩ := hst.custody
  rw [getRegisterPaymentLines, hcustody] at h
  cases hd : getInvoiceMoneyCollectionDriver st o with
  | none =>
      rw [hd] at h
      cases h
      exact ⟨rfl, rfl⟩
  | some driver =>
      rw [hd] at h
      cases h

theorem Settings.FindsOne.prepareBankCommissionEntry_error (hst : st.FindsOne)
    (h : prepareBankCommissionEntry st o = .error message) :
    message = "Missing Bank info account for bank commission" := by
  obtain ⟨bankAccount, hbank⟩ := hst.defaultBank
  obtain ⟨commissionAccount, hcommission⟩ := hst.bankCommission
  rw [prepareBankCommissionEntry, hbank, hcommission] at h
  dsimp only [raiseIf] at h
  split at h
  · cases h
    rfl
  · cases h

theorem Settings.FindsOne.getMoneyCollectionEntryLines_error (hst : st.FindsOne)
    (h : getMoneyCollectionEntryLines st o = .error message) :
    getMoneyCollectionEntryDriver st o = .error message ∨
      message = "Delivery Driver Not Assigned Yet" := by
  obtain ⟨custodyAccount, hcustody⟩ := hst.custody
  obtain ⟨bankAccount, hbank⟩ := hst.defaultBank
  obtain ⟨commissionAccount, hcommission⟩ := hst.bankCommission
  obtain ⟨collectionAccount, hcollection⟩ := hst.moneyCollection
  rw [getMoneyCollectionEntryLines, hcustody, hbank, hcommission, hcollection] at h
  cases hd : getMoneyCollectionEntryDriver st o with
  | error e =>
      rw [hd] at h
      cases h
      exact .inl rfl
  | ok driver =>
      rw [hd] at h
      cases driver with
      | none =>
          cases h
          exact .inr rfl
      | some driver => cases hm : o.moneyCollectionPaymentMethod <;> rw [hm] at h <;> cases h

/-- A withdrawal that is not booked misses the account or a cash or bank journal. -/
theorem Settings.FindsOne.getCustomerWithdrawPaymentEntryLines_error {st : WithdrawSettings}
    {r : WithdrawRequest} (hst : st.FindsOne)
    (h : Withdraw.getCustomerWithdrawPaymentEntryLines st r = .error message) :
    st.moneyCollectionAccounts = [] ∨
      ∀ journal ∈ r.paymentJournal, journal.type ≠ .cash ∧ journal.type ≠ .bank := by
  obtain ⟨collectionAccount, hcollection⟩ := hst.moneyCollection
  cases collectionAccount with
  | none => exact .inl (eq_nil_of_single hcollection)
  | some account =>
      refine .inr fun journal hj => ?_
      rw [Withdraw.getCustomerWithdrawPaymentEntryLines, hcollection, hj] at h
      constructor
      · rintro htype
        obtain ⟨id, type, paymentAccountId⟩ := journal
        subst htype
        cases h
      · rintro htype
        obtain ⟨id, type, paymentAccountId⟩ := journal
        subst htype
        cases h

/-- In a run that keeps the companies apart, what books money finds its accounts: it misses a
driver, the bank account of the commission, the account or the journal at most. -/
theorem Chart.call_sites_find_one {es : List Chart.Event}
    (h : Meets Chart.step (fun chart e => e.KeepsCompaniesApart chart) [] es)
    {st : WithdrawSettings} {st₀ : Settings} {companies : List ℕ}
    (hst : st.toSettings = st₀.withChart companies (run Chart.step [] es)) :
    (∀ ac s, getRegisterPaymentLines st.toSettings ac s o = .error message →
      message = "Something Wrong with the Drivers Assigned Kindly Check it") ∧
    (prepareBankCommissionEntry st.toSettings o = .error message →
      message = "Missing Bank info account for bank commission") ∧
    (getMoneyCollectionEntryLines st.toSettings o = .error message →
      getMoneyCollectionEntryDriver st.toSettings o = .error message ∨
        message = "Delivery Driver Not Assigned Yet") ∧
    ∀ r, Withdraw.getCustomerWithdrawPaymentEntryLines st r = .error message →
      st.moneyCollectionAccounts = [] ∨
        ∀ journal ∈ r.paymentJournal, journal.type ≠ .cash ∧ journal.type ≠ .bank := by
  have hkept : IsFlaggedOnce (run step [] es) :=
    (forall_prefix_iff_meets (I := IsFlaggedOnce) (fun _ _ => isFlaggedOnce_step_iff) es
      isFlaggedOnce_nil).mpr h es (List.prefix_refl es)
  have hfinds : st.FindsOne := by
    rw [hst]
    exact (looksUpOne_iff.mpr hkept).findsOne st₀ companies
  exact ⟨fun ac s herr => (hfinds.getRegisterPaymentLines_error herr).2,
    hfinds.prepareBankCommissionEntry_error, hfinds.getMoneyCollectionEntryLines_error,
    fun r => Settings.FindsOne.getCustomerWithdrawPaymentEntryLines_error hfinds⟩

end CallSites

namespace Chart

/-- **Flagged accounts are unique where they are used**, as long as the flags of the
companies are kept apart. -/
theorem flagged_account_is_unique (es : List Event) :
    (∀ es', es' <+: es → LooksUpOne (run step [] es')) ↔
      Meets step (fun chart e => e.KeepsCompaniesApart chart) [] es := by
  simp only [looksUpOne_iff]
  exact forall_prefix_iff_meets (I := IsFlaggedOnce) (fun _ _ => isFlaggedOnce_step_iff) es
    isFlaggedOnce_nil

/-- Two companies with a custody account each. -/
theorem custody_account_is_found_twice :
    ¬ LooksUpOne (run step []
      [.create 1 [{ isCustodyAccount := some true }],
        .create 2 [{ isCustodyAccount := some true }]]) := by
  intro h
  exact absurd (h [1, 2] .custody).1 (by decide +kernel)

end Chart

end Fastrak
