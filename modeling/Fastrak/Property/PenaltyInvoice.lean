import Fastrak.Property.NightlyPenalty

/-!
# One penalty invoice for each group invoice

`create_penalty_invoice` creates an account move the first time and fills the same one again
afterwards. So the links to the penalty invoices only grow, and every account move of a run is
linked to one group invoice. A call leaves every invoice it is made for with the penalty
on one line, as long as different group invoices have different penalty invoices.
-/

namespace Fastrak

open Transaction Run

variable {st : PenaltySettings} {ac : Accounting} {s t r : PenaltyRecords} {id inv : ℕ}

/-! ## The links -/

namespace PenaltyRecords

theorem penaltyInvoice?_congr (h : t.penaltyInvoices = s.penaltyInvoices) (id : ℕ) :
    t.penaltyInvoice? id = s.penaltyInvoice? id := by rw [penaltyInvoice?, h, penaltyInvoice?]

theorem penaltyInvoice?_modifyGroup {g : PenaltyGroup} (hg : s.groups[id]? = some g) (j : ℕ) :
    (s.modifyGroup id (PenaltyGroup.setPenaltyInvoice inv)).penaltyInvoice? j =
      if id = j then some inv else s.penaltyInvoice? j := by
  by_cases hj : id = j
  · subst hj
    rw [if_pos rfl, penaltyInvoice?_eq_some_iff]
    exact ⟨_, (Table.getElem?_modify_of_some hg id _).trans (by rw [if_pos rfl]), rfl⟩
  · simp [penaltyInvoice?, penaltyInvoices, modifyGroup, hj]

/-- Between `s` and `t` no link is replaced, and every account move that is created is the
penalty invoice of one group invoice. -/
structure LinksGrow (s t : PenaltyRecords) : Prop where
  length_le : s.moves.length ≤ t.moves.length
  kept : ∀ id inv, s.penaltyInvoice? id = some inv → t.penaltyInvoice? id = some inv
  new : ∀ id inv, t.penaltyInvoice? id = some inv → s.penaltyInvoice? id = some inv ∨
    s.moves.length ≤ inv ∧ inv < t.moves.length
  created : ∀ inv, s.moves.length ≤ inv → inv < t.moves.length →
    ∃! id, t.penaltyInvoice? id = some inv

namespace LinksGrow

/-- What writes neither the links nor the number of account moves. -/
theorem of_eq (hlength : t.moves.length = s.moves.length)
    (hlinks : t.penaltyInvoices = s.penaltyInvoices) : LinksGrow s t where
  length_le := hlength.ge
  kept _ _ h := (penaltyInvoice?_congr hlinks _).trans h
  new _ _ h := .inl ((penaltyInvoice?_congr hlinks _).symm.trans h)
  created _ hle hlt := absurd (hlength ▸ hlt) (not_lt.mpr hle)

theorem refl (s : PenaltyRecords) : LinksGrow s s := of_eq rfl rfl

theorem trans (h : LinksGrow s t) (h' : LinksGrow t r) : LinksGrow s r where
  length_le := h.length_le.trans h'.length_le
  kept _ _ hs := h'.kept _ _ (h.kept _ _ hs)
  new id inv hr := by
    rcases h'.new id inv hr with ht | ⟨hle, hlt⟩
    · rcases h.new id inv ht with hs | ⟨hle, hlt⟩
      · exact .inl hs
      · exact .inr ⟨hle, hlt.trans_le h'.length_le⟩
    · exact .inr ⟨h.length_le.trans hle, hlt⟩
  created inv hle hlt := by
    by_cases hinv : inv < t.moves.length
    · obtain ⟨id, hid, hunique⟩ := h.created inv hle hinv
      refine ⟨id, h'.kept id inv hid, fun j hj => hunique j ?_⟩
      exact (h'.new j inv hj).resolve_right fun hge => absurd hinv (not_lt.mpr hge.1)
    · exact h'.created inv (not_lt.mp hinv) hlt

end LinksGrow

/-- The penalty invoices are in the table, and they are different ones. -/
structure Linked (s : PenaltyRecords) : Prop where
  lt_length : ∀ id inv, s.penaltyInvoice? id = some inv → inv < s.moves.length
  unique : ∀ id j inv, s.penaltyInvoice? id = some inv → s.penaltyInvoice? j = some inv → id = j

theorem Linked.of_forall_none (h : ∀ g ∈ s.groups, g.penaltyInvoice = none) : s.Linked := by
  have hnone (id inv : ℕ) : s.penaltyInvoice? id ≠ some inv := by
    intro hid
    obtain ⟨g, hg, hinv⟩ := penaltyInvoice?_eq_some_iff.mp hid
    cases (h g (List.mem_of_getElem? hg)).symm.trans hinv
  exact ⟨fun id inv hid => absurd hid (hnone id inv),
    fun id _ inv hid => absurd hid (hnone id inv)⟩

theorem Linked.of_linksGrow (hs : s.Linked) (h : LinksGrow s t) : t.Linked where
  lt_length id inv ht := by
    rcases h.new id inv ht with hs' | hnew
    · exact (hs.lt_length id inv hs').trans_le h.length_le
    · exact hnew.2
  unique id j inv hid hj := by
    by_cases hinv : inv < s.moves.length
    · have hold (i) (hi : t.penaltyInvoice? i = some inv) : s.penaltyInvoice? i = some inv :=
        (h.new i inv hi).resolve_right fun hge => absurd hinv (not_lt.mpr hge.1)
      exact hs.unique id j inv (hold id hid) (hold j hj)
    · rcases h.new id inv hid with hs' | hnew
      · exact absurd (hs.lt_length id inv hs') hinv
      · exact (h.created inv hnew.1 hnew.2).unique hid hj

end PenaltyRecords

namespace PenaltyGroup

open PenaltyRecords

/-! ## One round -/

/-- A round writes the link of a group invoice that has none. -/
theorem CreatesPenaltyInvoice.kept (h : CreatesPenaltyInvoice ac s id t) {j : ℕ}
    (hj : s.penaltyInvoice? j = some inv) : t.penaltyInvoice? j = some inv := by
  cases h with
  | @created g m hg hnone _ =>
      have hne : id ≠ j := by
        rintro rfl
        cases hj.symm.trans ((penaltyInvoice?_of_group hg).trans hnone)
      exact (penaltyInvoice?_modifyGroup (s := s.addMove m) hg j).trans (by rwa [if_neg hne])
  | updated => exact hj

theorem CreatesPenaltyInvoice.linksGrow (hs : s.Linked) (h : CreatesPenaltyInvoice ac s id t) :
    LinksGrow s t := by
  have hkept (j inv : ℕ) (hj : s.penaltyInvoice? j = some inv) : t.penaltyInvoice? j = some inv :=
    h.kept hj
  cases h with
  | @created g m hg _ _ =>
      have hlength : ((s.addMove m).modifyGroup id
          (setPenaltyInvoice s.moves.length)).moves.length = s.moves.length + 1 :=
        List.length_append
      have hlinks (j : ℕ) : ((s.addMove m).modifyGroup id
          (setPenaltyInvoice s.moves.length)).penaltyInvoice? j =
            if id = j then some s.moves.length else s.penaltyInvoice? j :=
        penaltyInvoice?_modifyGroup (s := s.addMove m) hg j
      refine ⟨by omega, hkept, fun j inv hj => ?_, fun inv hle hlt => ?_⟩
      · rw [hlinks] at hj
        split at hj
        · obtain rfl := Option.some.inj hj
          exact .inr ⟨le_rfl, by omega⟩
        · exact .inl hj
      · obtain rfl : inv = s.moves.length := by omega
        refine ⟨id, (hlinks id).trans (if_pos rfl), fun j hj => ?_⟩
        replace hj := (hlinks j).symm.trans hj
        split at hj
        · next heq => exact heq.symm
        · exact absurd (hs.lt_length j _ hj) (lt_irrefl _)
  | updated => exact LinksGrow.of_eq (List.length_modify ..) rfl

/-- The penalty invoice of the group invoice charges its penalty. -/
def IsCharged (s : PenaltyRecords) (id : ℕ) : Prop :=
  ∃ g inv m, s.groups[id]? = some g ∧ g.penaltyInvoice = some inv ∧ s.moves[inv]? = some m ∧
    g.ChargesPenalty m

theorem CreatesPenaltyInvoice.isCharged (h : CreatesPenaltyInvoice ac s id t) :
    IsCharged t id := by
  cases h with
  | @created g m hg _ hcharges =>
      refine ⟨g.setPenaltyInvoice s.moves.length, s.moves.length, m, ?_, rfl, ?_, hcharges⟩
      · exact (Table.getElem?_modify_of_some hg id _).trans (by rw [if_pos rfl])
      · exact List.getElem?_concat_length
  | @updated g inv m f hg hinv hm _ hcharges =>
      exact ⟨g, inv, f m, hg, hinv,
        (Table.getElem?_modify_of_some hm inv f).trans (by rw [if_pos rfl]), hcharges⟩

/-- A round leaves the other group invoices and their penalty invoices alone. -/
theorem CreatesPenaltyInvoice.frame (hs : s.Linked) (h : CreatesPenaltyInvoice ac s id t) {j : ℕ}
    (hj : j ≠ id) {g : PenaltyGroup} {m : Move} (hg : s.groups[j]? = some g)
    (hinv : g.penaltyInvoice = some inv) (hm : s.moves[inv]? = some m) :
    t.groups[j]? = some g ∧ t.moves[inv]? = some m := by
  cases h with
  | created =>
      refine ⟨?_, Table.getElem?_append_of_some hm _⟩
      exact (Table.getElem?_modify_of_some hg id _).trans (by rw [if_neg hj.symm])
  | @updated g' inv' m' f hg' hinv' =>
      refine ⟨hg, (Table.getElem?_modify_of_some hm inv' f).trans ?_⟩
      have hne : inv' ≠ inv := by
        rintro rfl
        exact hj (hs.unique j id inv' ((penaltyInvoice?_of_group hg).trans hinv)
          ((penaltyInvoice?_of_group hg').trans hinv'))
      rw [if_neg hne]

/-! ## One call -/

/-- A round of the call and the rounds that are left. -/
theorem createPenaltyInvoice_cons_run_ok {ids : List ℕ} {u : PUnit}
    (h : (createPenaltyInvoice st ac (id :: ids)).run s = .ok u t) :
    ∃ r, CreatesPenaltyInvoice ac s id r ∧
      (createPenaltyInvoice st ac ids).run r = .ok u t := by
  obtain ⟨_, r, hround, h⟩ := run_bind_ok_iff.mp h
  exact ⟨r, createPenaltyInvoiceOf_run_ok hround, h⟩

theorem createPenaltyInvoice_kept {ids : List ℕ} {u : PUnit} {j : ℕ}
    (h : (createPenaltyInvoice st ac ids).run s = .ok u t) (hj : s.penaltyInvoice? j = some inv) :
    t.penaltyInvoice? j = some inv := by
  induction ids generalizing s with
  | nil =>
      cases h
      exact hj
  | cons id ids ih =>
      obtain ⟨r, hround, h⟩ := createPenaltyInvoice_cons_run_ok h
      exact ih h (hround.kept hj)

theorem createPenaltyInvoice_linksGrow {ids : List ℕ} {u : PUnit} (hs : s.Linked)
    (h : (createPenaltyInvoice st ac ids).run s = .ok u t) : LinksGrow s t := by
  induction ids generalizing s with
  | nil =>
      cases h
      exact LinksGrow.refl _
  | cons id ids ih =>
      obtain ⟨r, hround, h⟩ := createPenaltyInvoice_cons_run_ok h
      have hgrow := hround.linksGrow hs
      exact hgrow.trans (ih (hs.of_linksGrow hgrow) h)

/-- The rounds on a list keep what is charged, and charge what is on the list. -/
theorem createPenaltyInvoice_isCharged {ids : List ℕ} {u : PUnit} (hs : s.Linked)
    (h : (createPenaltyInvoice st ac ids).run s = .ok u t) {j : ℕ}
    (hj : j ∈ ids ∨ IsCharged s j) : IsCharged t j := by
  induction ids generalizing s with
  | nil =>
      cases h
      exact hj.resolve_left List.not_mem_nil
  | cons id ids ih =>
      obtain ⟨r, hround, h⟩ := createPenaltyInvoice_cons_run_ok h
      refine ih (hs.of_linksGrow (hround.linksGrow hs)) h ?_
      by_cases hid : j = id
      · subst hid
        exact .inr hround.isCharged
      · refine hj.imp (fun hmem => (List.mem_cons.mp hmem).resolve_left hid) ?_
        rintro ⟨g, inv, m, hg, hinv, hm, hcharges⟩
        obtain ⟨hg', hm'⟩ := hround.frame hs hid hg hinv hm
        exact ⟨g, inv, m, hg', hinv, hm', hcharges⟩

/-- The payment state of the penalty invoice is not `not_paid` any more. -/
def IsSettled (ac : Accounting) (s : PenaltyRecords) (id : ℕ) : Prop :=
  ∃ g inv m, s.groups[id]? = some g ∧ g.penaltyInvoice = some inv ∧ s.moves[inv]? = some m ∧
    ac.paymentState m ≠ .notPaid

theorem CreatesPenaltyInvoice.not_isSettled (h : CreatesPenaltyInvoice ac s id t) :
    ¬ IsSettled ac s id := by
  rintro ⟨g, inv, m, hg, hinv, hm, hsettled⟩
  cases h with
  | created hg' hnone =>
      obtain rfl := Option.some.inj (hg.symm.trans hg')
      cases hinv.symm.trans hnone
  | updated hg' hinv' hm' hstate =>
      obtain rfl := Option.some.inj (hg.symm.trans hg')
      obtain rfl := Option.some.inj (hinv.symm.trans hinv')
      obtain rfl := Option.some.inj (hm.symm.trans hm')
      exact hsettled hstate

/-- No call returns when one of the invoices is settled. -/
theorem createPenaltyInvoice_not_ok {ids : List ℕ} {u : PUnit} (hs : s.Linked) {j : ℕ}
    (hj : j ∈ ids) (hsettled : IsSettled ac s j) :
    (createPenaltyInvoice st ac ids).run s ≠ .ok u t := by
  intro h
  induction ids generalizing s with
  | nil => exact List.not_mem_nil hj
  | cons id ids ih =>
      obtain ⟨r, hround, h⟩ := createPenaltyInvoice_cons_run_ok h
      have hid : j ≠ id := by
        rintro rfl
        exact hround.not_isSettled hsettled
      obtain ⟨g, inv, m, hg, hinv, hm, hstate⟩ := hsettled
      obtain ⟨hg', hm'⟩ := hround.frame hs hid hg hinv hm
      exact ih (hs.of_linksGrow (hround.linksGrow hs)) ((List.mem_cons.mp hj).resolve_left hid)
        ⟨g, inv, m, hg', hinv, hm', hstate⟩ h

/-! ## A run -/

section

variable (st ac)

theorem step_cases (s : PenaltyRecords) (e : Event) :
    (perform st ac e).run s = .ok ⟨⟩ (step st ac s e) ∨
      (∃ message t, (perform st ac e).run s = .error message t) ∧ step st ac s e = s :=
  (atomic_snd_cases (perform st ac e) s).imp_left fun ⟨_, h⟩ => h

/-- A step is a call of `create_penalty_invoice` that returns, or it writes neither the links
nor the number of account moves. -/
theorem step_effect (s : PenaltyRecords) (e : Event) :
    (∃ ids, (createPenaltyInvoice st ac ids).run s = .ok ⟨⟩ (step st ac s e)) ∨
      (step st ac s e).moves.length = s.moves.length ∧
        (step st ac s e).penaltyInvoices = s.penaltyInvoices := by
  have hrespects {x : Tx PUnit} {t : PenaltyRecords} (hx : Respects linksFrame x)
      (h : x.run s = .ok ⟨⟩ t) :
      t.moves.length = s.moves.length ∧ t.penaltyInvoices = s.penaltyInvoices := by
    have hrel := hx s
    rw [h] at hrel
    exact (Prod.mk.inj hrel).imp_left (congrArg List.length)
  rcases step_cases st ac s e with h | ⟨-, h⟩
  · cases e with
    | calculatePenalty today ids => exact .inr (hrespects (respects_calculatePenalty today ids) h)
    | scheduledPenaltyCalculator today =>
        exact .inr (hrespects (respects_scheduledPenaltyCalculator today) h)
    | confirmGroupInvoicePayment ids =>
        exact .inr (hrespects (respects_confirmGroupInvoicePayment ids) h)
    | createPenaltyInvoice ids => exact .inl ⟨ids, h⟩
    | pay inv amount => exact .inr ⟨List.length_modify .., rfl⟩
  · rw [h]
    exact .inr ⟨rfl, rfl⟩

theorem step_kept (s : PenaltyRecords) (e : Event) {j : ℕ}
    (hj : s.penaltyInvoice? j = some inv) : (step st ac s e).penaltyInvoice? j = some inv := by
  rcases step_effect st ac s e with ⟨ids, h⟩ | ⟨-, h⟩
  · exact createPenaltyInvoice_kept h hj
  · exact (penaltyInvoice?_congr h j).trans hj

theorem step_linksGrow (hs : s.Linked) (e : Event) : LinksGrow s (step st ac s e) := by
  rcases step_effect st ac s e with ⟨ids, h⟩ | ⟨hlength, hlinks⟩
  · exact createPenaltyInvoice_linksGrow hs h
  · exact LinksGrow.of_eq hlength hlinks

theorem run_linksGrow (hs : s.Linked) (es : List Event) :
    LinksGrow s (run (step st ac) s es) :=
  relation (I := Linked) (fun _ e hs _ => hs.of_linksGrow (step_linksGrow st ac hs e))
    LinksGrow.refl LinksGrow.trans (fun _ e hs _ => step_linksGrow st ac hs e) hs
    (Meets.trivial s es)

/-- In every run the penalty invoice of a group invoice is set at most once, and every account
move of the run is the penalty invoice of one group invoice. A call that returns leaves the
penalty on one line of the posted invoices, and it raises and changes nothing when one of the
invoices is settled. -/
theorem one_penalty_invoice_in_step (hs : s.Linked) (es : List Event) :
    (∀ id, changes (step st ac) (fun s => s.penaltyInvoice? id) s es ≤ 1) ∧
      LinksGrow s (run (step st ac) s es) ∧
      (∀ ids t, (createPenaltyInvoice st ac ids).run (run (step st ac) s es) = .ok ⟨⟩ t →
        ∀ id ∈ ids, IsCharged t id) ∧
      ∀ ids, (∃ id ∈ ids, IsSettled ac (run (step st ac) s es) id) →
        (∃ message t, (createPenaltyInvoice st ac ids).run (run (step st ac) s es) =
          .error message t) ∧
        step st ac (run (step st ac) s es) (.createPenaltyInvoice ids) =
          run (step st ac) s es := by
  have hgrow := run_linksGrow st ac hs es
  have hlinked := hs.of_linksGrow hgrow
  refine ⟨fun id => changes_le_one (fun s e _ h => step_kept st ac s e h) s es, hgrow, ?_, ?_⟩
  · intro ids t h id hid
    exact createPenaltyInvoice_isCharged hlinked h (.inl hid)
  · rintro ids ⟨id, hid, hsettled⟩
    refine (step_cases st ac _ (.createPenaltyInvoice ids)).resolve_left fun h => ?_
    exact createPenaltyInvoice_not_ok hlinked hid hsettled h

end

/-- A company that charges penalties. -/
def penaltySettings : PenaltySettings where
  toSettings := .sample
  mainPenaltyCharges := [{ id := 4, name := "Penalty", costCentersId := some 1 }]

theorem dueOnDayTen_linked : (dueOnDayTen 0 le_rfl).Linked :=
  Linked.of_forall_none fun _ hg => by rw [List.mem_singleton.mp hg]

/-- The penalty is charged on day 15, grows, is charged again and is paid. -/
def chargedTwice : List Event :=
  [.scheduledPenaltyCalculator 15, .createPenaltyInvoice [0], .scheduledPenaltyCalculator 20,
   .createPenaltyInvoice [0], .pay 1 10]

/-- The records after these events. -/
def paidPenalty : PenaltyRecords :=
  run (step penaltySettings .sample) (dueOnDayTen 0 le_rfl) chargedTwice

theorem paidPenalty_isSettled : IsSettled .sample paidPenalty 0 := by
  have hlink : (paidPenalty.groups[0]?).bind (·.penaltyInvoice) = some 1 := by decide +kernel
  have hpaid : (paidPenalty.moves[1]?).map (fun m => Accounting.sample.paymentState m) =
      some .paid := by decide +kernel
  obtain ⟨g, hg, hinv⟩ := Option.bind_eq_some_iff.mp hlink
  obtain ⟨m, hm, hstate⟩ := Option.map_eq_some_iff.mp hpaid
  exact ⟨g, 1, m, hg, hinv, hm, by rw [hstate]; decide⟩

theorem one_penalty_invoice_in_step_of_chargedTwice :
    paidPenalty.moves.length = 2 ∧
      (∀ id, changes (step penaltySettings .sample) (fun s => s.penaltyInvoice? id)
        (dueOnDayTen 0 le_rfl) chargedTwice ≤ 1) ∧
      step penaltySettings .sample paidPenalty (.createPenaltyInvoice [0]) = paidPenalty := by
  obtain ⟨hchanges, -, -, hraises⟩ :=
    one_penalty_invoice_in_step penaltySettings .sample dueOnDayTen_linked chargedTwice
  exact ⟨by decide +kernel, hchanges,
    (hraises [0] ⟨0, List.mem_singleton_self 0, paidPenalty_isSettled⟩).2⟩

end PenaltyGroup

end Fastrak
