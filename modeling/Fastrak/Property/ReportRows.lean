import Fastrak.Property.CreditReference
import Fastrak.Property.Documents
import Fastrak.Property.ElectronicInvoice

/-!
# A row for every document

The report reads the lines of a document and of its orders as if there were one of each. A row
is written exactly if there is one at most; one document without a row takes the whole report
away. A credit note is never led back to its invoice, so that the orders without an invoice
are read for it.
-/

namespace Fastrak

open Transaction Run

namespace ElectronicInvoice

variable {ι : Type} [DecidableEq ι] {st : ReportSettings} {b : Books ι} {d : Document ι}

/-! ## Rows -/

/-- There is one order at most, and one line of it at most charges the main service. -/
def Readable (orders : List Order) : Prop :=
  orders.length ≤ 1 ∧ ∀ o ∈ orders, o.serviceLineIds.countP (·.isMainService) ≤ 1

theorem exists_getOrderAmounts_iff (orders : List Order) :
    (∃ amounts, getOrderAmounts orders = .ok amounts) ↔ Readable orders := by
  have hlines : orders.length ≤ 1 → ((orders.flatMap (·.mainServiceLines)).length ≤ 1 ↔
      ∀ o ∈ orders, o.serviceLineIds.countP (·.isMainService) ≤ 1) := by
    intro hlength
    rcases orders with _ | ⟨o, _ | ⟨o', orders⟩⟩
    · simp
    · simp [Order.mainServiceLines, List.countP_eq_length_filter]
    · exact absurd hlength (by simp)
  simp only [getOrderAmounts, except_bind_ok_iff, except_pure_eq_ok_iff, single_eq_ok_iff]
  constructor
  · rintro ⟨_, _, ⟨hlength, -⟩, _, ⟨hmain, -⟩, -⟩
    exact ⟨hlength, (hlines hlength).mp hmain⟩
  · rintro ⟨hlength, hmain⟩
    exact ⟨_, _, ⟨hlength, rfl⟩, _, ⟨(hlines hlength).mpr hmain, rfl⟩, rfl⟩

theorem readable_nil : Readable [] :=
  ⟨Nat.zero_le 1, fun _ ho => absurd ho List.not_mem_nil⟩

theorem exists_getInvoiceAmounts_iff {orders : List Order}
    (horders : getReportedOrders b d = .ok orders) :
    (∃ amounts, getInvoiceAmounts st b d = .ok amounts) ↔ Readable orders := by
  rw [getInvoiceAmounts, horders]
  cases orders with
  | nil => exact iff_of_true ⟨_, rfl⟩ readable_nil
  | cons o orders => exact exists_getOrderAmounts_iff (o :: orders)

theorem exists_printRow_iff {date : ℤ} {orders : List Order} (hdate : d.invoiceDate = some date)
    (horders : getReportedOrders b d = .ok orders) :
    (∃ row, printRow st b d = .ok row) ↔
      Readable orders ∧ (getOrderObject b (some d.id)).length ≤ 1 ∧
        d.move.invoiceLineIds.countP (fun line => IsShippingLine st line) ≤ 1 := by
  have hamounts : (∃ amounts, getInvoiceAmounts st b d = .ok amounts) ↔ Readable orders :=
    exists_getInvoiceAmounts_iff horders
  have hcount : (getInvoiceShippingLine st d.move).length =
      d.move.invoiceLineIds.countP fun line => IsShippingLine st line :=
    List.countP_eq_length_filter.symm
  rw [← hamounts, ← hcount]
  have hproduct : (getInvoiceShippingLine st d.move).length ≤ 1 →
      ((getInvoiceShippingLine st d.move).filterMap (·.productId)).dedup.length ≤ 1 :=
    fun h => ((List.dedup_sublist _).length_le.trans (List.length_filterMap_le _ _)).trans h
  simp only [printRow, hdate, except_bind_ok_iff, except_pure_eq_ok_iff, single_eq_ok_iff]
  constructor
  · rintro ⟨_, amounts, hamounts, _, ⟨horder, -⟩, _, -, _, ⟨hline, -⟩, -⟩
    exact ⟨⟨amounts, hamounts⟩, horder, hline⟩
  · rintro ⟨⟨amounts, hamounts⟩, horder, hline⟩
    exact ⟨_, amounts, hamounts, _, ⟨horder, rfl⟩, _, ⟨hproduct hline, rfl⟩, _, ⟨hline, rfl⟩, rfl⟩

/-- The orders of an invoice are reported for it. -/
theorem getReportedOrders_of_invoice (htype : d.move.moveType = .outInvoice) :
    getReportedOrders b d = .ok (getOrderObject b (some d.id)) := by
  rw [getReportedOrders, htype]
  rfl

/-! ## Credit notes -/

end ElectronicInvoice

/-- Accounting builds the names of moves from the code of a journal, a year and a number. -/
structure Accounting.SequenceNames (ac : Accounting) : Prop where
  noColon : ∀ i, ':' ∉ (ac.moveName i).toList
  noComma : ∀ i, ',' ∉ (ac.moveName i).toList
  noReversal : ∀ i, ¬ "Reversal of".toList <+: (ac.moveName i).toList

namespace ElectronicInvoice

variable {ι : Type} {b : Books ι} {d : Document ι} {ac : Accounting}

theorem prefix_strip_reversalRef (name : Text) :
    "Reversal of".toList <+: Text.strip (reversalRef name) :=
  Text.prefix_strip (c := 'R') (d := 'f') (by decide) (by decide) "eversal o".toList (' ' :: name)

/-- No invoice has the name that is read from the reference of a credit note. -/
theorem getInvoiceObject_reversalRef (hac : ac.SequenceNames) {name : String}
    (hname : ac.IsName name) (hb : ∀ d ∈ b.documents, ac.IsName d.move.name) :
    getInvoiceObject b (originalInvoice (reversalRef name.toList)) = [] := by
  have hcolon : ':' ∉ name.toList := by
    rcases hname with rfl | ⟨i, rfl⟩
    · exact List.not_mem_nil
    · exact hac.noColon i
  have hcomma : ',' ∉ name.toList := by
    rcases hname with rfl | ⟨i, rfl⟩
    · exact List.not_mem_nil
    · exact hac.noComma i
  rw [originalInvoice_reversalRef hcolon hcomma]
  refine List.filter_eq_nil_iff.mpr fun d hd hfound => ?_
  have hread := List.mem_singleton.mp (of_decide_eq_true hfound).1
  have hprefix := prefix_strip_reversalRef name.toList
  rw [← hread] at hprefix
  rcases hb d hd with hempty | ⟨i, hi⟩
  · rw [hempty] at hprefix
    exact absurd hprefix (by decide)
  · exact hac.noReversal i (hi ▸ hprefix)

/-- The orders without an invoice are reported for a credit note. -/
theorem getReportedOrders_of_reversal [DecidableEq ι] (hac : ac.SequenceNames) {name : String}
    (hname : ac.IsName name) (hb : ∀ d ∈ b.documents, ac.IsName d.move.name)
    (htype : d.move.moveType = .outRefund) (href : d.move.ref = "Reversal of " ++ name) :
    getReportedOrders b d = .ok (getOrderObject b none) := by
  have htext : d.move.ref.toList = reversalRef name.toList := by
    rw [href, String.toList_append]
    rfl
  have hne : d.move.ref ≠ "" := by
    intro hempty
    rw [hempty] at htext
    cases htext
  have hfound := getInvoiceObject_reversalRef (b := b) hac hname hb
  rw [getReportedOrders, htype]
  simp only [raiseIf, if_neg hne, htext, hfound, single]
  rfl

end ElectronicInvoice

/-! ## The books of the company -/

namespace Company

open ElectronicInvoice

variable {st : CompanySettings} {ac : Accounting} {c : Company} {n : Notes} {id : MoveId}
  {orderId : String} {i : ℕ} {m : Move} {o : Order}

theorem mem_moves_iff : (id, m) ∈ c.moves ↔
    (∃ orderId ∈ c.orderIds, ∃ i, (c.orders orderId).moves[i]? = some m ∧ .order orderId i = id) ∨
    (∃ k s i, c.withdrawals[k]? = some s ∧ s.moves[i]? = some m ∧ .withdrawal k i = id) ∨
    ∃ g ∈ c.penalties.groups, ∃ inv, g.penaltyInvoice = some inv ∧
      c.penalties.moves[inv]? = some m ∧ .penalty inv = id := by
  simp only [moves, penaltyMoves, List.mem_append, List.mem_flatMap, List.mem_flatten,
    List.mem_filterMap, Table.mem_mapIdx_iff, Option.bind_eq_some_iff, Option.map_eq_some_iff,
    Prod.mk.injEq, or_assoc]
  refine or_congr ⟨?_, ?_⟩ (or_congr ⟨?_, ?_⟩ ⟨?_, ?_⟩)
  · rintro ⟨orderId, horder, i, _, hm, hid, rfl⟩
    exact ⟨orderId, horder, i, hm, hid⟩
  · rintro ⟨orderId, horder, i, hm, hid⟩
    exact ⟨orderId, horder, i, m, hm, hid, rfl⟩
  · rintro ⟨_, ⟨k, s, hs, rfl⟩, hmem⟩
    obtain ⟨i, _, hm, heq⟩ := Table.mem_mapIdx_iff.mp hmem
    obtain ⟨hid, rfl⟩ := Prod.mk.inj heq
    exact ⟨k, s, i, hs, hm, hid⟩
  · rintro ⟨k, s, i, hs, hm, hid⟩
    exact ⟨_, ⟨k, s, hs, rfl⟩, Table.mem_mapIdx_iff.mpr ⟨i, m, hm, Prod.ext hid rfl⟩⟩
  · rintro ⟨g, hg, inv, hinv, _, hm, hid, rfl⟩
    exact ⟨g, hg, inv, hinv, hm, hid⟩
  · rintro ⟨g, hg, inv, hinv, hm, hid⟩
    exact ⟨g, hg, inv, hinv, m, hm, hid, rfl⟩

/-- Every account move has a name that accounting gives. -/
theorem Sound.isName (hs : c.Sound ac) (h : (id, m) ∈ c.moves) : ac.IsName m.name := by
  rcases mem_moves_iff.mp h with ⟨orderId, -, i, hm, -⟩ | ⟨k, s, i, hk, hm, -⟩ |
    ⟨g, hg, inv, hinv, hm, -⟩
  · exact (hs.orders orderId m (List.mem_of_getElem? hm)).name
  · exact (hs.withdrawals s (List.mem_of_getElem? hk) m (List.mem_of_getElem? hm)).name
  · obtain ⟨j, hj⟩ := List.mem_iff_getElem?.mp hg
    have hlink := PenaltyRecords.penaltyInvoice?_eq_some_iff.mpr ⟨g, hj, hinv⟩
    exact (hs.penalties j inv m hlink hm).name

theorem mem_documents_iff {d : Document MoveId} :
    d ∈ (c.books n).documents ↔ ∃ id m, (id, m) ∈ c.moves ∧ n.document id m = d := by
  simp [books]

/-! ## The orders of a document -/

theorem getOrderObject_books (x : Option MoveId) :
    getOrderObject (c.books n) x = c.orderIds.filterMap fun orderId =>
      (c.orders orderId).order.filter fun o => o.invoiceId.map (MoveId.order orderId) = x := by
  rw [getOrderObject, books, billedOrders, List.filter_filterMap, List.map_filterMap]
  congr
  funext orderId
  cases (c.orders orderId).order with
  | none => rfl
  | some o =>
      simp only [Option.map_some, Option.filter_some]
      split <;> rfl

theorem getOrderObject_none : getOrderObject (c.books n) none = c.unbilledOrders := by
  rw [getOrderObject_books, unbilledOrders]
  simp only [Option.map_eq_none_iff]

theorem getOrderObject_withdrawal (k i : ℕ) :
    getOrderObject (c.books n) (some (.withdrawal k i)) = [] := by
  rw [getOrderObject_books]
  simp

theorem getOrderObject_penalty (inv : ℕ) :
    getOrderObject (c.books n) (some (.penalty inv)) = [] := by
  rw [getOrderObject_books]
  simp

theorem map_order_eq_some_iff {id : String} {x : Option ℕ} :
    x.map (MoveId.order id) = some (.order orderId i) ↔ id = orderId ∧ x = some i := by
  cases x with
  | none => simp
  | some j => simp

theorem mem_getOrderObject_iff (hs : c.Sound ac) :
    o ∈ getOrderObject (c.books n) (some (.order orderId i)) ↔
      (c.orders orderId).order = some o ∧ o.invoiceId = some i := by
  rw [getOrderObject_books, List.mem_filterMap]
  simp only [Option.filter_eq_some_iff, decide_eq_true_eq, map_order_eq_some_iff]
  constructor
  · rintro ⟨id, -, ho, rfl, hi⟩
    exact ⟨ho, hi⟩
  · rintro ⟨ho, hi⟩
    refine ⟨orderId, ?_, ho, rfl, hi⟩
    by_contra hfree
    rw [hs.free orderId hfree] at ho
    cases ho

theorem length_getOrderObject_le_one (hs : c.Sound ac) :
    (getOrderObject (c.books n) (some (.order orderId i))).length ≤ 1 := by
  rw [getOrderObject_books]
  refine Table.length_filterMap_le_one hs.nodup orderId fun id _ hne => ?_
  rw [Option.filter_eq_none_iff]
  intro o _ hlink
  exact hne (map_order_eq_some_iff.mp (of_decide_eq_true hlink)).1

/-! ## The documents -/

/-- What is read of a document of an order, line by line and order by order, is there once. -/
structure Printable (st : CompanySettings) (c : Company) (orderId : String) (i : ℕ) (m : Move) :
    Prop where
  shippingLine : m.invoiceLineIds.countP (fun line => IsShippingLine st.toReportSettings line) ≤ 1
  order : m.moveType = .outInvoice → ∀ o, (c.orders orderId).order = some o →
    o.invoiceId = some i → o.serviceLineIds.countP (·.isMainService) ≤ 1
  unbilled : m.moveType = .outRefund → c.unbilledOrders.length ≤ 1 ∧
    ∀ o ∈ c.unbilledOrders, o.serviceLineIds.countP (·.isMainService) ≤ 1

variable {w : Wizard}

/-- A credit note of an order is reported with the orders that have no invoice. -/
theorem getReportedOrders_of_creditNote (hs : c.Sound ac) (hac : ac.SequenceNames)
    (hm : (c.orders orderId).moves[i]? = some m) (htype : m.moveType = .outRefund) :
    getReportedOrders (c.books n) (n.document (.order orderId i) m) = .ok c.unbilledOrders := by
  obtain ⟨name, hname, href⟩ := (hs.orders orderId m (List.mem_of_getElem? hm)).ref htype
  have hnames : ∀ d ∈ (c.books n).documents, ac.IsName d.move.name := by
    intro d hd
    obtain ⟨id, m', hm', rfl⟩ := mem_documents_iff.mp hd
    exact hs.isName hm'
  rw [getReportedOrders_of_reversal hac hname hnames htype href, getOrderObject_none]

theorem exists_printRow_order_iff (hs : c.Sound ac) (hac : ac.SequenceNames)
    (hm : (c.orders orderId).moves[i]? = some m)
    (hselected : IsSelected w (n.document (.order orderId i) m)) :
    (∃ row, printRow st.toReportSettings (c.books n) (n.document (.order orderId i) m) =
      .ok row) ↔ c.Printable st orderId i m := by
  obtain ⟨htype, -, hdate⟩ := hselected
  obtain ⟨date, hdate, -⟩ := (Option.any_eq_true ..).mp hdate
  have hlength : (getOrderObject (c.books n) (some (.order orderId i))).length ≤ 1 :=
    length_getOrderObject_le_one hs
  rcases htype with hinvoice | hrefund
  · rw [exists_printRow_iff hdate (getReportedOrders_of_invoice hinvoice)]
    constructor
    · rintro ⟨⟨-, hread⟩, -, hline⟩
      refine ⟨hline, fun _ o ho hi => ?_, fun hrefund => ?_⟩
      · exact hread o ((mem_getOrderObject_iff hs).mpr ⟨ho, hi⟩)
      · cases hinvoice.symm.trans hrefund
    · rintro ⟨hline, horder, -⟩
      refine ⟨⟨hlength, fun o ho => ?_⟩, hlength, hline⟩
      obtain ⟨ho, hi⟩ := (mem_getOrderObject_iff hs).mp ho
      exact horder hinvoice o ho hi
  · rw [exists_printRow_iff hdate (getReportedOrders_of_creditNote hs hac hm hrefund)]
    constructor
    · rintro ⟨hread, -, hline⟩
      refine ⟨hline, fun hinvoice => ?_, fun _ => hread⟩
      cases hrefund.symm.trans hinvoice
    · rintro ⟨hline, -, hread⟩
      exact ⟨hread hrefund, hlength, hline⟩

/-- A document that charges a fee, and that no order has as its invoice, has a row. -/
theorem exists_printRow_of_isFee (hfee : m.IsFee ac)
    (horders : getOrderObject (c.books n) (some id) = [])
    (hselected : IsSelected w (n.document id m)) :
    ∃ row, printRow st.toReportSettings (c.books n) (n.document id m) = .ok row := by
  obtain ⟨htype, -, hdate⟩ := hselected
  obtain ⟨date, hdate, -⟩ := (Option.any_eq_true ..).mp hdate
  have hinvoice : (n.document id m).move.moveType = .outInvoice :=
    htype.resolve_right hfee.moveType
  have hline : m.invoiceLineIds.countP (fun line => IsShippingLine st.toReportSettings line) ≤ 1 :=
    List.countP_le_length.trans hfee.invoiceLineIds
  rw [exists_printRow_iff hdate (getReportedOrders_of_invoice hinvoice)]
  change Readable (getOrderObject (c.books n) (some id)) ∧
    (getOrderObject (c.books n) (some id)).length ≤ 1 ∧ _
  rw [horders]
  exact ⟨readable_nil, Nat.zero_le 1, hline⟩

/-- In every run the report has a row for each document exactly if what is read of the selected
documents of the orders is there once; the invoices of withdraw requests and of penalties always
have their rows. -/
theorem report_has_every_row_iff {c₀ : Company} (hnew : c₀.IsNew) (hac : ac.SequenceNames)
    (es : List Event) (n : Notes) (w : Wizard) :
    (∃ rows, actionPrintElectronicInvoice st.toReportSettings
        ((run (step st ac) c₀ es).books n) w = .ok rows ∧
      rows.length = (((run (step st ac) c₀ es).books n).documents.filter fun d =>
        IsSelected w d).length) ↔
    ∀ orderId i m, ((run (step st ac) c₀ es).orders orderId).moves[i]? = some m →
      IsSelected w (n.document (.order orderId i) m) →
      (run (step st ac) c₀ es).Printable st orderId i m := by
  have hs : (run (step st ac) c₀ es).Sound ac := hnew.run_sound es
  generalize run (step st ac) c₀ es = c at hs ⊢
  rw [actionPrintElectronicInvoice, exists_mapM_eq_ok_iff]
  simp only [List.mem_filter, decide_eq_true_eq]
  constructor
  · intro h orderId i m hm hselected
    have hmem : n.document (.order orderId i) m ∈ (c.books n).documents := by
      refine mem_documents_iff.mpr ⟨_, m, mem_moves_iff.mpr (.inl ⟨orderId, ?_, i, hm, rfl⟩), rfl⟩
      by_contra hfree
      rw [hs.free orderId hfree] at hm
      cases hm
    exact (exists_printRow_order_iff hs hac hm hselected).mp (h _ ⟨hmem, hselected⟩)
  · rintro h d ⟨hd, hselected⟩
    obtain ⟨id, m, hmem, rfl⟩ := mem_documents_iff.mp hd
    rcases mem_moves_iff.mp hmem with ⟨orderId, -, i, hm, rfl⟩ | ⟨k, s, i, hk, hm, rfl⟩ |
      ⟨g, hg, inv, hinv, hm, rfl⟩
    · exact (exists_printRow_order_iff hs hac hm hselected).mpr (h orderId i m hm hselected)
    · have hfee := hs.withdrawals s (List.mem_of_getElem? hk) m (List.mem_of_getElem? hm)
      exact exists_printRow_of_isFee hfee (getOrderObject_withdrawal k i) hselected
    · obtain ⟨j, hj⟩ := List.mem_iff_getElem?.mp hg
      have hlink := PenaltyRecords.penaltyInvoice?_eq_some_iff.mpr ⟨g, hj, hinv⟩
      exact exists_printRow_of_isFee (hs.penalties j inv m hlink hm) (getOrderObject_penalty inv)
        hselected

/-! ## Examples -/

/-- The small company with a value added tax and a report. -/
def settings : CompanySettings :=
  { ReportSettings.sample with displayName := fun _ => "" }

def newCompany : Company where
  penalties := { moves := [], groups := [] }

theorem newCompany_isNew : newCompany.IsNew :=
  ⟨rfl, rfl, rfl, fun _ hg => absurd hg List.not_mem_nil⟩

/-- The numbers of the small accounting are digits. -/
theorem sample_sequenceNames : Accounting.sample.SequenceNames := by
  have hname (i : ℕ) : (Accounting.sample.moveName i).toList =
      ['I', 'N', 'V', '/'] ++ Nat.toDigits 10 i := by
    rw [← Nat.toList_repr]
    exact String.toList_append
  have hdigits {c : Char} (hc : c.isDigit = false) (hinv : c ∉ ['I', 'N', 'V', '/']) (i : ℕ) :
      c ∉ (Accounting.sample.moveName i).toList := by
    rw [hname]
    intro hmem
    rcases List.mem_append.mp hmem with hmem | hmem
    · exact hinv hmem
    · have hdigit := Nat.isDigit_of_mem_toDigits (by decide) (by decide) hmem
      exact Bool.false_ne_true (hc.symm.trans hdigit)
  refine ⟨hdigits (by decide) (by decide), hdigits (by decide) (by decide), fun i h => ?_⟩
  rw [hname] at h
  obtain ⟨_, heq⟩ := h
  exact absurd (List.head_eq_of_cons_eq heq) (by decide)

/-- An order that is placed through the API, with this insurance. -/
def place (orderId : String) (insuranceFees : ℚ) : Event :=
  .order orderId (.request (.create (some
    { userId := 5, paymentMethod := .onCredit, insuranceFees, shippingFees := 100 })))

def confirm (orderId : String) : Event := .order orderId (.button .confirmBillLoading)

/-- An order without insurance, confirmed and refunded. -/
def refunded : List Event :=
  [place "A" 0, confirm "A", .order "A" (.editRefundReason "lost"),
   .order "A" (.button .refundBillLoading)]

def after (es : List Event) : Company := run (step settings .sample) newCompany es

/-- Every document is of day zero. -/
def sameDay : Notes where
  invoiceDate _ := some 0

def dayZero : Wizard := ⟨0, 0⟩

/-- The report of day zero. -/
def report (es : List Event) : Except String (List Row) :=
  actionPrintElectronicInvoice settings.toReportSettings ((after es).books sameDay) dayZero

theorem report_of_refunded :
    (∃ rows, report refunded = .ok rows ∧ rows.length = 2) ∧
      ∀ m, ((after refunded).orders "A").moves[1]? = some m →
        IsSelected dayZero (sameDay.document (.order "A" 1) m) →
        (after refunded).Printable settings "A" 1 m := by
  have hrows : ∃ rows, report refunded = .ok rows ∧ rows.length = 2 := by
    have hlength : (report refunded).map (·.length) = .ok 2 := by decide +kernel
    generalize report refunded = r at hlength ⊢
    cases r with
    | error => cases hlength
    | ok rows => exact ⟨rows, rfl, Except.ok.inj hlength⟩
  have hselected : (((after refunded).books sameDay).documents.filter fun d =>
      IsSelected dayZero d).length = 2 := by decide +kernel
  refine ⟨hrows, ?_⟩
  obtain ⟨rows, hreport, hlength⟩ := hrows
  exact (report_has_every_row_iff newCompany_isNew sample_sequenceNames refunded sameDay
    dayZero).mp ⟨rows, hreport, hlength.trans hselected.symm⟩ "A" 1

/-- The report of a day with one insured order raises. So does the report of a day with a credit
note when there are two orders without an invoice. -/
theorem report_of_insured_order_raises :
    (((after [place "A" 10, confirm "A"]).books sameDay).documents.filter fun d =>
      IsSelected dayZero d).length = 1 ∧
    report [place "A" 10, confirm "A"] = .error "Expected singleton: bill.of.loading.line" ∧
    report (refunded ++ [place "B" 0, place "C" 0]) =
      .error "Expected singleton: fastrak.bill.of.loading" :=
  ⟨by decide +kernel, by decide +kernel, by decide +kernel⟩

end Company

end Fastrak
