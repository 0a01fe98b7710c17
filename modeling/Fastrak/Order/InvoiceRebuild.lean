import Fastrak.Order.System
import Fastrak.Library.Table

/-!
# The rebuild of an invoice

The update endpoint resets the invoice, clears its lines, fills it anew and posts it, and can be
stopped at each of these writes. `rebuildMove` is the rebuild as a function on one move: the move
that it ends with, or the move that an interrupted rebuild leaves.
-/

namespace Fastrak

open Transaction

variable {V : Type} [Amount V] {st : Settings} {ac : Accounting} {s t : OrderSlice} {o : Order}

/-! ## Writes on an existing move -/

theorem onMove_run_of_none {id : Option ℕ} {reason : Move → Option String}
    {f : ℕ → Move → Move} (h : s.move? id = none) :
    (onMove id reason f).run s = .ok () s := by
  cases id with
  | none => rfl
  | some i =>
      have h' : s.moves[i]? = none := h
      simp [onMove, OrderSlice.move?, h']

/-- The write on an existing move, and its refusal. -/
theorem onMove_run_of_some {i : ℕ} {m : Move} {reason : Move → Option String}
    {f : ℕ → Move → Move} (hm : s.moves[i]? = some m) :
    (onMove (some i) reason f).run s =
      if (reason m).isSome ∨ m.auditAndLock then
        .error ((reason m).getD "Can't Edit Move After Being Audited") s
      else .ok () { s with moves := s.moves.set i (f i m) } := by
  have hset := Table.modify_eq_set_of_some hm (f i)
  cases hr : reason m with
  | some e => simp [onMove, OrderSlice.move?, hm, hr, refuse, throw_run]
  | none =>
      by_cases hl : m.auditAndLock = true <;>
        simp [onMove, OrderSlice.move?, hm, hr, hl, refuse, moveWrite, raiseIf_run,
          OrderSlice.mapMoves, hset]

/-! ## The rebuild of the invoice -/

/-- The rebuild of the invoice `m` of the order `o`: the move it ends with, or
the move it leaves when it is interrupted. -/
def rebuildMove (st : Settings) (ac : Accounting) (id : ℕ) (o : Order)
    (discount : Option V) (m : Move) : Except Move Move :=
  let empty := m.reset.setLines []
  if (ac.refuseDraft m).isSome ∨ m.auditAndLock then .error m
  else if (ac.refuseLines empty).isSome then .error m.reset
  else
    match invoiceServiceLines st o discount with
    | .error _ => .error empty
    | .ok lines =>
        let filled := m.reset.setLines lines
        if (ac.refuseLines filled).isSome then .error empty
        else if (ac.refusePost filled).isSome then .error filled
        else .ok (filled.post ac id)

section

variable {id : ℕ} {discount : Option V} {m m' : Move}

/-- A rebuild that is completed has reset the move, filled it anew and posted it. -/
theorem rebuildMove_eq_ok (h : rebuildMove st ac id o discount m = .ok m') :
    ∃ lines, invoiceServiceLines st o discount = .ok lines ∧
      (m.reset.setLines lines).post ac id = m' := by
  simp only [rebuildMove] at h
  split_ifs at h
  split at h
  · cases h
  · next lines hlines =>
      split_ifs at h
      exact ⟨lines, hlines, Except.ok.inj h⟩

/-- A rebuild that is interrupted leaves the move as it was, or reset with lines or without. -/
theorem rebuildMove_eq_error (h : rebuildMove st ac id o discount m = .error m') :
    m = m' ∨ m.auditAndLock = false ∧ (m.reset = m' ∨ ∃ lines, m.reset.setLines lines = m') := by
  simp only [rebuildMove] at h
  by_cases hclosed : (ac.refuseDraft m).isSome ∨ m.auditAndLock
  · rw [if_pos hclosed] at h
    exact .inl (Except.error.inj h)
  rw [if_neg hclosed] at h
  refine .inr ⟨Bool.eq_false_iff.mpr (not_or.mp hclosed).2, ?_⟩
  split at h
  · exact .inl (Except.error.inj h)
  split at h
  · exact .inr ⟨[], Except.error.inj h⟩
  · next lines _ =>
      split_ifs at h
      · exact .inr ⟨[], Except.error.inj h⟩
      · exact .inr ⟨lines, Except.error.inj h⟩

/-- A locked move is not rebuilt. -/
theorem auditAndLock_of_rebuildMove_eq_ok (h : rebuildMove st ac id o discount m = .ok m') :
    m.auditAndLock = false := by
  simp only [rebuildMove] at h
  split_ifs at h with hclosed
  exact Bool.eq_false_iff.mpr (not_or.mp hclosed).2

end

/-- The records with the move `m` at `i`, and more computations made. -/
def OrderSlice.putMove (i : ℕ) (m : Move) (cs : List Order) (s : OrderSlice) : OrderSlice :=
  { s with moves := s.moves.set i m, computedFor := s.computedFor ++ cs }

theorem OrderSlice.putMove_self {i : ℕ} {m : Move} (hm : s.moves[i]? = some m) :
    s.putMove i m [] = s := by
  obtain ⟨hi, rfl⟩ := List.getElem?_eq_some_iff.mp hm
  simp [OrderSlice.putMove]

theorem onMove_run_putMove {i : ℕ} (hi : i < s.moves.length) (m : Move) (cs : List Order)
    (reason : Move → Option String) (f : ℕ → Move → Move) :
    (onMove (some i) reason f).run (s.putMove i m cs) =
      if (reason m).isSome ∨ m.auditAndLock then
        .error ((reason m).getD "Can't Edit Move After Being Audited") (s.putMove i m cs)
      else .ok () (s.putMove i (f i m) cs) := by
  rw [onMove_run_of_some (m := m) (by simp [OrderSlice.putMove, hi])]
  simp [OrderSlice.putMove]

/-- The rebuild of an invoice is `rebuildMove` on it. -/
theorem rebuildInvoice_run_of_some (st : Settings) (ac : Accounting) {i : ℕ} {m : Move}
    (discount : Option V)
    (ho : s.order = some o) (hi : o.invoiceId = some i) (hm : s.moves[i]? = some m) :
    (∃ m', rebuildMove st ac i o discount m = .ok m' ∧
      (rebuildInvoice st ac discount).run s = .ok () (s.putMove i m' [o])) ∨
    ∃ m' e cs, rebuildMove st ac i o discount m = .error m' ∧ (∀ c ∈ cs, c = o) ∧
      (rebuildInvoice st ac discount).run s = .error e (s.putMove i m' cs) := by
  have hrun := onMove_run_putMove (List.getElem?_eq_some_iff.mp hm).1
  have hself : ∀ m cs, self.run (s.putMove i m cs) = .ok o (s.putMove i m cs) := by
    intro m cs
    simp [OrderSlice.putMove, ho]
  have hrec : ∀ m, (recordComputation o).run (s.putMove i m []) =
      .ok () (s.putMove i m [o]) := by
    intro m
    simp [recordComputation, OrderSlice.putMove, OrderSlice.recordComputation]
  have hs : (rebuildInvoice st ac discount).run s =
      (rebuildInvoice st ac discount).run (s.putMove i m []) := by
    rw [OrderSlice.putMove_self hm]
  rw [hs]
  unfold rebuildMove
  -- one case for each place where the rebuild can be interrupted
  by_cases hdraft : (ac.refuseDraft m).isSome ∨ m.auditAndLock = true
  · refine .inr ⟨m, (ac.refuseDraft m).getD "Can't Edit Move After Being Audited", [], ?_⟩
    simp [rebuildInvoice, hself, hi, buttonDraft, hrun, hdraft]
  obtain ⟨hdraft, hlock⟩ : ac.refuseDraft m = none ∧ m.auditAndLock = false := by
    simpa using hdraft
  by_cases hclear : (ac.refuseLines (m.reset.setLines [])).isSome
  · refine .inr ⟨m.reset, (ac.refuseLines (m.reset.setLines [])).getD
      "Can't Edit Move After Being Audited", [], ?_⟩
    simp [rebuildInvoice, hself, hi, buttonDraft, setInvoiceLines, hrun, hdraft, hlock,
      hclear]
  cases hlines : invoiceServiceLines st o discount with
  | error e =>
      refine .inr ⟨m.reset.setLines [], e, [o], ?_⟩
      simp [rebuildInvoice, hself, hi, buttonDraft, setInvoiceLines, hrun, hrec, hdraft,
        hclear, hlock, hlines, lift_run]
  | ok lines =>
      by_cases hfill : (ac.refuseLines (m.reset.setLines lines)).isSome
      · refine .inr ⟨m.reset.setLines [], (ac.refuseLines (m.reset.setLines lines)).getD
          "Can't Edit Move After Being Audited", [o], ?_⟩
        simp [rebuildInvoice, hself, hi, buttonDraft, setInvoiceLines, hrun, hrec, hdraft,
          hclear, hlock, hlines, hfill, lift_run]
      by_cases hpost : (ac.refusePost (m.reset.setLines lines)).isSome
      · refine .inr ⟨m.reset.setLines lines, (ac.refusePost (m.reset.setLines lines)).getD
          "Can't Edit Move After Being Audited", [o], ?_⟩
        simp [rebuildInvoice, hself, hi, buttonDraft, setInvoiceLines, actionPost, hrun, hrec,
          hdraft, hclear, hlock, hlines, hfill, hpost, lift_run]
      · refine .inl ⟨(m.reset.setLines lines).post ac i, ?_⟩
        simp [rebuildInvoice, hself, hi, buttonDraft, setInvoiceLines, actionPost, hrun, hrec,
          hdraft, hclear, hlock, hlines, hfill, hpost, lift_run]

/-- The rebuild on an order that may have no invoice: only the lines are computed
then. -/
def rebuild (st : Settings) (ac : Accounting) (o : Order) (discount : Option V) :
    Option Move → Except (Option Move) (Option Move)
  | none =>
      match invoiceServiceLines st o discount with
      | .error _ => .error none
      | .ok _ => .ok none
  | some m =>
      match rebuildMove st ac (o.invoiceId.getD 0) o discount m with
      | .error m' => .error (some m')
      | .ok m' => .ok (some m')

/-- The moves with the invoice of `o` replaced. -/
def Order.putInvoice (m : Option Move) (moves : List Move) (o : Order) : List Move :=
  match o.invoiceId, m with
  | some i, some m => moves.set i m
  | _, _ => moves

theorem OrderSlice.invoice?_eq_some_iff {m : Move} :
    s.invoice? o = some m ↔ ∃ i, o.invoiceId = some i ∧ s.moves[i]? = some m := by
  simp [OrderSlice.invoice?, OrderSlice.move?, Option.bind_eq_some_iff]

theorem rebuildInvoice_run (st : Settings) (ac : Accounting) (discount : Option V)
    (ho : s.order = some o) :
    (∃ m, rebuild st ac o discount (s.invoice? o) = .ok m ∧
      (rebuildInvoice st ac discount).run s =
        .ok () { s with
          moves := o.putInvoice m s.moves
          computedFor := s.computedFor ++ [o] }) ∨
    ∃ m e cs, rebuild st ac o discount (s.invoice? o) = .error m ∧ (∀ c ∈ cs, c = o) ∧
      (rebuildInvoice st ac discount).run s =
        .error e { s with
          moves := o.putInvoice m s.moves
          computedFor := s.computedFor ++ cs } := by
  cases hinv : s.invoice? o with
  | some m =>
      obtain ⟨i, hi, hm⟩ := OrderSlice.invoice?_eq_some_iff.mp hinv
      rcases rebuildInvoice_run_of_some st ac discount ho hi hm
        with ⟨m', hr, h⟩ | ⟨m', e, cs, hr, hcs, h⟩
      · exact .inl ⟨some m', by simp [rebuild, hi, hr], by
          simp [h, Order.putInvoice, OrderSlice.putMove, hi]⟩
      · exact .inr ⟨some m', e, cs, by simp [rebuild, hi, hr], hcs, by
          simp [h, Order.putInvoice, OrderSlice.putMove, hi]⟩
  | none =>
      obtain ⟨order, moves, payments, jobs, computedFor⟩ := s
      obtain rfl : order = some o := ho
      have hmove : ∀ (reason : Move → Option String) (f : ℕ → Move → Move) cs,
          (onMove o.invoiceId reason f).run ⟨some o, moves, payments, jobs, cs⟩ =
            .ok () ⟨some o, moves, payments, jobs, cs⟩ :=
        fun reason f cs => onMove_run_of_none hinv
      have hput : o.putInvoice none moves = moves := by
        unfold Order.putInvoice
        split <;> simp_all
      cases hlines : invoiceServiceLines st o discount with
      | error e =>
          refine .inr ⟨none, e, [o], by simp [rebuild, hlines], by simp, ?_⟩
          simp [rebuildInvoice, self, buttonDraft, setInvoiceLines, hmove, recordComputation,
            OrderSlice.recordComputation, hlines, lift_run, hput]
      | ok lines =>
          refine .inl ⟨none, by simp [rebuild, hlines], ?_⟩
          simp [rebuildInvoice, self, buttonDraft, setInvoiceLines, actionPost, hmove,
            recordComputation, OrderSlice.recordComputation, hlines, lift_run, hput]

theorem rebuild_isSome {discount : Option V} {invoice m : Option Move}
    (h : rebuild st ac o discount invoice = .ok m ∨
      rebuild st ac o discount invoice = .error m) : m.isSome = invoice.isSome := by
  cases invoice with
  | none =>
      simp only [rebuild] at h
      split at h <;> simp_all
  | some m' =>
      simp only [rebuild] at h
      split at h
      · obtain rfl : some _ = m := by simpa using h
        rfl
      · obtain rfl : some _ = m := by simpa using h
        rfl

theorem Order.putInvoice_invoice? {m : Option Move} {o' : Order} {order cs}
    (h : m.isSome = (s.invoice? o).isSome) (hid : o'.invoiceId = o.invoiceId) :
    OrderSlice.invoice? { s with
      order := order
      moves := o.putInvoice m s.moves
      computedFor := cs } o' = m := by
  cases hinv : s.invoice? o with
  | some m₀ =>
      obtain ⟨i, hi, hm⟩ := OrderSlice.invoice?_eq_some_iff.mp hinv
      obtain ⟨m, rfl⟩ := Option.isSome_iff_exists.mp (h.trans (by rw [hinv]; rfl))
      have hlt : i < s.moves.length := (List.getElem?_eq_some_iff.mp hm).1
      simp [OrderSlice.invoice?, OrderSlice.move?, hid, hi, Order.putInvoice, hlt]
  | none =>
      obtain rfl : m = none := by simpa [hinv] using h
      have hput : o.putInvoice none s.moves = s.moves := by
        unfold Order.putInvoice
        split <;> simp_all
      rw [hput, ← hinv]
      simp only [OrderSlice.invoice?, OrderSlice.move?, hid]

theorem Order.putInvoice_putInvoice {m m' : Option Move} {o' : Order} {moves : List Move}
    (h : m'.isSome = m.isSome) (hid : o'.invoiceId = o.invoiceId) :
    o'.putInvoice m' (o.putInvoice m moves) = o.putInvoice m' moves := by
  unfold Order.putInvoice
  rw [hid]
  cases o.invoiceId <;> cases m <;> cases m' <;> simp_all

end Fastrak
